import Rtv.Lib.Logged
import Rtv.Lib.Transcript
import Rtv.Mm.Paging
import Rtv.Smp.TssDesc

/-!
# The VMCS

`virt/virt.c` describes a guest and the host to the processor in the fields of the VMCS. A field is named
by its encoding, which also says how wide it is; `vmwrite` keeps as many bits as the field has. The three
functions that fill it are the lists of what they write. `virt_percpu_init`, which calls them, is in
`Rtv.Virt.PercpuInit`.

A `vmwrite` to a field that the processor does not have changes nothing. The code does not look at the
flags afterwards; the fields of features that it does not use are written all the same.
-/

namespace Rtv.Virt

open Rtv.Lib Rtv.Mm Rtv.Smp

/-! ## Fields -/

/-- The contents of the fields. -/
abbrev Vmcs := Nat → BitVec 64

/-- The width of a field, from bits 14 and 13 of its encoding. -/
def fieldWidth (encoding : Nat) : Nat :=
  match encoding / 2 ^ 13 % 4 with
  | 0 => 16
  | 2 => 32
  | _ => 64

/-- What a field keeps of a value. -/
def fieldValue (encoding : Nat) (val : BitVec 64) : BitVec 64 :=
  (val.setWidth (fieldWidth encoding)).setWidth 64

/-- `vmwrite`. -/
def vmwrite (v : Vmcs) (w : Nat × BitVec 64) : Vmcs :=
  fun encoding => if encoding = w.1 then fieldValue w.1 w.2 else v encoding

/-- A field after some writes has what was last written to it. -/
theorem after_vmwrite (v : Vmcs) (ws : List (Nat × BitVec 64)) (encoding : Nat) :
    after vmwrite v ws encoding = (ws.reverse.lookup encoding).elim (v encoding) (fieldValue encoding) := by
  induction ws using List.reverseRecOn with
  | nil => rfl
  | append_singleton ws w ih =>
    rw [after_append, List.reverse_append, List.reverse_singleton, List.singleton_append,
      List.lookup_cons, after_cons, after_nil, vmwrite]
    by_cases hw : encoding = w.1
    · subst hw
      simp
    · rw [if_neg hw, ih, beq_eq_false_iff_ne.mpr hw]

/-! ### Guest -/

def vmcsGuestLp : Nat := 0x2800
def vmcsGuestEfer : Nat := 0x2806
def vmcsGuestPat : Nat := 0x2804
def vmcsGuestPdpte0 : Nat := 0x280A
def vmcsGuestPdpte1 : Nat := 0x280C
def vmcsGuestPdpte2 : Nat := 0x280E
def vmcsGuestPdpte3 : Nat := 0x2810
def vmcsGuestDebugctl : Nat := 0x2802
def vmcsGuestPerf : Nat := 0x2808
def vmcsGuestBndcfgs : Nat := 0x2812
def vmcsGuestCsLmt : Nat := 0x4802
def vmcsGuestDsLmt : Nat := 0x4806
def vmcsGuestEsLmt : Nat := 0x4800
def vmcsGuestSsLmt : Nat := 0x4804
def vmcsGuestFsLmt : Nat := 0x4808
def vmcsGuestGsLmt : Nat := 0x480A
def vmcsGuestLdtrLmt : Nat := 0x480C
def vmcsGuestTrLmt : Nat := 0x480E
def vmcsGuestGdtrLmt : Nat := 0x4810
def vmcsGuestIdtrLmt : Nat := 0x4812
def vmcsGuestCsAcc : Nat := 0x4816
def vmcsGuestDsAcc : Nat := 0x481A
def vmcsGuestEsAcc : Nat := 0x4814
def vmcsGuestSsAcc : Nat := 0x4818
def vmcsGuestFsAcc : Nat := 0x481C
def vmcsGuestGsAcc : Nat := 0x481E
def vmcsGuestLdtrAcc : Nat := 0x4820
def vmcsGuestTrAcc : Nat := 0x4822
def vmcsGuestActive : Nat := 0x4826
def vmcsGuestInt : Nat := 0x4824
def vmcsGuestSmbase : Nat := 0x4828
def vmcsGuestSysCs : Nat := 0x482A
def vmcsGuestTimer : Nat := 0x482E
def vmcsGuestCsSel : Nat := 0x802
def vmcsGuestDsSel : Nat := 0x806
def vmcsGuestEsSel : Nat := 0x800
def vmcsGuestSsSel : Nat := 0x804
def vmcsGuestFsSel : Nat := 0x808
def vmcsGuestGsSel : Nat := 0x80A
def vmcsGuestLdtrSel : Nat := 0x80C
def vmcsGuestTrSel : Nat := 0x80E
def vmcsGuestStatus : Nat := 0x810
def vmcsGuestPml : Nat := 0x812
def vmcsGuestCsBase : Nat := 0x6808
def vmcsGuestDsBase : Nat := 0x680C
def vmcsGuestEsBase : Nat := 0x6806
def vmcsGuestSsBase : Nat := 0x680A
def vmcsGuestFsBase : Nat := 0x680E
def vmcsGuestGsBase : Nat := 0x6810
def vmcsGuestLdtrBase : Nat := 0x6812
def vmcsGuestTrBase : Nat := 0x6814
def vmcsGuestGdtrBase : Nat := 0x6816
def vmcsGuestIdtrBase : Nat := 0x6818
def vmcsGuestRflags : Nat := 0x6820
def vmcsGuestCr0 : Nat := 0x6800
def vmcsGuestCr3 : Nat := 0x6802
def vmcsGuestCr4 : Nat := 0x6804
def vmcsGuestDr7 : Nat := 0x681A
def vmcsGuestDebug : Nat := 0x6822
def vmcsGuestRip : Nat := 0x681E
def vmcsGuestRsp : Nat := 0x681C
def vmcsGuestSysEsp : Nat := 0x6824
def vmcsGuestSysEip : Nat := 0x6826

/-! ### Host -/

def vmcsHostCr0 : Nat := 0x6C00
def vmcsHostCr3 : Nat := 0x6C02
def vmcsHostCr4 : Nat := 0x6C04
def vmcsHostFsBase : Nat := 0x6C06
def vmcsHostGsBase : Nat := 0x6C08
def vmcsHostTrBase : Nat := 0x6C0A
def vmcsHostGdtrBase : Nat := 0x6C0C
def vmcsHostIdtrBase : Nat := 0x6C0E
def vmcsHostRsp : Nat := 0x6C14
def vmcsHostRip : Nat := 0x6C16
def vmcsHostPat : Nat := 0x2C00
def vmcsHostEfer : Nat := 0x2C02
def vmcsHostCsSel : Nat := 0xC02
def vmcsHostDsSel : Nat := 0xC06
def vmcsHostEsSel : Nat := 0xC00
def vmcsHostSsSel : Nat := 0xC04
def vmcsHostFsSel : Nat := 0xC08
def vmcsHostGsSel : Nat := 0xC0A
def vmcsHostTrSel : Nat := 0xC0C

/-! ### Control -/

def vmcsCtrlPin : Nat := 0x4000
def vmcsCtrlPproc : Nat := 0x4002
def vmcsCtrlSproc : Nat := 0x401E
def vmcsCtrlExpMap : Nat := 0x4004
def vmcsCtrlExit : Nat := 0x400C
def vmcsCtrlExitScnt : Nat := 0x400E
def vmcsCtrlExitLcnt : Nat := 0x4010
def vmcsCtrlEntry : Nat := 0x4012
def vmcsCtrlEntryLcnt : Nat := 0x4014
def vmcsCtrlEntryInt : Nat := 0x4016
def vmcsCtrlCr3Cnt : Nat := 0x400A
def vmcsCtrlPfMask : Nat := 0x4006
def vmcsCtrlPfMatch : Nat := 0x4008
def vmcsCtrlIomapA : Nat := 0x2000
def vmcsCtrlIomapB : Nat := 0x2002
def vmcsCtrlEptp : Nat := 0x201A
def vmcsCtrlCr0Mask : Nat := 0x6000
def vmcsCtrlCr4Mask : Nat := 0x6002
def vmcsCtrlCr0Rd : Nat := 0x6004
def vmcsCtrlCr4Rd : Nat := 0x6006

/-! ## MSRs -/

def ia32FeatureControl : Nat := 0x3A
def ia32Pat : Nat := 0x277
def ia32VmxBasic : Nat := 0x480
def ia32VmxPinbasedCtls : Nat := 0x481
def ia32VmxProcbasedCtls : Nat := 0x482
def ia32VmxExitCtls : Nat := 0x483
def ia32VmxEntryCtls : Nat := 0x484
def ia32VmxCr0Fixed0 : Nat := 0x486
def ia32VmxCr0Fixed1 : Nat := 0x487
def ia32VmxCr4Fixed0 : Nat := 0x488
def ia32VmxCr4Fixed1 : Nat := 0x489
def ia32VmxProcbasedCtls2 : Nat := 0x48B
def ia32VmxTruePinbasedCtls : Nat := 0x48D
def ia32VmxTrueProcbasedCtls : Nat := 0x48E
def ia32VmxTrueExitCtls : Nat := 0x48F
def ia32VmxTrueEntryCtls : Nat := 0x490
def ia32Efer : Nat := 0xC0000080
def ia32FsBase : Nat := 0xC0000100
def ia32GsBase : Nat := 0xC0000101

/-! ## The code -/

/-- The registers of the CPU that are read, its GDT, and the address of `virt_main`. -/
structure HostCpu where
  cr0 : BitVec 64
  cr3 : BitVec 64
  cr4 : BitVec 64
  cs : BitVec 16
  ds : BitVec 16
  es : BitVec 16
  ss : BitVec 16
  fs : BitVec 16
  gs : BitVec 16
  tr : BitVec 16
  gdtrBase : BitVec 64
  idtrBase : BitVec 64
  rsp : BitVec 64
  gdt : Gdt
  virtMain : BitVec 64

variable (rdmsr : Nat → BitVec 64)

/-- `virt_guest_setup`. -/
def virtGuestSetup (gdtr entryPoint : BitVec 64) : List (Nat × BitVec 64) :=
  -- what is meant to be set besides, PE and ET, is overwritten
  let cr0 := rdmsr ia32VmxCr0Fixed0
  let cr0 := cr0 &&& rdmsr ia32VmxCr0Fixed1
  -- no PG
  let cr0 := cr0 &&& 0x7FFFFFFF
  let cr4 := rdmsr ia32VmxCr4Fixed0
  let cr4 := cr4 &&& rdmsr ia32VmxCr4Fixed1
  [(vmcsGuestRflags, 0x2), (vmcsGuestCr3, 0), (vmcsGuestDr7, 0), (vmcsGuestCr0, cr0),
    (vmcsGuestCr4, cr4), (vmcsGuestCsSel, 0x10), (vmcsGuestCsBase, 0), (vmcsGuestCsLmt, 0xFFFFFFFF),
    (vmcsGuestCsAcc, 0xC09B), (vmcsGuestDsSel, 0x18), (vmcsGuestDsBase, 0),
    (vmcsGuestDsLmt, 0xFFFFFFFF), (vmcsGuestDsAcc, 0xC093), (vmcsGuestEsSel, 0x18),
    (vmcsGuestEsBase, 0), (vmcsGuestEsLmt, 0xFFFFFFFF), (vmcsGuestEsAcc, 0xC093),
    (vmcsGuestSsSel, 0x18), (vmcsGuestSsBase, 0), (vmcsGuestSsLmt, 0xFFFFFFFF),
    (vmcsGuestSsAcc, 0xC093), (vmcsGuestFsSel, 0x18), (vmcsGuestFsBase, 0),
    (vmcsGuestFsLmt, 0xFFFFFFFF), (vmcsGuestFsAcc, 0xC093), (vmcsGuestGsSel, 0x18),
    (vmcsGuestGsBase, 0), (vmcsGuestGsLmt, 0xFFFFFFFF), (vmcsGuestGsAcc, 0xC093),
    (vmcsGuestLdtrSel, 0), (vmcsGuestLdtrBase, 0), (vmcsGuestLdtrLmt, 0xFFFFF),
    (vmcsGuestLdtrAcc, 0x10082), (vmcsGuestTrSel, 0), (vmcsGuestTrBase, 0),
    (vmcsGuestTrLmt, 0xFFFFF), (vmcsGuestTrAcc, 0x408B), (vmcsGuestGdtrBase, gdtr),
    (vmcsGuestGdtrLmt, 0xFFFF), (vmcsGuestIdtrBase, 0), (vmcsGuestIdtrLmt, 0xFFFF),
    (vmcsGuestLp, 0xFFFFFFFFFFFFFFFF), (vmcsGuestActive, 0), (vmcsGuestInt, 0), (vmcsGuestDebug, 0),
    (vmcsGuestSmbase, 0), (vmcsGuestSysCs, 0), (vmcsGuestSysEsp, 0), (vmcsGuestSysEip, 0),
    (vmcsGuestTimer, 0), (vmcsGuestStatus, 0), (vmcsGuestPml, 0), (vmcsGuestPdpte0, 0),
    (vmcsGuestPdpte1, 0), (vmcsGuestPdpte2, 0), (vmcsGuestPdpte3, 0), (vmcsGuestDebugctl, 0),
    (vmcsGuestPerf, 0), (vmcsGuestBndcfgs, 0), (vmcsGuestEfer, 0), (vmcsGuestPat, rdmsr ia32Pat),
    (vmcsGuestRsp, 0), (vmcsGuestRip, entryPoint)]

/-- `virt_host_setup`. -/
def virtHostSetup (cpu : HostCpu) : List (Nat × BitVec 64) :=
  let stack := (cpu.rsp &&& pgMask) + 4096
  [(vmcsHostCr0, cpu.cr0), (vmcsHostCr3, cpu.cr3), (vmcsHostCr4, cpu.cr4),
    (vmcsHostCsSel, cpu.cs.setWidth 64), (vmcsHostDsSel, cpu.ds.setWidth 64),
    (vmcsHostEsSel, cpu.es.setWidth 64), (vmcsHostSsSel, cpu.ss.setWidth 64),
    (vmcsHostFsSel, cpu.fs.setWidth 64), (vmcsHostFsBase, rdmsr ia32FsBase),
    (vmcsHostGsSel, cpu.gs.setWidth 64), (vmcsHostGsBase, rdmsr ia32GsBase),
    (vmcsHostTrSel, cpu.tr.setWidth 64), (vmcsHostTrBase, getGdtTssBase cpu.gdt cpu.tr),
    (vmcsHostGdtrBase, cpu.gdtrBase), (vmcsHostIdtrBase, cpu.idtrBase),
    (vmcsHostEfer, rdmsr ia32Efer), (vmcsHostPat, rdmsr ia32Pat), (vmcsHostRsp, stack),
    (vmcsHostRip, cpu.virtMain)]

/-- `panic` unless a capability is there. -/
def requireCap (c : Bool) (msg : String) : Lib.Logged (Nat × BitVec 64) Unit :=
  if c then pure () else Lib.Logged.lift (.error (.panic "virt_control_setup" msg))

/-- Some `vmwrite`s. -/
def vmwrites (ws : List (Nat × BitVec 64)) : Lib.Logged (Nat × BitVec 64) Unit := ⟨ws, .ok ()⟩

/-- The MSR that reports a control, or its `TRUE` counterpart. -/
def ctlsMsr (ctls trueCtls : Nat) : BitVec 64 :=
  if (rdmsr ia32VmxBasic).getLsbD 55 then rdmsr trueCtls else rdmsr ctls

/-- `virt_control_setup`. -/
def virtControlSetup (eptP : BitVec 64) : Lib.Logged (Nat × BitVec 64) Unit := do
  let pinMsr := ctlsMsr rdmsr ia32VmxPinbasedCtls ia32VmxTruePinbasedCtls
  let procMsr := ctlsMsr rdmsr ia32VmxProcbasedCtls ia32VmxTrueProcbasedCtls
  let exitMsr := ctlsMsr rdmsr ia32VmxExitCtls ia32VmxTrueExitCtls
  let entryMsr := ctlsMsr rdmsr ia32VmxEntryCtls ia32VmxTrueEntryCtls
  requireCap (exitMsr.getLsbD 52 && exitMsr.getLsbD 53) "Load/save IA32_EFER on VM exit not supported"
  requireCap (exitMsr.getLsbD 41) "Host address-space size on VM exit not supported"
  vmwrites [(vmcsCtrlExit, exitMsr ||| 0x300200), (vmcsCtrlExitScnt, 0), (vmcsCtrlExitLcnt, 0)]
  requireCap (!entryMsr.getLsbD 9) "32-bit VM entry not supported"
  requireCap (entryMsr.getLsbD 47) "Load IA32_EFER not supported"
  requireCap (entryMsr.getLsbD 46) "Load IA32_PAT not supported"
  vmwrites [(vmcsCtrlEntry, entryMsr ||| 0xC000), (vmcsCtrlEntryLcnt, 0), (vmcsCtrlEntryInt, 0),
    (vmcsCtrlPin, pinMsr)]
  requireCap (procMsr.getLsbD 63) "Secondary controls is not supported"
  let procMsr := procMsr ||| (1#64 <<< 31)
  vmwrites [(vmcsCtrlPproc, procMsr)]
  let proc2Msr := rdmsr ia32VmxProcbasedCtls2
  requireCap (proc2Msr.getLsbD 33) "EPT not supported"
  requireCap (proc2Msr.getLsbD 39) "Unrestricted guest not supported"
  vmwrites [(vmcsCtrlSproc, proc2Msr ||| 0x82), (vmcsCtrlExpMap, 0), (vmcsCtrlIomapA, 0),
    (vmcsCtrlIomapB, 0), (vmcsCtrlCr0Mask, 0), (vmcsCtrlCr0Rd, 0), (vmcsCtrlCr3Cnt, 0),
    (vmcsCtrlPfMask, 0), (vmcsCtrlPfMatch, 0), (vmcsCtrlCr4Mask, 0x2000), (vmcsCtrlCr4Rd, 0),
    (vmcsCtrlEptp, eptP ||| 0x6#64 ||| (3#64 <<< 3))]

end Rtv.Virt
