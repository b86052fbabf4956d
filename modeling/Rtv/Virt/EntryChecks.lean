import Rtv.Lib.BitField
import Rtv.Virt.Vmcs

/-!
# What the processor checks at VM entry

Before a guest runs, the processor checks the control fields, the host state and the guest state of the
VMCS against its capabilities and against each other; one check that fails, and `vmlaunch` fails or the
guest exits at once. The checks are those of the architecture for an unrestricted guest that is not in
IA-32e mode and runs without paging, on a processor in IA-32e mode with 48-bit addresses. A VMCS that uses
a feature whose checks are not written down here does not pass (`noOther`).

The segment registers are numbered as in an instruction, then LDTR and TR; the fields of each register have
encodings at the same distance.
-/

namespace Rtv.Virt

open Rtv.Lib Rtv.Mm

/-- The processor: its MSRs and the width of its physical addresses. -/
structure Processor where
  rdmsr : Nat → BitVec 64
  physBits : Nat

/-- `IA32_VMX_EPT_VPID_CAP`, which the code does not read. -/
def ia32VmxEptVpidCap : Nat := 0x48C

/-- The MSR that reports a kind of controls: the one of the two that `IA32_VMX_BASIC` says. -/
def Processor.controls (p : Processor) (plain exact : Nat) : BitVec 64 :=
  if (p.rdmsr 0x480).getLsbD 55 then p.rdmsr exact else p.rdmsr plain

/-- A field of the host that is not in `virt_internal.h`. -/
def hostSysenterEsp : Nat := 0x6C10

/-- A field of the host that is not in `virt_internal.h`. -/
def hostSysenterEip : Nat := 0x6C12

/-! ## Parts of checks -/

/-- A control word has the bits that must be 1, in the low half of the MSR, and only bits that may be 1,
in the high half. -/
def Allowed (msr c : BitVec 64) : Prop :=
  ∀ i < 32, (msr.getLsbD i = true → c.getLsbD i = true) ∧
    (c.getLsbD i = true → msr.getLsbD (32 + i) = true)

/-- None of the bits is set. -/
def Off (c : BitVec 64) (bits : List Nat) : Prop := ∀ i ∈ bits, c.getLsbD i = false

/-- A control register has the bits that are fixed to 1, and none that is fixed to 0, some bits apart. -/
def Fixed (fixed0 fixed1 : BitVec 64) (except : List Nat) (cr : BitVec 64) : Prop :=
  ∀ i < 64, i ∉ except → (fixed0.getLsbD i = true → cr.getLsbD i = true) ∧
    (cr.getLsbD i = true → fixed1.getLsbD i = true)

/-- Each byte of a PAT is a memory type. -/
def PatValid (pat : BitVec 64) : Prop := ∀ i < 8, getField pat (8 * i) 8 ∈ ([0, 1, 4, 5, 6, 7] : List (BitVec 8))

/-- The bits of an EFER that are not reserved: SCE, LME, LMA and NXE. -/
def eferDefined : BitVec 64 := 0xD01

/-- An EFER has no reserved bit, and LMA as it is given. -/
def EferValid (lma : Bool) (efer : BitVec 64) : Prop :=
  efer &&& ~~~eferDefined = 0 ∧ efer.getLsbD 10 = lma

/-- An EPT pointer: a memory type and a depth of the tables that the processor has, no bit that is
reserved, and a place in physical memory. -/
def EptpValid (p : Processor) (eptp : BitVec 64) : Prop :=
  let cap := p.rdmsr ia32VmxEptVpidCap
  (getField eptp 0 3 = 0 ∧ cap.getLsbD 8 = true ∨ getField eptp 0 3 = 6 ∧ cap.getLsbD 14 = true) ∧
    (getField eptp 3 3 = 3 ∧ cap.getLsbD 6 = true) ∧ getField eptp 6 6 = 0 ∧ eptp.toNat < 2 ^ p.physBits

/-! ## Segment registers -/

/-- A segment register of the guest. -/
structure Segment where
  sel : BitVec 64
  base : BitVec 64
  limit : BitVec 64
  rights : BitVec 64

/-- The segment register with a number. -/
def Vmcs.segment (v : Vmcs) (i : Nat) : Segment :=
  ⟨v (0x800 + 2 * i), v (0x6806 + 2 * i), v (0x4800 + 2 * i), v (0x4814 + 2 * i)⟩

namespace Segment

def type (s : Segment) : BitVec 4 := getField s.rights 0 4

def dpl (s : Segment) : BitVec 2 := getField s.rights 5 2

def usable (s : Segment) : Prop := s.rights.getLsbD 16 = false

instance (s : Segment) : Decidable s.usable := inferInstanceAs (Decidable (_ = _))

/-- It is present, for code or data as said, no reserved bit is set, and the limit fits the granularity. -/
structure Common (s : Segment) (codeOrData : Bool) : Prop where
  kind : s.rights.getLsbD 4 = codeOrData
  present : s.rights.getLsbD 7 = true
  reserved : getField s.rights 8 4 = 0 ∧ getField s.rights 17 15 = 0
  bytes : getField s.limit 0 12 ≠ 0xFFF → s.rights.getLsbD 15 = false
  pages : getField s.limit 20 12 ≠ 0 → s.rights.getLsbD 15 = true

/-- CS, given the privilege level of SS; with the unrestricted-guest control it may be a data segment. -/
structure Code (s : Segment) (ss : BitVec 2) : Prop extends s.Common true where
  type : s.type ∈ ([3, 9, 11, 13, 15] : List (BitVec 4))
  level : (s.type = 3 → s.dpl = 0) ∧ (s.type = 9 ∨ s.type = 11 → s.dpl = ss) ∧
    (s.type = 13 ∨ s.type = 15 → s.dpl.toNat ≤ ss.toNat)
  base : s.base.toNat < 2 ^ 32

/-- SS. -/
structure Stack (s : Segment) : Prop extends s.Common true where
  type : s.type = 3 ∨ s.type = 7
  base : s.base.toNat < 2 ^ 32

/-- DS, ES, FS and GS: accessed, and readable if it is code. -/
structure Data (s : Segment) : Prop extends s.Common true where
  accessed : s.type.getLsbD 0 = true
  readable : s.type.getLsbD 3 = true → s.type.getLsbD 1 = true

/-- TR: a busy TSS in the GDT. -/
structure Task (s : Segment) : Prop extends s.Common false where
  type : s.type = 3 ∨ s.type = 11
  usable : s.usable
  gdt : s.sel.getLsbD 2 = false
  base : Canonical s.base

/-- LDTR. -/
structure Table (s : Segment) : Prop extends s.Common false where
  type : s.type = 2
  gdt : s.sel.getLsbD 2 = false
  base : Canonical s.base

end Segment

/-! ## The checks -/

/-- The controls. The features whose checks are left out are those of posted interrupts, the preemption
timer, virtual NMIs, the TPR shadow, NMI windows, I/O and MSR bitmaps, tertiary controls, other secondary
controls than EPT and unrestricted guest, the MSRs in lists, other loads at entry and exit than those of
EFER and PAT, events at entry, and SMM. -/
structure ControlChecks (p : Processor) (v : Vmcs) : Prop where
  pin : Allowed (p.controls 0x481 0x48D) (v vmcsCtrlPin)
  proc : Allowed (p.controls 0x482 0x48E) (v vmcsCtrlPproc)
  secondary : (v vmcsCtrlPproc).getLsbD 31 = true →
    Allowed (p.rdmsr ia32VmxProcbasedCtls2) (v vmcsCtrlSproc) ∧
      ((v vmcsCtrlSproc).getLsbD 1 = true → EptpValid p (v vmcsCtrlEptp)) ∧
      ((v vmcsCtrlSproc).getLsbD 7 = true → (v vmcsCtrlSproc).getLsbD 1 = true)
  targets : (v vmcsCtrlCr3Cnt).toNat ≤ 4
  exit : Allowed (p.controls 0x483 0x48F) (v vmcsCtrlExit)
  entry : Allowed (p.controls 0x484 0x490) (v vmcsCtrlEntry)
  noOther : Off (v vmcsCtrlPin) [5, 6, 7] ∧ Off (v vmcsCtrlPproc) [17, 21, 22, 25, 28] ∧
    (∀ i < 32, i ≠ 1 → i ≠ 7 → (v vmcsCtrlSproc).getLsbD i = false) ∧
    Off (v vmcsCtrlExit) [12, 19, 22, 23, 24, 25, 26, 27, 28, 29, 30, 31] ∧
    Off (v vmcsCtrlEntry) [9, 10, 11, 13, 16, 17, 18, 19, 20, 21, 22, 23, 24, 25, 26, 27, 28, 29, 30, 31] ∧
    v vmcsCtrlExitScnt = 0 ∧ v vmcsCtrlExitLcnt = 0 ∧ v vmcsCtrlEntryLcnt = 0 ∧
    (v vmcsCtrlEntryInt).getLsbD 31 = false

/-- The selectors of the host: ES, CS, SS, DS, FS, GS and TR. -/
def hostSelectors : List Nat :=
  [vmcsHostEsSel, vmcsHostCsSel, vmcsHostSsSel, vmcsHostDsSel, vmcsHostFsSel, vmcsHostGsSel, vmcsHostTrSel]

/-- The addresses of the host. -/
def hostAddresses : List Nat :=
  [vmcsHostFsBase, vmcsHostGsBase, vmcsHostTrBase, vmcsHostGdtrBase, vmcsHostIdtrBase, vmcsHostRip]

/-- The host, which stays in IA-32e mode. -/
structure HostChecks (p : Processor) (v : Vmcs) : Prop where
  cr0 : Fixed (p.rdmsr ia32VmxCr0Fixed0) (p.rdmsr ia32VmxCr0Fixed1) [29, 30] (v vmcsHostCr0)
  cr4 : Fixed (p.rdmsr ia32VmxCr4Fixed0) (p.rdmsr ia32VmxCr4Fixed1) [] (v vmcsHostCr4)
  cr3 : (v vmcsHostCr3).toNat < 2 ^ p.physBits
  sysenter : Canonical (v hostSysenterEsp) ∧ Canonical (v hostSysenterEip)
  efer : (v vmcsCtrlExit).getLsbD 21 = true → EferValid ((v vmcsCtrlExit).getLsbD 9) (v vmcsHostEfer) ∧
    (v vmcsHostEfer).getLsbD 8 = (v vmcsCtrlExit).getLsbD 9
  selectors : ∀ sel ∈ hostSelectors, getField (v sel) 0 3 = 0
  cs : v vmcsHostCsSel ≠ 0
  tr : v vmcsHostTrSel ≠ 0
  addresses : ∀ a ∈ hostAddresses, Canonical (v a)
  size : (v vmcsCtrlExit).getLsbD 9 = true
  pae : (v vmcsHostCr4).getLsbD 5 = true

/-- The guest, which is unrestricted, without paging and not in virtual-8086 mode, active, with no event
pending and no VMCS linked to this one. -/
structure GuestChecks (p : Processor) (v : Vmcs) : Prop where
  unrestricted : (v vmcsCtrlPproc).getLsbD 31 = true ∧ (v vmcsCtrlSproc).getLsbD 7 = true
  cr0 : Fixed (p.rdmsr ia32VmxCr0Fixed0) (p.rdmsr ia32VmxCr0Fixed1) [0, 29, 30, 31] (v vmcsGuestCr0)
  cr4 : Fixed (p.rdmsr ia32VmxCr4Fixed0) (p.rdmsr ia32VmxCr4Fixed1) [] (v vmcsGuestCr4)
  noPaging : (v vmcsGuestCr0).getLsbD 31 = false
  pcid : (v vmcsGuestCr4).getLsbD 17 = false
  cr3 : (v vmcsGuestCr3).toNat < 2 ^ p.physBits
  debug : (v vmcsCtrlEntry).getLsbD 2 = true →
    (v vmcsGuestDr7).toNat < 2 ^ 32 ∧ v vmcsGuestDebugctl &&& ~~~0xDFC3 = 0
  sysenter : Canonical (v vmcsGuestSysEsp) ∧ Canonical (v vmcsGuestSysEip)
  pat : (v vmcsCtrlEntry).getLsbD 14 = true → PatValid (v vmcsGuestPat)
  efer : (v vmcsCtrlEntry).getLsbD 15 = true → EferValid ((v vmcsCtrlEntry).getLsbD 9) (v vmcsGuestEfer)
  cs : (v.segment 1).Code (v.segment 2).dpl
  ss : (v.segment 2).usable → (v.segment 2).Stack
  ssLevel : (v.segment 1).type = 3 ∨ (v vmcsGuestCr0).getLsbD 0 = false → (v.segment 2).dpl = 0
  data : ∀ i ∈ [0, 3, 4, 5], (v.segment i).usable → (v.segment i).Data
  dataBase : ∀ i ∈ [0, 3], (v.segment i).usable → (v.segment i).base.toNat < 2 ^ 32
  fsGsBase : ∀ i ∈ [4, 5], Canonical (v.segment i).base
  ldtr : (v.segment 6).usable → (v.segment 6).Table
  tr : (v.segment 7).Task
  tables : Canonical (v vmcsGuestGdtrBase) ∧ Canonical (v vmcsGuestIdtrBase) ∧
    (v vmcsGuestGdtrLmt).toNat < 2 ^ 16 ∧ (v vmcsGuestIdtrLmt).toNat < 2 ^ 16
  rip : (v vmcsGuestRip).toNat < 2 ^ 32
  rflags : Off (v vmcsGuestRflags) [3, 5, 15, 17] ∧ getField (v vmcsGuestRflags) 22 42 = 0 ∧
    (v vmcsGuestRflags).getLsbD 1 = true
  active : v vmcsGuestActive = 0 ∧ v vmcsGuestInt = 0 ∧ v vmcsGuestDebug = 0
  link : v vmcsGuestLp = BitVec.allOnes 64

/-- All checks. -/
structure VmEntry (p : Processor) (v : Vmcs) : Prop where
  control : ControlChecks p v
  host : HostChecks p v
  guest : GuestChecks p v

end Rtv.Virt
