import Rtv.Virt.EntryChecks

/-!
# The way to the VMCS

`virt_percpu_init` turns VMX on, makes a VMCS current and fills it for the guest of the CPU. What its calls
give is handed over as `Acquired`: the frames of `alloc_phys_frame`, the pages of `vm_map_page`, which show
the frames they are mapped for, and the pointer of `virt_pg_table_setup`.

The instructions are those of a CPU in 64-bit mode at level 0, outside SMX, that is not in VMX operation
yet. `IA32_FEATURE_CONTROL` is written whether its lock bit is set or not, and a write to the locked
register is a fault: the code gets past it exactly if the firmware has left the register unlocked
(`vmxSetup_ok_iff`), although the check in front of it lets a locked register with VMX enabled pass.

What is left out: the number that the CPU gets in its guest and its lock, the panics inside
`virt_pg_table_setup`, and what follows `vmlaunch`.
-/

namespace Rtv.Virt

open Rtv.Lib Rtv.Mm

/-! ## Instructions -/

/-- What an instruction for VMX leaves in the flags: CF if there is no current VMCS, else ZF. -/
inductive VmxFlags where
  | succeed
  | failInvalid
  | failValid
deriving DecidableEq, Repr

namespace Processor

variable (p : Processor)

/-- `wrmsr` to `IA32_FEATURE_CONTROL`. -/
def wrmsrFeatureControl : Exec Unit :=
  if (p.rdmsr ia32FeatureControl).getLsbD 0 then .error .fault else .ok ()

/-- A frame for VMX: at a page boundary, in physical memory, and its first word is the revision of the
processor. -/
def RegionValid (paddr : BitVec 64) (rev : BitVec 32) : Prop :=
  getField paddr 0 12 = 0 ∧ paddr.toNat < 2 ^ p.physBits ∧
    rev = ((p.rdmsr ia32VmxBasic).setWidth 31).setWidth 32

instance (paddr : BitVec 64) (rev : BitVec 32) : Decidable (p.RegionValid paddr rev) :=
  inferInstanceAs (Decidable (_ ∧ _))

instance (fixed0 fixed1 : BitVec 64) (except : List Nat) (cr : BitVec 64) :
    Decidable (Fixed fixed0 fixed1 except cr) :=
  inferInstanceAs (Decidable (∀ i < 64, _))

/-- VMX may be turned on: `CR4.VMXE` is set, the control registers have the bits that are fixed, and
`IA32_FEATURE_CONTROL` is locked with VMX enabled. -/
def MayEnter (cpu : HostCpu) (featureControl : BitVec 64) : Prop :=
  cpu.cr4.getLsbD 13 = true ∧
    Fixed (p.rdmsr ia32VmxCr0Fixed0) (p.rdmsr ia32VmxCr0Fixed1) [] cpu.cr0 ∧
    Fixed (p.rdmsr ia32VmxCr4Fixed0) (p.rdmsr ia32VmxCr4Fixed1) [] cpu.cr4 ∧
    featureControl.getLsbD 0 = true ∧ featureControl.getLsbD 2 = true

instance (cpu : HostCpu) (featureControl : BitVec 64) : Decidable (p.MayEnter cpu featureControl) :=
  inferInstanceAs (Decidable (_ ∧ _))

/-- `vmxon`. -/
def vmxon (cpu : HostCpu) (featureControl paddr : BitVec 64) (rev : BitVec 32) : Exec VmxFlags :=
  if p.MayEnter cpu featureControl then
    .ok (if p.RegionValid paddr rev then .succeed else .failInvalid)
  else .error .fault

/-- `vmptrld` when no VMCS is current yet. -/
def vmptrld (vmxonRegion paddr : BitVec 64) (rev : BitVec 32) : VmxFlags :=
  if p.RegionValid paddr rev ∧ paddr ≠ vmxonRegion then .succeed else .failInvalid

end Processor

/-! ## The code -/

/-- What `virt_percpu_init` gets from its calls; 0 is no frame and no page. -/
structure Acquired where
  vmxonRegion : BitVec 64
  vmxonAddr : BitVec 64
  vmcsPaddr : BitVec 64
  vmcsAddr : BitVec 64
  eptP : BitVec 64

/-- What is read of the guest of the CPU. -/
structure GuestStart where
  gdtr : BitVec 64
  entryPoint : BitVec 64

/-- The control registers as `virt_percpu_init` leaves them. -/
def HostCpu.fixed (rdmsr : Nat → BitVec 64) (cpu : HostCpu) : HostCpu :=
  { cpu with
    cr0 := (cpu.cr0 ||| rdmsr ia32VmxCr0Fixed0) &&& rdmsr ia32VmxCr0Fixed1
    cr4 := (cpu.cr4 ||| rdmsr ia32VmxCr4Fixed0) &&& rdmsr ia32VmxCr4Fixed1 }

/-- `vmcs_rev`, from `virt_init`. -/
def vmcsRev (p : Processor) : BitVec 32 := (p.rdmsr ia32VmxBasic).setWidth 32

/-- `if (c) panic(msg)` in `virt_percpu_init`. -/
def panicIf (c : Prop) [Decidable c] (msg : String) : Exec Unit :=
  if c then .error (.panic "virt_percpu_init" msg) else .ok ()

/-- `virt_check_error`. -/
def virtCheckError : VmxFlags → Exec Unit
  | .succeed => .ok ()
  | .failInvalid => .error (.panic "virt_percpu_init" "Invalid VMCS pointer")
  | .failValid => .error (.panic "virt_percpu_init" "VMX error")

/-- `virt_percpu_init` up to `virt_pg_table_setup`, with its control registers fixed. -/
def vmxSetup (p : Processor) (cpu : HostCpu) (a : Acquired) : Exec Unit := do
  let msr := p.rdmsr ia32FeatureControl
  panicIf (msr.getLsbD 0 ∧ !msr.getLsbD 2) "VMX is disabled"
  let msr := msr ||| (1#64 ||| (1#64 <<< 2))
  p.wrmsrFeatureControl
  panicIf (a.vmxonRegion = 0) "VMXON region allocation failed"
  panicIf (a.vmxonAddr = 0) "VMXON region mapping failed"
  let flags ← p.vmxon cpu msr a.vmxonRegion (vmcsRev p)
  virtCheckError flags
  panicIf (a.vmcsPaddr = 0) "VMCS allocation failed"
  panicIf (a.vmcsAddr = 0) "VMCS mapping failed"
  -- the flags of `vmclear` are not looked at
  virtCheckError (p.vmptrld a.vmxonRegion a.vmcsPaddr (vmcsRev p))

/-- `virt_percpu_init` up to `vmlaunch`, with what it writes to the VMCS. A CPU without a guest has
`VM_NONE`. -/
def virtPercpuInit (p : Processor) (cpu : HostCpu) (vm : Option GuestStart) (a : Acquired) :
    Lib.Logged (Nat × BitVec 64) Unit :=
  match vm with
  | none => pure ()
  | some vm => do
    Lib.Logged.lift (vmxSetup p (cpu.fixed p.rdmsr) a)
    vmwrites (virtGuestSetup p.rdmsr vm.gdtr vm.entryPoint)
    virtControlSetup p.rdmsr a.eptP
    vmwrites (virtHostSetup p.rdmsr (cpu.fixed p.rdmsr))

/-! ## What is documented -/

/-- The controls that a processor may require to be 1, of each kind. -/
def default1Pin : List Nat := [1, 2, 4]

def default1Proc : List Nat := [1, 4, 5, 6, 8, 13, 14, 15, 16, 26]

def default1Exit : List Nat := [0, 1, 2, 3, 4, 5, 6, 7, 8, 10, 11, 13, 14, 16, 17]

def default1Entry : List Nat := [0, 1, 2, 3, 4, 5, 6, 7, 8, 12]

/-- What an MSR for controls says: what must be 1 may be 1, and is one of these. -/
structure ReportsControls (default1 : List Nat) (msr : BitVec 64) : Prop where
  may : ∀ i < 32, msr.getLsbD i = true → msr.getLsbD (32 + i) = true
  default1 : ∀ i < 32, msr.getLsbD i = true → i ∈ default1

/-- The documented behaviour of a processor, where its capabilities and the MSRs that it keeps valid are
concerned. -/
structure Processor.Documented (p : Processor) : Prop where
  pin : ReportsControls default1Pin (p.controls 0x481 0x48D)
  proc : ReportsControls default1Proc (p.controls 0x482 0x48E)
  exit : ReportsControls default1Exit (p.controls 0x483 0x48F)
  entry : ReportsControls default1Entry (p.controls 0x484 0x490)
  secondary : ReportsControls [] (p.rdmsr ia32VmxProcbasedCtls2)
  cr0 : ∀ i < 64, (p.rdmsr ia32VmxCr0Fixed0).getLsbD i = true → (p.rdmsr ia32VmxCr0Fixed1).getLsbD i = true
  cr4 : ∀ i < 64, (p.rdmsr ia32VmxCr4Fixed0).getLsbD i = true → (p.rdmsr ia32VmxCr4Fixed1).getLsbD i = true
  cr0High : ∀ i, 32 ≤ i → (p.rdmsr ia32VmxCr0Fixed0).getLsbD i = false
  pcid : (p.rdmsr ia32VmxCr4Fixed0).getLsbD 17 = false
  vmxe : (p.rdmsr ia32VmxCr4Fixed0).getLsbD 13 = true
  pae : (p.rdmsr ia32VmxCr4Fixed1).getLsbD 5 = true
  pat : PatValid (p.rdmsr ia32Pat)
  fs : Canonical (p.rdmsr ia32FsBase)
  gs : Canonical (p.rdmsr ia32GsBase)
  physBits : 12 ≤ p.physBits
  revision : (p.rdmsr ia32VmxBasic).getLsbD 31 = false

/-- The host CPU in 64-bit mode, with selectors of the GDT for the kernel. -/
structure HostCpu.Long (cpu : HostCpu) (p : Processor) : Prop where
  cr3 : cpu.cr3.toNat < 2 ^ p.physBits
  pae : cpu.cr4.getLsbD 5 = true
  efer : EferValid true (p.rdmsr ia32Efer) ∧ (p.rdmsr ia32Efer).getLsbD 8 = true
  selectors : ∀ sel ∈ [cpu.es, cpu.cs, cpu.ss, cpu.ds, cpu.fs, cpu.gs, cpu.tr], getField sel 0 3 = 0
  cs : cpu.cs ≠ 0
  tr : cpu.tr ≠ 0
  tss : Canonical (Smp.getGdtTssBase cpu.gdt cpu.tr)
  gdtr : Canonical cpu.gdtrBase
  idtr : Canonical cpu.idtrBase
  virtMain : Canonical cpu.virtMain

/-- The frames are where `alloc_phys_frame` takes them from, and it gives none twice. -/
structure Acquired.Placed (a : Acquired) (p : Processor) : Prop where
  vmxon : getField a.vmxonRegion 0 12 = 0 ∧ a.vmxonRegion.toNat < 2 ^ p.physBits
  vmcs : getField a.vmcsPaddr 0 12 = 0 ∧ a.vmcsPaddr.toNat < 2 ^ p.physBits
  apart : a.vmcsPaddr ≠ 0 → a.vmcsPaddr ≠ a.vmxonRegion

/-- No call was in vain. -/
def Acquired.Complete (a : Acquired) : Prop :=
  a.vmxonRegion ≠ 0 ∧ a.vmxonAddr ≠ 0 ∧ a.vmcsPaddr ≠ 0 ∧ a.vmcsAddr ≠ 0

/-! ## Turning VMX on -/

section Setup

variable {p : Processor} {cpu : HostCpu} {a : Acquired}

/-- A control register as `virt_percpu_init` leaves it. -/
theorem fixed_or_and {fixed0 fixed1 : BitVec 64} (cr : BitVec 64) (bits : List Nat)
    (h : ∀ i < 64, fixed0.getLsbD i = true → fixed1.getLsbD i = true) :
    Fixed fixed0 fixed1 bits ((cr ||| fixed0) &&& fixed1) := by
  intro i hi _
  rw [BitVec.getLsbD_and, BitVec.getLsbD_or, Bool.and_eq_true, Bool.or_eq_true]
  exact ⟨fun h0 => ⟨.inr h0, h i hi h0⟩, And.right⟩

/-- What is read as the revision is the revision. -/
theorem vmcsRev_eq (hp : p.Documented) : vmcsRev p = ((p.rdmsr ia32VmxBasic).setWidth 31).setWidth 32 := by
  refine BitVec.eq_of_getLsbD_eq fun i hi => ?_
  rw [vmcsRev, BitVec.getLsbD_setWidth, BitVec.getLsbD_setWidth, BitVec.getLsbD_setWidth]
  by_cases hlast : i = 31
  · rw [hlast, hp.revision]
    rfl
  · rw [decide_eq_true (by omega : i < 31), Bool.true_and]

/-- VMX may be turned on after the registers are fixed and the bits are set. -/
theorem mayEnter_fixed (hp : p.Documented) (msr : BitVec 64) :
    p.MayEnter (cpu.fixed p.rdmsr) (msr ||| (1#64 ||| (1#64 <<< 2))) := by
  have hset : ∀ i, (1#64 ||| (1#64 <<< 2)).getLsbD i = true →
      (msr ||| (1#64 ||| (1#64 <<< 2))).getLsbD i = true := by
    intro i hi
    rw [BitVec.getLsbD_or, hi, Bool.or_true]
  refine ⟨?_, fixed_or_and cpu.cr0 _ hp.cr0, fixed_or_and cpu.cr4 _ hp.cr4, hset 0 (by decide),
    hset 2 (by decide)⟩
  exact ((fixed_or_and cpu.cr4 [] hp.cr4) 13 (by decide) List.not_mem_nil).1 hp.vmxe

theorem vmxon_succeeds (hp : p.Documented) (ha : a.Placed p) (msr : BitVec 64) :
    p.vmxon (cpu.fixed p.rdmsr) (msr ||| (1#64 ||| (1#64 <<< 2))) a.vmxonRegion (vmcsRev p) = .ok .succeed := by
  rw [Processor.vmxon, if_pos (mayEnter_fixed hp msr), if_pos ⟨ha.vmxon.1, ha.vmxon.2, vmcsRev_eq hp⟩]

theorem vmptrld_succeeds (hp : p.Documented) (ha : a.Placed p) (h : a.vmcsPaddr ≠ 0) :
    p.vmptrld a.vmxonRegion a.vmcsPaddr (vmcsRev p) = .succeed :=
  if_pos ⟨⟨ha.vmcs.1, ha.vmcs.2, vmcsRev_eq hp⟩, ha.apart h⟩

/-- What follows a check returns exactly if the check is passed and it returns itself. -/
theorem panicIf_bind_eq_ok {c : Prop} [Decidable c] {msg : String} {f : Unit → Exec Unit} :
    (panicIf c msg >>= f) = .ok () ↔ ¬ c ∧ f () = .ok () := by
  rw [panicIf, Exec.check_bind]
  by_cases hc : c
  · simp [hc]
  · simp [hc]

/-- **A VMCS becomes current** exactly if the firmware left `IA32_FEATURE_CONTROL` unlocked and no call was
in vain. -/
theorem vmxSetup_ok_iff (hp : p.Documented) (ha : a.Placed p) :
    vmxSetup p (cpu.fixed p.rdmsr) a = .ok () ↔
      (p.rdmsr ia32FeatureControl).getLsbD 0 = false ∧ a.Complete := by
  have hwrite : ∀ f : Unit → Exec Unit, (p.wrmsrFeatureControl >>= f) = .ok () ↔
      (p.rdmsr ia32FeatureControl).getLsbD 0 = false ∧ f () = .ok () := by
    intro f
    rw [Processor.wrmsrFeatureControl, Exec.check_bind]
    rw [← Bool.not_eq_true]
    split
    next hlock => exact iff_of_false nofun fun h => h.1 hlock
    next hlock => exact ⟨fun hf => ⟨hlock, hf⟩, And.right⟩
  simp only [vmxSetup, panicIf_bind_eq_ok, hwrite, vmxon_succeeds hp ha, Exec.ok_bind, virtCheckError,
    Acquired.Complete]
  constructor
  · rintro ⟨-, hlock, hregion, haddr, hpaddr, hmapped, -⟩
    exact ⟨hlock, hregion, haddr, hpaddr, hmapped⟩
  · rintro ⟨hlock, hregion, haddr, hpaddr, hmapped⟩
    refine ⟨?_, hlock, hregion, haddr, hpaddr, hmapped, ?_⟩
    · rw [hlock]
      exact fun h => Bool.false_ne_true h.1
    · rw [vmptrld_succeeds hp ha hpaddr]

end Setup

end Rtv.Virt
