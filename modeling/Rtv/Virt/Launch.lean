import Rtv.Virt.PercpuInit

/-!
# The launch of a guest

**The law** (`vm_entry_iff`): on a processor that does what is documented, from a host CPU in 64-bit mode,
`virt_percpu_init` gets to `vmlaunch` exactly if the firmware has left `IA32_FEATURE_CONTROL` unlocked, the
processor has what the code asks for, and the frames and pages were there. It has then filled the VMCS so
that it passes all checks of the processor at VM entry, if and only if what the code neither writes nor
asks for is right: the two host fields for `SYSENTER`, which keep what was in the frame of the VMCS, must
be canonical, and the processor must have 4-level EPT tables that are cached write-back.
-/

namespace Rtv.Virt

open Rtv.Lib Rtv.Mm

/-- What `virt_percpu_init` needs of the processor to get to `vmlaunch`. -/
structure Processor.Supported (p : Processor) : Prop where
  unlocked : (p.rdmsr ia32FeatureControl).getLsbD 0 = false
  exit : (p.controls 0x483 0x48F).getLsbD 52 = true ∧ (p.controls 0x483 0x48F).getLsbD 53 = true ∧
    (p.controls 0x483 0x48F).getLsbD 41 = true
  entry : (p.controls 0x484 0x490).getLsbD 9 = false ∧ (p.controls 0x484 0x490).getLsbD 47 = true ∧
    (p.controls 0x484 0x490).getLsbD 46 = true
  secondary : (p.controls 0x482 0x48E).getLsbD 63 = true
  ept : (p.rdmsr ia32VmxProcbasedCtls2).getLsbD 33 = true
  unrestricted : (p.rdmsr ia32VmxProcbasedCtls2).getLsbD 39 = true

/-! ## What is written -/

section Written

variable {p : Processor} {cpu : HostCpu} {gdtr entryPoint eptP : BitVec 64}

/-- What `virt_control_setup` writes when it does not panic. -/
def controlWrites (p : Processor) (eptP : BitVec 64) : List (Nat × BitVec 64) :=
  [(vmcsCtrlExit, p.controls 0x483 0x48F ||| 0x300200), (vmcsCtrlExitScnt, 0), (vmcsCtrlExitLcnt, 0),
    (vmcsCtrlEntry, p.controls 0x484 0x490 ||| 0xC000), (vmcsCtrlEntryLcnt, 0), (vmcsCtrlEntryInt, 0),
    (vmcsCtrlPin, p.controls 0x481 0x48D), (vmcsCtrlPproc, p.controls 0x482 0x48E ||| (1#64 <<< 31)),
    (vmcsCtrlSproc, p.rdmsr ia32VmxProcbasedCtls2 ||| 0x82), (vmcsCtrlExpMap, 0), (vmcsCtrlIomapA, 0),
    (vmcsCtrlIomapB, 0), (vmcsCtrlCr0Mask, 0), (vmcsCtrlCr0Rd, 0), (vmcsCtrlCr3Cnt, 0),
    (vmcsCtrlPfMask, 0), (vmcsCtrlPfMatch, 0), (vmcsCtrlCr4Mask, 0x2000), (vmcsCtrlCr4Rd, 0),
    (vmcsCtrlEptp, eptP ||| 0x6#64 ||| (3#64 <<< 3))]

theorem requireCap_bind (c : Bool) (msg : String) (f : Unit → Lib.Logged (Nat × BitVec 64) Unit) :
    (requireCap c msg >>= f) =
      if c then f () else Lib.Logged.lift (.error (.panic "virt_control_setup" msg)) := by
  cases c <;> rfl

theorem vmwrites_bind (ws : List (Nat × BitVec 64)) (f : Unit → Lib.Logged (Nat × BitVec 64) Unit) :
    (vmwrites ws >>= f) = ⟨ws ++ (f ()).log, (f ()).outcome⟩ := rfl

theorem of_requireCap {c : Bool} {msg : String} {f : Unit → Lib.Logged (Nat × BitVec 64) Unit}
    (h : (requireCap c msg >>= f).outcome = .ok ()) : c = true ∧ (f ()).outcome = .ok () := by
  cases c with
  | false => cases h
  | true => exact ⟨rfl, h⟩

theorem of_vmwrites {ws : List (Nat × BitVec 64)} {f : Unit → Lib.Logged (Nat × BitVec 64) Unit}
    (h : (vmwrites ws >>= f).outcome = .ok ()) : (f ()).outcome = .ok () := h

theorem ctlsMsr_eq : ctlsMsr p.rdmsr ia32VmxPinbasedCtls ia32VmxTruePinbasedCtls = p.controls 0x481 0x48D ∧
    ctlsMsr p.rdmsr ia32VmxProcbasedCtls ia32VmxTrueProcbasedCtls = p.controls 0x482 0x48E ∧
    ctlsMsr p.rdmsr ia32VmxExitCtls ia32VmxTrueExitCtls = p.controls 0x483 0x48F ∧
    ctlsMsr p.rdmsr ia32VmxEntryCtls ia32VmxTrueEntryCtls = p.controls 0x484 0x490 :=
  ⟨rfl, rfl, rfl, rfl⟩

/-- `virt_control_setup` on a processor that has what it asks for. -/
theorem virtControlSetup_eq (h : p.Supported) :
    virtControlSetup p.rdmsr eptP = ⟨controlWrites p eptP, .ok ()⟩ := by
  obtain ⟨h52, h53, h41⟩ := h.exit
  obtain ⟨h9, h47, h46⟩ := h.entry
  obtain ⟨hpin, hproc, hexit, hentry⟩ := @ctlsMsr_eq p
  simp only [virtControlSetup, hpin, hproc, hexit, hentry, requireCap_bind, vmwrites_bind, h52, h53, h41,
    h9, h47, h46, h.secondary, h.ept, h.unrestricted]
  rfl

theorem supported_of_ok (hunlocked : (p.rdmsr ia32FeatureControl).getLsbD 0 = false)
    (hok : (virtControlSetup p.rdmsr eptP).outcome = .ok ()) : p.Supported := by
  obtain ⟨hpin, hproc, hexit, hentry⟩ := @ctlsMsr_eq p
  simp only [virtControlSetup, hpin, hproc, hexit, hentry] at hok
  obtain ⟨hefer, hok⟩ := of_requireCap hok
  obtain ⟨h41, hok⟩ := of_requireCap hok
  obtain ⟨h9, hok⟩ := of_requireCap (of_vmwrites hok)
  obtain ⟨h47, hok⟩ := of_requireCap hok
  obtain ⟨h46, hok⟩ := of_requireCap hok
  obtain ⟨h63, hok⟩ := of_requireCap (of_vmwrites hok)
  obtain ⟨h33, hok⟩ := of_requireCap (of_vmwrites hok)
  obtain ⟨h39, -⟩ := of_requireCap hok
  obtain ⟨h52, h53⟩ := Bool.and_eq_true_iff.mp hefer
  rw [Bool.not_eq_true'] at h9
  exact ⟨hunlocked, ⟨h52, h53, h41⟩, ⟨h9, h47, h46⟩, h63, h33, h39⟩

/-- All that is written. -/
def allWrites (p : Processor) (cpu : HostCpu) (gdtr entryPoint eptP : BitVec 64) : List (Nat × BitVec 64) :=
  virtGuestSetup p.rdmsr gdtr entryPoint ++ controlWrites p eptP ++ virtHostSetup p.rdmsr (cpu.fixed p.rdmsr)

/-- `virt_percpu_init` when nothing is missing. -/
theorem virtPercpuInit_eq {vm : GuestStart} {a : Acquired} (hp : p.Documented) (ha : a.Placed p)
    (h : p.Supported) (hall : a.Complete) : virtPercpuInit p cpu (some vm) a =
      ⟨allWrites p cpu vm.gdtr vm.entryPoint a.eptP, .ok ()⟩ := by
  simp only [virtPercpuInit, (vmxSetup_ok_iff hp ha).mpr ⟨h.unlocked, hall⟩, Lib.Logged.lift_ok_bind,
    virtControlSetup_eq h, allWrites, List.append_assoc]
  rfl

/-- It does not get to `vmlaunch` otherwise. -/
theorem virtPercpuInit_ok_iff {vm : GuestStart} {a : Acquired} (hp : p.Documented) (ha : a.Placed p) :
    (virtPercpuInit p cpu (some vm) a).outcome = .ok () ↔ p.Supported ∧ a.Complete := by
  constructor
  · intro hok
    simp only [virtPercpuInit, Lib.Logged.outcome_bind, Lib.Logged.outcome_lift, Exec.bind_eq_ok] at hok
    obtain ⟨_, hsetup, _, -, _, hcontrol, -⟩ := hok
    obtain ⟨hunlocked, hall⟩ := (vmxSetup_ok_iff hp ha).mp hsetup
    exact ⟨supported_of_ok hunlocked hcontrol, hall⟩
  · rintro ⟨h, hall⟩
    rw [virtPercpuInit_eq hp ha h hall]

/-- The VMCS after `virt_percpu_init`, over what was in it. -/
def filled (p : Processor) (cpu : HostCpu) (gdtr entryPoint eptP : BitVec 64) (v : Vmcs) : Vmcs :=
  after vmwrite v (allWrites p cpu gdtr entryPoint eptP)

variable {v : Vmcs}

/-- A field that is written. -/
theorem filled_eq {e : Nat} {val : BitVec 64}
    (h : (allWrites p cpu gdtr entryPoint eptP).reverse.lookup e = some val) :
    filled p cpu gdtr entryPoint eptP v e = fieldValue e val := by
  rw [filled, after_vmwrite, h]
  rfl

theorem filled_keeps {e : Nat} {val : BitVec 64}
    (h : (allWrites p cpu gdtr entryPoint eptP).reverse.lookup e = some val) (hval : fieldValue e val = val) :
    filled p cpu gdtr entryPoint eptP v e = val :=
  (filled_eq h).trans hval

/-- A field of 64 bits. -/
theorem filled_wide {e : Nat} {val : BitVec 64}
    (h : (allWrites p cpu gdtr entryPoint eptP).reverse.lookup e = some val) (he : fieldWidth e = 64) :
    filled p cpu gdtr entryPoint eptP v e = val := by
  refine filled_keeps h ?_
  unfold fieldValue
  rw [he, BitVec.setWidth_eq, BitVec.setWidth_eq]

/-- A field of 32 bits. -/
theorem filled_low {e : Nat} {val : BitVec 64}
    (h : (allWrites p cpu gdtr entryPoint eptP).reverse.lookup e = some val) (he : fieldWidth e = 32) :
    filled p cpu gdtr entryPoint eptP v e = (val.setWidth 32).setWidth 64 := by
  rw [filled_eq h, fieldValue, he]

/-- A field for a selector. -/
theorem filled_selector {e : Nat} {sel : BitVec 16}
    (h : (allWrites p cpu gdtr entryPoint eptP).reverse.lookup e = some (sel.setWidth 64))
    (he : fieldWidth e = 16) : filled p cpu gdtr entryPoint eptP v e = sel.setWidth 64 := by
  refine filled_keeps h ?_
  have hback : (sel.setWidth 64).setWidth 16 = sel := by
    rw [BitVec.setWidth_setWidth_of_le _ (by decide), BitVec.setWidth_eq]
  unfold fieldValue
  rw [he, hback]

/-- A field that is not. -/
theorem filled_of_not {e : Nat} (h : (allWrites p cpu gdtr entryPoint eptP).reverse.lookup e = none) :
    filled p cpu gdtr entryPoint eptP v e = v e := by
  rw [filled, after_vmwrite, h]
  rfl

/-! ### The controls -/

theorem filled_pin : filled p cpu gdtr entryPoint eptP v vmcsCtrlPin =
    ((p.controls 0x481 0x48D ||| 0#64).setWidth 32).setWidth 64 := by
  rw [BitVec.or_zero]
  exact filled_low rfl rfl

theorem filled_pproc : filled p cpu gdtr entryPoint eptP v vmcsCtrlPproc =
    ((p.controls 0x482 0x48E ||| (1#64 <<< 31)).setWidth 32).setWidth 64 := filled_low rfl rfl

theorem filled_sproc : filled p cpu gdtr entryPoint eptP v vmcsCtrlSproc =
    ((p.rdmsr ia32VmxProcbasedCtls2 ||| 0x82).setWidth 32).setWidth 64 := filled_low rfl rfl

theorem filled_exit : filled p cpu gdtr entryPoint eptP v vmcsCtrlExit =
    ((p.controls 0x483 0x48F ||| 0x300200).setWidth 32).setWidth 64 := filled_low rfl rfl

theorem filled_entry : filled p cpu gdtr entryPoint eptP v vmcsCtrlEntry =
    ((p.controls 0x484 0x490 ||| 0xC000).setWidth 32).setWidth 64 := filled_low rfl rfl

end Written

/-! ## The control fields -/

section Control

variable {p : Processor} {cpu : HostCpu} {gdtr entryPoint eptP : BitVec 64} {v : Vmcs}
  {default1 bits : List Nat} {msr extra : BitVec 64} {i : Nat}

/-- A field of 32 bits. -/
theorem getLsbD_low (x : BitVec 64) :
    ((x.setWidth 32).setWidth 64).getLsbD i = (decide (i < 32) && x.getLsbD i) := by
  rw [BitVec.getLsbD_setWidth, BitVec.getLsbD_setWidth]
  by_cases hi : i < 32
  · rw [decide_eq_true (Nat.lt_trans hi (by decide)), Bool.true_and]
  · rw [decide_eq_false hi, Bool.false_and, Bool.and_false]

/-- A control that is set besides. -/
theorem getLsbD_low_or (hi : i < 32) (hbit : extra.getLsbD i = true) :
    (((msr ||| extra).setWidth 32).setWidth 64).getLsbD i = true := by
  rw [getLsbD_low, BitVec.getLsbD_or, hbit, Bool.or_true, decide_eq_true hi, Bool.true_and]

/-- What must be 1 and some bits that may be 1. -/
theorem ReportsControls.allowed (h : ReportsControls default1 msr)
    (hextra : ∀ i < 32, extra.getLsbD i = true → msr.getLsbD (32 + i) = true) :
    Allowed msr (((msr ||| extra).setWidth 32).setWidth 64) := by
  intro i hi
  rw [getLsbD_low, BitVec.getLsbD_or, decide_eq_true hi, Bool.true_and, Bool.or_eq_true]
  refine ⟨Or.inl, ?_⟩
  rintro (hmsr | hbit)
  · exact h.may i hi hmsr
  · exact hextra i hi hbit

/-- Bits that neither must be 1 nor are among those that are set besides. -/
theorem ReportsControls.off (h : ReportsControls default1 msr)
    (hbits : ∀ i ∈ bits, i < 32 ∧ i ∉ default1 ∧ extra.getLsbD i = false) :
    Off (((msr ||| extra).setWidth 32).setWidth 64) bits := by
  intro i hi
  obtain ⟨hlt, hdefault, hextra⟩ := hbits i hi
  have hmsr : msr.getLsbD i = false := by
    rw [← Bool.not_eq_true]
    exact fun hbit => hdefault (h.default1 i hlt hbit)
  rw [getLsbD_low, BitVec.getLsbD_or, hmsr, hextra, Bool.false_or, Bool.and_false]

/-- The EPT pointer that is written is valid exactly if the processor has such tables. -/
theorem eptpValid_iff (hp : p.Documented) (halign : getField eptP 0 12 = 0)
    (hplace : eptP.toNat < 2 ^ p.physBits) :
    EptpValid p (eptP ||| 0x6#64 ||| (3#64 <<< 3)) ↔
      (p.rdmsr ia32VmxEptVpidCap).getLsbD 14 = true ∧ (p.rdmsr ia32VmxEptVpidCap).getLsbD 6 = true := by
  have hlow : ∀ j < 12, eptP.getLsbD j = false := by
    intro j hj
    have hbit : (getField eptP 0 12).getLsbD j = false := by
      rw [halign]
      exact BitVec.getLsbD_zero
    rwa [getLsbD_getField, decide_eq_true hj, Bool.true_and, Nat.zero_add] at hbit
  have hfield : ∀ off len, off + len ≤ 12 →
      getField (eptP ||| 0x6#64 ||| (3#64 <<< 3)) off len = getField 0x1E#64 off len := by
    intro off len hle
    refine BitVec.eq_of_getLsbD_eq fun j hj => ?_
    have hconst : (0x6#64 ||| (3#64 <<< 3)) = 0x1E#64 := by decide
    rw [getLsbD_getField, getLsbD_getField, BitVec.or_assoc, hconst, BitVec.getLsbD_or,
      hlow (off + j) (by omega), Bool.false_or]
  have hbound : (eptP ||| 0x6#64 ||| (3#64 <<< 3)).toNat < 2 ^ p.physBits := by
    have hsmall : (30 : Nat) < 2 ^ p.physBits :=
      Nat.lt_of_lt_of_le (by decide) (Nat.pow_le_pow_right (by decide) hp.physBits)
    rw [BitVec.or_assoc, BitVec.toNat_or]
    exact Nat.or_lt_two_pow hplace hsmall
  simp only [EptpValid, hfield 0 3 (by decide), hfield 3 3 (by decide), hfield 6 6 (by decide), hbound]
  have h0 : getField 0x1E#64 0 3 = 6 := by decide
  have h3 : getField 0x1E#64 3 3 = 3 := by decide
  have h6 : getField 0x1E#64 6 6 = 0 := by decide
  simp [h0, h3, h6]

/-- The control words have what the processor reports. -/
theorem controls_allowed (hp : p.Documented) (hs : p.Supported) :
    Allowed (p.controls 0x481 0x48D) (filled p cpu gdtr entryPoint eptP v vmcsCtrlPin) ∧
      Allowed (p.controls 0x482 0x48E) (filled p cpu gdtr entryPoint eptP v vmcsCtrlPproc) ∧
      Allowed (p.rdmsr ia32VmxProcbasedCtls2) (filled p cpu gdtr entryPoint eptP v vmcsCtrlSproc) ∧
      Allowed (p.controls 0x483 0x48F) (filled p cpu gdtr entryPoint eptP v vmcsCtrlExit) ∧
      Allowed (p.controls 0x484 0x490) (filled p cpu gdtr entryPoint eptP v vmcsCtrlEntry) := by
  rw [filled_pin, filled_pproc, filled_sproc, filled_exit, filled_entry]
  refine ⟨hp.pin.allowed fun i _ hbit => ?_, hp.proc.allowed fun i hi hbit => ?_,
    hp.secondary.allowed fun i hi hbit => ?_, hp.exit.allowed fun i hi hbit => ?_,
    hp.entry.allowed fun i hi hbit => ?_⟩
  · rw [BitVec.getLsbD_zero] at hbit
    cases hbit
  · obtain rfl : i = 31 := (by decide : ∀ i < 32, (1#64 <<< 31).getLsbD i = true → i = 31) i hi hbit
    exact hs.secondary
  · rcases (by decide : ∀ i < 32, (0x82 : BitVec 64).getLsbD i = true → i = 1 ∨ i = 7) i hi hbit with
      rfl | rfl
    · exact hs.ept
    · exact hs.unrestricted
  · rcases (by decide : ∀ i < 32, (0x300200 : BitVec 64).getLsbD i = true → i = 9 ∨ i = 20 ∨ i = 21)
      i hi hbit with rfl | rfl | rfl
    · exact hs.exit.2.2
    · exact hs.exit.1
    · exact hs.exit.2.1
  · rcases (by decide : ∀ i < 32, (0xC000 : BitVec 64).getLsbD i = true → i = 14 ∨ i = 15) i hi hbit with
      rfl | rfl
    · exact hs.entry.2.2
    · exact hs.entry.2.1

/-- No secondary control is set but EPT and unrestricted guest. -/
theorem sproc_off (hp : p.Documented) :
    ∀ i < 32, i ≠ 1 → i ≠ 7 → (filled p cpu gdtr entryPoint eptP v vmcsCtrlSproc).getLsbD i = false := by
  intro i hi h1 h7
  have hextra := (by decide : ∀ i < 32, i ≠ 1 → i ≠ 7 → (0x82 : BitVec 64).getLsbD i = false) i hi h1 h7
  have honly : ∀ j ∈ [i], j < 32 ∧ j ∉ ([] : List Nat) ∧ (0x82 : BitVec 64).getLsbD j = false := by
    intro j hj
    rw [List.mem_singleton.mp hj]
    exact ⟨hi, List.not_mem_nil, hextra⟩
  rw [filled_sproc]
  exact hp.secondary.off honly i (List.mem_singleton_self i)

/-- The control fields pass exactly if the EPT pointer does. -/
theorem controlChecks_iff (hp : p.Documented) (hs : p.Supported) (halign : getField eptP 0 12 = 0)
    (hplace : eptP.toNat < 2 ^ p.physBits) :
    ControlChecks p (filled p cpu gdtr entryPoint eptP v) ↔
      (p.rdmsr ia32VmxEptVpidCap).getLsbD 14 = true ∧ (p.rdmsr ia32VmxEptVpidCap).getLsbD 6 = true := by
  have heptp : filled p cpu gdtr entryPoint eptP v vmcsCtrlEptp = eptP ||| 0x6#64 ||| (3#64 <<< 3) :=
    filled_wide rfl rfl
  have hept : (filled p cpu gdtr entryPoint eptP v vmcsCtrlSproc).getLsbD 1 = true := by
    rw [filled_sproc]
    exact getLsbD_low_or (by decide) (by decide)
  rw [← eptpValid_iff hp halign hplace, ← heptp]
  constructor
  · intro h
    have hon : (filled p cpu gdtr entryPoint eptP v vmcsCtrlPproc).getLsbD 31 = true := by
      rw [filled_pproc]
      exact getLsbD_low_or (by decide) (by decide)
    exact (h.secondary hon).2.1 hept
  · intro hvalid
    obtain ⟨hpin, hproc, hproc2, hexit, hentry⟩ := controls_allowed (v := v) hp hs
    have hcount : filled p cpu gdtr entryPoint eptP v vmcsCtrlCr3Cnt = 0 := filled_keeps rfl (by decide)
    have hnone : filled p cpu gdtr entryPoint eptP v vmcsCtrlEntryInt = 0 := filled_keeps rfl (by decide)
    refine ⟨hpin, hproc, fun _ => ⟨hproc2, fun _ => hvalid, fun _ => hept⟩, ?_, hexit, hentry, ?_⟩
    · rw [hcount]
      decide
    · rw [filled_pin, filled_pproc, filled_exit, filled_entry, hnone]
      exact ⟨hp.pin.off (by decide), hp.proc.off (by decide), sproc_off hp, hp.exit.off (by decide),
        hp.entry.off (by decide), filled_keeps rfl (by decide), filled_keeps rfl (by decide),
        filled_keeps rfl (by decide), rfl⟩

end Control

/-! ## The host -/

section Host

variable {p : Processor} {cpu : HostCpu} {gdtr entryPoint eptP : BitVec 64} {v : Vmcs} {i : Nat}

/-- The controls that are set besides. -/
theorem exit_bit (hi : i < 32) (hbit : (0x300200 : BitVec 64).getLsbD i = true) :
    (filled p cpu gdtr entryPoint eptP v vmcsCtrlExit).getLsbD i = true := by
  rw [filled_exit]
  exact getLsbD_low_or hi hbit

theorem getField_setWidth (sel : BitVec 16) : getField (sel.setWidth 64) 0 3 = getField sel 0 3 := by
  refine BitVec.eq_of_getLsbD_eq fun j hj => ?_
  rw [getLsbD_getField, getLsbD_getField, BitVec.getLsbD_setWidth, decide_eq_true (by omega : 0 + j < 64),
    Bool.true_and]

theorem setWidth_ne_zero {sel : BitVec 16} (h : sel ≠ 0) : sel.setWidth 64 ≠ 0 := by
  intro heq
  apply h
  have hback := congrArg (fun w => w.setWidth 16) heq
  simpa using hback

/-- The host passes exactly if the fields for `SYSENTER` do. -/
theorem hostChecks_iff (hp : p.Documented) (hcpu : cpu.Long p) :
    HostChecks p (filled p cpu gdtr entryPoint eptP v) ↔
      Canonical (v hostSysenterEsp) ∧ Canonical (v hostSysenterEip) := by
  have hesp : filled p cpu gdtr entryPoint eptP v hostSysenterEsp = v hostSysenterEsp := filled_of_not rfl
  have heip : filled p cpu gdtr entryPoint eptP v hostSysenterEip = v hostSysenterEip := filled_of_not rfl
  rw [← hesp, ← heip]
  refine ⟨HostChecks.sysenter, fun hsysenter => ?_⟩
  have hcr0 : filled p cpu gdtr entryPoint eptP v vmcsHostCr0 =
      (cpu.cr0 ||| p.rdmsr ia32VmxCr0Fixed0) &&& p.rdmsr ia32VmxCr0Fixed1 := filled_wide rfl rfl
  have hcr4 : filled p cpu gdtr entryPoint eptP v vmcsHostCr4 =
      (cpu.cr4 ||| p.rdmsr ia32VmxCr4Fixed0) &&& p.rdmsr ia32VmxCr4Fixed1 := filled_wide rfl rfl
  have hcr3 : filled p cpu gdtr entryPoint eptP v vmcsHostCr3 = cpu.cr3 := filled_wide rfl rfl
  have hefer : filled p cpu gdtr entryPoint eptP v vmcsHostEfer = p.rdmsr ia32Efer := filled_wide rfl rfl
  have hcs : filled p cpu gdtr entryPoint eptP v vmcsHostCsSel = cpu.cs.setWidth 64 :=
    filled_selector rfl rfl
  have htr : filled p cpu gdtr entryPoint eptP v vmcsHostTrSel = cpu.tr.setWidth 64 :=
    filled_selector rfl rfl
  constructor
  · rw [hcr0]
    exact fixed_or_and cpu.cr0 _ hp.cr0
  · rw [hcr4]
    exact fixed_or_and cpu.cr4 _ hp.cr4
  · rw [hcr3]
    exact hcpu.cr3
  · exact hsysenter
  · intro _
    rw [hefer, exit_bit (by decide) (by decide)]
    exact hcpu.efer
  · have hsel : ∀ (e : Nat) (sel : BitVec 16),
        (allWrites p cpu gdtr entryPoint eptP).reverse.lookup e = some (sel.setWidth 64) → fieldWidth e = 16 →
          getField sel 0 3 = 0 → getField (filled p cpu gdtr entryPoint eptP v e) 0 3 = 0 := by
      intro e sel hwritten hwidth hzero
      rw [filled_selector hwritten hwidth, getField_setWidth, hzero]
    have hsels := hcpu.selectors
    simp only [List.forall_mem_cons] at hsels
    obtain ⟨hes, hcs, hss, hds, hfs, hgs, htr, -⟩ := hsels
    simp only [hostSelectors, List.forall_mem_cons]
    exact ⟨hsel _ cpu.es rfl rfl hes, hsel _ cpu.cs rfl rfl hcs, hsel _ cpu.ss rfl rfl hss,
      hsel _ cpu.ds rfl rfl hds, hsel _ cpu.fs rfl rfl hfs, hsel _ cpu.gs rfl rfl hgs,
      hsel _ cpu.tr rfl rfl htr, nofun⟩
  · rw [hcs]
    exact setWidth_ne_zero hcpu.cs
  · rw [htr]
    exact setWidth_ne_zero hcpu.tr
  · have haddr : ∀ e val, (allWrites p cpu gdtr entryPoint eptP).reverse.lookup e = some val →
        fieldWidth e = 64 → Canonical val → Canonical (filled p cpu gdtr entryPoint eptP v e) := by
      intro e val hwritten hwidth hcanon
      rwa [filled_wide hwritten hwidth]
    simp only [hostAddresses, List.forall_mem_cons]
    exact ⟨haddr _ _ rfl rfl hp.fs, haddr _ _ rfl rfl hp.gs, haddr _ _ rfl rfl hcpu.tss,
      haddr _ _ rfl rfl hcpu.gdtr, haddr _ _ rfl rfl hcpu.idtr, haddr _ _ rfl rfl hcpu.virtMain, nofun⟩
  · exact exit_bit (by decide) (by decide)
  · rw [hcr4, BitVec.getLsbD_and, BitVec.getLsbD_or, hcpu.pae, hp.pae]
    rfl

end Host

/-! ## The guest -/

section Guest

variable {p : Processor} {cpu : HostCpu} {gdtr entryPoint eptP : BitVec 64} {v : Vmcs}

/-- A segment register of the guest. -/
theorem filled_segment {i : Nat} {s : Segment}
    (hsel : (allWrites p cpu gdtr entryPoint eptP).reverse.lookup (0x800 + 2 * i) = some s.sel)
    (hbase : (allWrites p cpu gdtr entryPoint eptP).reverse.lookup (0x6806 + 2 * i) = some s.base)
    (hlimit : (allWrites p cpu gdtr entryPoint eptP).reverse.lookup (0x4800 + 2 * i) = some s.limit)
    (hrights : (allWrites p cpu gdtr entryPoint eptP).reverse.lookup (0x4814 + 2 * i) = some s.rights)
    (hkeeps : fieldValue (0x800 + 2 * i) s.sel = s.sel ∧ fieldValue (0x6806 + 2 * i) s.base = s.base ∧
      fieldValue (0x4800 + 2 * i) s.limit = s.limit ∧ fieldValue (0x4814 + 2 * i) s.rights = s.rights) :
    (filled p cpu gdtr entryPoint eptP v).segment i = s := by
  obtain ⟨h1, h2, h3, h4⟩ := hkeeps
  rw [Vmcs.segment, filled_keeps hsel h1, filled_keeps hbase h2, filled_keeps hlimit h3,
    filled_keeps hrights h4]

/-- A flat segment for data. -/
def flatData : Segment := ⟨0x18, 0, 0xFFFFFFFF, 0xC093⟩

theorem flatData_stack : flatData.Stack :=
  ⟨⟨by decide, by decide, by decide, by decide, by decide⟩, by decide, by decide⟩

theorem flatData_data : flatData.Data :=
  ⟨⟨by decide, by decide, by decide, by decide, by decide⟩, by decide, by decide⟩

/-- A flat segment for code. -/
def flatCode : Segment := ⟨0x10, 0, 0xFFFFFFFF, 0xC09B⟩

theorem flatCode_code : flatCode.Code flatData.dpl :=
  ⟨⟨by decide, by decide, by decide, by decide, by decide⟩, by decide, by decide, by decide⟩

/-- The TSS of the guest. -/
def guestTask : Segment := ⟨0, 0, 0xFFFFF, 0x408B⟩

theorem guestTask_task : guestTask.Task :=
  ⟨⟨by decide, by decide, by decide, by decide, by decide⟩, by decide, by decide, by decide, by decide⟩

/-- CR0 of the guest: what is fixed to 1, without paging. -/
theorem guest_cr0 (hp : p.Documented) : Fixed (p.rdmsr ia32VmxCr0Fixed0) (p.rdmsr ia32VmxCr0Fixed1)
    [0, 29, 30, 31] (p.rdmsr ia32VmxCr0Fixed0 &&& p.rdmsr ia32VmxCr0Fixed1 &&& 0x7FFFFFFF) := by
  intro i hi hother
  rw [BitVec.getLsbD_and, BitVec.getLsbD_and, Bool.and_eq_true, Bool.and_eq_true]
  refine ⟨fun h0 => ⟨⟨h0, hp.cr0 i hi h0⟩, ?_⟩, fun h => h.1.2⟩
  have hlow : i < 31 := by
    have hne : i ≠ 31 := fun heq => hother (by rw [heq]; decide)
    by_contra hhigh
    rw [hp.cr0High i (by omega)] at h0
    cases h0
  exact (by decide : ∀ i < 31, (0x7FFFFFFF : BitVec 64).getLsbD i = true) i hlow

/-- An LDTR that is not used. -/
def guestTable : Segment := ⟨0, 0, 0xFFFFF, 0x10082⟩

/-- The segment registers of the guest. -/
theorem guest_segments :
    (filled p cpu gdtr entryPoint eptP v).segment 1 = flatCode ∧
      (∀ i ∈ [0, 2, 3, 4, 5], (filled p cpu gdtr entryPoint eptP v).segment i = flatData) ∧
      (filled p cpu gdtr entryPoint eptP v).segment 6 = guestTable ∧
      (filled p cpu gdtr entryPoint eptP v).segment 7 = guestTask := by
  simp only [List.forall_mem_cons]
  exact ⟨filled_segment rfl rfl rfl rfl (by decide),
    ⟨filled_segment rfl rfl rfl rfl (by decide), filled_segment rfl rfl rfl rfl (by decide),
      filled_segment rfl rfl rfl rfl (by decide), filled_segment rfl rfl rfl rfl (by decide),
      filled_segment rfl rfl rfl rfl (by decide), nofun⟩,
    filled_segment rfl rfl rfl rfl (by decide), filled_segment rfl rfl rfl rfl (by decide)⟩

/-- The guest always passes. -/
theorem guestChecks (hp : p.Documented) (hs : p.Supported) (hgdtr : Canonical gdtr)
    (hrip : entryPoint.toNat < 2 ^ 32) : GuestChecks p (filled p cpu gdtr entryPoint eptP v) := by
  have hcr0 : filled p cpu gdtr entryPoint eptP v vmcsGuestCr0 =
      p.rdmsr ia32VmxCr0Fixed0 &&& p.rdmsr ia32VmxCr0Fixed1 &&& 0x7FFFFFFF := filled_wide rfl rfl
  have hcr4 : filled p cpu gdtr entryPoint eptP v vmcsGuestCr4 =
      p.rdmsr ia32VmxCr4Fixed0 &&& p.rdmsr ia32VmxCr4Fixed1 := filled_wide rfl rfl
  have hzero : ∀ e, (allWrites p cpu gdtr entryPoint eptP).reverse.lookup e = some 0 →
      fieldValue e 0 = 0 → filled p cpu gdtr entryPoint eptP v e = 0 := fun e => filled_keeps
  obtain ⟨hcs, hflat, hldtr, htr⟩ := @guest_segments p cpu gdtr entryPoint eptP v
  simp only [List.forall_mem_cons] at hflat
  obtain ⟨hes, hss, hds, hfs, hgs, -⟩ := hflat
  have hnotLong : (filled p cpu gdtr entryPoint eptP v vmcsCtrlEntry).getLsbD 9 = false := by
    rw [filled_entry, getLsbD_low, BitVec.getLsbD_or, hs.entry.1]
    rfl
  constructor
  · rw [filled_pproc, filled_sproc]
    exact ⟨getLsbD_low_or (by decide) (by decide), getLsbD_low_or (by decide) (by decide)⟩
  · rw [hcr0]
    exact guest_cr0 hp
  · rw [hcr4]
    intro i hi _
    rw [BitVec.getLsbD_and, Bool.and_eq_true]
    exact ⟨fun h0 => ⟨h0, hp.cr4 i hi h0⟩, And.right⟩
  · rw [hcr0, BitVec.getLsbD_and]
    exact Bool.and_false _
  · rw [hcr4, BitVec.getLsbD_and, hp.pcid, Bool.false_and]
  · rw [hzero vmcsGuestCr3 rfl (by decide)]
    exact Nat.two_pow_pos _
  · intro _
    rw [hzero vmcsGuestDr7 rfl (by decide), hzero vmcsGuestDebugctl rfl (by decide)]
    decide
  · rw [hzero vmcsGuestSysEsp rfl (by decide), hzero vmcsGuestSysEip rfl (by decide)]
    decide
  · intro _
    have hpat : filled p cpu gdtr entryPoint eptP v vmcsGuestPat = p.rdmsr ia32Pat := filled_wide rfl rfl
    rw [hpat]
    exact hp.pat
  · intro _
    rw [hnotLong, hzero vmcsGuestEfer rfl (by decide)]
    exact ⟨by decide, rfl⟩
  · rw [hcs, hss]
    exact flatCode_code
  · rw [hss]
    exact fun _ => flatData_stack
  · rw [hss]
    exact fun _ => by decide
  · simp only [List.forall_mem_cons, hes, hds, hfs, hgs]
    exact ⟨fun _ => flatData_data, fun _ => flatData_data, fun _ => flatData_data, fun _ => flatData_data,
      nofun⟩
  · simp only [List.forall_mem_cons, hes, hds]
    exact ⟨fun _ => by decide, fun _ => by decide, nofun⟩
  · simp only [List.forall_mem_cons, hfs, hgs]
    exact ⟨by decide, by decide, nofun⟩
  · rw [hldtr]
    exact fun husable => absurd husable (by decide)
  · rw [htr]
    exact guestTask_task
  · have hbase : filled p cpu gdtr entryPoint eptP v vmcsGuestGdtrBase = gdtr := filled_wide rfl rfl
    have hlimit : ∀ e ∈ [vmcsGuestGdtrLmt, vmcsGuestIdtrLmt],
        filled p cpu gdtr entryPoint eptP v e = 0xFFFF := by
      simp only [List.forall_mem_cons]
      exact ⟨filled_keeps rfl (by decide), filled_keeps rfl (by decide), nofun⟩
    rw [hbase, hzero vmcsGuestIdtrBase rfl (by decide), hlimit _ (by decide), hlimit _ (by decide)]
    exact ⟨hgdtr, by decide, by decide, by decide⟩
  · have hat : filled p cpu gdtr entryPoint eptP v vmcsGuestRip = entryPoint := filled_wide rfl rfl
    rw [hat]
    exact hrip
  · have hflags : filled p cpu gdtr entryPoint eptP v vmcsGuestRflags = 2 := filled_keeps rfl (by decide)
    rw [hflags]
    exact ⟨by unfold Off; decide, by decide, by decide⟩
  · exact ⟨hzero vmcsGuestActive rfl (by decide), hzero vmcsGuestInt rfl (by decide),
      hzero vmcsGuestDebug rfl (by decide)⟩
  · exact filled_wide rfl rfl

end Guest

/-! ## The law -/

/-- What the processor checks of a VMCS that `virt_percpu_init` has filled. -/
theorem vm_entry_iff (p : Processor) (cpu : HostCpu) (vm : GuestStart) (a : Acquired) (hp : p.Documented)
    (hcpu : cpu.Long p) (ha : a.Placed p) (hgdtr : Canonical vm.gdtr) (hrip : vm.entryPoint.toNat < 2 ^ 32)
    (halign : getField a.eptP 0 12 = 0) (hplace : a.eptP.toNat < 2 ^ p.physBits) :
    ((virtPercpuInit p cpu (some vm) a).outcome = .ok () ↔ p.Supported ∧ a.Complete) ∧
      ∀ v, (virtPercpuInit p cpu (some vm) a).outcome = .ok () →
        (VmEntry p (after vmwrite v (virtPercpuInit p cpu (some vm) a).log) ↔
          (Canonical (v hostSysenterEsp) ∧ Canonical (v hostSysenterEip)) ∧
            (p.rdmsr ia32VmxEptVpidCap).getLsbD 14 = true ∧ (p.rdmsr ia32VmxEptVpidCap).getLsbD 6 = true) := by
  refine ⟨virtPercpuInit_ok_iff hp ha, fun v hok => ?_⟩
  obtain ⟨hs, hall⟩ := (virtPercpuInit_ok_iff hp ha).mp hok
  rw [virtPercpuInit_eq hp ha hs hall]
  change VmEntry p (filled p cpu vm.gdtr vm.entryPoint a.eptP v) ↔ _
  constructor
  · intro h
    exact ⟨(hostChecks_iff hp hcpu).mp h.host, (controlChecks_iff hp hs halign hplace).mp h.control⟩
  · rintro ⟨hsysenter, hept⟩
    exact ⟨(controlChecks_iff hp hs halign hplace).mpr hept, (hostChecks_iff hp hcpu).mpr hsysenter,
      guestChecks hp hs hgdtr hrip⟩

/-- A processor with the controls that the code asks for, whose firmware has not locked the MSR. -/
def capable : Processor where
  rdmsr msr :=
    match msr with
    | 0x277 => 0x0007040600070406
    | 0x480 => 0x00DA040000000004
    | 0x486 => 0x80000021
    | 0x487 => 0xFFFFFFFF
    | 0x488 => 0x2000
    | 0x489 => 0x3767FF
    | 0x48B => 0x000000FF00000000
    | 0x48C => 0x06114141
    | 0x48D => 0x0000007F00000016
    | 0x48E => 0xFFF9FFFE04006172
    | 0x48F => 0x007FFFFF00036DFB
    | 0x490 => 0x0000FFFF000011FB
    | 0xC0000080 => 0xD01
    | _ => 0
  physBits := 39

theorem capable_documented : capable.Documented where
  pin := ⟨by decide, by decide⟩
  proc := ⟨by decide, by decide⟩
  exit := ⟨by decide, by decide⟩
  entry := ⟨by decide, by decide⟩
  secondary := ⟨by decide, by decide⟩
  cr0 := by decide
  cr4 := by decide
  cr0High i hi := Nat.testBit_lt_two_pow
    (Nat.lt_of_lt_of_le (by decide : (capable.rdmsr ia32VmxCr0Fixed0).toNat < 2 ^ 32)
      (Nat.pow_le_pow_right (by decide) hi))
  pcid := by decide
  vmxe := by decide
  pae := by decide
  pat := by unfold PatValid; decide
  fs := by decide
  gs := by decide
  physBits := by decide
  revision := by decide

/-- A CPU of the kernel. -/
def kernelCpu : HostCpu :=
  ⟨0x80010011, 0x1000, 0x20, 0x8, 0, 0, 0x10, 0, 0, 0x28, 0, 0, 0, Smp.emptyGdt, 0x100000⟩

theorem kernelCpu_long : kernelCpu.Long capable where
  cr3 := by decide
  pae := by decide
  efer := by unfold EferValid; decide
  selectors := by
    simp only [List.forall_mem_cons]
    exact ⟨by decide, by decide, by decide, by decide, by decide, by decide, by decide, nofun⟩
  cs := by decide
  tr := by decide
  tss := by
    have hbase : Smp.getGdtTssBase kernelCpu.gdt kernelCpu.tr = 0 := by decide
    rw [hbase]
    decide
  gdtr := by decide
  idtr := by decide
  virtMain := by decide

/-- A guest with its EPT at `0x2000`, and frames behind it. -/
def given : Acquired := ⟨0x5000, 0x400000, 0x6000, 0x400000, 0x2000⟩

/-- On such a processor the guest is entered, if the frame of the VMCS was zeroed. -/
theorem vm_entry_iff_capable :
    VmEntry capable (after vmwrite (fun _ => 0#64)
      (virtPercpuInit capable kernelCpu (some ⟨0, 0x100000⟩) given).log) := by
  have hgiven : given.Placed capable := ⟨by decide, by decide, by decide⟩
  obtain ⟨hok, hentry⟩ := vm_entry_iff capable kernelCpu ⟨0, 0x100000⟩ given capable_documented kernelCpu_long
    hgiven (by decide) (by decide) (by decide) (by decide)
  have hs : capable.Supported := ⟨by decide, by decide, by decide, by decide, by decide, by decide⟩
  have hall : given.Complete := ⟨by decide, by decide, by decide, by decide⟩
  exact (hentry (fun _ => 0#64) (hok.mpr ⟨hs, hall⟩)).mpr ⟨by decide, by decide⟩

end Rtv.Virt
