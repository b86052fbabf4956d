import Rtv.Lib.Bytes
import Rtv.Lib.Exec

/-!
# The CPUs of the MADT

`kernel/acpi.c: acpi_parse_apic` walks the records of the MADT and `acpi_add_cpu` collects the
LAPIC ids of the enabled CPUs other than the bootstrap CPU, which `acpi_sec_init` later boots one
after the other. `interrupt/apic.c: lapic_init` stores the LAPIC id of the running CPU in
`lapic_phys_ids`, where `lapic_get_phys_id` finds it. `kernel_main` calls `acpi_init` first and
`lapic_init` after it.

The walk is over bytes of memory. `acpiParseApic_eq` reads it as a loop over the records that lie
there.

## What is proved

When the MADT is parsed, `lapic_phys_ids` is still as it was loaded, all zero. So the CPU that is
left out is the one with the LAPIC id 0, whichever CPU is running (`parsed_spec`).

- `enumerated_iff`: the CPUs are enumerated rightly exactly if the bootstrap CPU's LAPIC id is 0,
  or neither 0 nor that id belongs to an enabled record.
- `enumerates_itself`: with a bootstrap CPU of LAPIC id 1 and CPU 0 enabled, it is itself on the
  list, and CPU 0 is not.
-/

namespace Rtv.Boot

open Rtv.Lib

/-! ## The variables -/

/-- `MAX_CPUS` of `default_config.mk`. -/
def maxCpus : Nat := 16

/-- `MAX_IRQ_OVERRIDES`. -/
def maxIrqOverrides : Nat := 32

/-- An entry of `irq_map`. -/
structure IrqOverride where
  irq : UInt8
  flags : Nat
  gsi : Nat
deriving DecidableEq, Repr

/-- The variables of `acpi.c` and `apic.c` that `acpi_parse_apic` and `lapic_init` touch. -/
structure Acpi where
  gCpus : Nat
  lapicIds : Nat → UInt8
  irqMap : Nat → IrqOverride
  numOverrides : Nat
  numIoapic : Nat
  lapicAddr : Nat
  ioapicAddr : Nat
  gsiBase : Nat
  lapicPhysIds : Nat → UInt8

/-- The variables as they are loaded; what the two device addresses start with does not matter. -/
def Acpi.loaded : Acpi where
  gCpus := 1
  lapicIds _ := 0
  irqMap _ := ⟨0, 0, 0⟩
  numOverrides := 0
  numIoapic := 0
  lapicAddr := 0
  ioapicAddr := 0
  gsiBase := 0
  lapicPhysIds _ := 0

/-- `get_pcpu_id()` on the bootstrap CPU, the first to run `percpu_init`. -/
def bspPcpuId : Nat := 0

/-! ## Parsing -/

/-- `lapic_get_phys_id`. -/
def lapicGetPhysId (s : Acpi) (cpu : Nat) : UInt8 := s.lapicPhysIds cpu

/-- `acpi_add_cpu`, given the fields of the record it reads. The store comes before the check. -/
def acpiAddCpu (s : Acpi) (apicId : UInt8) (flags : Nat) : Exec (Bool × Acpi) :=
  if flags % 2 = 0 then return (true, s)
  else if apicId = lapicGetPhysId s bspPcpuId then return (false, s)
  else
    let s := { s with
      lapicIds := fun i => if i = s.gCpus then apicId else s.lapicIds i
      gCpus := (s.gCpus + 1) % 2 ^ 16 }
    if s.gCpus > maxCpus then .error (.panic "acpi_add_cpu" "Exceeds supported max CPUs")
    else return (true, s)

/-- The branch for an I/O APIC. -/
def addIoapic (s : Acpi) (address gsiBase : Nat) : Exec Acpi :=
  let s := { s with
    ioapicAddr := address
    gsiBase := gsiBase
    numIoapic := (s.numIoapic + 1) % 2 ^ 16 }
  if s.numIoapic > 1 then .error (.panic "acpi_parse_apic" "Multiple IOAPIC not supported")
  else return s

/-- The branch for an interrupt override. -/
def addOverride (s : Acpi) (bus irq : UInt8) (gsi flags : Nat) : Exec Acpi :=
  if bus ≠ 0 then .error (.panic "acpi_parse_apic" "Only bus 0 is supported")
  else
    let s := { s with
      irqMap := fun i => if i = s.numOverrides then ⟨irq, flags, gsi⟩ else s.irqMap i
      numOverrides := (s.numOverrides + 1) % 2 ^ 8 }
    if s.numOverrides > maxIrqOverrides then
      .error (.panic "acpi_parse_apic" "Exceeds supported max overrides")
    else return s

/-- `APIC_TYPE_LAPIC`. -/
def apicTypeLapic : UInt8 := 0

/-- `APIC_TYPE_IOAPIC`. -/
def apicTypeIoapic : UInt8 := 1

/-- `APIC_TYPE_INTERRUPT_OVERRIDE`. -/
def apicTypeInterruptOverride : UInt8 := 2

/-- The body of the `while` loop of `acpi_parse_apic`, before `p` moves on. -/
def parseApicBody (m : Bytes) (p : Nat) (s : Acpi) : Exec Acpi :=
  let type := m p
  if type = apicTypeLapic then do
    let (_, s) ← acpiAddCpu s (m (p + 3)) (m.loadLE (p + 4) 4)
    return s
  else if type = apicTypeIoapic then
    addIoapic s (m.loadLE (p + 4) 4) (m.loadLE (p + 8) 4)
  else if type = apicTypeInterruptOverride then
    addOverride s (m (p + 2)) (m (p + 3)) (m.loadLE (p + 4) 4) (m.loadLE (p + 8) 2)
  else
    return s

/-- The `while` loop of `acpi_parse_apic`. -/
def parseApicLoop (m : Bytes) (fin : Nat) : Nat → Nat → Acpi → Exec Acpi
  | 0, _, _ => .error .hang
  | fuel + 1, p, s =>
    if p < fin then do
      let length := m (p + 1)
      let s ← parseApicBody m p s
      parseApicLoop m fin fuel (p + length.toNat) s
    else return s

/-- `sizeof(acpi_madt_t)`. -/
def madtSize : Nat := 44

/-- `madt->header.length`. -/
def madtLength (m : Bytes) (madt : Nat) : Nat := m.loadLE (madt + 4) 4

/-- `acpi_parse_apic` on the table at `madt`. -/
def acpiParseApic (m : Bytes) (madt : Nat) (s : Acpi) : Exec Acpi :=
  parseApicLoop m (madt + madtLength m madt) loopFuel (madt + madtSize)
    { s with lapicAddr := m.loadLE (madt + 36) 4 }

/-- `lapic_get_phys_id_raw`, given what the LAPIC's id register reads. -/
def lapicGetPhysIdRaw (lapicId : UInt32) : UInt8 := ((lapicId >>> 24) &&& 0xF).toUInt8

/-- What `lapic_init` does to `lapic_phys_ids` on the bootstrap CPU. -/
def lapicInit (s : Acpi) (lapicId : UInt32) : Acpi :=
  { s with
    lapicPhysIds := fun cpu => if cpu = bspPcpuId then lapicGetPhysIdRaw lapicId
      else s.lapicPhysIds cpu }

/-- `kernel_main` from `acpi_init` on, as far as the CPUs are concerned: first the MADT is parsed,
then the bootstrap CPU's LAPIC is set up. -/
def kernelMainCpus (m : Bytes) (madt : Nat) (lapicId : UInt32) : Exec Acpi := do
  let s ← acpiParseApic m madt .loaded
  return lapicInit s lapicId

/-- The LAPIC ids that `acpi_sec_init` calls `smp_boot_cpu` with, in order. -/
def secInitTargets (s : Acpi) : List UInt8 := (List.range' 1 (s.gCpus - 1)).map s.lapicIds

/-! ## The records of the table -/

/-- A record of the MADT. -/
inductive MadtRecord where
  | lapic (apicId : UInt8) (flags : Nat)
  | ioapic (address gsiBase : Nat)
  | interruptOverride (bus irq : UInt8) (gsi flags : Nat)
  | other (type length : UInt8)
deriving DecidableEq, Repr

namespace MadtRecord

/-- The length of a record, which its type fixes for the types that are parsed. -/
def length : MadtRecord → Nat
  | .lapic _ _ => 8
  | .ioapic _ _ => 12
  | .interruptOverride _ _ _ _ => 10
  | .other _ length => length.toNat

/-- The record lies at `p`. -/
def At (m : Bytes) (p : Nat) : MadtRecord → Prop
  | .lapic apicId flags =>
    m p = apicTypeLapic ∧ m (p + 1) = 8 ∧ m (p + 3) = apicId ∧ m.loadLE (p + 4) 4 = flags
  | .ioapic address gsiBase =>
    m p = apicTypeIoapic ∧ m (p + 1) = 12 ∧ m.loadLE (p + 4) 4 = address ∧
      m.loadLE (p + 8) 4 = gsiBase
  | .interruptOverride bus irq gsi flags =>
    m p = apicTypeInterruptOverride ∧ m (p + 1) = 10 ∧ m (p + 2) = bus ∧ m (p + 3) = irq ∧
      m.loadLE (p + 4) 4 = gsi ∧ m.loadLE (p + 8) 2 = flags
  | .other type length =>
    m p = type ∧ m (p + 1) = length ∧ 2 ≤ length.toNat ∧ type ≠ apicTypeLapic ∧
      type ≠ apicTypeIoapic ∧ type ≠ apicTypeInterruptOverride

instance (m : Bytes) (p : Nat) (r : MadtRecord) : Decidable (r.At m p) := by
  cases r <;> unfold At <;> infer_instance

/-- The id of the CPU a record enables. -/
def enabledId : MadtRecord → Option UInt8
  | .lapic apicId flags => if flags % 2 = 0 then none else some apicId
  | _ => none

end MadtRecord

/-- The records `rs` fill the bytes from `p` to `fin`. -/
def Records (m : Bytes) (fin : Nat) : Nat → List MadtRecord → Prop
  | p, [] => p = fin
  | p, r :: rs => r.At m p ∧ Records m fin (p + r.length) rs

instance decidableRecords (m : Bytes) (fin : Nat) :
    ∀ (p : Nat) (rs : List MadtRecord), Decidable (Records m fin p rs)
  | p, [] => inferInstanceAs (Decidable (p = fin))
  | p, r :: rs =>
    have := decidableRecords m fin (p + r.length) rs
    inferInstanceAs (Decidable (_ ∧ _))

/-- A well-formed MADT with the records `rs`: every record has its type's length and they end where
the table ends. -/
def WellFormed (m : Bytes) (madt : Nat) (rs : List MadtRecord) : Prop :=
  Records m (madt + madtLength m madt) (madt + madtSize) rs

instance (m : Bytes) (madt : Nat) (rs : List MadtRecord) : Decidable (WellFormed m madt rs) :=
  inferInstanceAs (Decidable (Records _ _ _ _))

/-- The ids of the enabled CPUs, in table order. -/
def enabledIds (rs : List MadtRecord) : List UInt8 := rs.filterMap MadtRecord.enabledId

/-- The body of the loop, on a record. -/
def parseRecord (s : Acpi) : MadtRecord → Exec Acpi
  | .lapic apicId flags => do
    let (_, s) ← acpiAddCpu s apicId flags
    return s
  | .ioapic address gsiBase => addIoapic s address gsiBase
  | .interruptOverride bus irq gsi flags => addOverride s bus irq gsi flags
  | .other _ _ => return s

section Parsing

variable {m : Bytes} {p fin fuel : Nat} {r : MadtRecord} {rs : List MadtRecord} {s t : Acpi}

/-- A record is longer than its header. -/
theorem MadtRecord.At.length_pos (h : r.At m p) : 2 ≤ r.length := by
  cases r with
  | lapic apicId flags => exact Nat.le_of_ble_eq_true rfl
  | ioapic address gsiBase => exact Nat.le_of_ble_eq_true rfl
  | interruptOverride bus irq gsi flags => exact Nat.le_of_ble_eq_true rfl
  | other type length => exact h.2.2.1

/-- The records fit between the two addresses. -/
theorem Records.length_le (h : Records m fin p rs) : p + 2 * rs.length ≤ fin := by
  induction rs generalizing p with
  | nil => exact le_of_eq h
  | cons r rs ih =>
    have hlen := h.1.length_pos
    have hrest := ih h.2
    rw [List.length_cons]
    omega

/-- What is chosen by the type of a record. -/
theorem MadtRecord.At.dispatch {β : Type} (h : r.At m p) (lapic : UInt8 → Nat → β)
    (ioapic : Nat → Nat → β) (interruptOverride : UInt8 → UInt8 → Nat → Nat → β) (other : β) :
    (if m p = apicTypeLapic then lapic (m (p + 3)) (m.loadLE (p + 4) 4)
      else if m p = apicTypeIoapic then ioapic (m.loadLE (p + 4) 4) (m.loadLE (p + 8) 4)
      else if m p = apicTypeInterruptOverride then
        interruptOverride (m (p + 2)) (m (p + 3)) (m.loadLE (p + 4) 4) (m.loadLE (p + 8) 2)
      else other) = r.rec lapic ioapic interruptOverride fun _ _ => other := by
  cases r with
  | lapic apicId flags =>
    obtain ⟨htype, -, hid, hflags⟩ := h
    rw [htype, hid, hflags, if_pos rfl]
  | ioapic address gsiBase =>
    obtain ⟨htype, -, haddr, hgsi⟩ := h
    rw [htype, haddr, hgsi, if_neg (by decide), if_pos rfl]
  | interruptOverride bus irq gsi flags =>
    obtain ⟨htype, -, hbus, hirq, hgsi, hflags⟩ := h
    rw [htype, hbus, hirq, hgsi, hflags, if_neg (by decide), if_neg (by decide), if_pos rfl]
  | other type length =>
    obtain ⟨htype, -, -, h0, h1, h2⟩ := h
    rw [htype, if_neg h0, if_neg h1, if_neg h2]

theorem parseApicBody_eq (h : r.At m p) : parseApicBody m p s = parseRecord s r := by
  have hbranch := h.dispatch
    (fun apicId flags => acpiAddCpu s apicId flags >>= fun r => pure r.2) (addIoapic s) (addOverride s)
    (pure s)
  refine Eq.trans hbranch ?_
  cases r <;> rfl

theorem MadtRecord.At.length_eq (h : r.At m p) : (m (p + 1)).toNat = r.length := by
  cases r with
  | lapic apicId flags => exact congrArg UInt8.toNat h.2.1
  | ioapic address gsiBase => exact congrArg UInt8.toNat h.2.1
  | interruptOverride bus irq gsi flags => exact congrArg UInt8.toNat h.2.1
  | other type length => exact congrArg UInt8.toNat h.2.1

/-- A walk with a body that does the same for each record is a loop over the records. -/
theorem Records.loop_eq {M : Type → Type} [Monad M] {loop : Nat → Nat → Acpi → M Acpi}
    {body : Nat → Acpi → M Acpi} {step : Acpi → MadtRecord → M Acpi}
    (hloop : ∀ fuel p s, loop (fuel + 1) p s =
      if p < fin then body p s >>= loop fuel (p + (m (p + 1)).toNat) else pure s)
    (hbody : ∀ {r p s}, r.At m p → body p s = step s r) (h : Records m fin p rs)
    (hfuel : rs.length < fuel) : loop fuel p s = rs.foldlM step s := by
  induction rs generalizing p fuel s with
  | nil =>
    obtain ⟨fuel, rfl⟩ := Nat.exists_eq_succ_of_ne_zero (Nat.ne_zero_of_lt hfuel)
    rw [hloop, if_neg (not_lt_of_ge (le_of_eq h.symm))]
    rfl
  | cons r rs ih =>
    obtain ⟨fuel, rfl⟩ := Nat.exists_eq_succ_of_ne_zero (Nat.ne_zero_of_lt hfuel)
    have hlen := h.1.length_pos
    have hfit := h.2.length_le
    rw [hloop, if_pos (by omega), hbody h.1, h.1.length_eq, List.foldlM_cons]
    congr 1
    funext s'
    exact ih h.2 (Nat.lt_of_succ_lt_succ hfuel)

/-- The walk is a loop over the records. -/
theorem parseApicLoop_eq (h : Records m fin p rs) (hfuel : rs.length < fuel) :
    parseApicLoop m fin fuel p s = rs.foldlM parseRecord s :=
  h.loop_eq (fun _ _ _ => rfl) parseApicBody_eq hfuel

/-- Parsing a well-formed table is a loop over its records. -/
theorem acpiParseApic_eq {madt : Nat} (h : WellFormed m madt rs) :
    acpiParseApic m madt s =
      rs.foldlM parseRecord { s with lapicAddr := m.loadLE (madt + 36) 4 } := by
  apply parseApicLoop_eq h
  have hlen : madtLength m madt < 2 ^ 32 := Bytes.loadLE_lt
  have hfit := Records.length_le h
  rw [loopFuel]
  omega

/-! ## What parsing collects -/

/-- What the records so far have left: `lapic_ids` holds their enabled ids other than the one that
`lapic_phys_ids` gives for the running CPU. -/
structure Collected (bsp : UInt8) (rs : List MadtRecord) (s : Acpi) : Prop where
  phys : s.lapicPhysIds bspPcpuId = bsp
  count : s.gCpus = 1 + ((enabledIds rs).filter (· ≠ bsp)).length
  targets : secInitTargets s = (enabledIds rs).filter (· ≠ bsp)
  bound : s.gCpus ≤ maxCpus

/-- A record that enables nothing. -/
theorem Collected.skip {bsp : UInt8} (h : Collected bsp rs s) (hr : r.enabledId = none)
    (hphys : t.lapicPhysIds = s.lapicPhysIds) (hcount : t.gCpus = s.gCpus)
    (hids : t.lapicIds = s.lapicIds) : Collected bsp (rs ++ [r]) t := by
  have hnone : enabledIds (rs ++ [r]) = enabledIds rs := by
    rw [enabledIds, List.filterMap_append, List.filterMap_cons_none hr, List.filterMap_nil,
      List.append_nil]
    rfl
  constructor
  · rw [hphys, h.phys]
  · rw [hnone, hcount, h.count]
  · rw [hnone, ← h.targets, secInitTargets, secInitTargets, hcount, hids]
  · rw [hcount]
    exact h.bound

/-- One more CPU at the end. -/
theorem secInitTargets_add {apicId : UInt8} (hpos : 1 ≤ s.gCpus)
    (hcount : t.gCpus = s.gCpus + 1)
    (hids : t.lapicIds = fun i => if i = s.gCpus then apicId else s.lapicIds i) :
    secInitTargets t = secInitTargets s ++ [apicId] := by
  obtain ⟨n, hn⟩ := Nat.exists_eq_add_of_le hpos
  have hlast : t.gCpus - 1 = n + 1 := by omega
  rw [secInitTargets, secInitTargets, hlast, List.range'_1_concat, List.map_append, hids, hn,
    Nat.add_sub_cancel_left]
  congr 1
  · apply List.map_congr_left
    intro i hi
    have hlt := (List.mem_range'_1.mp hi).2
    exact if_neg (Nat.ne_of_lt hlt)
  · exact congrArg (fun id => [id]) (if_pos rfl)

theorem parseRecord_collected {bsp : UInt8} (h : Collected bsp rs s)
    (hrun : parseRecord s r = .ok t) : Collected bsp (rs ++ [r]) t := by
  cases r with
  | lapic apicId flags =>
    rw [parseRecord, acpiAddCpu] at hrun
    by_cases hflag : flags % 2 = 0
    · rw [if_pos hflag] at hrun
      cases hrun
      exact h.skip (if_pos hflag) rfl rfl rfl
    have henabled : enabledIds (rs ++ [.lapic apicId flags]) = enabledIds rs ++ [apicId] := by
      have hid : (MadtRecord.lapic apicId flags).enabledId = some apicId := if_neg hflag
      rw [enabledIds, List.filterMap_append, List.filterMap_cons_some hid]
      rfl
    rw [if_neg hflag, lapicGetPhysId, h.phys] at hrun
    by_cases hbsp : apicId = bsp
    · rw [if_pos hbsp] at hrun
      cases hrun
      have hsame : (enabledIds (rs ++ [.lapic apicId flags])).filter (· ≠ bsp) =
          (enabledIds rs).filter (· ≠ bsp) := by
        rw [henabled, hbsp, List.filter_append]
        simp
      exact ⟨h.phys, hsame ▸ h.count, hsame ▸ h.targets, h.bound⟩
    have hmore : (enabledIds (rs ++ [.lapic apicId flags])).filter (· ≠ bsp) =
        (enabledIds rs).filter (· ≠ bsp) ++ [apicId] := by
      rw [henabled, List.filter_append]
      simp [hbsp]
    have hwrap : (s.gCpus + 1) % 2 ^ 16 = s.gCpus + 1 := by
      have hbound : s.gCpus ≤ 16 := h.bound
      omega
    rw [if_neg hbsp] at hrun
    simp only [hwrap] at hrun
    split at hrun
    · cases hrun
    · next hmax =>
      cases hrun
      refine ⟨h.phys, ?_, ?_, not_lt.mp hmax⟩
      · rw [hmore, List.length_append, List.length_singleton, ← Nat.add_assoc, ← h.count]
      · rw [hmore, ← h.targets]
        exact secInitTargets_add (by rw [h.count]; exact Nat.le_add_right _ _) rfl rfl
  | ioapic address gsiBase =>
    simp only [parseRecord, addIoapic] at hrun
    split at hrun
    · cases hrun
    · cases hrun
      exact h.skip rfl rfl rfl rfl
  | interruptOverride bus irq gsi flags =>
    simp only [parseRecord, addOverride] at hrun
    split at hrun
    · cases hrun
    · split at hrun
      · cases hrun
      · cases hrun
        exact h.skip rfl rfl rfl rfl
  | other type length =>
    cases hrun
    exact h.skip rfl rfl rfl rfl

/-- **What parsing leaves.** The CPU left out is the one whose id `lapic_phys_ids` has for the
running CPU when parsing starts. -/
theorem parsed_spec {madt : Nat} {bsp : UInt8} (h : WellFormed m madt rs)
    (hs : Collected bsp [] s) (hrun : acpiParseApic m madt s = .ok t) : Collected bsp rs t := by
  rw [acpiParseApic_eq h] at hrun
  apply Exec.foldlM_inv _ _ hrun
  · exact ⟨hs.phys, hs.count, hs.targets, hs.bound⟩
  · intro pre r a b ha hb
    exact parseRecord_collected ha hb

end Parsing

/-- The CPUs are enumerated rightly for a bootstrap CPU with the LAPIC id `bsp`: counted and listed
are the enabled ones other than it, so it is sent no INIT and no other enabled CPU is left out. -/
def Enumerated (bsp : UInt8) (rs : List MadtRecord) (s : Acpi) : Prop :=
  s.gCpus = 1 + ((enabledIds rs).filter (· ≠ bsp)).length ∧
    secInitTargets s = (enabledIds rs).filter (· ≠ bsp)

/-- The LAPIC id of a CPU, from its id register. -/
def lapicIdOf (lapicId : UInt32) : UInt8 := (lapicId >>> 24).toUInt8

/-- **Enumeration.** The CPUs are enumerated rightly exactly if the bootstrap CPU has the LAPIC id
0, or neither 0 nor its id belongs to an enabled record. -/
theorem enumerated_iff (m : Bytes) (madt : Nat) (rs : List MadtRecord) (lapicId : UInt32) (s : Acpi)
    (h : WellFormed m madt rs) (hrun : kernelMainCpus m madt lapicId = .ok s) :
    Enumerated (lapicIdOf lapicId) rs s ↔
      lapicIdOf lapicId = 0 ∨ 0 ∉ enabledIds rs ∧ lapicIdOf lapicId ∉ enabledIds rs := by
  obtain ⟨t, ht, hs⟩ := Exec.bind_eq_ok.mp hrun
  cases hs
  have hstart : Collected 0 [] Acpi.loaded := ⟨rfl, rfl, rfl, Nat.le_of_ble_eq_true rfl⟩
  have hc := parsed_spec h hstart ht
  have hfilter : Enumerated (lapicIdOf lapicId) rs (lapicInit t lapicId) ↔
      (enabledIds rs).filter (· ≠ 0) = (enabledIds rs).filter (· ≠ lapicIdOf lapicId) := by
    constructor
    · intro hright
      exact hc.targets.symm.trans hright.2
    · intro heq
      exact ⟨heq ▸ hc.count, heq ▸ hc.targets⟩
  rw [hfilter]
  constructor
  · -- an id that one of the two filters drops is not there, unless both drop it
    intro heq
    by_cases hzero : lapicIdOf lapicId = 0
    · exact Or.inl hzero
    · refine Or.inr ⟨fun hmem => ?_, fun hmem => ?_⟩
      · have hkept : (0 : UInt8) ∈ (enabledIds rs).filter (· ≠ lapicIdOf lapicId) := by
          simp [hmem, Ne.symm hzero]
        rw [← heq] at hkept
        simp at hkept
      · have hkept : lapicIdOf lapicId ∈ (enabledIds rs).filter (· ≠ 0) := by
          simp [hmem, hzero]
        rw [heq] at hkept
        simp at hkept
  · rintro (hzero | ⟨h0, hbsp⟩)
    · rw [hzero]
    · rw [List.filter_eq_self.mpr, List.filter_eq_self.mpr]
      · intro a ha
        exact decide_eq_true fun heq => hbsp (heq ▸ ha)
      · intro a ha
        exact decide_eq_true fun heq => h0 (heq ▸ ha)

/-- A table of LAPIC records, one for each id, all enabled, at address 0. -/
def lapicTable (ids : List UInt8) : Bytes where
  byte a :=
    if a = 4 then UInt8.ofNat (madtSize + 8 * ids.length)
    else if a < madtSize then 0
    else
      match (a - madtSize) % 8 with
      | 1 => 8
      | 3 => ids.getD ((a - madtSize) / 8) 0
      | 4 => 1
      | _ => 0

/-- A bootstrap CPU with LAPIC id 0 and another CPU. -/
theorem enumerated_zero_and_one : ∃ s, kernelMainCpus (lapicTable [0, 1]) 0 0 = .ok s ∧
    Enumerated 0 [.lapic 0 1, .lapic 1 1] s := by
  obtain ⟨s, hs⟩ := Exec.exists_of_isOk
    (show (kernelMainCpus (lapicTable [0, 1]) 0 0).isOk = true by decide)
  have hiff := enumerated_iff (lapicTable [0, 1]) 0 [.lapic 0 1, .lapic 1 1] 0 s (by decide) hs
  exact ⟨s, hs, hiff.mpr (Or.inl rfl)⟩

/-- **A bootstrap CPU that boots itself.** Its LAPIC id is 1: it is put on the list, and CPU 0 is
left out. -/
theorem enumerates_itself : ¬ ∀ m madt rs lapicId s, WellFormed m madt rs →
    kernelMainCpus m madt lapicId = .ok s → Enumerated (lapicIdOf lapicId) rs s := by
  intro h
  obtain ⟨s, hs⟩ := Exec.exists_of_isOk
    (show (kernelMainCpus (lapicTable [0, 1]) 0 0x01000000).isOk = true by decide)
  have hsent : (kernelMainCpus (lapicTable [0, 1]) 0 0x01000000).map secInitTargets = .ok [1] := by
    rfl
  rw [hs] at hsent
  have hright := (h _ 0 [.lapic 0 1, .lapic 1 1] _ s (by decide) hs).2
  have hsame : [1] = (enabledIds [.lapic 0 1, .lapic 1 1]).filter (· ≠ lapicIdOf 0x01000000) :=
    (Except.ok.inj hsent).symm.trans hright
  exact absurd hsame (by decide)

end Rtv.Boot
