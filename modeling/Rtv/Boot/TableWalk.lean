import Rtv.Boot.Acpi
import Rtv.Lib.RecordWalk
import Rtv.Mm.Physical

/-!
# Walks through the ACPI tables

`kernel/acpi.c: acpi_parse_dt` and the record loops of `acpi_parse_apic` and `acpi_parse_dmar`, on a
table that `acpi_parse_rsdt` or `acpi_parse_xsdt` has mapped: two pages at `va2`, from the page
where the table begins. The memory may hold anything. Both loops are walks along records
(`Rtv.Lib.RecordWalk`); they believe the length of every record and of the table.

Only `acpi_parse_apic` can stop early, when it panics. It does so when there are more CPUs, I/O APICs
or overrides than it has room for, or an override is for another bus than 0.

**The law** (`dt_walk_iff`): a table's walk ends and stays inside the table and the two pages exactly
if every record that comes up for interpretation fits and moves the walk on, or is one of those
that are counted.
-/

namespace Rtv.Boot

open Rtv.Lib Rtv.Lib.RecordWalk

/-! ## The code -/

/-- `sizeof(acpi_dmar_t)`. -/
def dmarSize : Nat := 48

/-- `DMAR_TYPE_DRHD`. -/
def dmarTypeDrhd : Nat := 0

/-- The body of the `while` loop of `acpi_parse_dmar`, before `p` moves on: a record of another type
is printed. -/
def parseDmarBody (m : Bytes) (p : Nat) (printed : List Nat) : Exec (List Nat) :=
  let type := m.loadLE p 2
  if type = dmarTypeDrhd then return printed
  else return printed ++ [type]

/-- The `while` loop of `acpi_parse_dmar`. -/
def parseDmarLoop (m : Bytes) (fin : Nat) : Nat → Nat → List Nat → Exec (List Nat)
  | 0, _, _ => .error .hang
  | fuel + 1, p, printed =>
    if p < fin then do
      let length := m.loadLE (p + 2) 2
      let printed ← parseDmarBody m p printed
      parseDmarLoop m fin fuel (p + length) printed
    else return printed

/-- `header->length`, of any table. -/
def dtLength (m : Bytes) (header : Nat) : Nat := m.loadLE (header + 4) 4

/-- `acpi_parse_dmar` on the table at `dmar`. -/
def acpiParseDmar (m : Bytes) (dmar : Nat) (printed : List Nat) : Exec (List Nat) :=
  parseDmarLoop m (dmar + dtLength m dmar) loopFuel (dmar + dmarSize) printed

/-- The signature `"APIC"`. -/
def madtSignature : Nat := 0x43495041

/-- The signature `"DMAR"`. -/
def dmarSignature : Nat := 0x52414D44

/-- `acpi_parse_dt`, with the lines printed so far. -/
def acpiParseDt (m : Bytes) (header : Nat) (s : Acpi) (printed : List Nat) :
    Exec (Acpi × List Nat) :=
  if m.loadLE header 4 = madtSignature then do
    let s ← acpiParseApic m header s
    return (s, printed)
  else if m.loadLE header 4 = dmarSignature then do
    let printed ← acpiParseDmar m header printed
    return (s, printed)
  else return (s, printed)

/-- `va2 + address - page_start`, for the table at a physical address whose pages are mapped at
`va2`. -/
def dtPointer (va2 address : Nat) : Nat := va2 + (address - address / Mm.pgSize * Mm.pgSize)

/-- The end of the two pages. -/
def dtWindow (va2 : Nat) : Nat := va2 + 2 * Mm.pgSize

/-! ## Walks that stay inside the table -/

/-- The size of what a record of the MADT is read as: `sizeof(apic_lapic_t)`, `sizeof(apic_ioapic_t)`,
`sizeof(apic_interruptoverride_t)` or `sizeof(apic_header_t)`. -/
def apicRecordSize (m : Bytes) (p : Nat) : Nat :=
  if m p = apicTypeLapic then 8
  else if m p = apicTypeIoapic then 12
  else if m p = apicTypeInterruptOverride then 10
  else 2

/-- `header->length` of a record of the MADT. -/
def apicRecordLength (m : Bytes) (p : Nat) : Nat := (m (p + 1)).toNat

/-- `sizeof(dmar_header_t)`. -/
def dmarHeaderSize : Nat := 4

/-- `header->length` of a record of the DMAR. -/
def dmarRecordLength (m : Bytes) (p : Nat) : Nat := m.loadLE (p + 2) 2

/-- The record that begins at `p` and is `size` bytes long lies in the table and in its window. -/
def RecordInside (m : Bytes) (va2 dt p size : Nat) : Prop :=
  dt ≤ p ∧ p + size ≤ dt + dtLength m dt ∧ va2 ≤ p ∧ p + size ≤ dtWindow va2

/-- The walk through the MADT at `dt` ends, and every record that it interprets lies inside. -/
structure MadtInside (m : Bytes) (va2 dt : Nat) (s : Acpi) : Prop where
  ends : Exec.Ends (acpiParseApic m dt s)
  inside : ∀ p, Visits (parseApicBody m) (apicRecordLength m) (dt + dtLength m dt) (dt + madtSize)
    { s with lapicAddr := m.loadLE (dt + 36) 4 } p → RecordInside m va2 dt p (apicRecordSize m p)

/-- The walk through the DMAR at `dt` ends, and every record that it interprets lies inside. -/
structure DmarInside (m : Bytes) (va2 dt : Nat) (printed : List Nat) : Prop where
  ends : Exec.Ends (acpiParseDmar m dt printed)
  inside : ∀ p, Visits (parseDmarBody m) (dmarRecordLength m) (dt + dtLength m dt) (dt + dmarSize)
    printed p → RecordInside m va2 dt p dmarHeaderSize

/-- Both for the table at `dt`, by its signature. -/
structure DtInside (m : Bytes) (va2 dt : Nat) (s : Acpi) (printed : List Nat) : Prop where
  madt : m.loadLE dt 4 = madtSignature → MadtInside m va2 dt s
  dmar : m.loadLE dt 4 = dmarSignature → DmarInside m va2 dt printed

/-! ## Sound tables -/

/-- What `acpi_parse_apic` has only so much room for. -/
inductive Counter where
  | cpu
  | ioapic
  | interruptOverride
deriving DecidableEq, Repr

/-- The room there is. -/
def Counter.limit : Counter → Nat
  | .cpu => maxCpus
  | .ioapic => 1
  | .interruptOverride => maxIrqOverrides

/-- How much of it is taken. -/
def Acpi.count (s : Acpi) : Counter → Nat
  | .cpu => s.gCpus
  | .ioapic => s.numIoapic
  | .interruptOverride => s.numOverrides

/-- No counter is over its limit. So it is at the start and after every table that was parsed. -/
def Acpi.Bounded (s : Acpi) : Prop := ∀ c : Counter, s.count c ≤ c.limit

/-- What the record at `p` is counted as, with `bsp` the id that `lapic_phys_ids` has for the running
CPU. -/
def counted (m : Bytes) (bsp : UInt8) (p : Nat) : Option Counter :=
  if m p = apicTypeLapic then
    if m.loadLE (p + 4) 4 % 2 = 0 ∨ m (p + 3) = bsp then none else some .cpu
  else if m p = apicTypeIoapic then some .ioapic
  else if m p = apicTypeInterruptOverride then some .interruptOverride
  else none

/-- An override is for bus 0. -/
def BusZero (m : Bytes) (p : Nat) : Prop := m p = apicTypeInterruptOverride → m (p + 2) = 0

/-- How many of the first `k` records from `p` are counted as `c`. -/
def tally (m : Bytes) (bsp : UInt8) (p k : Nat) (c : Counter) : Nat :=
  ∑ j ∈ Finset.range k, if counted m bsp (cursor (apicRecordLength m) p j) = some c then 1 else 0

/-- There is room for the first `k` records from `p`, and none of them is for another bus. -/
def Room (m : Bytes) (s : Acpi) (p k : Nat) : Prop :=
  (∀ j < k, BusZero m (cursor (apicRecordLength m) p j)) ∧
    ∀ c : Counter, s.count c + tally m (lapicGetPhysId s bspPcpuId) p k c ≤ c.limit

/-- The MADT at `dt` is sound as far as it is walked: a record with room for those before it fits,
and it moves the walk on or is counted. -/
def MadtSound (m : Bytes) (va2 dt : Nat) (s : Acpi) : Prop :=
  ∀ k, let p := cursor (apicRecordLength m) (dt + madtSize) k
    p < dt + dtLength m dt → Room m s (dt + madtSize) k →
      p + apicRecordSize m p ≤ dt + dtLength m dt ∧ p + apicRecordSize m p ≤ dtWindow va2 ∧
      (apicRecordLength m p = 0 → counted m (lapicGetPhysId s bspPcpuId) p ≠ none)

/-- The DMAR at `dt` is sound: the header of every record fits, and the record moves the walk on. -/
def DmarSound (m : Bytes) (va2 dt : Nat) : Prop :=
  ∀ k, let p := cursor (dmarRecordLength m) (dt + dmarSize) k
    p < dt + dtLength m dt →
      p + dmarHeaderSize ≤ dt + dtLength m dt ∧ p + dmarHeaderSize ≤ dtWindow va2 ∧
      dmarRecordLength m p ≠ 0

/-! ## The loops are walks -/

theorem parseApicLoop_walk (m : Bytes) (fin fuel p : Nat) (s : Acpi) :
    parseApicLoop m fin fuel p s = walk (parseApicBody m) (apicRecordLength m) fin fuel p s := by
  induction fuel generalizing p s with
  | zero => rfl
  | succ fuel ih =>
    rw [parseApicLoop, walk]
    split
    · simp only [ih]
      rfl
    · rfl

theorem parseDmarLoop_walk (m : Bytes) (fin fuel p : Nat) (printed : List Nat) :
    parseDmarLoop m fin fuel p printed =
      walk (parseDmarBody m) (dmarRecordLength m) fin fuel p printed := by
  induction fuel generalizing p printed with
  | zero => rfl
  | succ fuel ih =>
    rw [parseDmarLoop, walk]
    split
    · simp only [ih]
      rfl
    · rfl

/-- The length of a table has 32 bits. -/
theorem dtLength_lt (m : Bytes) (dt : Nat) : dtLength m dt < 2 ^ 32 := Bytes.loadLE_lt

/-! ## The records of the MADT -/

section Madt

variable {m : Bytes} {p k : Nat} {s t : Acpi}

theorem parseApicBody_ends (m : Bytes) (p : Nat) (s : Acpi) : Exec.Ends (parseApicBody m p s) := by
  simp only [parseApicBody, acpiAddCpu, addIoapic, addOverride]
  split_ifs <;> (intro hang; cases hang)

/-- What the body does to the counters, if there is room for the record. -/
structure Counts (m : Bytes) (p : Nat) (s t : Acpi) : Prop where
  phys : t.lapicPhysIds = s.lapicPhysIds
  count : ∀ c, t.count c =
    s.count c + if counted m (lapicGetPhysId s bspPcpuId) p = some c then 1 else 0

/-- There is room for the record at `p`. -/
def Admits (m : Bytes) (p : Nat) (s : Acpi) : Prop :=
  BusZero m p ∧ ∀ c, counted m (lapicGetPhysId s bspPcpuId) p = some c → s.count c < c.limit

/-- A record that is not counted changes nothing. -/
theorem parseApicBody_none (h : counted m (lapicGetPhysId s bspPcpuId) p = none) :
    parseApicBody m p s = .ok s := by
  rw [counted] at h
  rw [parseApicBody, acpiAddCpu]
  split_ifs at h ⊢ <;> first | rfl | simp_all

/-- An override for another bus is refused. -/
theorem parseApicBody_bus (h : ¬BusZero m p) : ∃ e, parseApicBody m p s = .error e := by
  obtain ⟨htype, hbus⟩ := Classical.not_imp.mp h
  rw [parseApicBody, htype, if_neg (by decide), if_neg (by decide), if_pos rfl, addOverride,
    if_pos hbus]
  exact ⟨_, rfl⟩

theorem counted_cpu {bsp : UInt8} : counted m bsp p = some .cpu ↔
    m p = apicTypeLapic ∧ ¬(m.loadLE (p + 4) 4 % 2 = 0 ∨ m (p + 3) = bsp) := by
  have hio : apicTypeIoapic ≠ apicTypeLapic := by decide
  have hover : apicTypeInterruptOverride ≠ apicTypeLapic := by decide
  rw [counted]
  split_ifs <;> simp_all

theorem counted_ioapic {bsp : UInt8} : counted m bsp p = some .ioapic ↔ m p = apicTypeIoapic := by
  rw [counted]
  split_ifs <;> simp_all [apicTypeLapic, apicTypeIoapic]

theorem counted_override {bsp : UInt8} :
    counted m bsp p = some .interruptOverride ↔ m p = apicTypeInterruptOverride := by
  rw [counted]
  split_ifs <;> simp_all [apicTypeLapic, apicTypeIoapic, apicTypeInterruptOverride]

/-- The counters after a record that is counted. -/
theorem Counts.of_some {c : Counter} (h : counted m (lapicGetPhysId s bspPcpuId) p = some c)
    (hphys : t.lapicPhysIds = s.lapicPhysIds) (hone : t.count c = s.count c + 1)
    (hother : ∀ c' ≠ c, t.count c' = s.count c') : Counts m p s t := by
  refine ⟨hphys, fun c' => ?_⟩
  rw [h]
  by_cases hc : c' = c
  · rw [hc, if_pos rfl, hone]
  · rw [if_neg (fun heq => hc (Option.some.inj heq).symm), hother c' hc]
    rfl

/-- Counting one more on a machine integer that has room for it. -/
theorem wrap_gt {n limit w : Nat} (hn : n ≤ limit) (hw : limit + 1 < 2 ^ w) :
    (n + 1) % 2 ^ w > limit ↔ ¬n < limit := by
  rw [Nat.mod_eq_of_lt (by omega)]
  omega

theorem wrap_eq {n limit w : Nat} (hn : n < limit) (hw : limit + 1 < 2 ^ w) :
    (n + 1) % 2 ^ w = n + 1 :=
  Nat.mod_eq_of_lt (by omega)

/-- A body that checks for room before it counts. -/
theorem Counts.of_check {c : Counter} {e : Stop}
    (hrun : parseApicBody m p s = if ¬s.count c < c.limit then .error e else .ok t)
    (hcounts : s.count c < c.limit → Counts m p s t) :
    (s.count c < c.limit → ∃ t, parseApicBody m p s = .ok t ∧ Counts m p s t) ∧
      (¬s.count c < c.limit → ∃ e, parseApicBody m p s = .error e) := by
  constructor
  · intro hroom
    exact ⟨t, hrun.trans (if_neg (not_not.mpr hroom)), hcounts hroom⟩
  · intro hfull
    exact ⟨e, hrun.trans (if_pos hfull)⟩

/-- A record that is counted is accepted while there is room. -/
theorem parseApicBody_some {c : Counter} (hs : s.Bounded) (hbus : BusZero m p)
    (h : counted m (lapicGetPhysId s bspPcpuId) p = some c) :
    (s.count c < c.limit → ∃ t, parseApicBody m p s = .ok t ∧ Counts m p s t) ∧
      (¬s.count c < c.limit → ∃ e, parseApicBody m p s = .error e) := by
  have hbound := hs c
  cases c with
  | cpu =>
    have hbound : s.gCpus ≤ maxCpus := hbound
    have hwrap : maxCpus + 1 < 2 ^ 16 := by decide
    obtain ⟨htype, hskip⟩ := counted_cpu.mp h
    obtain ⟨hflags, hid⟩ := not_or.mp hskip
    apply Counts.of_check
    · rw [parseApicBody, if_pos htype, acpiAddCpu, if_neg hflags, if_neg hid]
      simp only [wrap_gt hbound hwrap, Exec.pure_eq, Exec.check_bind]
      rfl
    · intro hroom
      refine Counts.of_some h rfl (wrap_eq hroom hwrap) fun c' hc' => ?_
      cases c' <;> first | rfl | exact absurd rfl hc'
  | ioapic =>
    have hbound : s.numIoapic ≤ 1 := hbound
    have hwrap : 1 + 1 < 2 ^ 16 := by decide
    have htype := counted_ioapic.mp h
    apply Counts.of_check
    · rw [parseApicBody, htype, if_neg (by decide), if_pos rfl, addIoapic]
      simp only [wrap_gt hbound hwrap]
      rfl
    · intro hroom
      refine Counts.of_some h rfl (wrap_eq hroom hwrap) fun c' hc' => ?_
      cases c' <;> first | rfl | exact absurd rfl hc'
  | interruptOverride =>
    have hbound : s.numOverrides ≤ maxIrqOverrides := hbound
    have hwrap : maxIrqOverrides + 1 < 2 ^ 8 := by decide
    have htype := counted_override.mp h
    apply Counts.of_check
    · rw [parseApicBody, htype, if_neg (by decide), if_neg (by decide), if_pos rfl, addOverride,
        if_neg (not_not.mpr (hbus htype))]
      simp only [wrap_gt hbound hwrap]
      rfl
    · intro hroom
      refine Counts.of_some h rfl (wrap_eq hroom hwrap) fun c' hc' => ?_
      cases c' <;> first | rfl | exact absurd rfl hc'

/-- **The body of the loop** returns exactly if there is room for the record, and counts it. -/
theorem parseApicBody_ok (hs : s.Bounded) (hrun : parseApicBody m p s = .ok t) :
    Admits m p s ∧ Counts m p s t := by
  have hbus : BusZero m p := by
    by_contra hbus
    obtain ⟨e, he⟩ := parseApicBody_bus (s := s) hbus
    rw [hrun] at he
    cases he
  cases hc : counted m (lapicGetPhysId s bspPcpuId) p with
  | none =>
    rw [parseApicBody_none hc] at hrun
    cases hrun
    refine ⟨⟨hbus, fun c h => ?_⟩, rfl, fun c => ?_⟩
    · rw [hc] at h
      cases h
    · rw [hc]
      rfl
  | some c =>
    obtain ⟨haccept, hrefuse⟩ := parseApicBody_some hs hbus hc
    by_cases hroom : s.count c < c.limit
    · obtain ⟨t', hrun', hcounts⟩ := haccept hroom
      obtain rfl : t = t' := Except.ok.inj (hrun.symm.trans hrun')
      refine ⟨⟨hbus, fun c' h => ?_⟩, hcounts⟩
      rw [hc] at h
      cases h
      exact hroom
    · obtain ⟨e, he⟩ := hrefuse hroom
      rw [hrun] at he
      cases he

theorem Admits.exists_ok (h : Admits m p s) (hs : s.Bounded) : ∃ t, parseApicBody m p s = .ok t := by
  cases hc : counted m (lapicGetPhysId s bspPcpuId) p with
  | none => exact ⟨s, parseApicBody_none hc⟩
  | some c =>
    obtain ⟨t, hrun, -⟩ := (parseApicBody_some hs h.1 hc).1 (h.2 c hc)
    exact ⟨t, hrun⟩

/-- The counters stay within their limits. -/
theorem Counts.bounded (h : Counts m p s t) (hadmits : Admits m p s) (hs : s.Bounded) :
    t.Bounded := by
  intro c
  rw [h.count c]
  split_ifs with hc
  · exact hadmits.2 c hc
  · exact hs c

theorem tally_succ (m : Bytes) (bsp : UInt8) (p k : Nat) (c : Counter) :
    tally m bsp p (k + 1) c = tally m bsp p k c +
      if counted m bsp (cursor (apicRecordLength m) p k) = some c then 1 else 0 :=
  Finset.sum_range_succ _ k

/-- There was room for the records before as well. -/
theorem Room.pred (h : Room m s p (k + 1)) : Room m s p k := by
  constructor
  · exact fun j hj => h.1 j (Nat.lt_succ_of_lt hj)
  · intro c
    have hle := h.2 c
    rw [tally_succ, ← Nat.add_assoc] at hle
    exact (Nat.le_add_right _ _).trans hle

/-- The state in front of record `k`. -/
theorem after_counts (hs : s.Bounded)
    (h : after (parseApicBody m) (apicRecordLength m) p s k = .ok t) :
    t.Bounded ∧ t.lapicPhysIds = s.lapicPhysIds ∧
      (∀ c, t.count c = s.count c + tally m (lapicGetPhysId s bspPcpuId) p k c) ∧
      ∀ j < k, BusZero m (cursor (apicRecordLength m) p j) := by
  induction k generalizing t with
  | zero =>
    cases h
    exact ⟨hs, rfl, fun _ => rfl, nofun⟩
  | succ k ih =>
    obtain ⟨u, hu, hrun⟩ := after_succ_ok.mp h
    obtain ⟨hbounded, hphys, hcount, hbus⟩ := ih hu
    obtain ⟨hadmits, hcounts⟩ := parseApicBody_ok hbounded hrun
    have hbsp : lapicGetPhysId u bspPcpuId = lapicGetPhysId s bspPcpuId :=
      congrFun hphys bspPcpuId
    refine ⟨hcounts.bounded hadmits hbounded, hcounts.phys.trans hphys, fun c => ?_, fun j hj => ?_⟩
    · rw [hcounts.count c, hcount c, hbsp, tally_succ, Nat.add_assoc]
    · rcases Nat.lt_succ_iff_lt_or_eq.mp hj with hlt | rfl
      · exact hbus j hlt
      · exact hadmits.1

/-- **The walk comes to record `k`** exactly if there is room for those before. -/
theorem after_iff_room (hs : s.Bounded) :
    (∃ t, after (parseApicBody m) (apicRecordLength m) p s k = .ok t) ↔ Room m s p k := by
  constructor
  · rintro ⟨t, ht⟩
    obtain ⟨hbounded, -, hcount, hbus⟩ := after_counts hs ht
    exact ⟨hbus, fun c => (hcount c).symm.trans_le (hbounded c)⟩
  · intro h
    induction k with
    | zero => exact ⟨s, rfl⟩
    | succ k ih =>
      obtain ⟨u, hu⟩ := ih h.pred
      obtain ⟨hbounded, hphys, hcount, -⟩ := after_counts hs hu
      have hbsp : lapicGetPhysId u bspPcpuId = lapicGetPhysId s bspPcpuId :=
        congrFun hphys bspPcpuId
      have hadmits : Admits m (cursor (apicRecordLength m) p k) u := by
        refine ⟨h.1 k (Nat.lt_succ_self k), fun c hc => ?_⟩
        rw [hbsp] at hc
        have hroom := h.2 c
        rw [tally_succ, if_pos hc, ← Nat.add_assoc, ← hcount c] at hroom
        exact hroom
      obtain ⟨t, ht⟩ := hadmits.exists_ok hbounded
      exact ⟨t, after_succ_ok.mpr ⟨u, hu, ht⟩⟩

/-- Every record that is counted is counted once. -/
theorem sum_counted (m : Bytes) (bsp : UInt8) (p k : Nat) :
    ∑ j ∈ Finset.range k, (if counted m bsp (cursor (apicRecordLength m) p j) = none then 0 else 1) =
      tally m bsp p k .cpu + tally m bsp p k .ioapic + tally m bsp p k .interruptOverride := by
  simp only [tally]
  rw [← Finset.sum_add_distrib, ← Finset.sum_add_distrib]
  apply Finset.sum_congr rfl
  intro j _
  rcases counted m bsp (cursor (apicRecordLength m) p j) with _ | c
  · rfl
  · cases c <;> rfl

/-- **The record loop of the MADT** ends, with `Q` true of every record that it interprets, exactly
if every record that it comes to satisfies `Q`, and moves the walk on or is counted. -/
theorem apicWalk_iff (m : Bytes) (p fin fuel : Nat) (Q : Nat → Prop) (hs : s.Bounded)
    (hfuel : fin - p + (maxCpus + 1 + maxIrqOverrides) < fuel) :
    (Exec.Ends (walk (parseApicBody m) (apicRecordLength m) fin fuel p s) ∧
        ∀ q, Visits (parseApicBody m) (apicRecordLength m) fin p s q → Q q) ↔
      ∀ k, cursor (apicRecordLength m) p k < fin → Room m s p k →
        Q (cursor (apicRecordLength m) p k) ∧
          (apicRecordLength m (cursor (apicRecordLength m) p k) = 0 →
            counted m (lapicGetPhysId s bspPcpuId) (cursor (apicRecordLength m) p k) ≠ none) := by
  constructor
  · rintro ⟨hends, hvisits⟩ k hlt hroom
    obtain ⟨t, ht⟩ := (after_iff_room hs).mpr hroom
    refine ⟨hvisits _ (visits_iff.mpr ⟨k, t, rfl, hlt, ht⟩), fun hlen hnone => ?_⟩
    -- the record would be interpreted again and again
    apply hends
    obtain ⟨-, hphys, -⟩ := after_counts hs ht
    have hbsp : lapicGetPhysId t bspPcpuId = lapicGetPhysId s bspPcpuId := congrFun hphys bspPcpuId
    apply walk_stuck (parseApicBody_ends m) (· = t) fuel hlt hlen ht rfl
    rintro u rfl
    rw [← hbsp] at hnone
    exact ⟨u, parseApicBody_none hnone, rfl⟩
  · intro hsound
    constructor
    · apply walk_ends (parseApicBody_ends m) (maxCpus + 1 + maxIrqOverrides) (fun j =>
        if counted m (lapicGetPhysId s bspPcpuId) (cursor (apicRecordLength m) p j) = none then 0
        else 1) _ _ hfuel
      · intro k t hlt ht
        obtain ⟨-, hmove⟩ := hsound k hlt ((after_iff_room hs).mp ⟨t, ht⟩)
        split_ifs with hnone
        · exact Nat.pos_of_ne_zero fun hlen => hmove hlen hnone
        · exact Nat.le_add_left _ _
      · intro k t ht
        obtain ⟨-, hroom⟩ := (after_iff_room hs).mp ⟨t, ht⟩
        rw [sum_counted]
        exact Nat.add_le_add (Nat.add_le_add ((Nat.le_add_left _ _).trans (hroom .cpu))
          ((Nat.le_add_left _ _).trans (hroom .ioapic)))
          ((Nat.le_add_left _ _).trans (hroom .interruptOverride))
    · intro q hq
      obtain ⟨k, t, rfl, hlt, ht⟩ := visits_iff.mp hq
      exact (hsound k hlt ((after_iff_room hs).mp ⟨t, ht⟩)).1

/-- The address that `acpi_parse_apic` stores at its start decides nothing. -/
theorem count_lapicAddr (s : Acpi) (addr : Nat) (c : Counter) :
    Acpi.count { s with lapicAddr := addr } c = s.count c := by
  cases c <;> rfl

/-- **The walk through the MADT** ends and stays inside exactly if the table is sound. -/
theorem madt_walk_iff {va2 dt : Nat} (hdt : va2 ≤ dt) (hs : s.Bounded) :
    MadtInside m va2 dt s ↔ MadtSound m va2 dt s := by
  have hs' : Acpi.Bounded { s with lapicAddr := m.loadLE (dt + 36) 4 } := fun c =>
    (count_lapicAddr s _ c).trans_le (hs c)
  have hlength := dtLength_lt m dt
  have hfuel : dt + dtLength m dt - (dt + madtSize) + (maxCpus + 1 + maxIrqOverrides) < loopFuel := by
    rw [madtSize, maxCpus, maxIrqOverrides, loopFuel]
    omega
  have hiff := apicWalk_iff m (dt + madtSize) (dt + dtLength m dt) loopFuel
    (fun p => RecordInside m va2 dt p (apicRecordSize m p)) hs' hfuel
  rw [← parseApicLoop_walk] at hiff
  have hroom : ∀ k, Room m { s with lapicAddr := m.loadLE (dt + 36) 4 } (dt + madtSize) k ↔
      Room m s (dt + madtSize) k := by
    intro k
    simp only [Room, count_lapicAddr]
    exact Iff.rfl
  constructor
  · rintro ⟨hends, hinside⟩ k p hlt hk
    obtain ⟨⟨-, hfits, -, hwindow⟩, hmove⟩ := hiff.mp ⟨hends, hinside⟩ k hlt ((hroom k).mpr hk)
    exact ⟨hfits, hwindow, hmove⟩
  · intro hsound
    obtain ⟨hends, hinside⟩ := hiff.mpr fun k hlt hk => by
      obtain ⟨hfits, hwindow, hmove⟩ := hsound k hlt ((hroom k).mp hk)
      have hmono := cursor_mono (apicRecordLength m) (dt + madtSize) (Nat.zero_le k)
      have hle : dt ≤ cursor (apicRecordLength m) (dt + madtSize) k :=
        (Nat.le_add_right _ _).trans hmono
      exact ⟨⟨hle, hfits, hdt.trans hle, hwindow⟩, hmove⟩
    exact ⟨hends, hinside⟩

end Madt

/-! ## The records of the DMAR -/

section Dmar

variable {m : Bytes} {p : Nat}

/-- The body of the loop always returns. -/
theorem parseDmarBody_ok (m : Bytes) (p : Nat) (printed : List Nat) :
    ∃ printed', parseDmarBody m p printed = .ok printed' := by
  rw [parseDmarBody]
  split_ifs
  · exact ⟨_, rfl⟩
  · exact ⟨_, rfl⟩

theorem parseDmarBody_ends (m : Bytes) (p : Nat) (printed : List Nat) :
    Exec.Ends (parseDmarBody m p printed) := by
  obtain ⟨printed', h⟩ := parseDmarBody_ok m p printed
  rw [h]
  exact Exec.ends_ok _

/-- So the walk comes to every record. -/
theorem after_dmar (m : Bytes) (p k : Nat) (printed : List Nat) :
    ∃ printed', after (parseDmarBody m) (dmarRecordLength m) p printed k = .ok printed' := by
  induction k with
  | zero => exact ⟨printed, rfl⟩
  | succ k ih =>
    obtain ⟨u, hu⟩ := ih
    obtain ⟨v, hv⟩ := parseDmarBody_ok m (cursor (dmarRecordLength m) p k) u
    exact ⟨v, after_succ_ok.mpr ⟨u, hu, hv⟩⟩

/-- **The walk through the DMAR** ends and stays inside exactly if the table is sound. -/
theorem dmar_walk_iff {va2 dt : Nat} (hdt : va2 ≤ dt) (printed : List Nat) :
    DmarInside m va2 dt printed ↔ DmarSound m va2 dt := by
  have hlength := dtLength_lt m dt
  constructor
  · rintro ⟨hends, hinside⟩ k p hlt
    obtain ⟨u, hu⟩ := after_dmar m (dt + dmarSize) k printed
    obtain ⟨-, hfits, -, hwindow⟩ := hinside p (visits_iff.mpr ⟨k, u, rfl, hlt, hu⟩)
    refine ⟨hfits, hwindow, fun hlen => ?_⟩
    apply hends
    rw [acpiParseDmar, parseDmarLoop_walk]
    exact walk_stuck (parseDmarBody_ends m) (fun _ => True) loopFuel hlt hlen hu trivial fun v _ => by
      obtain ⟨w, hw⟩ := parseDmarBody_ok m p v
      exact ⟨w, hw, trivial⟩
  · intro hsound
    constructor
    · rw [acpiParseDmar, parseDmarLoop_walk]
      apply walk_ends (parseDmarBody_ends m) 0 (fun _ => 0)
      · intro k t hlt _
        exact Nat.pos_of_ne_zero (hsound k hlt).2.2
      · intro k t _
        exact le_of_eq Finset.sum_const_zero
      · rw [dmarSize, loopFuel]
        omega
    · intro q hq
      obtain ⟨k, t, rfl, hlt, -⟩ := visits_iff.mp hq
      obtain ⟨hfits, hwindow, -⟩ := hsound k hlt
      have hmono := cursor_mono (dmarRecordLength m) (dt + dmarSize) (Nat.zero_le k)
      have hle := (Nat.le_add_right _ _).trans hmono
      exact ⟨hle, hfits, hdt.trans hle, hwindow⟩

end Dmar

/-! ## Tables -/

/-- The table at `dt` is sound, if it is one of the two that are walked. -/
structure DtSound (m : Bytes) (va2 dt : Nat) (s : Acpi) : Prop where
  madt : m.loadLE dt 4 = madtSignature → MadtSound m va2 dt s
  dmar : m.loadLE dt 4 = dmarSignature → DmarSound m va2 dt

theorem le_dtPointer (va2 address : Nat) : va2 ≤ dtPointer va2 address := Nat.le_add_right _ _

/-- Where both walks end, parsing the table ends. -/
theorem DtInside.ends {m : Bytes} {va2 dt : Nat} {s : Acpi} {printed : List Nat}
    (h : DtInside m va2 dt s printed) : Exec.Ends (acpiParseDt m dt s printed) := by
  rw [acpiParseDt]
  split_ifs with hmadt hdmar
  · exact (h.madt hmadt).ends.bind fun _ _ => Exec.ends_ok _
  · exact (h.dmar hdmar).ends.bind fun _ _ => Exec.ends_ok _
  · exact Exec.ends_ok _

theorem Acpi.loaded_bounded : Acpi.loaded.Bounded := by
  intro c
  cases c <;> decide

/-- The next table is parsed with the counters within their limits. -/
theorem acpiParseDt_bounded {m : Bytes} {dt : Nat} {s t : Acpi} {printed printed' : List Nat}
    (hs : s.Bounded) (hrun : acpiParseDt m dt s printed = .ok (t, printed')) : t.Bounded := by
  rw [acpiParseDt] at hrun
  split_ifs at hrun
  · obtain ⟨u, hu, hret⟩ := Exec.bind_eq_ok.mp hrun
    cases hret
    rw [acpiParseApic, parseApicLoop_walk] at hu
    obtain ⟨k, hk⟩ := walk_ok hu
    have hs' : Acpi.Bounded { s with lapicAddr := m.loadLE (dt + 36) 4 } := fun c =>
      (count_lapicAddr s _ c).trans_le (hs c)
    exact (after_counts hs' hk).1
  · obtain ⟨u, -, hret⟩ := Exec.bind_eq_ok.mp hrun
    cases hret
    exact hs
  · cases hrun
    exact hs

/-- **Walks through ACPI tables** end and stay inside the table and its two pages, for all contents
of memory and every address of a table, exactly if the table is sound. -/
theorem dt_walk_iff (m : Bytes) (va2 address : Nat) (s : Acpi) (printed : List Nat)
    (hs : s.Bounded) : DtInside m va2 (dtPointer va2 address) s printed ↔
      DtSound m va2 (dtPointer va2 address) s := by
  have hmadt := madt_walk_iff (m := m) (le_dtPointer va2 address) hs
  have hdmar := dmar_walk_iff (m := m) (le_dtPointer va2 address) printed
  constructor
  · intro h
    exact ⟨fun hsig => hmadt.mp (h.madt hsig), fun hsig => hdmar.mp (h.dmar hsig)⟩
  · intro h
    exact ⟨fun hsig => hmadt.mpr (h.madt hsig), fun hsig => hdmar.mpr (h.dmar hsig)⟩

/-- A MADT at address 0 with these bytes after its header. -/
def madtTable (records : List UInt8) : Bytes where
  byte a :=
    if a < 4 then [0x41, 0x50, 0x49, 0x43].getD a 0
    else if a = 4 then UInt8.ofNat (madtSize + records.length)
    else if a < madtSize then 0
    else records.getD (a - madtSize) 0

/-- A DMAR at address 0 with these bytes after its header. -/
def dmarTable (records : List UInt8) : Bytes where
  byte a :=
    if a < 4 then [0x44, 0x4D, 0x41, 0x52].getD a 0
    else if a = 4 then UInt8.ofNat (dmarSize + records.length)
    else if a < dmarSize then 0
    else records.getD (a - dmarSize) 0

/-- The running CPU, one that is disabled, the I/O APIC, an override of the timer, and an NMI, which is of
a type that is not looked at. -/
def fiveRecords : List UInt8 :=
  [0, 8, 0, 0, 1, 0, 0, 0] ++ [0, 8, 1, 1, 0, 0, 0, 0] ++ [1, 12, 2, 0, 0, 0, 0xC0, 0xFE, 0, 0, 0, 0] ++
    [2, 10, 0, 0, 2, 0, 0, 0, 0, 0] ++ [4, 6, 0xFF, 0, 0, 1]

theorem fiveRecords_fit : ∀ k < 5,
    let p := cursor (apicRecordLength (madtTable fiveRecords)) (dtPointer 0 0 + madtSize) k
    p + apicRecordSize (madtTable fiveRecords) p ≤
        dtPointer 0 0 + dtLength (madtTable fiveRecords) (dtPointer 0 0) ∧
      p + apicRecordSize (madtTable fiveRecords) p ≤ dtWindow 0 ∧
      apicRecordLength (madtTable fiveRecords) p ≠ 0 := by
  decide

/-- A remapping unit and a reserved range. -/
def twoRecords : List UInt8 :=
  [0, 0, 8, 0, 1, 0, 0, 0] ++ [1, 0, 8, 0, 0, 0, 0, 0]

theorem twoRecords_fit : ∀ k < 2,
    let p := cursor (dmarRecordLength (dmarTable twoRecords)) (dtPointer 0 0 + dmarSize) k
    p + dmarHeaderSize ≤ dtPointer 0 0 + dtLength (dmarTable twoRecords) (dtPointer 0 0) ∧
      p + dmarHeaderSize ≤ dtWindow 0 ∧ dmarRecordLength (dmarTable twoRecords) p ≠ 0 := by
  decide

/-- A MADT of five records, and the DMAR that is parsed after it. -/
theorem dt_walk_two_tables :
    DtInside (madtTable fiveRecords) 0 (dtPointer 0 0) .loaded [] ∧
      ∀ s printed, acpiParseDt (madtTable fiveRecords) (dtPointer 0 0) .loaded [] = .ok (s, printed) →
        DtInside (dmarTable twoRecords) 0 (dtPointer 0 0) s printed := by
  refine ⟨(dt_walk_iff _ 0 0 .loaded [] Acpi.loaded_bounded).mpr ⟨?_, ?_⟩, fun s printed hrun =>
    (dt_walk_iff _ 0 0 s printed (acpiParseDt_bounded Acpi.loaded_bounded hrun)).mpr ⟨?_, ?_⟩⟩
  · intro _ k p hlt _
    have hk : k < 5 := by
      by_contra hk
      have hmono := cursor_mono (apicRecordLength (madtTable fiveRecords)) (dtPointer 0 0 + madtSize)
        (Nat.not_lt.mp hk)
      exact absurd (hmono.trans_lt hlt) (by decide)
    obtain ⟨hend, hwindow, hlength⟩ := fiveRecords_fit k hk
    exact ⟨hend, hwindow, fun hzero => absurd hzero hlength⟩
  · exact fun hsig => absurd hsig (by decide)
  · exact fun hsig => absurd hsig (by decide)
  · intro _ k p hlt
    have hk : k < 2 := by
      by_contra hk
      have hmono := cursor_mono (dmarRecordLength (dmarTable twoRecords)) (dtPointer 0 0 + dmarSize)
        (Nat.not_lt.mp hk)
      exact absurd (hmono.trans_lt hlt) (by decide)
    exact twoRecords_fit k hk

/-- **A record of length 0.** Its type is none that is counted. -/
theorem dt_walk_hangs : ¬ ∀ m va2 address s printed, Acpi.Bounded s →
    DtInside m va2 (dtPointer va2 address) s printed := by
  intro hall
  have hmadt := (hall (madtTable [255, 0]) 0 0 .loaded [] Acpi.loaded_bounded).madt (by decide)
  have hsound := (madt_walk_iff (le_dtPointer 0 0) Acpi.loaded_bounded).mp hmadt
  have hroom : Room (madtTable [255, 0]) .loaded (dtPointer 0 0 + madtSize) 0 := by
    constructor
    · exact nofun
    · exact Acpi.loaded_bounded
  exact (hsound 0 (by decide) hroom).2.2 (by decide) (by decide)

end Rtv.Boot
