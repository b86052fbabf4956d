import Rtv.Boot.TableWalk
import Rtv.Lib.Logged

/-!
# Stores to the tables of the MADT

`acpi_parse_apic` and `acpi_add_cpu` with a log of their stores to `lapic_ids` and `irq_map`, for a
well-formed MADT with any records in any order.

Both tables are written before the check that they are not full, so that the first entry too many is
written behind the table and only then refused. The other counters decide nothing, but a second I/O
APIC or an override for another bus before it stops the parsing earlier.

**The law** (`madt_stores_iff`): all stores are inside, tables with too many records are refused and
those that fill the arrays are accepted, exactly if no record that is stored comes when its array is
full.
-/

namespace Rtv.Boot

open Rtv.Lib

/-! ## The code with its stores -/

/-- A store to an element of one of the two arrays. -/
inductive TableStore where
  | lapicIds (index : Nat)
  | irqMap (index : Nat)
deriving DecidableEq, Repr

/-- The element is in its array. -/
def TableStore.Inside : TableStore → Prop
  | .lapicIds index => index < maxCpus
  | .irqMap index => index < maxIrqOverrides

instance (w : TableStore) : Decidable w.Inside := by
  cases w <;> unfold TableStore.Inside <;> infer_instance

/-- `acpi_add_cpu` with its stores. -/
def logAddCpu (s : Acpi) (apicId : UInt8) (flags : Nat) : Logged TableStore (Bool × Acpi) :=
  if flags % 2 = 0 then pure (true, s)
  else if apicId = lapicGetPhysId s bspPcpuId then pure (false, s)
  else do
    Logged.record (.lapicIds s.gCpus)
    let s := { s with
      lapicIds := fun i => if i = s.gCpus then apicId else s.lapicIds i
      gCpus := (s.gCpus + 1) % 2 ^ 16 }
    if s.gCpus > maxCpus then
      Logged.lift (.error (.panic "acpi_add_cpu" "Exceeds supported max CPUs"))
    else pure (true, s)

/-- The branch for an interrupt override with its stores: `irq`, `gsi` and `flags` are one element. -/
def logOverride (s : Acpi) (bus irq : UInt8) (gsi flags : Nat) : Logged TableStore Acpi :=
  if bus ≠ 0 then Logged.lift (.error (.panic "acpi_parse_apic" "Only bus 0 is supported"))
  else do
    Logged.record (.irqMap s.numOverrides)
    let s := { s with
      irqMap := fun i => if i = s.numOverrides then ⟨irq, flags, gsi⟩ else s.irqMap i
      numOverrides := (s.numOverrides + 1) % 2 ^ 8 }
    if s.numOverrides > maxIrqOverrides then
      Logged.lift (.error (.panic "acpi_parse_apic" "Exceeds supported max overrides"))
    else pure s

/-- The body of the loop with its stores. -/
def logApicBody (m : Bytes) (p : Nat) (s : Acpi) : Logged TableStore Acpi :=
  let type := m p
  if type = apicTypeLapic then do
    let (_, s) ← logAddCpu s (m (p + 3)) (m.loadLE (p + 4) 4)
    return s
  else if type = apicTypeIoapic then
    Logged.lift (addIoapic s (m.loadLE (p + 4) 4) (m.loadLE (p + 8) 4))
  else if type = apicTypeInterruptOverride then
    logOverride s (m (p + 2)) (m (p + 3)) (m.loadLE (p + 4) 4) (m.loadLE (p + 8) 2)
  else
    return s

/-- The loop with its stores. -/
def logApicLoop (m : Bytes) (fin : Nat) : Nat → Nat → Acpi → Logged TableStore Acpi
  | 0, _, _ => Logged.lift (.error .hang)
  | fuel + 1, p, s =>
    if p < fin then do
      let length := m (p + 1)
      let s ← logApicBody m p s
      logApicLoop m fin fuel (p + length.toNat) s
    else return s

/-- `acpi_parse_apic` with its stores. -/
def logParseApic (m : Bytes) (madt : Nat) (s : Acpi) : Logged TableStore Acpi :=
  logApicLoop m (madt + madtLength m madt) loopFuel (madt + madtSize)
    { s with lapicAddr := m.loadLE (madt + 36) 4 }

section Erasure

variable (m : Bytes) (p : Nat) (s : Acpi)

theorem logAddCpu_outcome (apicId : UInt8) (flags : Nat) :
    (logAddCpu s apicId flags).outcome = acpiAddCpu s apicId flags := by
  simp [logAddCpu, acpiAddCpu]

theorem logOverride_outcome (bus irq : UInt8) (gsi flags : Nat) :
    (logOverride s bus irq gsi flags).outcome = addOverride s bus irq gsi flags := by
  simp [logOverride, addOverride]

theorem logApicBody_outcome : (logApicBody m p s).outcome = parseApicBody m p s := by
  simp [logApicBody, parseApicBody, logAddCpu_outcome, logOverride_outcome]

theorem logApicLoop_outcome (fin fuel : Nat) :
    (logApicLoop m fin fuel p s).outcome = parseApicLoop m fin fuel p s := by
  induction fuel generalizing p s with
  | zero => rfl
  | succ fuel ih => simp [logApicLoop, parseApicLoop, logApicBody_outcome, ih]

/-- **The code with its stores is the code.** -/
theorem logParseApic_outcome (madt : Nat) : (logParseApic m madt s).outcome = acpiParseApic m madt s :=
  logApicLoop_outcome m _ _ _ _

end Erasure

/-! ## Stores inside the tables -/

/-- What a record is counted as, with `bsp` the id that `lapic_phys_ids` has for the running CPU. -/
def MadtRecord.counter (bsp : UInt8) : MadtRecord → Option Counter
  | .lapic apicId flags => if flags % 2 = 0 ∨ apicId = bsp then none else some .cpu
  | .ioapic _ _ => some .ioapic
  | .interruptOverride _ _ _ _ => some .interruptOverride
  | .other _ _ => none

/-- The table a record is stored in: it is a CPU, or an override for bus 0. -/
def MadtRecord.storedAs (bsp : UInt8) : MadtRecord → Option Counter
  | .lapic apicId flags => if flags % 2 = 0 ∨ apicId = bsp then none else some .cpu
  | .ioapic _ _ => none
  | .interruptOverride bus _ _ _ => if bus = 0 then some .interruptOverride else none
  | .other _ _ => none

/-- An override is for bus 0. -/
def MadtRecord.BusZero : MadtRecord → Prop
  | .interruptOverride bus _ _ _ => bus = 0
  | _ => True

/-- How much is taken after the records `rs`. -/
def Acpi.taken (s : Acpi) (rs : List MadtRecord) (c : Counter) : Nat :=
  s.count c + rs.countP fun r => r.counter (lapicGetPhysId s bspPcpuId) = some c

/-- There is room for all of the records, and none of them is for another bus. -/
structure Accepted (s : Acpi) (rs : List MadtRecord) : Prop where
  bus : ∀ r ∈ rs, r.BusZero
  room : ∀ c : Counter, s.taken rs c ≤ c.limit

/-- The stores to the tables are safe, for the MADT with the records `rs`. -/
structure StoresSafely (m : Bytes) (madt : Nat) (rs : List MadtRecord) (s : Acpi) : Prop where
  inside : ∀ w ∈ (logParseApic m madt s).log, w.Inside
  refused : ∀ c : Counter, c.limit < s.taken rs c →
    ∃ func msg, (logParseApic m madt s).outcome = .error (.panic func msg)
  filled : Accepted s rs → ∃ t, (logParseApic m madt s).outcome = .ok t

/-- A record that is stored comes when its table has room, unless one before it was refused. -/
def StoreFits (s : Acpi) (rs : List MadtRecord) : Prop :=
  ∀ pre r post, rs = pre ++ r :: post → Accepted s pre →
    ∀ c, r.storedAs (lapicGetPhysId s bspPcpuId) = some c → s.taken pre c < c.limit

/-! ## The records -/

/-- The body of the loop with its stores, on a record. -/
def logRecord (s : Acpi) : MadtRecord → Logged TableStore Acpi
  | .lapic apicId flags => do
    let (_, s) ← logAddCpu s apicId flags
    return s
  | .ioapic address gsiBase => Logged.lift (addIoapic s address gsiBase)
  | .interruptOverride bus irq gsi flags => logOverride s bus irq gsi flags
  | .other _ _ => return s

section Walk

variable {m : Bytes} {p fin fuel : Nat} {r : MadtRecord} {rs pre : List MadtRecord} {s t : Acpi}

theorem logRecord_outcome (s : Acpi) (r : MadtRecord) : (logRecord s r).outcome = parseRecord s r := by
  cases r with
  | lapic apicId flags => simp [logRecord, parseRecord, logAddCpu_outcome]
  | ioapic address gsiBase => rfl
  | interruptOverride bus irq gsi flags => exact logOverride_outcome s bus irq gsi flags
  | other type length => rfl

theorem logApicBody_eq (h : r.At m p) : logApicBody m p s = logRecord s r := by
  have hbranch := h.dispatch (fun apicId flags => logAddCpu s apicId flags >>= fun r => pure r.2)
    (fun address gsiBase => Logged.lift (addIoapic s address gsiBase)) (logOverride s) (pure s)
  refine Eq.trans hbranch ?_
  cases r <;> rfl

/-- The walk is a loop over the records, with its stores. -/
theorem logApicLoop_eq (h : Records m fin p rs) (hfuel : rs.length < fuel) :
    logApicLoop m fin fuel p s = rs.foldlM logRecord s :=
  h.loop_eq (fun _ _ _ => rfl) logApicBody_eq hfuel

theorem logParseApic_eq {madt : Nat} (h : WellFormed m madt rs) :
    logParseApic m madt s = rs.foldlM logRecord { s with lapicAddr := m.loadLE (madt + 36) 4 } := by
  apply logApicLoop_eq h
  have hlen : madtLength m madt < 2 ^ 32 := Bytes.loadLE_lt
  have hfit := Records.length_le h
  rw [loopFuel]
  omega

/-- The first of the records fill the bytes up to where the others begin. -/
theorem Records.of_append {post : List MadtRecord} (h : Records m fin p (pre ++ post)) :
    ∃ q, Records m q p pre ∧ Records m fin q post := by
  induction pre generalizing p with
  | nil => exact ⟨p, rfl, h⟩
  | cons r pre ih =>
    obtain ⟨q, hpre, hpost⟩ := ih h.2
    exact ⟨q, ⟨h.1, hpre⟩, hpost⟩

theorem counted_eq (h : r.At m p) (bsp : UInt8) : counted m bsp p = r.counter bsp := by
  have hbranch := h.dispatch
    (fun apicId flags => if flags % 2 = 0 ∨ apicId = bsp then none else some Counter.cpu)
    (fun _ _ => some .ioapic) (fun _ _ _ _ => some .interruptOverride) none
  refine Eq.trans hbranch ?_
  cases r <;> rfl

theorem busZero_iff (h : r.At m p) : BusZero m p ↔ r.BusZero := by
  rw [BusZero]
  cases r with
  | lapic apicId flags => simp [h.1, apicTypeLapic, apicTypeInterruptOverride, MadtRecord.BusZero]
  | ioapic address gsiBase =>
    simp [h.1, apicTypeIoapic, apicTypeInterruptOverride, MadtRecord.BusZero]
  | interruptOverride bus irq gsi flags =>
    obtain ⟨htype, -, hbus, -⟩ := h
    simp [htype, hbus, MadtRecord.BusZero]
  | other type length =>
    obtain ⟨htype, -, -, -, -, hother⟩ := h
    simp [htype, hother, MadtRecord.BusZero]

/-! ## What they leave -/

theorem taken_cons (s : Acpi) (r : MadtRecord) (rs : List MadtRecord) (c : Counter) :
    s.taken (r :: rs) c =
      s.taken rs c + if r.counter (lapicGetPhysId s bspPcpuId) = some c then 1 else 0 := by
  simp [Acpi.taken, List.countP_cons, Nat.add_assoc]

/-- The record at `p` was counted. -/
theorem Counts.taken (h : Counts m p s t) (hr : r.At m p) (rs : List MadtRecord) (c : Counter) :
    t.taken rs c = s.taken (r :: rs) c := by
  have hbsp : lapicGetPhysId t bspPcpuId = lapicGetPhysId s bspPcpuId := congrFun h.phys bspPcpuId
  rw [taken_cons, Acpi.taken, Acpi.taken, h.count c, hbsp, counted_eq hr, Nat.add_right_comm]

/-- What records that were all accepted leave. -/
theorem parseRecords_ok (h : Records m fin p rs) (hs : s.Bounded)
    (hrun : rs.foldlM parseRecord s = .ok t) :
    Accepted s rs ∧ t.lapicPhysIds = s.lapicPhysIds ∧ ∀ c, t.count c = s.taken rs c := by
  induction rs generalizing p s with
  | nil =>
    cases hrun
    exact ⟨⟨nofun, hs⟩, rfl, fun _ => rfl⟩
  | cons r rs ih =>
    obtain ⟨u, hfirst, hrest⟩ := Exec.bind_eq_ok.mp hrun
    rw [← parseApicBody_eq h.1] at hfirst
    obtain ⟨hadmits, hcounts⟩ := parseApicBody_ok hs hfirst
    obtain ⟨haccepted, hphys, hcount⟩ := ih h.2 (hcounts.bounded hadmits hs) hrest
    refine ⟨⟨?_, fun c => ?_⟩, hphys.trans hcounts.phys, fun c => ?_⟩
    · rintro r' (_ | ⟨_, hr'⟩)
      · exact (busZero_iff h.1).mp hadmits.1
      · exact haccepted.bus r' hr'
    · rw [← hcounts.taken h.1]
      exact haccepted.room c
    · rw [hcount c, hcounts.taken h.1]

/-- Records there is room for are all accepted. -/
theorem Accepted.exists_ok (h : Accepted s rs) (hrecords : Records m fin p rs) (hs : s.Bounded) :
    ∃ t, rs.foldlM parseRecord s = .ok t := by
  induction rs generalizing p s with
  | nil => exact ⟨s, rfl⟩
  | cons r rs ih =>
    have hadmits : Admits m p s := by
      refine ⟨(busZero_iff hrecords.1).mpr (h.bus r List.mem_cons_self), fun c hc => ?_⟩
      have hroom := h.room c
      rw [counted_eq hrecords.1] at hc
      rw [taken_cons, if_pos hc] at hroom
      exact (Nat.le_add_right _ _).trans_lt hroom
    obtain ⟨u, hfirst⟩ := hadmits.exists_ok hs
    obtain ⟨-, hcounts⟩ := parseApicBody_ok hs hfirst
    have haccepted : Accepted u rs := by
      constructor
      · exact fun r' hr' => h.bus r' (List.mem_cons_of_mem r hr')
      · intro c
        rw [hcounts.taken hrecords.1]
        exact h.room c
    obtain ⟨t, hrest⟩ := ih haccepted hrecords.2 (hcounts.bounded hadmits hs)
    rw [parseApicBody_eq hrecords.1] at hfirst
    exact ⟨t, Exec.bind_eq_ok.mpr ⟨u, hfirst, hrest⟩⟩

/-- The body of the loop stops by a panic. -/
theorem parseRecord_panics {e : Stop} (hrun : parseRecord s r = .error e) :
    ∃ func msg, e = .panic func msg := by
  cases r with
  | lapic apicId flags =>
    simp only [parseRecord, acpiAddCpu] at hrun
    split_ifs at hrun <;> cases hrun
    exact ⟨_, _, rfl⟩
  | ioapic address gsiBase =>
    simp only [parseRecord, addIoapic] at hrun
    split_ifs at hrun <;> cases hrun
    exact ⟨_, _, rfl⟩
  | interruptOverride bus irq gsi flags =>
    simp only [parseRecord, addOverride] at hrun
    split_ifs at hrun <;> cases hrun <;> exact ⟨_, _, rfl⟩
  | other type length => cases hrun

@[simp] theorem logAddCpu_log (s : Acpi) (apicId : UInt8) (flags : Nat) :
    (logAddCpu s apicId flags).log =
      if flags % 2 = 0 ∨ apicId = lapicGetPhysId s bspPcpuId then [] else [.lapicIds s.gCpus] := by
  rw [logAddCpu]
  by_cases hflag : flags % 2 = 0
  · simp [hflag]
  by_cases hbsp : apicId = lapicGetPhysId s bspPcpuId
  · simp [hflag, hbsp]
  · rw [if_neg hflag, if_neg hbsp, if_neg (not_or.mpr ⟨hflag, hbsp⟩), Logged.log_bind_ok rfl]
    simp [apply_ite Logged.log]

@[simp] theorem logOverride_log (s : Acpi) (bus irq : UInt8) (gsi flags : Nat) :
    (logOverride s bus irq gsi flags).log = if bus = 0 then [.irqMap s.numOverrides] else [] := by
  rw [logOverride]
  by_cases hbus : bus = 0
  · rw [if_neg (not_not.mpr hbus), if_pos hbus, Logged.log_bind_ok rfl]
    simp [apply_ite Logged.log]
  · simp [hbus]

/-- The stores for a record are inside exactly if its table has room. -/
theorem logRecord_inside : (∀ w ∈ (logRecord s r).log, w.Inside) ↔
    ∀ c, r.storedAs (lapicGetPhysId s bspPcpuId) = some c → s.count c < c.limit := by
  cases r with
  | lapic apicId flags =>
    rw [logRecord, Logged.log_bind_pure, logAddCpu_log, MadtRecord.storedAs]
    split_ifs
    · simp
    · simp [TableStore.Inside, Acpi.count, Counter.limit]
  | ioapic address gsiBase => simp [logRecord, MadtRecord.storedAs]
  | interruptOverride bus irq gsi flags =>
    rw [logRecord, logOverride_log, MadtRecord.storedAs]
    split_ifs
    · simp [TableStore.Inside, Acpi.count, Counter.limit]
    · simp
  | other type length => simp [logRecord, MadtRecord.storedAs]

end Walk

/-! ## The law -/

section Law

variable {m : Bytes} {madt : Nat} {rs : List MadtRecord} {s : Acpi}

/-- The address that `acpi_parse_apic` stores at its start decides nothing. -/
theorem taken_lapicAddr (s : Acpi) (addr : Nat) (rs : List MadtRecord) (c : Counter) :
    Acpi.taken { s with lapicAddr := addr } rs c = s.taken rs c := by
  rw [Acpi.taken, count_lapicAddr]
  rfl

theorem Acpi.Bounded.lapicAddr (hs : s.Bounded) (addr : Nat) :
    Acpi.Bounded { s with lapicAddr := addr } := fun c =>
  (count_lapicAddr s addr c).trans_le (hs c)

theorem accepted_lapicAddr (addr : Nat) : Accepted { s with lapicAddr := addr } rs ↔ Accepted s rs := by
  constructor
  · intro h
    exact ⟨h.bus, fun c => (taken_lapicAddr s addr rs c).symm.trans_le (h.room c)⟩
  · intro h
    exact ⟨h.bus, fun c => (taken_lapicAddr s addr rs c).trans_le (h.room c)⟩

/-- The stores for the records are inside exactly if each of them fits. -/
theorem logRecords_inside {p fin : Nat} (h : Records m fin p rs) (hs : s.Bounded) :
    (∀ w ∈ (rs.foldlM logRecord s).log, w.Inside) ↔ StoreFits s rs := by
  have herase : ∀ pre : List MadtRecord, (pre.foldlM logRecord s).outcome = pre.foldlM parseRecord s := by
    intro pre
    simp only [Logged.outcome_foldlM, logRecord_outcome]
  constructor
  · rintro hinside pre r post rfl haccepted c hc
    obtain ⟨q, hpre, -⟩ := h.of_append
    obtain ⟨t, ht⟩ := haccepted.exists_ok hpre hs
    obtain ⟨-, hphys, hcount⟩ := parseRecords_ok hpre hs ht
    have hbsp : lapicGetPhysId t bspPcpuId = lapicGetPhysId s bspPcpuId := congrFun hphys bspPcpuId
    have hrecord : ∀ w ∈ (logRecord t r).log, w.Inside := fun w hw =>
      hinside w (Logged.mem_log_foldlM.mpr ⟨pre, r, post, t, rfl, (herase pre).trans ht, hw⟩)
    rw [← hcount c]
    exact logRecord_inside.mp hrecord c (hbsp ▸ hc)
  · intro hfits w hw
    obtain ⟨pre, r, post, t, rfl, ht, hw⟩ := Logged.mem_log_foldlM.mp hw
    obtain ⟨q, hpre, -⟩ := h.of_append
    rw [herase pre] at ht
    obtain ⟨haccepted, hphys, hcount⟩ := parseRecords_ok hpre hs ht
    have hbsp : lapicGetPhysId t bspPcpuId = lapicGetPhysId s bspPcpuId := congrFun hphys bspPcpuId
    refine logRecord_inside.mpr (fun c hc => ?_) w hw
    rw [hcount c]
    exact hfits pre r post rfl haccepted c (hbsp ▸ hc)

/-- All stores are inside exactly if each of them fits. -/
theorem logParseApic_inside (h : WellFormed m madt rs) (hs : s.Bounded) :
    (∀ w ∈ (logParseApic m madt s).log, w.Inside) ↔ StoreFits s rs := by
  rw [logParseApic_eq h, logRecords_inside h (hs.lapicAddr _)]
  simp only [StoreFits, accepted_lapicAddr, taken_lapicAddr]
  rfl

/-- **The stores to the tables** are safe exactly if no record that is stored comes when its table is
full. -/
theorem madt_stores_iff (m : Bytes) (madt : Nat) (rs : List MadtRecord) (s : Acpi)
    (h : WellFormed m madt rs) (hs : s.Bounded) : StoresSafely m madt rs s ↔ StoreFits s rs := by
  rw [← logParseApic_inside h hs]
  constructor
  · exact StoresSafely.inside
  · intro hinside
    have hs' := hs.lapicAddr (m.loadLE (madt + 36) 4)
    refine ⟨hinside, fun c hover => ?_, fun haccepted => ?_⟩
    · rw [logParseApic_outcome, acpiParseApic_eq h]
      cases hrun : rs.foldlM parseRecord { s with lapicAddr := m.loadLE (madt + 36) 4 } with
      | error e =>
        obtain ⟨func, msg, rfl⟩ := Exec.foldlM_error (fun _ _ _ => parseRecord_panics) hrun
        exact ⟨func, msg, rfl⟩
      | ok t =>
        obtain ⟨haccepted, -⟩ := parseRecords_ok h hs' hrun
        exact absurd (((accepted_lapicAddr _).mp haccepted).room c) (not_le_of_gt hover)
    · rw [logParseApic_outcome, acpiParseApic_eq h]
      exact ((accepted_lapicAddr _).mpr haccepted).exists_ok h hs'

/-- Two CPUs fit. -/
theorem madt_stores_two : WellFormed (lapicTable [0, 1]) 0 [.lapic 0 1, .lapic 1 1] ∧
    Acpi.loaded.Bounded ∧ (StoresSafely (lapicTable [0, 1]) 0 [.lapic 0 1, .lapic 1 1] .loaded ↔
      StoreFits .loaded [.lapic 0 1, .lapic 1 1]) :=
  ⟨by decide, Acpi.loaded_bounded,
    madt_stores_iff (lapicTable [0, 1]) 0 [.lapic 0 1, .lapic 1 1] .loaded (by decide)
      Acpi.loaded_bounded⟩

/-- The ids of the bootstrap CPU and 16 others, one more than there is room for. -/
def seventeenIds : List UInt8 := [0, 1, 2, 3, 4, 5, 6, 7, 8, 9, 10, 11, 12, 13, 14, 15, 16]

/-- **A store behind the table.** The last of 16 further CPUs is stored in `lapic_ids[16]`. -/
theorem madt_stores_behind : ¬ ∀ m madt rs s, WellFormed m madt rs → Acpi.Bounded s →
    StoresSafely m madt rs s := by
  intro h
  have hformed : WellFormed (lapicTable seventeenIds) 0 (seventeenIds.map (.lapic · 1)) := by decide
  have hinside := (h _ _ _ _ hformed Acpi.loaded_bounded).inside
  have hfits := (logParseApic_inside hformed Acpi.loaded_bounded).mp hinside
  have haccepted : Accepted .loaded ((seventeenIds.take 16).map (.lapic · 1)) := by
    constructor
    · intro r hr
      obtain ⟨apicId, -, rfl⟩ := List.mem_map.mp hr
      trivial
    · intro c
      cases c <;> decide
  have hroom := hfits _ (.lapic 16 1) [] rfl haccepted .cpu rfl
  exact absurd hroom (by decide)

end Law

end Rtv.Boot
