import Rtv.Mm.Vm

/-!
# The two mapping windows

The 4KB window and the 2MB window as one notion, `Window`: a table, the entries of it that are for
dynamic mapping, and the size of their pages. The functions of `Rtv.Mm.Vm` get one specification
each, for either window. A mapping function fills entries that were not present and touches no
other, and returns 0 only without having written; an unmapping function clears the entries it is
given and touches no other.
-/

namespace Rtv.Mm

open Rtv.Lib

/-! ## Windows -/

/-- A dynamic mapping window. -/
inductive Window where
  /-- 512 pages of 4KB from `KERNEL_MAPPING_BASE` on. -/
  | page
  /-- The 2MB pages from `LG_PG_BASE` to `LG_PG_LIMIT`. -/
  | largePage
deriving DecidableEq, Repr

namespace Window

/-- The virtual address of the table with the window's entries. -/
def table : Window → BitVec 64
  | page => 0xFFFFFF8000005000#64
  | largePage => 0xFFFFFFFFC0000000#64

/-- The level of the table. -/
def level : Window → Nat
  | page => 3
  | largePage => 2

/-- The first entry of the window. -/
def lo : Window → Nat
  | page => 0
  | largePage => lgPgBase >>> largePgBits

/-- The entry after the last one of the window. -/
def hi : Window → Nat
  | page => pgTableEntries
  | largePage => lgPgLimit >>> largePgBits

/-- The bits of an offset into a page. -/
def bits : Window → Nat
  | page => pgBits
  | largePage => largePgBits

/-- The size of a page. -/
def size : Window → Nat
  | page => pgSize
  | largePage => largePgSize

/-- The virtual address that entry 0 of the table translates. -/
def base : Window → Nat
  | page => kernelMappingBase
  | largePage => 0

/-- The virtual address of the page of an entry. -/
def va (w : Window) (i : Nat) : Nat := w.base + (i <<< w.bits)

theorem hi_le (w : Window) : w.hi ≤ pgTableEntries := by cases w <;> decide

theorem reaches (w : Window) {i : Nat} (hi : i < pgTableEntries) : Reaches w.table i := by
  unfold pgTableEntries at hi
  cases w <;> simp only [Reaches, table, BitVec.toNat_ofNat] <;> omega

theorem va_eq (w : Window) (i : Nat) : w.va i = w.base + i * w.size := by
  cases w <;> simp [va, base, bits, size, pgBits, pgSize, largePgBits, largePgSize, Nat.shiftLeft_eq]

/-- Pages lie one after the other. -/
theorem va_add (w : Window) (i k : Nat) : w.va (i + k) = w.va i + k * w.size := by
  rw [va_eq, va_eq, Nat.add_mul, Nat.add_assoc]

theorem va_pos (w : Window) {i : Nat} (hlo : w.lo ≤ i) : 0 < w.va i := by
  rw [va_eq]
  cases w
  · exact Nat.add_pos_left (by decide) _
  · have : 6 ≤ i := hlo
    simp only [base, size, largePgSize]
    omega

/-- The functions find the window's table from any address of the window. -/
theorem getPagingStructVaddr_va (w : Window) {i : Nat} (hlo : w.lo ≤ i) (hhi : i < w.hi) :
    getPagingStructVaddr (BitVec.ofNat 64 (w.va i)) w.level = .ok w.table := by
  have h : ∀ i < w.hi, w.lo ≤ i →
      getPagingStructVaddr (BitVec.ofNat 64 (w.va i)) w.level = .ok w.table := by
    cases w <;> decide +kernel
  exact h i hhi hlo

/-- The functions find the entry from its address. -/
theorem entryIndex_va (w : Window) {i : Nat} (hhi : i < w.hi) : entryIndex (w.va i) w.bits = i := by
  have h : ∀ i < w.hi, entryIndex (w.va i) w.bits = i := by
    cases w <;> decide +kernel
  exact h i hhi

end Window

/-! ## Entries -/

/-- Different entries of the tables are different words. -/
theorem slot_inj {w w' : Window} {i j : Nat} (hi : i < pgTableEntries) (hj : j < pgTableEntries) :
    slot w.table i = slot w'.table j ↔ w = w' ∧ i = j := by
  unfold pgTableEntries at hi hj
  constructor
  · intro h
    have h' := congrArg BitVec.toNat h
    cases w <;> cases w' <;>
      simp only [slot, Window.table, BitVec.toNat_add, BitVec.toNat_ofNat] at h' <;>
      first
        | exact ⟨rfl, by omega⟩
        | omega
  · rintro ⟨rfl, rfl⟩
    rfl

/-- The state outside the entries `[i, i + num)` of a window's table is as before. -/
def Vm.Frame (s s' : Vm) (w : Window) (i num : Nat) : Prop :=
  s'.phys = s.phys ∧ ∀ a, (∀ k < num, a ≠ slot w.table (i + k)) → s'.entry a = s.entry a

theorem Vm.Frame.refl (s : Vm) (w : Window) (i : Nat) : s.Frame s w i 0 :=
  ⟨rfl, fun _ _ => rfl⟩

theorem Vm.Frame.set (s : Vm) (w : Window) (i : Nat) (e : BitVec 64) :
    s.Frame (s.set w.table i e) w i 1 :=
  ⟨rfl, fun _ ha => if_neg (ha 0 Nat.one_pos)⟩

theorem Vm.Frame.cons {s t u : Vm} {w : Window} {i num : Nat} (h : s.Frame t w i 1)
    (h' : t.Frame u w (i + 1) num) : s.Frame u w i (num + 1) := by
  refine ⟨h'.1.trans h.1, fun a ha => ?_⟩
  rw [h'.2 a fun k hk => ?_, h.2 a fun k hk => ha k (by omega)]
  rw [Nat.add_assoc, Nat.add_comm 1]
  exact ha (k + 1) (by omega)

/-- An entry of either window outside the range reads as before. -/
theorem Vm.Frame.get {s s' : Vm} {w w' : Window} {i num j : Nat} (h : s.Frame s' w i num)
    (hin : i + num ≤ pgTableEntries) (hj : j < pgTableEntries)
    (hout : w' = w → j < i ∨ i + num ≤ j) : s'.get w'.table j = s.get w'.table j := by
  refine h.2 _ fun k hk heq => ?_
  obtain ⟨hw, hjk⟩ := (slot_inj hj (by omega)).mp heq
  have := hout hw
  omega

@[simp] theorem Vm.get_set (s : Vm) (table : BitVec 64) (i : Nat) (e : BitVec 64) :
    (s.set table i e).get table i = e := if_pos rfl

/-! ## Mapping one page -/

/-- The scan of the single mapping functions takes the first entry that is not present. -/
theorem mapPageScan_spec (s : Vm) (table : BitVec 64) (stop : Nat) (e : BitVec 64) :
    ∀ (fuel i : Nat), 0 < fuel → stop < fuel + i →
      mapPageScan s table stop e fuel i = .ok (none, s) ∨
      ∃ k, i ≤ k ∧ k < stop ∧ s.Absent table k ∧
        mapPageScan s table stop e fuel i = .ok (some k, s.set table k e) := by
  intro fuel
  induction fuel with
  | zero =>
    intro i h _
    exact absurd h (Nat.lt_irrefl 0)
  | succ fuel ih =>
    intro i _ hf
    unfold mapPageScan
    by_cases hi : i < stop
    · by_cases habs : s.Absent table i
      · rw [if_pos hi, if_pos habs]
        exact .inr ⟨i, Nat.le_refl i, hi, habs, rfl⟩
      · rw [if_pos hi, if_neg habs]
        rcases ih (i + 1) (by omega) (by omega) with h | ⟨k, hik, hk, hka, h⟩
        · exact .inl h
        · exact .inr ⟨k, by omega, hk, hka, h⟩
    · rw [if_neg hi]
      exact .inl rfl

/-! ## Mapping several pages -/

/-- The counting loop passes over entries that are not present, and counts them. -/
theorem countAbsent_spec {s : Vm} {table : BitVec 64} {stop : Nat} (hstop : stop < 2 ^ 64)
    (hreach : ∀ k < stop, Reaches table k) :
    ∀ (fuel j count : Nat), 0 < fuel → stop < fuel + j → j ≤ stop → count + stop < 2 ^ 64 + j →
      ∃ j' count', countAbsent s table stop fuel j count = .ok (j', count') ∧ j ≤ j' ∧ j' ≤ stop ∧
        count' + j = count + j' ∧ ∀ k, j ≤ k → k < j' → s.Absent table k := by
  intro fuel
  induction fuel with
  | zero =>
    intro j count h
    exact absurd h (Nat.lt_irrefl 0)
  | succ fuel ih =>
    intro j count _ hf hj hc
    have hnone : ∀ k, j ≤ k → k < j → s.Absent table k := fun k h h' => absurd h' (by omega)
    unfold countAbsent
    by_cases hlt : j < stop
    · have hr := not_not.mpr (hreach j hlt)
      by_cases habs : s.Absent table j
      · rw [if_pos hlt, if_neg hr, if_pos habs, add64_of_lt (by omega), add64_of_lt (by omega)]
        obtain ⟨j', count', hrun, hle, hle', hcount, hall⟩ :=
          ih (j + 1) (count + 1) (by omega) (by omega) (by omega) (by omega)
        refine ⟨j', count', hrun, by omega, hle', by omega, fun k hk hk' => ?_⟩
        rcases Nat.eq_or_lt_of_le hk with rfl | hlt
        · exact habs
        · exact hall k hlt hk'
      · rw [if_pos hlt, if_neg hr, if_neg habs]
        exact ⟨j, count, rfl, Nat.le_refl j, hj, rfl, hnone⟩
    · rw [if_neg hlt]
      exact ⟨j, count, rfl, Nat.le_refl j, hj, rfl, hnone⟩

/-- Entry `k` of a mapping of contiguous frames. -/
def mapped (w : Window) (frame flags : BitVec 64) (k : Nat) : BitVec 64 :=
  (frame + BitVec.ofNat 64 (k * w.size)) ||| flags

/-- The filling loop writes a mapping into the entries `[j, j + num)`. -/
theorem fillEntries_spec {w : Window} {flags : BitVec 64} :
    ∀ (num fuel j : Nat) (s : Vm) (frame : BitVec 64), num < fuel → j + num ≤ pgTableEntries →
      ∃ s', fillEntries w.table (j + num) (BitVec.ofNat 64 w.size) flags fuel s j frame = .ok s' ∧
        s.Frame s' w j num ∧ ∀ k < num, s'.get w.table (j + k) = mapped w frame flags k := by
  intro num
  induction num with
  | zero =>
    intro fuel j s frame hf _
    obtain ⟨fuel, rfl⟩ := Nat.exists_eq_add_of_lt hf
    refine ⟨s, ?_, .refl s w j, fun k hk => absurd hk (Nat.not_lt_zero k)⟩
    rw [Nat.zero_add, fillEntries, if_neg (by omega)]
    rfl
  | succ num ih =>
    intro fuel j s frame hf hin
    obtain ⟨fuel, rfl⟩ : ∃ f, fuel = f + 1 := ⟨fuel - 1, by omega⟩
    have hin' : j < 2 ^ 32 := by unfold pgTableEntries at hin; omega
    obtain ⟨s', hrun, hframe, hget⟩ := ih fuel (j + 1)
      (s.set w.table j (frame ||| flags)) (frame + BitVec.ofNat 64 w.size)
      (by omega) (by omega)
    refine ⟨s', ?_, (Vm.Frame.set s w j _).cons hframe, fun k hk => ?_⟩
    · rw [fillEntries, if_pos (by omega), add64_of_lt (by omega), ← hrun]
      congr 1
      omega
    · cases k with
      | zero =>
        rw [Nat.add_zero, hframe.get (by omega) (by omega) fun _ => .inl (by omega), Vm.get_set]
        simp [mapped]
      | succ k =>
        have := hget k (by omega)
        rw [Nat.add_assoc, Nat.add_comm 1] at this
        rw [this]
        simp only [mapped, Nat.add_mul, Nat.one_mul, BitVec.ofNat_add, BitVec.add_assoc,
          BitVec.add_comm (BitVec.ofNat 64 w.size)]

/-- The searching loop takes entries that were all not present and fills them, or leaves the state
alone. -/
theorem mapPagesScan_spec (s : Vm) {w : Window} {num : Nat} (frame flags : BitVec 64)
    (hnum : 1 ≤ num) (hfit : num ≤ pgTableEntries) {bound : Nat} (hbound : bound + num ≤ w.hi + 1) :
    ∀ (fuel i : Nat), 0 < fuel → bound < fuel + i →
      mapPagesScan s w.table bound num (BitVec.ofNat 64 w.size) frame flags fuel i = .ok (none, s) ∨
      ∃ k s', mapPagesScan s w.table bound num (BitVec.ofNat 64 w.size) frame flags fuel i =
          .ok (some k, s') ∧
        i ≤ k ∧ k + num ≤ w.hi ∧ (∀ t < num, s.Absent w.table (k + t)) ∧ s.Frame s' w k num ∧
        ∀ t < num, s'.get w.table (k + t) = mapped w frame flags t := by
  have hhi := w.hi_le
  unfold pgTableEntries at hfit hhi
  intro fuel
  induction fuel with
  | zero =>
    intro i h
    exact absurd h (Nat.lt_irrefl 0)
  | succ fuel ih =>
    intro i _ hf
    unfold mapPagesScan
    by_cases hi : i < bound
    · have hr := not_not.mpr (w.reaches (show i < pgTableEntries by unfold pgTableEntries; omega))
      by_cases habs : s.Absent w.table i
      · obtain ⟨j, count, hrun, hle, hle', hcount, hall⟩ :=
          countAbsent_spec (show i + num < 2 ^ 64 by omega)
            (fun k hk => w.reaches (show k < pgTableEntries by unfold pgTableEntries; omega))
            loopFuel (i + 1) 1 (by decide) (by unfold loopFuel; omega) (by omega) (by omega)
        rw [if_pos hi, if_neg hr, if_pos habs, add64_of_lt (by omega), add64_of_lt (by omega), hrun,
          Exec.ok_bind]
        by_cases heq : count = num
        · obtain ⟨s', hfill, hframe, hget⟩ := fillEntries_spec num loopFuel i s frame
            (by unfold loopFuel; omega) (by unfold pgTableEntries; omega)
          refine .inr ⟨i, s', ?_, Nat.le_refl i, by omega, fun t ht => ?_, hframe, hget⟩
          · simp only [if_pos heq, hfill, Exec.ok_bind]
            rfl
          · cases t with
            | zero => exact habs
            | succ t => exact hall _ (by omega) (by omega)
        · simp only [if_neg heq]
          rw [add64_of_lt (show j + 1 < 2 ^ 64 by omega), add64_of_lt (by omega)]
          rcases ih (j + 1 + 1) (by omega) (by omega) with h | ⟨k, s', h, hik, hrest⟩
          · exact .inl h
          · exact .inr ⟨k, s', h, by omega, hrest⟩
      · rw [if_pos hi, if_neg hr, if_neg habs, add64_of_lt (by omega)]
        rcases ih (i + 1) (by omega) (by omega) with h | ⟨k, s', h, hik, hrest⟩
        · exact .inl h
        · exact .inr ⟨k, s', h, by omega, hrest⟩
    · rw [if_neg hi]
      exact .inl rfl

/-! ## The mapping functions -/

/-- The outcome of a call that maps `num` pages: it returns 0 and changes nothing, or it returns
the address of entries of the window that were not present and now hold the mapping, and changes
nothing else. -/
def MapOutcome (s : Vm) (w : Window) (num : Nat) (frame flags : BitVec 64) (r : Nat × Vm) : Prop :=
  r = (0, s) ∨
    ∃ k s', r = (w.va k, s') ∧ w.lo ≤ k ∧ k + num ≤ w.hi ∧ (∀ t < num, s.Absent w.table (k + t)) ∧
      s.Frame s' w k num ∧ ∀ t < num, s'.get w.table (k + t) = mapped w frame flags t

/-- A scan of a whole window for one page. -/
theorem windowScan_spec (s : Vm) (w : Window) (frame flags : BitVec 64) :
    mapPageScan s w.table w.hi (frame ||| flags) loopFuel w.lo = .ok (none, s) ∨
    ∃ k s', mapPageScan s w.table w.hi (frame ||| flags) loopFuel w.lo = .ok (some k, s') ∧
      MapOutcome s w 1 frame flags (w.va k, s') := by
  have hhi := w.hi_le
  unfold pgTableEntries at hhi
  rcases mapPageScan_spec s w.table w.hi (frame ||| flags)
      loopFuel w.lo (by decide) (by unfold loopFuel; omega) with h | ⟨k, hlo, hlt, habs, h⟩
  · exact .inl h
  · refine .inr ⟨k, _, h, .inr ⟨k, _, rfl, hlo, hlt, fun t ht => ?_, .set s w k _, fun t ht => ?_⟩⟩
    · obtain rfl : t = 0 := by omega
      exact habs
    · obtain rfl : t = 0 := by omega
      rw [Nat.add_zero, Vm.get_set]
      simp [mapped]

/-- A search of a whole window for several pages. -/
theorem windowSearch_spec (s : Vm) (w : Window) (frame flags : BitVec 64) {num : Nat}
    (hnum : 1 ≤ num) (hfit : num ≤ pgTableEntries) (hhi : num ≤ w.hi + 1) {bound : Nat}
    (hbound : bound = add64 (sub64 w.hi num) 1) :
    mapPagesScan s w.table bound num (BitVec.ofNat 64 w.size) frame flags loopFuel w.lo =
      .ok (none, s) ∨
    ∃ k s', mapPagesScan s w.table bound num (BitVec.ofNat 64 w.size) frame flags loopFuel w.lo =
        .ok (some k, s') ∧
      MapOutcome s w num frame flags (w.va k, s') := by
  have hle := w.hi_le
  have hb : bound + num ≤ w.hi + 1 := by
    unfold pgTableEntries at hle
    unfold add64 sub64 at hbound
    omega
  rcases mapPagesScan_spec s frame flags hnum hfit hb
      loopFuel w.lo (by decide) (by unfold loopFuel pgTableEntries at *; omega) with
    h | ⟨k, s', h, hlo, hin, habs, hframe, hget⟩
  · exact .inl h
  · exact .inr ⟨k, s', h, .inr ⟨k, s', rfl, hlo, hin, habs, hframe, hget⟩⟩

/-- The table that the functions on the 4KB window use. -/
theorem page_table : getPagingStructVaddr (BitVec.ofNat 64 kernelMappingBase) 3 =
    .ok Window.page.table :=
  Window.page.getPagingStructVaddr_va (i := 0) (by decide) (by decide)

/-- The table that the functions on the 2MB window use. -/
theorem largePage_table : getPagingStructVaddr (BitVec.ofNat 64 lgPgBase) 2 =
    .ok Window.largePage.table :=
  Window.largePage.getPagingStructVaddr_va (i := 6) (by decide) (by decide)

/-- The virtual addresses of the 2MB window have no offset. -/
theorem largePage_va (i : Nat) : Window.largePage.va i = i <<< largePgBits := Nat.zero_add _

theorem vmMapPage_spec (s : Vm) (frame flags : BitVec 64) :
    ∃ r, vmMapPage s frame flags = .ok r ∧ MapOutcome s .page 1 frame flags r := by
  unfold vmMapPage
  rw [page_table, Exec.ok_bind]
  rcases windowScan_spec s .page frame flags with h | ⟨k, s', h, hout⟩ <;>
    simp only [Window.hi, Window.lo] at h <;> rw [h]
  · exact ⟨_, rfl, .inl rfl⟩
  · exact ⟨_, rfl, hout⟩

theorem vmMapLargePage_spec (s : Vm) (frame flags : BitVec 64) :
    ∃ r, vmMapLargePage s frame flags = .ok r ∧ MapOutcome s .largePage 1 frame flags r := by
  unfold vmMapLargePage
  rw [largePage_table, Exec.ok_bind]
  rcases windowScan_spec s .largePage frame flags with h | ⟨k, s', h, hout⟩ <;>
    simp only [Window.hi, Window.lo] at h <;> rw [h]
  · exact ⟨_, rfl, .inl rfl⟩
  · exact ⟨_, rfl, largePage_va k ▸ hout⟩

theorem vmMapPages_spec (s : Vm) (frame flags : BitVec 64) {num : Nat} (hnum : 1 ≤ num)
    (hfit : num ≤ 512) :
    ∃ r, vmMapPages s frame num flags = .ok r ∧ MapOutcome s .page num frame flags r := by
  unfold vmMapPages
  rw [if_neg (by omega), page_table]
  simp only [Exec.ok_bind]
  rcases windowSearch_spec s .page frame flags hnum hfit (Nat.le_succ_of_le hfit) rfl with
    h | ⟨k, s', h, hout⟩ <;>
    simp only [Window.hi, Window.lo, Window.size] at h <;> rw [h]
  · exact ⟨_, rfl, .inl rfl⟩
  · exact ⟨_, rfl, hout⟩

theorem vmMapLargePages_spec (s : Vm) (frame flags : BitVec 64) {num : Nat} (hnum : 1 ≤ num)
    (hfit : num ≤ 17) :
    ∃ r, vmMapLargePages s frame num flags = .ok r ∧ MapOutcome s .largePage num frame flags r := by
  unfold vmMapLargePages
  rw [if_neg (by omega), largePage_table]
  simp only [Exec.ok_bind]
  rcases windowSearch_spec s .largePage frame flags hnum (by unfold pgTableEntries; omega) hfit rfl
    with h | ⟨k, s', h, hout⟩ <;>
    simp only [Window.hi, Window.lo, Window.size] at h <;> rw [h]
  · exact ⟨_, rfl, .inl rfl⟩
  · exact ⟨_, rfl, largePage_va k ▸ hout⟩

/-! ## The unmapping functions -/

/-- `s'` is `s` with the entries `[i, i + num)` of the window's table cleared. -/
def Cleared (s s' : Vm) (w : Window) (i num : Nat) : Prop :=
  s.Frame s' w i num ∧ ∀ k < num, s'.get w.table (i + k) = 0#64

theorem Cleared.refl (s : Vm) (w : Window) (i : Nat) : Cleared s s w i 0 :=
  ⟨.refl s w i, fun k hk => absurd hk (Nat.not_lt_zero k)⟩

theorem Cleared.set (s : Vm) (w : Window) (i : Nat) : Cleared s (s.set w.table i 0#64) w i 1 := by
  refine ⟨.set s w i _, fun k hk => ?_⟩
  obtain rfl : k = 0 := by omega
  exact Vm.get_set s w.table i _

/-- Clearing one entry and then the ones after it. -/
theorem Cleared.cons {s s' : Vm} {w : Window} {i num : Nat} (hin : i + (num + 1) ≤ pgTableEntries)
    (h : Cleared (s.set w.table i 0#64) s' w (i + 1) num) : Cleared s s' w i (num + 1) := by
  refine ⟨(Vm.Frame.set s w i _).cons h.1, fun k hk => ?_⟩
  cases k with
  | zero =>
    rw [Nat.add_zero, h.1.get (by omega) (by omega) fun _ => .inl (by omega)]
    exact Vm.get_set s w.table i _
  | succ k =>
    rw [← Nat.add_assoc, Nat.add_right_comm]
    exact h.2 k (by omega)

/-- The loop of the unmapping functions clears its entries. -/
theorem unmapLoop_spec {w : Window} {mask : BitVec 64} :
    ∀ (num i : Nat) (s : Vm) (frame : BitVec 64), i + num ≤ pgTableEntries →
      Cleared s (unmapLoop w.table mask num s i frame).2 w i num := by
  intro num
  induction num with
  | zero => exact fun i s frame _ => .refl s w i
  | succ num ih =>
    intro i s frame hin
    have hin' : i + 1 < 2 ^ 64 := by unfold pgTableEntries at hin; omega
    rw [unmapLoop, add64_of_lt hin']
    exact .cons hin (ih (i + 1) _ _ (by omega))

/-- The outcome of a call that unmaps `num` pages from an address of the window on. -/
def UnmapOutcome (s : Vm) (w : Window) (va num : Nat) (s' : Vm) : Prop :=
  Cleared s s' w (entryIndex va w.bits) num

theorem unmapEntry_spec (s : Vm) (w : Window) {i : Nat} (hlo : w.lo ≤ i) (hhi : i < w.hi)
    (mask : BitVec 64) :
    ∃ r, unmapEntry s (w.va i) w.level w.bits mask = .ok r ∧ UnmapOutcome s w (w.va i) 1 r.2 := by
  unfold unmapEntry
  rw [w.getPagingStructVaddr_va hlo hhi, Exec.ok_bind]
  exact ⟨_, rfl, .set s w _⟩

theorem vmUnmapPage_spec (s : Vm) {i : Nat} (hhi : i < Window.page.hi) :
    ∃ r, vmUnmapPage s (Window.page.va i) = .ok r ∧
      UnmapOutcome s .page (Window.page.va i) 1 r.2 :=
  unmapEntry_spec s .page (Nat.zero_le i) hhi pgMask

theorem vmUnmapLargePage_spec (s : Vm) {i : Nat} (hlo : Window.largePage.lo ≤ i)
    (hhi : i < Window.largePage.hi) :
    ∃ r, vmUnmapLargePage s (Window.largePage.va i) = .ok r ∧
      UnmapOutcome s .largePage (Window.largePage.va i) 1 r.2 :=
  unmapEntry_spec s .largePage hlo hhi largePgMask

theorem vmUnmapPages_spec (s : Vm) {i num : Nat} (hnum : 1 ≤ num) (hhi : i + num ≤ Window.page.hi) :
    ∃ r, vmUnmapPages s (Window.page.va i) num = .ok r ∧
      UnmapOutcome s .page (Window.page.va i) num r.2 := by
  have htable := Window.page.getPagingStructVaddr_va (Nat.zero_le i) (show i < Window.page.hi by omega)
  unfold vmUnmapPages
  simp only [Window.level] at htable
  rw [htable, Exec.ok_bind]
  refine ⟨_, rfl, unmapLoop_spec num _ s 0#64 ?_⟩
  have hidx := Window.page.entryIndex_va (show i < Window.page.hi by omega)
  simp only [Window.bits] at hidx
  rw [hidx]
  exact hhi

theorem vmUnmapLargePages_spec (s : Vm) {i num : Nat} (hnum : 1 ≤ num)
    (hlo : Window.largePage.lo ≤ i) (hhi : i + num ≤ Window.largePage.hi) :
    ∃ r, vmUnmapLargePages s (Window.largePage.va i) num = .ok r ∧
      UnmapOutcome s .largePage (Window.largePage.va i) num r.2 := by
  have htable :=
    Window.largePage.getPagingStructVaddr_va hlo (show i < Window.largePage.hi by omega)
  unfold vmUnmapLargePages
  simp only [Window.level] at htable
  rw [htable, Exec.ok_bind]
  refine ⟨_, rfl, unmapLoop_spec num _ s 0#64 ?_⟩
  have hidx := Window.largePage.entryIndex_va (show i < Window.largePage.hi by omega)
  simp only [Window.bits] at hidx
  rw [hidx]
  exact Nat.le_trans hhi Window.largePage.hi_le

/-! ## Start -/

/-- The clearing loops of `vm_init`. -/
theorem clearEntries_spec {w : Window} : ∀ (num i : Nat) (s : Vm), i + num ≤ pgTableEntries →
    Cleared s (clearEntries w.table num s i) w i num := by
  intro num
  induction num with
  | zero => exact fun i s _ => .refl s w i
  | succ num ih => exact fun i s hin => .cons hin (ih (i + 1) _ (by omega))

/-- After both loops the windows are empty. -/
theorem clearWindows_get (s : Vm) (w : Window) {i : Nat} (hlo : w.lo ≤ i) (hhi : i < w.hi) :
    (clearEntries Window.largePage.table 10
      (clearEntries Window.page.table pgTableEntries s 0) 6).get w.table i = 0#64 := by
  obtain ⟨_, hpage⟩ := clearEntries_spec (w := .page) 512 0 s (by decide)
  obtain ⟨hframe, hlarge⟩ := clearEntries_spec (w := .largePage) 10 6
    (clearEntries Window.page.table pgTableEntries s 0) (by decide)
  cases w with
  | page =>
    have hi : i < 512 := hhi
    refine (hframe.get (by decide) hi fun heq => by cases heq).trans ?_
    have := hpage i hi
    rwa [Nat.zero_add] at this
  | largePage =>
    have hi : 6 ≤ i := hlo
    have hi' : i < 16 := hhi
    have := hlarge (i - 6) (by omega)
    rwa [Nat.add_sub_cancel' hi] at this

/-- After `vm_init` both windows are empty. -/
theorem vmInit_spec {s s' : Vm} (h : vmInit s = .ok s') (w : Window) {i : Nat} (hlo : w.lo ≤ i)
    (hhi : i < w.hi) : s'.get w.table i = 0#64 := by
  unfold vmInit at h
  obtain ⟨pml4t, _, h⟩ := Exec.bind_eq_ok.mp h
  obtain ⟨s₁, _, h⟩ := Exec.bind_eq_ok.mp h
  obtain ⟨pdpt, _, h⟩ := Exec.bind_eq_ok.mp h
  obtain ⟨s₂, _, h⟩ := Exec.bind_eq_ok.mp h
  obtain ⟨pdt, hpdt, h⟩ := Exec.bind_eq_ok.mp h
  obtain ⟨s₃, _, h⟩ := Exec.bind_eq_ok.mp h
  obtain ⟨pt, hpt, h⟩ := Exec.bind_eq_ok.mp h
  have hpdt' : pdt = Window.largePage.table := by
    have : getPagingStructVaddr (BitVec.ofNat 64 kernelMappingBase) 2 =
        .ok Window.largePage.table := by decide
    exact (Except.ok.inj (this.symm.trans hpdt)).symm
  obtain rfl : pt = Window.page.table := (Except.ok.inj (page_table.symm.trans hpt)).symm
  subst hpdt'
  cases h
  exact clearWindows_get s₃ w hlo hhi

end Rtv.Mm
