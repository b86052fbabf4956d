import Mathlib.Data.Set.Lattice
import Mathlib.Data.List.Pairwise
import Mathlib.Order.CompletePartialOrder
import Rtv.Mm.Paging
import Rtv.Mm.Window

/-!
# Which entries are present

The mapping and unmapping functions of `vm.c` seen from the entries that are present, for any number
of pages: `vm_map_large_pages` asked for more pages than its window has goes on past the window, to
the end of the recursive window at most.

`Live s₀ ls s`: the entries present in `s` are those of `s₀` and, apart from them and from each other,
the sets of entries in the list `ls`. A mapping call adds a set at the head, and the call that unmaps
what it mapped removes it, wherever it is in the list by then. The entry of the address 0 is left
out: this is what a call to unmap `NULL` clears.
-/

namespace Rtv.Mm

open Rtv.Lib

/-- The entry at an address of the recursive window is present. -/
def Vm.Present (s : Vm) (a : BitVec 64) : Prop := s.entry a &&& pgtP ≠ 0#64

theorem Vm.absent_iff {s : Vm} {table : BitVec 64} {i : Nat} :
    s.Absent table i ↔ ¬ s.Present (slot table i) := not_not.symm

/-- The address of the entry for the address 0. -/
def nullSlot : BitVec 64 := 0xFFFFFF8000000000#64

/-- The number of page directory entries in the recursive window. -/
def pdtReach : Nat := 2 ^ 27

theorem reaches_large {i : Nat} : Reaches Window.largePage.table i ↔ i < pdtReach := by
  unfold Reaches pdtReach Window.table
  rw [BitVec.toNat_ofNat]
  omega

/-- Where an entry is. -/
theorem slot_val {table : BitVec 64} {i : Nat} (h : Reaches table i) :
    (slot table i).toNat = table.toNat + 8 * i := by
  unfold Reaches at h
  rw [slot, BitVec.toNat_add, BitVec.toNat_ofNat]
  omega

theorem slot_page {i : Nat} (hi : i < pgTableEntries) :
    (slot Window.page.table i).toNat = 0xFFFFFF8000005000 + 8 * i :=
  slot_val (Window.page.reaches hi)

theorem slot_large {i : Nat} (hi : i < pdtReach) :
    (slot Window.largePage.table i).toNat = 0xFFFFFFFFC0000000 + 8 * i :=
  slot_val (reaches_large.mpr hi)

/-- An entry with `PGT_P` among its flags is present. -/
theorem or_present (frame : BitVec 64) {flags : BitVec 64} (h : flags &&& pgtP ≠ 0#64) :
    (frame ||| flags) &&& pgtP ≠ 0#64 := by
  intro hz
  apply h
  have hall : ((frame ||| flags) &&& pgtP) &&& flags = flags &&& pgtP := by
    rw [BitVec.and_assoc, BitVec.and_comm pgtP, ← BitVec.and_assoc]
    congr 1
    apply BitVec.eq_of_getLsbD_eq
    intro j _
    rw [BitVec.getLsbD_and, BitVec.getLsbD_or]
    cases flags.getLsbD j <;> simp
  rw [← hall, hz, BitVec.zero_and]

/-! ## Long runs -/

section Runs

variable {s : Vm} {table : BitVec 64}

/-- `n` entries from `i` on that are not present. -/
def Vm.AbsentRun (s : Vm) (table : BitVec 64) (i n : Nat) : Prop := ∀ t < n, s.Absent table (i + t)

instance (s : Vm) (table : BitVec 64) (i n : Nat) : Decidable (s.AbsentRun table i n) :=
  inferInstanceAs (Decidable (∀ t < n, _))

/-- The counting loop passes over entries that are not present, and stops at its end or at an entry
that is. -/
theorem countAbsent_run {stop : Nat} : ∀ {fuel j count : Nat} {r : Nat × Nat}, count ≤ j → j ≤ stop →
    countAbsent s table stop fuel j count = .ok r →
      j ≤ r.1 ∧ r.1 ≤ stop ∧ r.2 + j = count + r.1 ∧ (r.1 < stop → ¬ s.Absent table r.1) ∧
        ∀ k, j ≤ k → k < r.1 → Reaches table k ∧ s.Absent table k := by
  intro fuel
  induction fuel with
  | zero => exact nofun
  | succ fuel ih =>
    intro j count r hcount hstop h
    rw [countAbsent] at h
    split_ifs at h with hlt hreach habs
    · have hj : j < 2 ^ 61 := by
        unfold Reaches at hreach
        omega
      rw [add64_of_lt (by omega), add64_of_lt (by omega)] at h
      obtain ⟨hle, hle', hsum, hend, hall⟩ := ih (Nat.succ_le_succ hcount) hlt h
      refine ⟨by omega, hle', by omega, hend, ?_⟩
      intro k hk hk'
      rcases Nat.eq_or_lt_of_le hk with rfl | hlt
      · exact ⟨hreach, habs⟩
      · exact hall k hlt hk'
    · cases h
      exact ⟨le_rfl, hstop, rfl, fun _ => habs, fun k hk hk' => absurd hk' (not_lt.mpr hk)⟩
    · cases h
      exact ⟨le_rfl, hstop, rfl, fun hlt' => absurd hlt' hlt,
        fun k hk hk' => absurd hk' (not_lt.mpr hk)⟩

/-- Entries written one after the other. -/
def FilledRun (s s' : Vm) (table : BitVec 64) (i num : Nat) : Prop :=
  s'.phys = s.phys ∧
  (∀ a, (∀ t < num, a ≠ slot table (i + t)) → s'.entry a = s.entry a) ∧
    ∀ t < num, s'.Present (slot table (i + t))

/-- The filling loop makes its entries present and touches no other. -/
theorem fillEntries_run {size flags : BitVec 64} (hflags : flags &&& pgtP ≠ 0#64) :
    ∀ {num fuel j : Nat} {s s' : Vm} {frame : BitVec 64}, (∀ t < num, Reaches table (j + t)) →
      fillEntries table (j + num) size flags fuel s j frame = .ok s' →
        FilledRun s s' table j num := by
  intro num
  induction num with
  | zero =>
    intro fuel j s s' frame _ h
    cases fuel with
    | zero => cases h
    | succ fuel =>
      rw [fillEntries, if_neg (by omega)] at h
      cases h
      exact ⟨rfl, fun _ _ => rfl, fun t ht => absurd ht (Nat.not_lt_zero t)⟩
  | succ num ih =>
    intro fuel j s s' frame hreach h
    cases fuel with
    | zero => cases h
    | succ fuel =>
      have hj := hreach 0 (Nat.succ_pos num)
      have hlt : j < 2 ^ 61 := by
        unfold Reaches at hj
        omega
      have hnext : j + (num + 1) = j + 1 + num := by omega
      rw [fillEntries, if_pos (by omega), add64_of_lt (by omega), hnext] at h
      have hreach' : ∀ t < num, Reaches table (j + 1 + t) := by
        intro t ht
        have := hreach (t + 1) (Nat.succ_lt_succ ht)
        rwa [← Nat.add_assoc, Nat.add_right_comm] at this
      obtain ⟨hphys, hframe, hset⟩ := ih hreach' h
      refine ⟨hphys, ?_, ?_⟩
      · intro a ha
        rw [hframe a fun t ht => by
          have := ha (t + 1) (Nat.succ_lt_succ ht)
          rwa [← Nat.add_assoc, Nat.add_right_comm] at this]
        exact if_neg (ha 0 (Nat.succ_pos num))
      · intro t ht
        cases t with
        | zero =>
          have hne : ∀ t < num, slot table j ≠ slot table (j + 1 + t) := by
            intro t ht heq
            have hval := congrArg BitVec.toNat heq
            rw [slot_val (hreach' t ht), slot_val (by simpa using hj)] at hval
            omega
          rw [Nat.add_zero, Vm.Present, hframe _ hne]
          change (if slot table j = slot table j then _ else _) &&& pgtP ≠ 0#64
          rw [if_pos rfl]
          exact or_present frame hflags
        | succ t =>
          rw [Nat.add_comm t, ← Nat.add_assoc]
          exact hset t (Nat.lt_of_succ_lt_succ ht)

/-- One round of the searching loop: it has come to its end, it steps over an entry that is present,
it steps over a run that is too short and one entry more, or it fills a run. -/
theorem mapPagesScan_round {bound num : Nat} {size frame flags : BitVec 64} (hnum : 1 ≤ num)
    (hsmall : num < 2 ^ 32) {fuel i : Nat} {r : Option Nat × Vm}
    (h : mapPagesScan s table bound num size frame flags (fuel + 1) i = .ok r) :
    (bound ≤ i ∧ r = (none, s)) ∨
    (¬ s.Absent table i ∧ mapPagesScan s table bound num size frame flags fuel (i + 1) = .ok r) ∨
    (∃ n, 0 < n ∧ n < num ∧ s.AbsentRun table i n ∧ ¬ s.Absent table (i + n) ∧
      mapPagesScan s table bound num size frame flags fuel (i + n + 2) = .ok r) ∨
    ∃ s', r = (some i, s') ∧ (∀ t < num, Reaches table (i + t)) ∧ s.AbsentRun table i num ∧
      fillEntries table (i + num) size flags loopFuel s i frame = .ok s' := by
  rw [mapPagesScan] at h
  split_ifs at h with hlt hreach habs
  · have hi : i < 2 ^ 61 := by
      unfold Reaches at hreach
      omega
    rw [add64_of_lt (show i + num < 2 ^ 64 by omega), add64_of_lt (by omega)] at h
    obtain ⟨⟨j, count⟩, hcount, h⟩ := Exec.bind_eq_ok.mp h
    obtain ⟨hle, hle', hsum, hend, hall⟩ := countAbsent_run (Nat.le_add_left 1 i) (by omega) hcount
    dsimp only at hle hle' hsum hend hall h
    obtain ⟨n, rfl⟩ := Nat.exists_eq_add_of_le (Nat.le_of_succ_le hle)
    have hrun : ∀ t < n, Reaches table (i + t) ∧ s.Absent table (i + t) := by
      intro t ht
      cases t with
      | zero => exact ⟨hreach, habs⟩
      | succ t => exact hall (i + (t + 1)) (by omega) (by omega)
    split_ifs at h with heq
    · obtain ⟨s', hfill, h⟩ := Exec.bind_eq_ok.mp h
      cases h
      obtain rfl : n = num := by omega
      exact Or.inr (Or.inr (Or.inr
        ⟨s', rfl, fun t ht => (hrun t ht).1, fun t ht => (hrun t ht).2, hfill⟩))
    · rw [add64_of_lt (show i + n + 1 < 2 ^ 64 by omega), add64_of_lt (by omega)] at h
      exact Or.inr (Or.inr (Or.inl
        ⟨n, by omega, by omega, fun t ht => (hrun t ht).2, hend (by omega), h⟩))
  · have hi : i < 2 ^ 61 := by
      unfold Reaches at hreach
      omega
    rw [add64_of_lt (by omega)] at h
    exact Or.inr (Or.inl ⟨habs, h⟩)
  · cases h
    exact Or.inl ⟨not_lt.mp hlt, rfl⟩

/-- The searching loop has filled entries that were all not present, or nothing. -/
theorem mapPagesScan_run {bound num : Nat} {size frame flags : BitVec 64}
    (hflags : flags &&& pgtP ≠ 0#64) (hnum : 1 ≤ num) (hsmall : num < 2 ^ 32) :
    ∀ {fuel i : Nat} {r : Option Nat × Vm},
      mapPagesScan s table bound num size frame flags fuel i = .ok r → r = (none, s) ∨
        ∃ k s', r = (some k, s') ∧ i ≤ k ∧ (∀ t < num, Reaches table (k + t)) ∧
          s.AbsentRun table k num ∧ FilledRun s s' table k num := by
  intro fuel
  induction fuel with
  | zero => exact nofun
  | succ fuel ih =>
    intro i r h
    rcases mapPagesScan_round hnum hsmall h with
      ⟨_, hnone⟩ | ⟨_, h⟩ | ⟨n, _, _, _, _, h⟩ | ⟨s', rfl, hreach, hfree, hfill⟩
    · exact Or.inl hnone
    · rcases ih h with hnone | ⟨k, s', hr, hik, hrest⟩
      · exact Or.inl hnone
      · exact Or.inr ⟨k, s', hr, by omega, hrest⟩
    · rcases ih h with hnone | ⟨k, s', hr, hik, hrest⟩
      · exact Or.inl hnone
      · exact Or.inr ⟨k, s', hr, by omega, hrest⟩
    · exact Or.inr ⟨i, s', rfl, le_rfl, hreach, hfree, fillEntries_run hflags hreach hfill⟩

end Runs

/-! ## The end of the 2MB window -/

/-- The entry from which on nothing is present up to the end of the 2MB window, as a search for
more pages than the window has comes to it: such a search steps over a run that ends in the window
and over the two entries behind it. There are `rest` entries left, and the run before them began at
`start`. -/
def Vm.tailRun (s : Vm) : Nat → Option Nat → Option Nat
  | 0, start => start
  | 1, start =>
    if s.Absent Window.largePage.table 15 then some (start.getD 15) else none
  | rest + 2, start =>
    let i := Window.largePage.hi - (rest + 2)
    if s.Absent Window.largePage.table i then
      s.tailRun (rest + 1) (some (start.getD i))
    else if start.isSome then
      s.tailRun rest none
    else
      s.tailRun (rest + 1) none

/-- Where the end of the 2MB window that is not present begins for a search of the whole window. -/
def Vm.windowTail (s : Vm) : Option Nat :=
  s.tailRun (Window.largePage.hi - Window.largePage.lo) none

section Tail

variable {s s' : Vm} {i n : Nat}

theorem tailRun_eq (hi : i < 16) (start : Option Nat) :
    s.tailRun (16 - i) start =
      if s.Absent Window.largePage.table i then s.tailRun (16 - (i + 1)) (some (start.getD i))
      else if start.isSome then s.tailRun (16 - (i + 2)) none
      else s.tailRun (16 - (i + 1)) none := by
  obtain ⟨rest, hrest⟩ : ∃ rest, 16 - i = rest + 1 := ⟨15 - i, by omega⟩
  have hnext : 16 - (i + 1) = rest := by omega
  have hskip : 16 - (i + 2) = rest - 1 := by omega
  rw [hnext, hskip, hrest]
  cases rest with
  | zero =>
    obtain rfl : i = 15 := by omega
    change (if s.Absent Window.largePage.table 15 then some (start.getD 15) else none) = _
    split_ifs <;> rfl
  | succ rest =>
    have hidx : Window.largePage.hi - (rest + 2) = i := by
      change 16 - (rest + 2) = i
      omega
    rw [Vm.tailRun, hidx]
    rfl

theorem tailRun_absent (hi : i < 16) (h : s.Absent Window.largePage.table i) (start : Option Nat) :
    s.tailRun (16 - i) start = s.tailRun (16 - (i + 1)) (some (start.getD i)) := by
  rw [tailRun_eq hi, if_pos h]

theorem tailRun_present (hi : i < 16) (h : ¬ s.Absent Window.largePage.table i) :
    s.tailRun (16 - i) none = s.tailRun (16 - (i + 1)) none := by
  rw [tailRun_eq hi, if_neg h]
  rfl

theorem tailRun_stop (hi : i < 16) (h : ¬ s.Absent Window.largePage.table i) (t : Nat) :
    s.tailRun (16 - i) (some t) = s.tailRun (16 - (i + 2)) none := by
  rw [tailRun_eq hi, if_neg h]
  rfl

/-- The entries of a run, one after the other. -/
theorem tailRun_run (h : s.AbsentRun Window.largePage.table i n) (hn : 0 < n) (hin : i + n ≤ 16) :
    s.tailRun (16 - i) none = s.tailRun (16 - (i + n)) (some i) := by
  induction n with
  | zero => exact absurd hn (lt_irrefl 0)
  | succ n ih =>
    have hlast := h n (Nat.lt_succ_self n)
    cases n with
    | zero => exact tailRun_absent hin hlast none
    | succ n =>
      rw [ih (fun t ht => h t (Nat.lt_succ_of_lt ht)) (Nat.succ_pos n) (by omega)]
      exact tailRun_absent hin hlast (some i)

/-- A run that reaches the end of the window is its tail. -/
theorem tailRun_whole (h : s.AbsentRun Window.largePage.table i n) (hi : i < 16)
    (hend : 16 ≤ i + n) : s.tailRun (16 - i) none = some i := by
  have hpart : s.AbsentRun Window.largePage.table i (16 - i) := fun t ht => h t (by omega)
  rw [tailRun_run hpart (by omega) (by omega), Nat.add_sub_cancel' (le_of_lt hi)]
  rfl

theorem tailRun_lt {rest t : Nat} {start : Option Nat} (h : s.tailRun rest start = some t) :
    start = some t ∨ t < 16 := by
  induction rest, start using Vm.tailRun.induct s with
  | case1 start => exact Or.inl h
  | case2 start habs =>
    rw [Vm.tailRun, if_pos habs] at h
    cases start with
    | none =>
      cases h
      exact Or.inr (by decide)
    | some i => exact Or.inl h
  | case3 start habs =>
    rw [Vm.tailRun, if_neg habs] at h
    cases h
  | case4 rest start i habs ih =>
    simp only [Vm.tailRun] at h
    rw [if_pos habs] at h
    rcases ih h with heq | hlt
    · cases start with
      | none =>
        cases heq
        right
        change 16 - (rest + 2) < 16
        omega
      | some i => exact Or.inl heq
    · exact Or.inr hlt
  | case5 rest start i habs hstart ih =>
    simp only [Vm.tailRun] at h
    rw [if_neg habs, if_pos hstart] at h
    rcases ih h with heq | hlt
    · cases heq
    · exact Or.inr hlt
  | case6 rest start i habs hstart ih =>
    simp only [Vm.tailRun] at h
    rw [if_neg habs, if_neg hstart] at h
    rcases ih h with heq | hlt
    · cases heq
    · exact Or.inr hlt

theorem windowTail_lt {t : Nat} (h : s.windowTail = some t) : t < 16 := by
  rcases tailRun_lt h with hnone | hlt
  · cases hnone
  · exact hlt

/-- Only the entries of the window count. -/
theorem tailRun_congr
    (h : ∀ i < 16, s'.Absent Window.largePage.table i ↔ s.Absent Window.largePage.table i)
    (rest : Nat) (start : Option Nat) : s'.tailRun rest start = s.tailRun rest start := by
  have hwindow : ∀ rest, s'.Absent Window.largePage.table (16 - (rest + 2)) ↔
      s.Absent Window.largePage.table (16 - (rest + 2)) := fun rest => h _ (by omega)
  induction rest, start using Vm.tailRun.induct s with
  | case1 start => rfl
  | case2 start habs => simp only [Vm.tailRun, h 15 (by decide)]
  | case3 start habs => simp only [Vm.tailRun, h 15 (by decide)]
  | case4 rest start i habs ih =>
    have habs' : s'.Absent Window.largePage.table i := (hwindow rest).mpr habs
    simp only [Vm.tailRun]
    rw [if_pos habs', if_pos habs]
    exact ih
  | case5 rest start i habs hstart ih =>
    have habs' : ¬ s'.Absent Window.largePage.table i := (not_congr (hwindow rest)).mpr habs
    simp only [Vm.tailRun]
    rw [if_neg habs', if_neg habs, if_pos hstart, if_pos hstart]
    exact ih
  | case6 rest start i habs hstart ih =>
    have habs' : ¬ s'.Absent Window.largePage.table i := (not_congr (hwindow rest)).mpr habs
    simp only [Vm.tailRun]
    rw [if_neg habs', if_neg habs, if_neg hstart, if_neg hstart]
    exact ih

/-- A search goes up. -/
theorem mapPagesScan_lo {bound num : Nat} {size frame flags : BitVec 64} (hflags : flags &&& pgtP ≠ 0#64)
    (hnum : 1 ≤ num) (hsmall : num < 2 ^ 32) {fuel i k : Nat} {s' : Vm}
    (h : mapPagesScan s Window.largePage.table bound num size frame flags fuel i = .ok (some k, s')) :
    i ≤ k := by
  rcases mapPagesScan_run hflags hnum hsmall h with hnone | ⟨k', _, hk, hle, _⟩
  · cases hnone
  · cases hk
    exact hle

/-- A search for more pages than the window has finds its run at the tail of the window, or past
the window. -/
theorem mapPagesScan_tail {bound num : Nat} {size frame flags : BitVec 64}
    (hflags : flags &&& pgtP ≠ 0#64) (hnum : 18 ≤ num) (hsmall : num < 2 ^ 32) :
    ∀ {fuel i k : Nat} {s' : Vm},
      mapPagesScan s Window.largePage.table bound num size frame flags fuel i = .ok (some k, s') →
        (k < 16 ∧ s.tailRun (16 - i) none = some k ∧
          s.AbsentRun Window.largePage.table k num) ∨
        (16 ≤ k ∧ ∀ t, s.tailRun (16 - i) none = some t →
          ¬ s.AbsentRun Window.largePage.table t num) := by
  intro fuel
  induction fuel with
  | zero => exact nofun
  | succ fuel ih =>
    intro i k s' h
    by_cases hi : i < 16
    · rcases mapPagesScan_round (by omega) hsmall h with
        ⟨_, hnone⟩ | ⟨hpresent, h⟩ | ⟨n, hpos, hlt, hrun, hend, h⟩ | ⟨s₁, hr, _, hrun, _⟩
      · cases hnone
      · rw [tailRun_present hi hpresent]
        exact ih h
      · by_cases hin : i + n < 16
        · rw [tailRun_run hrun hpos (le_of_lt hin), tailRun_stop hin hend]
          exact ih h
        · -- the run reaches the end of the window, but it is too short
          right
          constructor
          · have hle := mapPagesScan_lo hflags (by omega) hsmall h
            omega
          · intro t ht hall
            rw [tailRun_whole hrun hi (not_lt.mp hin)] at ht
            cases ht
            exact hend (hall n hlt)
      · cases hr
        exact Or.inl ⟨hi, tailRun_whole hrun hi (by omega), hrun⟩
    · right
      have hzero : 16 - i = 0 := by omega
      constructor
      · have hle := mapPagesScan_lo hflags (by omega) hsmall h
        omega
      · intro t ht
        rw [hzero] at ht
        cases ht

/-- Where a search of the 2MB window for `n` pages has found its run: in the window if that has
enough entries at all, and else at the tail of the window, if the run at the tail is long enough,
or past the window. -/
structure Vm.FoundAt (s : Vm) (n k : Nat) : Prop where
  lo : 6 ≤ k
  pos : 1 ≤ n
  reach : k + n ≤ pdtReach
  free : s.AbsentRun Window.largePage.table k n
  short : n ≤ 17 → k < 16
  long : 18 ≤ n → k < 16 ∧ s.windowTail = some k ∨
    16 ≤ k ∧ ∀ t, s.windowTail = some t → ¬ s.AbsentRun Window.largePage.table t n

theorem vmMapLargePages_run {frame flags : BitVec 64} (hflags : flags &&& pgtP ≠ 0#64)
    (hsmall : n < 2 ^ 32) {r : Nat × Vm} (h : vmMapLargePages s frame n flags = .ok r) :
    r = (0, s) ∨ ∃ k s', r = (k <<< largePgBits, s') ∧ s.FoundAt n k ∧
      FilledRun s s' Window.largePage.table k n := by
  have hspec := h
  rw [vmMapLargePages, largePage_table] at h
  split_ifs at h with hone
  · cases h
    exact Or.inl rfl
  · rw [Exec.ok_bind] at h
    obtain ⟨found, hscan, h⟩ := Exec.bind_eq_ok.mp h
    rcases mapPagesScan_run hflags (not_lt.mp hone) hsmall hscan with
      rfl | ⟨k, s', rfl, hlo, hreach, hfree, hfill⟩
    · exact Or.inl (Except.ok.inj h).symm
    · obtain rfl := Except.ok.inj h
      refine Or.inr ⟨k, s', rfl, ⟨hlo, not_lt.mp hone, ?_, hfree, ?_, ?_⟩, hfill⟩
      · have hlast := reaches_large.mp (hreach (n - 1) (by omega))
        omega
      · intro hshort
        obtain ⟨r, hr, hout⟩ := vmMapLargePages_spec s frame flags (not_lt.mp hone) hshort
        obtain rfl := Except.ok.inj (hspec.symm.trans hr)
        have hk : k <<< largePgBits = k * 2 ^ 21 := Nat.shiftLeft_eq k 21
        have hlo' : 6 ≤ k := hlo
        rcases hout with hnull | ⟨k', _, heq, _, hin, _⟩
        · have hva := (Prod.mk.inj hnull).1
          omega
        · have hva := (Prod.mk.inj heq).1
          rw [largePage_va, hk, Nat.shiftLeft_eq] at hva
          have hin' : k' + n ≤ 16 := hin
          have : k = k' := Nat.eq_of_mul_eq_mul_right (by decide) hva
          omega
      · intro hlong
        rcases mapPagesScan_tail hflags hlong hsmall hscan with ⟨hk, htail, _⟩ | hpast
        · exact Or.inl ⟨hk, htail⟩
        · exact Or.inr hpast

/-- The second of two searches goes past the window: it needs at least 18 pages, and it is not the
case that the tail of the window has enough for it and one too few for the first search. -/
def CopyOutside (s : Vm) (src dst : Nat) : Prop :=
  18 ≤ dst ∧ ∀ t, s.windowTail = some t → s.AbsentRun Window.largePage.table t dst →
    s.AbsentRun Window.largePage.table t src

/-- Two searches, the first for as many pages as the second or for one more. -/
theorem secondSearch_outside {src dst ks kd : Nat} (hsize : src = dst ∨ src = dst + 1)
    (hs : s.FoundAt src ks) (hd : s'.FoundAt dst kd)
    (hbetween : ∀ j < pdtReach, s'.Absent Window.largePage.table j ↔
      s.Absent Window.largePage.table j ∧ ¬ (ks ≤ j ∧ j < ks + src)) :
    16 ≤ kd ↔ CopyOutside s src dst := by
  have hlo := hs.lo
  have hreach := hs.reach
  have hreach' := hd.reach
  have habsent : ∀ {j}, kd ≤ j → j < kd + dst → s'.Absent Window.largePage.table j := by
    intro j hj hj'
    have := hd.free (j - kd) (by omega)
    rwa [Nat.add_sub_cancel' hj] at this
  have hsame : 16 ≤ ks → s'.windowTail = s.windowTail := by
    intro hks
    apply tailRun_congr
    intro i hi
    rw [hbetween i (by unfold pdtReach; omega)]
    exact and_iff_left (by omega)
  constructor
  · intro hout
    have hdst : 18 ≤ dst := by
      by_contra hlt
      have := hd.short (by omega)
      omega
    refine ⟨hdst, fun t ht hrun => ?_⟩
    rcases hs.long (by omega) with ⟨_, hks⟩ | ⟨hks, hnone⟩
    · rw [hks] at ht
      cases ht
      exact hs.free
    · rcases hd.long hdst with ⟨hkd, _⟩ | ⟨_, hnone'⟩
      · omega
      · -- the tail has room for the second run only, and the first run is not in the way
        rcases hsize with rfl | rfl
        · exact hrun
        · exfalso
          have ht' := windowTail_lt ht
          apply hnone' t ((hsame hks).trans ht)
          intro u hu
          rw [hbetween (t + u) (by unfold pdtReach at *; omega)]
          refine ⟨hrun u hu, ?_⟩
          rintro ⟨hle, _⟩
          apply hnone t ht
          intro v hv
          rcases Nat.lt_succ_iff_lt_or_eq.mp hv with hlt | rfl
          · exact hrun v hlt
          · have := hs.free (t + v - ks) (by omega)
            rwa [Nat.add_sub_cancel' (by omega)] at this
  · rintro ⟨hdst, hall⟩
    by_contra hin
    have hnot : ∀ j, kd ≤ j → j < kd + dst → s.Absent Window.largePage.table j ∧
        ¬ (ks ≤ j ∧ j < ks + src) := by
      intro j hj hj'
      exact (hbetween j (by omega)).mp (habsent hj hj')
    rcases hs.long (by omega) with ⟨hks, _⟩ | ⟨hks, hnone⟩
    · have := (hnot 15 (by omega) (by omega)).2
      omega
    · rcases hd.long hdst with ⟨_, htail⟩ | ⟨hkd, _⟩
      · rw [hsame hks] at htail
        apply hnone kd htail
        apply hall kd htail
        intro u hu
        exact (hnot (kd + u) (by omega) (by omega)).1
      · omega

end Tail

/-! ## Unmapping -/

section Unmap

variable {s s' : Vm}

/-- Entries cleared one after the other. -/
def ClearedRun (s s' : Vm) (table : BitVec 64) (i num : Nat) : Prop :=
  s'.phys = s.phys ∧
  (∀ a, (∀ t < num, a ≠ slot table (i + t)) → s'.entry a = s.entry a) ∧
    ∀ t < num, s'.entry (slot table (i + t)) = 0#64

/-- The loop of the unmapping functions. -/
theorem unmapLoop_run {table mask : BitVec 64} : ∀ (num i : Nat) (s : Vm) (frame : BitVec 64),
    i + num < 2 ^ 64 → ClearedRun s (unmapLoop table mask num s i frame).2 table i num := by
  intro num
  induction num with
  | zero => exact fun _ _ _ _ => ⟨rfl, fun _ _ => rfl, nofun⟩
  | succ num ih =>
    intro i s frame hlt
    rw [unmapLoop, add64_of_lt (by omega)]
    obtain ⟨hphys, hframe, hzero⟩ := ih (i + 1) (s.set table i 0#64)
      (if frame = 0#64 then s.get table i &&& mask else frame) (by omega)
    refine ⟨hphys, ?_, ?_⟩
    · intro a ha
      rw [hframe a fun t ht => by
        have := ha (t + 1) (Nat.succ_lt_succ ht)
        rwa [← Nat.add_assoc, Nat.add_right_comm] at this]
      exact if_neg (ha 0 (Nat.succ_pos num))
    · intro t ht
      cases t with
      | zero =>
        by_cases hlater : ∃ t < num, slot table (i + 0) = slot table (i + 1 + t)
        · obtain ⟨t, ht, heq⟩ := hlater
          rw [heq]
          exact hzero t ht
        · rw [hframe _ fun t ht heq => hlater ⟨t, ht, heq⟩]
          exact if_pos rfl
      | succ t =>
        rw [Nat.add_comm t, ← Nat.add_assoc]
        exact hzero t (Nat.lt_of_succ_lt_succ ht)

/-- What `vm_map_page` returns: the address of a page of the 4KB window, or 0. -/
def PageVa (va : Nat) : Prop := va = 0 ∨ ∃ i < pgTableEntries, va = Window.page.va i

/-- The entry of the page at an address. The processor's table for the address 0 is another one. -/
def pageSlot (va : Nat) : BitVec 64 :=
  if va = 0 then nullSlot else slot Window.page.table (entryIndex va pgBits)

theorem pageSlot_va {i : Nat} (hi : i < pgTableEntries) :
    pageSlot (Window.page.va i) = slot Window.page.table i := by
  have hpos := Window.page.va_pos (Nat.zero_le i)
  have hidx := Window.page.entryIndex_va (show i < Window.page.hi from hi)
  rw [pageSlot, if_neg (Nat.ne_of_gt hpos)]
  exact congrArg _ hidx

theorem vmUnmapPage_run {va : Nat} (hva : PageVa va) {r : BitVec 64 × Vm}
    (h : vmUnmapPage s va = .ok r) : r.2.phys = s.phys ∧
      (∀ a, a ≠ pageSlot va → r.2.entry a = s.entry a) ∧ r.2.entry (pageSlot va) = 0#64 := by
  rcases hva with rfl | ⟨i, hi, rfl⟩
  · have hrun : vmUnmapPage s 0 = .ok (s.get nullSlot 0 &&& pgMask, s.set nullSlot 0 0#64) := rfl
    obtain rfl := Except.ok.inj (h.symm.trans hrun)
    have hslot : slot nullSlot 0 = pageSlot 0 := by decide
    rw [← hslot]
    exact ⟨rfl, fun a ha => if_neg ha, Vm.get_set s nullSlot 0 0#64⟩
  · obtain ⟨r', hr, hout⟩ := vmUnmapPage_spec s (show i < Window.page.hi from hi)
    obtain rfl := Except.ok.inj (h.symm.trans hr)
    have hidx := Window.page.entryIndex_va (show i < Window.page.hi from hi)
    rw [UnmapOutcome, hidx] at hout
    obtain ⟨⟨hphys, hframe⟩, hzero⟩ := hout
    rw [pageSlot_va hi]
    refine ⟨hphys, ?_, hzero 0 Nat.one_pos⟩
    intro a ha
    apply hframe a
    intro k hk
    obtain rfl : k = 0 := by omega
    exact ha

/-- The entry of a large page, found through its address. -/
theorem slot_of_large {k t : Nat} (hk : k + t < pdtReach) {table : BitVec 64}
    (h : table.toNat = windowBase (BitVec.ofNat 64 (k <<< largePgBits)) 2) :
    slot table (entryIndex (k <<< largePgBits) largePgBits + t) =
      slot Window.largePage.table (k + t) := by
  have hshift : k <<< largePgBits = k * 2 ^ 21 := Nat.shiftLeft_eq k 21
  have hidx : entryIndex (k <<< largePgBits) largePgBits = k % 512 := by
    rw [entryIndex, hshift, largePgBits, Nat.shiftRight_eq_div_pow,
      Nat.mul_div_cancel _ (Nat.two_pow_pos 21)]
    exact Nat.and_two_pow_sub_one_eq_mod k 9
  unfold pdtReach at hk
  apply BitVec.eq_of_toNat_eq
  rw [slot_large hk, hidx, slot, BitVec.toNat_add, BitVec.toNat_ofNat, h, windowBase, hshift,
    BitVec.toNat_ofNat]
  omega

theorem vmUnmapLargePages_run {k n : Nat} (hk : k + n ≤ pdtReach) {r : BitVec 64 × Vm}
    (h : vmUnmapLargePages s (k <<< largePgBits) n = .ok r) :
    ClearedRun s r.2 Window.largePage.table k n := by
  obtain ⟨table, htable, hbase⟩ :=
    getPagingStructVaddr_toNat (BitVec.ofNat 64 (k <<< largePgBits)) (show 2 ≤ 3 by decide)
  rw [vmUnmapLargePages, htable] at h
  cases h
  have hidx : entryIndex (k <<< largePgBits) largePgBits ≤ 511 := Nat.and_le_right
  obtain ⟨hphys, hframe, hzero⟩ := @unmapLoop_run table largePgMask n
    (entryIndex (k <<< largePgBits) largePgBits) s 0#64 (by unfold pdtReach at hk; omega)
  refine ⟨hphys, ?_, ?_⟩
  · intro a ha
    apply hframe a
    intro t ht
    rw [slot_of_large (by omega) hbase]
    exact ha t ht
  · intro t ht
    rw [← slot_of_large (show k + t < pdtReach by omega) hbase]
    exact hzero t ht

end Unmap

/-! ## Live mappings -/

/-- The entries of one call of `vm_map_page`: none if it returned `NULL`. -/
def pageSlots (va : Nat) : Set (BitVec 64) := { a | va ≠ 0 ∧ a = pageSlot va }

/-- The entries of one call of `vm_map_large_pages`. -/
def largeSlots (k n : Nat) : Set (BitVec 64) :=
  { a | ∃ t < n, a = slot Window.largePage.table (k + t) }

/-- The entries present in `s` are those of `s₀` and the sets of entries `ls`. -/
structure Live (s₀ : Vm) (ls : List (Set (BitVec 64))) (s : Vm) : Prop where
  disjoint : ls.Pairwise Disjoint
  fresh : ∀ A ∈ ls, ∀ a ∈ A, a ≠ nullSlot ∧ ¬ s₀.Present a
  present_iff : ∀ a, a ≠ nullSlot → (s.Present a ↔ s₀.Present a ∨ ∃ A ∈ ls, a ∈ A)

namespace Live

variable {s₀ s s' : Vm} {A : Set (BitVec 64)} {ls pre post : List (Set (BitVec 64))}

theorem refl (s : Vm) : Live s [] s where
  disjoint := .nil
  fresh := nofun
  present_iff a _ := by simp

/-- The allocator does not matter. -/
theorem congr (h : Live s₀ ls s) (heq : s'.entry = s.entry) : Live s₀ ls s' where
  disjoint := h.disjoint
  fresh := h.fresh
  present_iff a ha := by
    rw [Vm.Present, heq]
    exact h.present_iff a ha

/-- A call that maps. -/
theorem push (h : Live s₀ ls s) (hfresh : ∀ a ∈ A, a ≠ nullSlot ∧ ¬ s.Present a)
    (hframe : ∀ a, a ∉ A → s'.entry a = s.entry a) (hset : ∀ a ∈ A, s'.Present a) :
    Live s₀ (A :: ls) s' where
  disjoint := by
    refine List.pairwise_cons.mpr ⟨fun B hB => ?_, h.disjoint⟩
    rw [Set.disjoint_left]
    intro a ha haB
    obtain ⟨hnull, habsent⟩ := hfresh a ha
    exact habsent ((h.present_iff a hnull).mpr (Or.inr ⟨B, hB, haB⟩))
  fresh B hB a ha := by
    rcases List.mem_cons.mp hB with rfl | hB
    · obtain ⟨hnull, habsent⟩ := hfresh a ha
      exact ⟨hnull, fun hp => habsent ((h.present_iff a hnull).mpr (Or.inl hp))⟩
    · exact h.fresh B hB a ha
  present_iff a hnull := by
    by_cases ha : a ∈ A
    · exact iff_of_true (hset a ha) (Or.inr ⟨A, List.mem_cons_self, ha⟩)
    · rw [Vm.Present, hframe a ha]
      refine (h.present_iff a hnull).trans (or_congr_right ?_)
      simp [ha]

/-- The call that unmaps what another one has mapped. -/
theorem pop (h : Live s₀ (pre ++ A :: post) s)
    (hframe : ∀ a, a ∉ A → a ≠ nullSlot → s'.entry a = s.entry a)
    (hclear : ∀ a ∈ A, ¬ s'.Present a) : Live s₀ (pre ++ post) s' where
  disjoint := h.disjoint.sublist (List.Sublist.append_left (List.sublist_cons_self A post) pre)
  fresh B hB a ha := by
    apply h.fresh B _ a ha
    rw [List.mem_append] at hB ⊢
    exact hB.imp_right (List.mem_cons_of_mem A)
  present_iff a hnull := by
    have hA : A ∈ pre ++ A :: post := List.mem_append_right pre List.mem_cons_self
    have hapart := (List.pairwise_middle fun h => h.symm).mp h.disjoint
    by_cases ha : a ∈ A
    · refine iff_of_false (hclear a ha) ?_
      rintro (hp | ⟨B, hB, haB⟩)
      · exact (h.fresh A hA a ha).2 hp
      · exact Set.disjoint_left.mp ((List.pairwise_cons.mp hapart).1 B hB) ha haB
    · rw [Vm.Present, hframe a ha hnull]
      refine (h.present_iff a hnull).trans (or_congr_right ?_)
      simp only [List.mem_append, List.mem_cons, or_and_right, exists_or, exists_eq_left, ha,
        false_or]

end Live

end Rtv.Mm
