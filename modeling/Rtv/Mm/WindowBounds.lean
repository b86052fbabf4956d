import Rtv.Mm.Presence

/-!
# Staying in the window

`vm_map_pages` and `vm_map_large_pages` are meant to read and write the entries of their window
only. The bound of their searching loop is the number of entries less the number of pages plus one,
as an unsigned number: for two pages more than there are entries it wraps, and the loop goes on past
the window.

To say what the loops read, `countWithin` and `scanWithin` are the loops with a set of entries they
may read, and a fault at any other. With the entries of the recursive window they are the loops of
the model (`scanWithin_reaches`), and what they return with fewer entries they return with more
(`scanWithin_mono`). A call for a wrapped bound stays in the window in one case only: it is for
`2^64 - 1` pages, and the search steps over the end of the window (`Vm.HopsOver`).
-/

namespace Rtv.Mm

open Rtv.Lib

/-! ## The loops with a set of entries to read -/

/-- `countAbsent` where only the entries in `ok` may be read. -/
def countWithin (ok : Nat → Prop) [DecidablePred ok] (s : Vm) (table : BitVec 64) (stop : Nat) :
    Nat → Nat → Nat → Exec (Nat × Nat)
  | 0, _, _ => .error .hang
  | fuel + 1, j, count =>
    if j < stop then
      if ¬ ok j then
        .error .fault
      else if s.Absent table j then
        countWithin ok s table stop fuel (add64 j 1) (add64 count 1)
      else
        return (j, count)
    else
      return (j, count)

/-- `mapPagesScan` where only the entries in `ok` may be read. -/
def scanWithin (ok : Nat → Prop) [DecidablePred ok] (s : Vm) (table : BitVec 64) (bound num : Nat)
    (size frame flags : BitVec 64) : Nat → Nat → Exec (Option Nat × Vm)
  | 0, _ => .error .hang
  | fuel + 1, i =>
    if i < bound then
      if ¬ ok i then
        .error .fault
      else if s.Absent table i then do
        let (j, count) ← countWithin ok s table (add64 i num) loopFuel (add64 i 1) 1
        if count = num then
          let s ← fillEntries table (add64 i num) size flags loopFuel s i frame
          return (some i, s)
        else
          scanWithin ok s table bound num size frame flags fuel (add64 (add64 j 1) 1)
      else
        scanWithin ok s table bound num size frame flags fuel (add64 i 1)
    else
      return (none, s)

section Guard

variable {s : Vm} {table size frame flags : BitVec 64} {bound num stop : Nat}

theorem Vm.AbsentRun.tail {j n : Nat} (h : s.AbsentRun table j (n + 1)) :
    s.AbsentRun table (j + 1) n := by
  intro t ht
  have := h (t + 1) (Nat.succ_lt_succ ht)
  rwa [Nat.add_comm t, ← Nat.add_assoc] at this

theorem Vm.AbsentRun.cons {j n : Nat} (hj : s.Absent table j) (h : s.AbsentRun table (j + 1) n) :
    s.AbsentRun table j (n + 1) := by
  intro t ht
  cases t with
  | zero => exact hj
  | succ t =>
    rw [Nat.add_comm t, ← Nat.add_assoc]
    exact h t (Nat.lt_of_succ_lt_succ ht)

theorem countWithin_reaches : ∀ (fuel j count : Nat),
    countWithin (Reaches table) s table stop fuel j count =
      countAbsent s table stop fuel j count := by
  intro fuel
  induction fuel with
  | zero => exact fun _ _ => rfl
  | succ fuel ih =>
    intro j count
    rw [countWithin, countAbsent, ih]

/-- With the entries of the recursive window, the loop is the one of the model. -/
theorem scanWithin_reaches : ∀ (fuel i : Nat),
    scanWithin (Reaches table) s table bound num size frame flags fuel i =
      mapPagesScan s table bound num size frame flags fuel i := by
  intro fuel
  induction fuel with
  | zero => exact fun _ => rfl
  | succ fuel ih =>
    intro i
    rw [scanWithin, mapPagesScan, ih, countWithin_reaches]
    simp only [ih]

section Mono

variable {ok ok' : Nat → Prop} [DecidablePred ok] [DecidablePred ok']

theorem countWithin_mono (hok : ∀ i, ok i → ok' i) : ∀ {fuel j count : Nat} {r : Nat × Nat},
    countWithin ok s table stop fuel j count = .ok r →
      countWithin ok' s table stop fuel j count = .ok r := by
  intro fuel
  induction fuel with
  | zero => exact nofun
  | succ fuel ih =>
    intro j count r h
    rw [countWithin] at h ⊢
    split_ifs at h with hlt hj habs
    · rw [if_pos hlt, if_neg (not_not.mpr (hok j hj)), if_pos habs]
      exact ih h
    · rw [if_pos hlt, if_neg (not_not.mpr (hok j hj)), if_neg habs]
      exact h
    · rw [if_neg hlt]
      exact h

/-- What the loop returns, it returns with more entries to read. -/
theorem scanWithin_mono (hok : ∀ i, ok i → ok' i) : ∀ {fuel i : Nat} {r : Option Nat × Vm},
    scanWithin ok s table bound num size frame flags fuel i = .ok r →
      scanWithin ok' s table bound num size frame flags fuel i = .ok r := by
  intro fuel
  induction fuel with
  | zero => exact nofun
  | succ fuel ih =>
    intro i r h
    rw [scanWithin] at h ⊢
    split_ifs at h with hlt hi habs
    · rw [if_pos hlt, if_neg (not_not.mpr (hok i hi)), if_pos habs]
      obtain ⟨⟨j, count⟩, hcount, h⟩ := Exec.bind_eq_ok.mp h
      rw [countWithin_mono hok hcount, Exec.ok_bind]
      dsimp only at h ⊢
      split_ifs at h ⊢ with heq
      · exact h
      · exact ih h
    · rw [if_pos hlt, if_neg (not_not.mpr (hok i hi)), if_neg habs]
      exact ih h
    · rw [if_neg hlt]
      exact h

end Mono

/-- The counting loop returns if it may read every entry it comes to. -/
theorem countWithin_iff {ok : Nat → Prop} [DecidablePred ok] (hok : ∀ i, ok i → Reaches table i) :
    ∀ {fuel j count : Nat} {r : Nat × Nat},
      countWithin ok s table stop fuel j count = .ok r ↔
        countAbsent s table stop fuel j count = .ok r ∧
          ∀ n, j + n < stop → s.AbsentRun table j n → ok (j + n) := by
  intro fuel
  induction fuel with
  | zero =>
    intro j count r
    constructor
    · intro h
      cases h
    · rintro ⟨h, -⟩
      cases h
  | succ fuel ih =>
    intro j count r
    rw [countWithin, countAbsent]
    by_cases hlt : j < stop
    · by_cases hj : ok j
      · have hreach := hok j hj
        have hsmall : j < 2 ^ 61 := by
          unfold Reaches at hreach
          omega
        rw [if_pos hlt, if_pos hlt, if_neg (not_not.mpr hj), if_neg (not_not.mpr hreach)]
        by_cases habs : s.Absent table j
        · rw [if_pos habs, if_pos habs, add64_of_lt (by omega), ih]
          refine and_congr_right fun _ => ⟨fun h n hn hrun => ?_, fun h n hn hrun => ?_⟩
          · cases n with
            | zero => exact hj
            | succ n =>
              rw [Nat.add_comm n, ← Nat.add_assoc]
              exact h n (by omega) (hrun.tail)
          · have := h (n + 1) (by omega) (.cons habs hrun)
            rwa [Nat.add_comm n, ← Nat.add_assoc] at this
        · rw [if_neg habs, if_neg habs]
          refine (and_iff_left fun n hn hrun => ?_).symm
          cases n with
          | zero => exact hj
          | succ n => exact absurd (hrun 0 (Nat.succ_pos n)) habs
      · rw [if_pos hlt, if_pos hj]
        constructor
        · intro h
          cases h
        · rintro ⟨-, h⟩
          exact absurd (h 0 hlt fun n hn => absurd hn (Nat.not_lt_zero n)) hj
    · rw [if_neg hlt, if_neg hlt]
      exact (and_iff_left fun n hn _ => absurd hn (by omega)).symm

/-- The counting loop ends where it begins. -/
theorem countAbsent_end {fuel j count : Nat} (hend : stop ≤ j) (hfuel : 0 < fuel) :
    countAbsent s table stop fuel j count = .ok (j, count) := by
  obtain ⟨fuel, rfl⟩ := Nat.exists_eq_add_of_lt hfuel
  rw [countAbsent, if_neg (not_lt.mpr hend)]
  rfl

/-- The counting loop stops at an entry that is present. -/
theorem countAbsent_stop : ∀ {m fuel j count : Nat}, m < fuel → j + m < stop →
    Reaches table (j + m) → count ≤ j → s.AbsentRun table j m → ¬ s.Absent table (j + m) →
      countAbsent s table stop fuel j count = .ok (j + m, count + m) := by
  intro m
  induction m with
  | zero =>
    intro fuel j count hfuel hlt hreach _ _ hend
    obtain ⟨fuel, rfl⟩ := Nat.exists_eq_add_of_lt hfuel
    rw [Nat.add_zero] at hlt hreach hend ⊢
    rw [countAbsent, if_pos hlt, if_neg (not_not.mpr hreach), if_neg hend]
    rfl
  | succ m ih =>
    intro fuel j count hfuel hlt hreach hcount hrun hend
    obtain ⟨fuel, rfl⟩ : ∃ f, fuel = f + 1 := ⟨fuel - 1, by omega⟩
    have hj : Reaches table j := by
      unfold Reaches at hreach ⊢
      omega
    have hsmall : j < 2 ^ 61 := by
      unfold Reaches at hj
      omega
    have hnext : j + (m + 1) = j + 1 + m := by omega
    rw [hnext] at hlt hreach hend ⊢
    have habs : s.Absent table j := hrun 0 (Nat.succ_pos m)
    rw [countAbsent, if_pos (by omega), if_neg (not_not.mpr hj), if_pos habs, add64_of_lt (by omega), add64_of_lt (by omega),
      ih (by omega) hlt hreach (Nat.succ_le_succ hcount) hrun.tail hend]
    congr 2
    omega

end Guard

/-! ## The windows -/

/-- An entry of the window. -/
def Window.Has (w : Window) (i : Nat) : Prop := w.lo ≤ i ∧ i < w.hi

instance (w : Window) : DecidablePred w.Has := fun _ => inferInstanceAs (Decidable (_ ∧ _))

theorem Window.Has.reaches {w : Window} {i : Nat} (h : w.Has i) : Reaches w.table i :=
  w.reaches (lt_of_lt_of_le h.2 w.hi_le)

/-- `vm_map_pages` and `vm_map_large_pages`. -/
def Window.mapPages : Window → Vm → BitVec 64 → Nat → BitVec 64 → Exec (Nat × Vm)
  | page => vmMapPages
  | largePage => vmMapLargePages

/-- What they return for what their loop has found. -/
def Window.addr (w : Window) (found : Option Nat) : Nat := (found.map w.va).getD 0

/-- The bound of their loop. -/
def Window.bound (w : Window) (num : Nat) : Nat := add64 (sub64 w.hi num) 1

/-- Their loop, where only the entries of the window may be read. -/
def Window.scan (w : Window) (s : Vm) (frame : BitVec 64) (num : Nat) (flags : BitVec 64) :
    Nat → Nat → Exec (Option Nat × Vm) :=
  scanWithin w.Has s w.table (w.bound num) num (BitVec.ofNat 64 w.size) frame flags

/-- A search for `2^64 - 1` pages from the entry `i` on steps over the end of the window. Such a
search steps over an entry that is not present and the two behind it; at the entry 0 it looks ahead
first, and steps over a run and the two entries behind it. -/
inductive Vm.HopsOver (s : Vm) (w : Window) : Nat → Prop
  | last {i : Nat} : 1 ≤ i → i + 1 = w.hi → s.Absent w.table i → s.HopsOver w i
  | present {i : Nat} : ¬ s.Absent w.table i → s.HopsOver w (i + 1) → s.HopsOver w i
  | absent {i : Nat} : 1 ≤ i → s.Absent w.table i → s.HopsOver w (i + 3) → s.HopsOver w i
  | run {n : Nat} : 0 < n → s.AbsentRun w.table 0 n → ¬ s.Absent w.table n →
      s.HopsOver w (n + 2) → s.HopsOver w 0

theorem Vm.HopsOver.lt {s : Vm} {w : Window} {i : Nat} (h : s.HopsOver w i) : i < w.hi := by
  induction h with
  | last _ hend _ => omega
  | present _ _ ih => omega
  | absent _ _ _ ih => omega
  | run _ _ _ _ ih => omega

section Window

variable {w : Window} {s s' : Vm} {frame flags : BitVec 64} {num : Nat}

/-- What a call returns, from what its searching loop returns. -/
theorem Window.mapPages_of_run (hnum : 1 ≤ num) {found : Option Nat}
    (h : mapPagesScan s w.table (w.bound num) num (BitVec.ofNat 64 w.size) frame flags loopFuel w.lo =
      .ok (found, s')) :
    w.mapPages s frame num flags = .ok (w.addr found, s') := by
  cases w with
  | page =>
    change vmMapPages s frame num flags = _
    simp only [Window.bound, Window.hi, Window.lo, Window.size] at h
    rw [vmMapPages, if_neg (by omega), page_table]
    simp only [Exec.ok_bind]
    rw [h]
    cases found <;> rfl
  | largePage =>
    change vmMapLargePages s frame num flags = _
    simp only [Window.bound, Window.hi, Window.lo, Window.size] at h
    rw [vmMapLargePages, if_neg (by omega), largePage_table]
    simp only [Exec.ok_bind]
    rw [h]
    cases found with
    | none => rfl
    | some k => exact congrArg (fun va => Except.ok (va, s')) (largePage_va k).symm

/-- What a call returns, from what its loop returns with the entries of the window. -/
theorem Window.mapPages_of_scan (hnum : 1 ≤ num) {found : Option Nat}
    (h : w.scan s frame num flags loopFuel w.lo = .ok (found, s')) :
    w.mapPages s frame num flags = .ok (w.addr found, s') := by
  have hrun := scanWithin_mono (fun _ => Window.Has.reaches) h
  rw [scanWithin_reaches] at hrun
  exact Window.mapPages_of_run hnum hrun

/-- A search for at most one page more than fits stays in the window, and finds what fits. -/
theorem Window.scan_inside (hnum : 1 ≤ num) (hfit : num ≤ w.hi + 1) : ∀ {fuel i : Nat}, 0 < fuel →
    w.bound num < fuel + i → w.lo ≤ i → ∃ r, w.scan s frame num flags fuel i = .ok r := by
  have hhi := w.hi_le
  unfold pgTableEntries at hhi
  have hbound : w.bound num = w.hi + 1 - num := by
    unfold Window.bound add64 sub64
    omega
  intro fuel
  induction fuel with
  | zero => exact fun h => absurd h (Nat.lt_irrefl 0)
  | succ fuel ih =>
    intro i _ hfuel hlo
    unfold Window.scan
    rw [scanWithin]
    by_cases hi : i < w.bound num
    · have hhas : w.Has i := ⟨hlo, by omega⟩
      rw [if_pos hi, if_neg (not_not.mpr hhas)]
      by_cases habs : s.Absent w.table i
      · rw [if_pos habs, add64_of_lt (show i + num < 2 ^ 64 by omega), add64_of_lt (by omega)]
        obtain ⟨j, count, hrun, hle, hle', hcount, _⟩ :=
          @countAbsent_spec s w.table (i + num) (by omega)
            (fun k hk => w.reaches (by unfold pgTableEntries; omega))
            loopFuel (i + 1) 1 (by decide) (by unfold loopFuel; omega) (by omega) (by omega)
        have hreads : countWithin w.Has s w.table (i + num) loopFuel (i + 1) 1 = .ok (j, count) :=
          (countWithin_iff fun _ => Window.Has.reaches).mpr
            ⟨hrun, fun n hn _ => ⟨by omega, by omega⟩⟩
        rw [hreads, Exec.ok_bind]
        dsimp only
        split_ifs with heq
        · obtain ⟨s', hfill, _⟩ := @fillEntries_spec w flags num loopFuel i s frame
            (by unfold loopFuel; omega) (by unfold pgTableEntries; omega)
          rw [hfill]
          exact ⟨_, rfl⟩
        · rw [add64_of_lt (show j + 1 < 2 ^ 64 by omega), add64_of_lt (by omega)]
          exact ih (by omega) (by omega) (by omega)
      · rw [if_neg habs, add64_of_lt (by omega)]
        exact ih (by omega) (by omega) (by omega)
    · rw [if_neg hi]
      exact ⟨_, rfl⟩

/-- A search for more pages stays in the window only if it steps over the end of it. -/
theorem Window.hopsOver_of_scan (hnum : w.hi + 1 < num) (hsmall : num < 2 ^ 64) :
    ∀ {fuel i : Nat} {r : Option Nat × Vm}, i < w.bound num →
      w.scan s frame num flags fuel i = .ok r → num = 2 ^ 64 - 1 ∧ s.HopsOver w i := by
  have hhi := w.hi_le
  unfold pgTableEntries at hhi
  have hbound : w.bound num = 2 ^ 64 + w.hi + 1 - num := by
    unfold Window.bound add64 sub64
    omega
  intro fuel
  induction fuel with
  | zero => exact nofun
  | succ fuel ih =>
    intro i r hi h
    unfold Window.scan at h ih
    rw [scanWithin, if_pos hi] at h
    split_ifs at h with hhas habs
    · obtain ⟨⟨j, count⟩, hcount, h⟩ := Exec.bind_eq_ok.mp h
      obtain ⟨hlo, hlt⟩ := hhas
      rw [countWithin_iff fun _ => Window.Has.reaches, add64_of_lt (show i + 1 < 2 ^ 64 by omega)]
        at hcount
      obtain ⟨hcount, hreads⟩ := hcount
      by_cases hwrap : i + num < 2 ^ 64
      · -- the search looks ahead, and must meet an entry that is present
        rw [add64_of_lt hwrap] at hcount hreads
        obtain ⟨hle, hle', hsum, hend, hall⟩ := countAbsent_run (by omega) (by omega) hcount
        dsimp only at hle hle' hsum hend hall h
        have hjhi : j < w.hi := by
          by_contra hge
          have := hreads (w.hi - (i + 1)) (by omega) fun t ht => (hall _ (by omega) (by omega)).2
          exact absurd this.2 (by omega)
        rw [if_neg (by omega), add64_of_lt (show j + 1 < 2 ^ 64 by omega),
          add64_of_lt (by omega)] at h
        obtain ⟨hnum, hover⟩ := ih (by omega) h
        obtain rfl : i = 0 := by omega
        refine ⟨hnum, .run (n := j) (by omega) ?_ (hend (by omega)) hover⟩
        intro t ht
        cases t with
        | zero => exact habs
        | succ t => exact (hall (0 + (t + 1)) (by omega) (by omega)).2
      · -- the end of the look ahead wraps, and the search steps over two entries
        have hstop : add64 i num ≤ i := by
          unfold add64
          omega
        have hone : countAbsent s w.table (add64 i num) loopFuel (i + 1) 1 = .ok (i + 1, 1) :=
          countAbsent_end (by omega) (by decide)
        rw [hone] at hcount
        cases hcount
        dsimp only at h
        rw [if_neg (by omega), add64_of_lt (show i + 1 + 1 < 2 ^ 64 by omega),
          add64_of_lt (by omega)] at h
        by_cases hnext : i + 1 + 1 + 1 < w.bound num
        · obtain ⟨hnum, hover⟩ := ih hnext h
          exact ⟨hnum, .absent (by omega) habs hover⟩
        · exact ⟨by omega, .last (by omega) (by omega) habs⟩
    · obtain ⟨_, hlt⟩ := hhas
      rw [add64_of_lt (by omega)] at h
      obtain ⟨hnum, hover⟩ := ih (by omega) h
      exact ⟨hnum, .present habs hover⟩

/-- The look ahead of a search for `2^64 - 1` pages ends at once behind the entry 0. -/
theorem Window.countWithin_wraps {i : Nat} (hi : 1 ≤ i) :
    countWithin w.Has s w.table (add64 i (2 ^ 64 - 1)) loopFuel (i + 1) 1 = .ok (i + 1, 1) := by
  have hstop : add64 i (2 ^ 64 - 1) ≤ i := by
    unfold add64
    omega
  rw [countWithin_iff fun _ => Window.Has.reaches]
  exact ⟨countAbsent_end (by omega) (by decide), fun n hn _ => by omega⟩

theorem Window.scan_of_hopsOver {i : Nat} (h : s.HopsOver w i) :
    ∀ {fuel : Nat}, w.hi + 2 < fuel + i → w.lo ≤ i →
      w.scan s frame (2 ^ 64 - 1) flags fuel i = .ok (none, s) := by
  have hhi := w.hi_le
  unfold pgTableEntries at hhi
  have hbound : w.bound (2 ^ 64 - 1) = w.hi + 2 := by
    unfold Window.bound add64 sub64
    omega
  unfold Window.scan
  rw [hbound]
  induction h with
  | last hpos hend habs =>
    rename_i i
    intro fuel hfuel hlo
    obtain ⟨fuel, rfl⟩ : ∃ f, fuel = f + 2 := ⟨fuel - 2, by omega⟩
    rw [scanWithin, if_pos (by omega), if_neg (not_not.mpr ⟨hlo, by omega⟩), if_pos habs,
      add64_of_lt (show i + 1 < 2 ^ 64 by omega), countWithin_wraps hpos]
    simp only [Exec.ok_bind]
    rw [if_neg (by decide), add64_of_lt (show i + 1 + 1 < 2 ^ 64 by omega),
      add64_of_lt (by omega), scanWithin, if_neg (by omega)]
    rfl
  | present habs h ih =>
    rename_i i
    have hlt := h.lt
    intro fuel hfuel hlo
    obtain ⟨fuel, rfl⟩ : ∃ f, fuel = f + 1 := ⟨fuel - 1, by omega⟩
    rw [scanWithin, if_pos (by omega), if_neg (not_not.mpr ⟨hlo, by omega⟩), if_neg habs,
      add64_of_lt (by omega)]
    exact ih (by omega) (by omega)
  | absent hpos habs h ih =>
    rename_i i
    have hlt := h.lt
    intro fuel hfuel hlo
    obtain ⟨fuel, rfl⟩ : ∃ f, fuel = f + 1 := ⟨fuel - 1, by omega⟩
    rw [scanWithin, if_pos (by omega), if_neg (not_not.mpr ⟨hlo, by omega⟩), if_pos habs,
      add64_of_lt (show i + 1 < 2 ^ 64 by omega), countWithin_wraps hpos]
    simp only [Exec.ok_bind]
    rw [if_neg (by decide), add64_of_lt (show i + 1 + 1 < 2 ^ 64 by omega),
      add64_of_lt (by omega)]
    exact ih (by omega) (by omega)
  | run hpos hrun hend h ih =>
    rename_i n
    have hlt := h.lt
    intro fuel hfuel hlo
    obtain ⟨fuel, rfl⟩ : ∃ f, fuel = f + 1 := ⟨fuel - 1, by omega⟩
    obtain ⟨m, rfl⟩ : ∃ m, n = m + 1 := ⟨n - 1, by omega⟩
    have hnext : 0 + 1 + m = m + 1 := by omega
    have hcount : countWithin w.Has s w.table (2 ^ 64 - 1) loopFuel (0 + 1) 1 =
        .ok (m + 1, 1 + m) := by
      rw [countWithin_iff fun _ => Window.Has.reaches, ← hnext]
      constructor
      · apply countAbsent_stop (by unfold loopFuel; omega) (by omega)
          (w.reaches (by unfold pgTableEntries; omega)) (by omega) hrun.tail
        rwa [hnext]
      · intro k _ hk
        refine ⟨by omega, ?_⟩
        by_contra hge
        have := hk m (by omega)
        rw [hnext] at this
        exact hend this
    have habs : s.Absent w.table 0 := hrun 0 hpos
    rw [scanWithin, if_pos (by omega), if_neg (not_not.mpr ⟨hlo, by omega⟩), if_pos habs,
      add64_of_lt (show 0 + (2 ^ 64 - 1) < 2 ^ 64 by omega),
      add64_of_lt (show 0 + 1 < 2 ^ 64 by omega), Nat.zero_add (2 ^ 64 - 1), hcount]
    simp only [Exec.ok_bind]
    rw [if_neg (by omega), add64_of_lt (show m + 1 + 1 < 2 ^ 64 by omega),
      add64_of_lt (by omega)]
    exact ih (by omega) (by omega)

end Window

/-! ## Which calls stay in the window -/

/-- A call returns, having read and written entries of its window only, and it returns 0 if the
window has fewer entries than the pages to map. -/
def Window.Stays (w : Window) (s : Vm) (frame : BitVec 64) (num : Nat) (flags : BitVec 64) : Prop :=
  ∃ found s', w.scan s frame num flags loopFuel w.lo = .ok (found, s') ∧
    w.mapPages s frame num flags = .ok (w.addr found, s') ∧
    (s'.phys = s.phys ∧ ∀ a, (∀ i, w.Has i → a ≠ slot w.table i) → s'.entry a = s.entry a) ∧
    (w.hi - w.lo < num → w.addr found = 0)

/-- A call that has found nothing. -/
theorem Window.stays_of_none {w : Window} {s : Vm} {frame flags : BitVec 64} {num : Nat}
    (hnum : 1 ≤ num) (h : w.scan s frame num flags loopFuel w.lo = .ok (none, s)) :
    w.Stays s frame num flags :=
  ⟨none, s, h, Window.mapPages_of_scan hnum h, ⟨rfl, fun _ _ => rfl⟩, fun _ => rfl⟩

/-- **A call stays in its window just if the bound of its loop does not wrap**, or if it is for
`2^64 - 1` pages and the search steps over the end of the window. -/
theorem mapPages_stays_iff (w : Window) (s : Vm) (frame : BitVec 64) (num : Nat) (flags : BitVec 64)
    (hnum : 1 ≤ num) (hlt : num < 2 ^ 64) :
    w.Stays s frame num flags ↔ num ≤ w.hi + 1 ∨ num = 2 ^ 64 - 1 ∧ s.HopsOver w w.lo := by
  have hhi := w.hi_le
  have hlohi : w.lo < w.hi := by cases w <;> decide
  unfold pgTableEntries at hhi
  constructor
  · rintro ⟨found, s', hscan, _⟩
    by_cases hfit : num ≤ w.hi + 1
    · exact Or.inl hfit
    · refine Or.inr (Window.hopsOver_of_scan (not_le.mp hfit) hlt ?_ hscan)
      unfold Window.bound add64 sub64
      omega
  · rintro (hfit | ⟨rfl, hover⟩)
    · have hbound : w.bound num + num = w.hi + 1 := by
        unfold Window.bound add64 sub64
        omega
      obtain ⟨⟨found, s'⟩, hscan⟩ := @Window.scan_inside w s frame flags num hnum hfit loopFuel w.lo
        (by decide) (by unfold loopFuel; omega) (le_refl w.lo)
      have hrun := scanWithin_mono (fun _ => Window.Has.reaches) hscan
      rw [scanWithin_reaches] at hrun
      by_cases hpages : num ≤ pgTableEntries
      · rcases mapPagesScan_spec s frame flags hnum hpages (le_of_eq hbound) loopFuel w.lo
          (by decide) (by unfold loopFuel; omega) with hnone | ⟨k, s₁, hk, hlo, hin, _, hframe, _⟩
        · cases hrun.symm.trans hnone
          exact Window.stays_of_none hnum hscan
        · cases hrun.symm.trans hk
          refine ⟨some k, s', hscan, Window.mapPages_of_scan hnum hscan, ⟨hframe.1, ?_⟩, ?_⟩
          · intro a ha
            exact hframe.2 a fun t ht => ha (k + t) ⟨by omega, by omega⟩
          · intro hmany
            omega
      · -- the search of the 4KB window for one page too many
        have hzero : w.bound num = 0 := by
          unfold pgTableEntries at hpages
          omega
        obtain ⟨fuel, hfuel⟩ : ∃ fuel, loopFuel = fuel + 1 := ⟨2 ^ 64 - 1, rfl⟩
        apply Window.stays_of_none hnum
        unfold Window.scan
        rw [hfuel, hzero, scanWithin, if_neg (Nat.not_lt_zero w.lo)]
        rfl
    · exact Window.stays_of_none hnum
        (Window.scan_of_hopsOver hover (by unfold loopFuel; omega) (le_refl w.lo))

/-- Tables with no entry present. -/
def blankTables : Vm := ⟨fun _ => 0#64, Physical.boot⟩

/-- Four pages of 2MB in an empty window. -/
theorem mapPages_stays_four : Window.largePage.Stays blankTables 0x200000#64 4 3#64 :=
  (mapPages_stays_iff Window.largePage blankTables 0x200000#64 4 3#64 (by decide) (by decide)).mpr
    (Or.inl (by decide))

/-- Eighteen pages of 2MB: the window has ten, and the search reads on behind them. -/
theorem mapPages_leaves_window : ¬ Window.largePage.Stays blankTables 0x200000#64 18 3#64 := by
  rintro ⟨found, s', hscan, _⟩
  have hnum := (Window.hopsOver_of_scan (by decide) (by decide) (by decide) hscan).1
  omega

end Rtv.Mm
