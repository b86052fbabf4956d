import Rtv.Mm.FindRun
import Rtv.Mm.NextFreeRange

/-!
# Ranges of bytes and runs of pages

What `physical_free_range` and `physical_take_range` do to every page and every word of `mm_table`,
and what repeated calls of `physical_next_free_range` see of it.

Giving a range back rounds it inwards, taking one rounds it outwards. The first goes wrong for a
range that starts inside a page and ends before the next one: the number of pages is then negative.
-/

namespace Rtv.Mm

open Rtv.Lib Rtv.Utils

/-! ## Giving back and taking -/

/-- Word `i` of `mm_table` stands for a page with the property. -/
def Covers (P : Nat → Prop) (i : Nat) : Prop := ∃ p, p / 64 = i ∧ P p

/-- What giving back `length` bytes at `start` is for: the free pages are those before and the pages
inside the range; no word without such a page is touched. -/
def FreesInside (s : Physical) (start length : Nat) : Prop :=
  ∃ s', physicalFreeRange s start length = .ok s' ∧ s'.mmLimit = s.mmLimit ∧
    (∀ p, s'.Free p ↔ s.Free p ∨ Inside start (start + length) p) ∧
    ∀ i, ¬Covers (Inside start (start + length)) i.val → s'.mmTable.word i = s.mmTable.word i

/-- What taking `length` bytes at `start` is for: the free pages are those before that the range does
not touch; no word without a page that it touches is touched. -/
def TakesTouched (s : Physical) (start length : Nat) : Prop :=
  ∃ s', physicalTakeRange s start length = .ok s' ∧ s'.mmLimit = s.mmLimit ∧
    (∀ p, s'.Free p ↔ s.Free p ∧ ¬Touches start (start + length) p) ∧
    ∀ i, ¬Covers (Touches start (start + length)) i.val → s'.mmTable.word i = s.mmTable.word i

/-- **When giving back a range does what it is for**: the range starts with a page, or reaches the
next one. -/
theorem physicalFreeRange_inside_iff (s : Physical) (start length : Nat)
    (hin : start + length ≤ mmTableBytes) :
    FreesInside s start length ↔ start % pgSize = 0 ∨ pgSize ≤ start % pgSize + length := by
  constructor
  · rintro ⟨s', hs', -⟩
    by_contra hwraps
    rw [not_or, Nat.not_le] at hwraps
    exact physicalFreeRange_wraps s hwraps.1 hwraps.2 (Nat.lt_of_le_of_lt hin (by decide)) s' hs'
  · intro hreach
    obtain ⟨s', hs', hlimit, hfree⟩ := physicalFreeRange_whole s hreach (div_le_of_bytes hin)
    refine ⟨s', hs', hlimit, fun p => (hfree p).trans or_comm, fun i hi => ?_⟩
    refine word_eq_of_free i fun p hp => (hfree p).trans ?_
    exact or_iff_right fun hinside => hi ⟨p, hp, hinside⟩

/-- The 4096 bytes from the third page on. -/
theorem physicalFreeRange_inside_page :
    FreesInside .boot 8192 4096 ↔ 8192 % pgSize = 0 ∨ pgSize ≤ 8192 % pgSize + 4096 :=
  physicalFreeRange_inside_iff .boot 8192 4096 (by decide)

/-- One byte inside a page. -/
theorem physicalFreeRange_inside_page_fails : ¬FreesInside .boot 1 1 := by
  rintro ⟨s', hs', -⟩
  exact physicalFreeRange_wraps .boot (by decide) (by decide) (by decide) s' hs'

/-- **Taking a range takes the pages that it touches** and touches no other word. -/
theorem physicalTakeRange_touched (s : Physical) (start length : Nat)
    (hin : start + length ≤ mmTableBytes) : TakesTouched s start length := by
  obtain ⟨s', hs', hlimit, hfree⟩ := physicalTakeRange_spec s start length hin
  refine ⟨s', hs', hlimit, hfree, fun i hi => word_eq_of_free i fun p hp => (hfree p).trans ?_⟩
  exact and_iff_left fun htouch => hi ⟨p, hp, htouch⟩

/-- One byte in the second of two free pages: it is taken, and the first one stays free. -/
theorem physicalTakeRange_touched_page :
    ((oneWord 6 3#64 448).Free 384 ∧ (oneWord 6 3#64 448).Free 385) ∧
      TakesTouched (oneWord 6 3#64 448) (385 * 4096 + 1) 1 ∧
        ¬Touches (385 * 4096 + 1) (385 * 4096 + 1 + 1) 384 ∧
          Touches (385 * 4096 + 1) (385 * 4096 + 1 + 1) 385 :=
  ⟨by decide, physicalTakeRange_touched _ _ _ (by decide), by decide, by decide⟩

/-! ## All free ranges -/

/-- Repeated calls of `physical_next_free_range`, each from the end of the range before, until the size
is 0. -/
def freeRanges (s : Physical) : Nat → Nat → Nat → Exec (List (Nat × Nat))
  | 0, _, _ => .error .hang
  | fuel + 1, current, start => do
    let (start, size) ← physicalNextFreeRange s current start
    if size = 0 then
      return []
    else
      let rest ← freeRanges s fuel (start + size) start
      return (start, size) :: rest

/-- The pages of a list of ranges, in its order. -/
def rangePages (ranges : List (Nat × Nat)) : List Nat :=
  ranges.flatMap fun range => List.range' (range.1 >>> pgBits) (range.2 >>> pgBits)

/-- The ranges seen from page `c` on hold its free pages from there on, in ascending order. -/
theorem freeRanges_spec {s : Physical} (hlimit : ∀ p, s.Free p → p < s.mmLimit)
    (hend : s.entryEnd < mmTableMax) : ∀ (fuel c start : Nat), 0 < fuel → 64 * mmTableMax < fuel + c →
      ∃ ranges, freeRanges s fuel (c <<< pgBits) start = .ok ranges ∧
        (rangePages ranges).Pairwise (· < ·) ∧ ∀ q, q ∈ rangePages ranges ↔ c ≤ q ∧ s.Free q := by
  have hback : ∀ p : Nat, p <<< pgBits >>> pgBits = p := fun p => Nat.shiftLeft_shiftRight p pgBits
  intro fuel
  induction fuel with
  | zero =>
    intro c start h
    exact absurd h (Nat.lt_irrefl 0)
  | succ fuel ih =>
    intro c start _ hfuel
    rcases physicalNextFreeRange_spec hlimit hend (c <<< pgBits) start with
      ⟨p, num, hnext, hrun⟩ | ⟨hnone, start', hnext, -⟩
    · rw [hback] at hrun
      have hlt := (hrun.free p (Nat.le_refl p) (by have := hrun.pos; omega)).lt
      have hpos := hrun.pos
      have hle := hrun.le
      have hsize : num <<< pgBits ≠ 0 := by
        rw [Nat.shiftLeft_eq]
        exact Nat.mul_ne_zero (by omega) (by decide)
      have hsum : p <<< pgBits + num <<< pgBits = (p + num) <<< pgBits := by
        simp only [Nat.shiftLeft_eq, Nat.add_mul]
      obtain ⟨ranges, hrest, hsorted, hmem⟩ := ih (p + num) (p <<< pgBits) (by omega) (by omega)
      refine ⟨(p <<< pgBits, num <<< pgBits) :: ranges, ?_, ?_, fun q => ?_⟩
      · rw [freeRanges, hnext, Exec.ok_bind]
        simp only [if_neg hsize, hsum, hrest, Exec.ok_bind]
        rfl
      · simp only [rangePages, List.flatMap_cons, hback]
        refine List.pairwise_append.mpr ⟨List.pairwise_lt_range', hsorted, fun q hq q' hq' => ?_⟩
        have := ((hmem q').mp hq').1
        rw [List.mem_range'_1] at hq
        omega
      · simp only [rangePages, List.flatMap_cons, hback, List.mem_append, List.mem_range'_1]
        have hq := hmem q
        rw [rangePages] at hq
        rw [hq]
        constructor
        · rintro (⟨hlo, hhi⟩ | ⟨hlo, hfree⟩)
          · exact ⟨by omega, hrun.free q hlo hhi⟩
          · exact ⟨by omega, hfree⟩
        · rintro ⟨hlo, hfree⟩
          by_cases hrest' : p + num ≤ q
          · exact .inr ⟨hrest', hfree⟩
          · refine .inl ⟨?_, by omega⟩
            by_contra hlt'
            exact hrun.skipped q hlo (by omega) hfree
    · rw [hback] at hnone
      refine ⟨[], ?_, .nil, fun q => ?_⟩
      · rw [freeRanges, hnext]
        rfl
      · simp only [rangePages, List.flatMap_nil, List.not_mem_nil, false_iff]
        rintro ⟨hlo, hfree⟩
        exact hnone q hlo hfree

/-- `size` bytes at `start` are the maximal run of free pages that begins with page `p`. -/
def RunAt (s : Physical) (p start size : Nat) : Prop :=
  start = p <<< pgBits ∧ 0 < size ∧ ∃ num, size = num <<< pgBits ∧
    (∀ q, p ≤ q → q < p + num → s.Free q) ∧ ¬s.Free (p + num)

/-- **`physical_next_free_range` returns the next maximal free run.** From any address the size is 0
when no page from there on is free, and else the range is the maximal run of free pages that begins
with the first one. Repeated from 0 on it sees every free page once, in ascending order. -/
theorem physicalNextFreeRange_visits (s : Physical) (hlimit : ∀ p, s.Free p → p < s.mmLimit)
    (hend : s.entryEnd < mmTableMax) :
    (∀ current start, ∃ r, physicalNextFreeRange s current start = .ok r ∧
      ((∀ q, current >>> pgBits ≤ q → ¬s.Free q) → r.2 = 0) ∧
      ∀ p, FirstFree s (current >>> pgBits) p → RunAt s p r.1 r.2) ∧
    ∀ start, ∃ ranges, freeRanges s scanFuel 0 start = .ok ranges ∧
      (rangePages ranges).Pairwise (· < ·) ∧ ∀ q, q ∈ rangePages ranges ↔ s.Free q := by
  constructor
  · intro current start
    rcases physicalNextFreeRange_spec hlimit hend current start with
      ⟨p, num, hnext, hrun⟩ | ⟨hnone, start', hnext, -⟩
    · have hpos := hrun.pos
      have hp := hrun.free p (Nat.le_refl p) (by omega)
      refine ⟨_, hnext, fun hnone => absurd hp (hnone p hrun.le), fun p' hfirst => ?_⟩
      obtain rfl := hfirst.eq hrun.firstRun.firstFree
      refine ⟨rfl, ?_, num, rfl, hrun.free, hrun.stop⟩
      show 0 < num <<< pgBits
      rw [Nat.shiftLeft_eq]
      exact Nat.mul_pos hpos (Nat.two_pow_pos pgBits)
    · exact ⟨_, hnext, fun _ => rfl, fun p hfirst => absurd hfirst.2.1 (hnone p hfirst.1)⟩
  · intro start
    obtain ⟨ranges, hrun, hsorted, hmem⟩ :=
      freeRanges_spec hlimit hend scanFuel 0 start (by decide) (by decide)
    refine ⟨ranges, hrun, hsorted, fun q => ?_⟩
    rw [hmem q]
    exact and_iff_right (Nat.zero_le q)

/-- On a table with the two free pages 384 and 385. -/
theorem physicalNextFreeRange_visits_one_run :
    (∀ current start, ∃ r, physicalNextFreeRange (oneWord 6 3#64 448) current start = .ok r ∧
      ((∀ q, current >>> pgBits ≤ q → ¬(oneWord 6 3#64 448).Free q) → r.2 = 0) ∧
      ∀ p, FirstFree (oneWord 6 3#64 448) (current >>> pgBits) p →
        RunAt (oneWord 6 3#64 448) p r.1 r.2) ∧
    ∀ start, ∃ ranges, freeRanges (oneWord 6 3#64 448) scanFuel 0 start = .ok ranges ∧
      (rangePages ranges).Pairwise (· < ·) ∧ ∀ q, q ∈ rangePages ranges ↔ (oneWord 6 3#64 448).Free q :=
  physicalNextFreeRange_visits _
    (fun p hp => by
      have := (oneWord_free hp).1
      show p < 448
      omega)
    (by decide)

end Rtv.Mm
