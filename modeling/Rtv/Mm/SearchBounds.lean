import Rtv.Mm.FindRun
import Rtv.Mm.NextFreeRange

/-!
# The search for free ranges on a full machine

`physical_next_free_range` looks for the next word of `mm_table` with a free page and then goes
through the bits of the word it has stopped at. Where there is no such word it has stopped at
`entry_end`, and that word it reads as well. With the limit in the last word of the table it is the
word behind `mm_table`, where the model stops with a fault.

**The law** (`search_inside_iff`): with all free pages below a limit inside the table, the search
reads only words of the table exactly if the limit leaves out the last word, or it starts behind the
table, or a free page is left.
-/

namespace Rtv.Mm

open Rtv.Lib Rtv.Utils

/-- The search reads only words of `mm_table`; so it returns. -/
def SearchesInside (s : Physical) (current start : Nat) : Prop :=
  ∃ r, physicalNextFreeRange s current start = .ok r

/-- The word behind the last one is not needed: it is in the table, or the search starts behind it, or
a free page is left. -/
def SearchBounded (s : Physical) (current : Nat) : Prop :=
  s.mmLimit ≤ 64 * (mmTableMax - 1) ∨ 64 * mmTableMax ≤ current >>> pgBits ∨
    ∃ q, current >>> pgBits ≤ q ∧ s.Free q

section Search

variable {s : Physical} {current start : Nat}

/-- A scan of the word behind the table. -/
theorem nextFreeScan_behind (s : Physical) (fuel count : Nat) {bit stop : Nat}
    (hbit : 64 * mmTableMax ≤ bit) (hlt : bit < stop) :
    nextFreeScan s (fuel + 1) bit stop count = .error .fault := by
  have hword : ¬bit / 64 < mmTableMax := by omega
  rw [nextFreeScan, if_pos hlt, bitmap64CheckBit_eq, bitmap64Get_eq, if_neg hword]
  rfl

/-- **The read behind the table**: no free page is left, and the last word belongs to the limit. -/
theorem physicalNextFreeRange_behind (hend : s.entryEnd = mmTableMax)
    (hpage : current >>> pgBits < 64 * mmTableMax)
    (hnone : ∀ q, current >>> pgBits ≤ q → ¬s.Free q) :
    physicalNextFreeRange s current start = .error .fault := by
  unfold physicalNextFreeRange
  generalize current >>> pgBits = page at hpage hnone
  simp only [shiftRight_six, shiftLeft_six]
  rw [if_neg (by omega)]
  rcases nextFreeScan_spec (show (page + 64 - 1) / 64 * 64 ≤ 64 * mmTableMax by omega) 65 page 0
      (by decide) (by omega) (by omega) (.start s page) with ⟨p, num, -, hrun⟩ | ⟨count, h, hseen⟩
  · exact absurd (hrun.free p (Nat.le_refl p) (Nat.lt_add_of_pos_right hrun.pos)) (hnone p hrun.le)
  · -- a page counted would be free
    obtain rfl : count = 0 := by
      by_contra hpos
      have hle := hseen.le
      exact hnone ((page + 64 - 1) / 64 * 64 - 1) (by omega) (hseen.free _ (by omega) (by omega))
    have hword : (page + 64 - 1) / 64 * 64 / 64 = (page + 64 - 1) / 64 := by omega
    simp only [h, Exec.ok_bind, if_true, hword]
    rw [Nat.mul_comm] at hseen
    obtain ⟨i, hskip, hle, hseen', hsome⟩ := nextFreeSkip_spec (Nat.le_of_eq hend) scanFuel
      ((page + 64 - 1) / 64) (by decide) (by unfold scanFuel; omega) (by omega) hseen
    have hi : i = mmTableMax := by
      by_contra hne
      obtain ⟨q, hfree, hq⟩ := hsome (by omega)
      have hle' := hseen'.le
      exact hnone q (by omega) hfree
    rw [hskip, Exec.ok_bind, hi, nextFreeScan_behind s 64 0 (Nat.le_refl _) (by omega)]
    rfl

/-- **The search for free ranges** reads only words of the table exactly if the word behind the last
one is not needed. -/
theorem search_inside_iff (s : Physical) (hmax : s.mmLimit ≤ 64 * mmTableMax)
    (hlimit : ∀ p, s.Free p → p < s.mmLimit) (current start : Nat) :
    SearchesInside s current start ↔ SearchBounded s current := by
  have hend := s.entryEnd_eq
  constructor
  · rintro ⟨r, hr⟩
    by_contra hneeded
    obtain ⟨hfull, hneeded⟩ := not_or.mp hneeded
    obtain ⟨hpage, hnone⟩ := not_or.mp hneeded
    have hmax' : s.entryEnd = mmTableMax := by
      have hpos : 0 < mmTableMax := by decide
      omega
    rw [physicalNextFreeRange_behind hmax' (not_le.mp hpage) fun q hq hfree => hnone ⟨q, hq, hfree⟩] at hr
    cases hr
  · intro hbounded
    have hle : s.entryEnd ≤ mmTableMax := by omega
    have hreturns : (s.entryEnd < mmTableMax ∨ ∃ q, current >>> pgBits ≤ q ∧ s.Free q) →
        SearchesInside s current start := by
      intro hleft
      rcases physicalNextFreeRange_left hlimit hle current start hleft with
        ⟨p, num, hrun, -⟩ | ⟨-, start', hrun, -⟩
      · exact ⟨_, hrun⟩
      · exact ⟨_, hrun⟩
    rcases hbounded with hsmall | hpage | hfree
    · have hpos : 0 < mmTableMax := by decide
      exact hreturns (Or.inl (by omega))
    · refine ⟨(start, 0), ?_⟩
      rw [physicalNextFreeRange, if_pos (by rw [shiftRight_six]; omega)]
      rfl
    · exact hreturns (Or.inr hfree)

end Search

/-- On a table with the two free pages 384 and 385. -/
theorem search_inside_one_run : SearchesInside (oneWord 6 3#64 448) 0 0 ↔
    SearchBounded (oneWord 6 3#64 448) 0 :=
  search_inside_iff (oneWord 6 3#64 448) (by decide)
    (fun p hp => by
      have hword := (oneWord_free hp).1
      change p < 448
      omega) 0 0

/-- A machine with memory up to the end of the table, all of it taken. -/
def allTaken : Physical where
  mmTable := ⟨fun _ => 0#64⟩
  mmLimit := 64 * mmTableMax
  entryEnd := mmTableMax
  entryEnd_eq := by decide

theorem allTaken_not_free (p : Nat) : ¬allTaken.Free p := by
  unfold Physical.Free allTaken Bitmap.test
  split <;> simp

/-- **A read behind the table**, when all memory is taken. -/
theorem search_outside : ¬ ∀ s : Physical, s.mmLimit ≤ 64 * mmTableMax →
    (∀ p, s.Free p → p < s.mmLimit) → ∀ current start, SearchesInside s current start := by
  intro h
  obtain ⟨r, hr⟩ := h allTaken (Nat.le_refl _) (fun p hp => absurd hp (allTaken_not_free p)) 0 0
  rw [physicalNextFreeRange_behind rfl (by decide) fun q _ => allTaken_not_free q] at hr
  cases hr

end Rtv.Mm
