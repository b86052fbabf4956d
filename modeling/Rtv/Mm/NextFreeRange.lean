import Rtv.Mm.PhysicalSpec

/-!
# The next free range

`physical_next_free_range` finds the next maximal run of free pages: `NextRun`. Its four loops walk
the same way over the table, and share one invariant, `Seen`: no free page from the start up to the
run in progress, and nothing but free pages in it.

The word after the last one that holds pages is read when no run is left, so it has to exist:
`entry_end` is below `MM_TABLE_MAX`. All free pages lie below the limit. What the function returns
without these two is `physicalNextFreeRange_run`: then the run may go on behind the limit.
-/

namespace Rtv.Mm

open Rtv.Lib Rtv.Utils

/-! ## Runs of free pages -/

/-- The `num` pages from `p` on are the first maximal run of free pages at or after `page`. -/
structure NextRun (s : Physical) (page p num : Nat) : Prop where
  le : page ≤ p
  skipped : ∀ q, page ≤ q → q < p → ¬ s.Free q
  free : ∀ q, p ≤ q → q < p + num → s.Free q
  stop : ¬ s.Free (p + num)
  pos : 0 < num

/-- From `page` up to `bit` there are taken pages and then `count` free ones. -/
structure Seen (s : Physical) (page bit count : Nat) : Prop where
  le : page + count ≤ bit
  skipped : ∀ q, page ≤ q → q + count < bit → ¬ s.Free q
  free : ∀ q, bit ≤ q + count → q < bit → s.Free q

/-- At the start nothing is seen. -/
theorem Seen.start (s : Physical) (page : Nat) : Seen s page page 0 where
  le := Nat.le_refl page
  skipped q h h' := absurd h' (by omega)
  free q h h' := absurd h' (by omega)

/-- One more free page. -/
theorem Seen.free_one {s : Physical} {page bit count : Nat} (h : Seen s page bit count)
    (hfree : s.Free bit) : Seen s page (bit + 1) (count + 1) where
  le := by have := h.le; omega
  skipped q hq hq' := h.skipped q hq (by omega)
  free q hq hq' := by
    rcases Nat.eq_or_lt_of_le (Nat.le_of_lt_succ hq') with rfl | hlt
    · exact hfree
    · exact h.free q (by omega) hlt

/-- More taken pages before a run has begun. -/
theorem Seen.skip {s : Physical} {page bit bit' : Nat} (h : Seen s page bit 0) (hle : bit ≤ bit')
    (htaken : ∀ q, bit ≤ q → q < bit' → ¬ s.Free q) : Seen s page bit' 0 where
  le := by have := h.le; omega
  skipped q hq hq' := by
    by_cases hlt : q < bit
    · exact h.skipped q hq hlt
    · exact htaken q (by omega) hq'
  free q hq hq' := absurd hq' (by omega)

/-- More free pages. -/
theorem Seen.extend {s : Physical} {page bit count : Nat} (h : Seen s page bit count) {k : Nat}
    (hfree : ∀ q, bit ≤ q → q < bit + k → s.Free q) : Seen s page (bit + k) (count + k) where
  le := by have := h.le; omega
  skipped q hq hq' := h.skipped q hq (by omega)
  free q hq hq' := by
    by_cases hlt : q < bit
    · exact h.free q (by omega) hlt
    · exact hfree q (by omega) hq'

/-- A taken page ends the run. -/
theorem Seen.nextRun {s : Physical} {page bit count : Nat} (h : Seen s page bit count)
    (hpos : 0 < count) (hstop : ¬ s.Free bit) : NextRun s page (bit - count) count where
  le := by have := h.le; omega
  skipped q hq hq' := h.skipped q hq (by omega)
  free q hq hq' := by
    have := h.le
    exact h.free q (by omega) (by omega)
  stop := by
    have := h.le
    rwa [Nat.sub_add_cancel (by omega)]
  pos := hpos

/-! ## The loops -/

/-- The trailing zeros of a word that is not zero end at its lowest set bit. -/
theorem countTrailingZerosBit64_eq {w : BitVec 64} {k : Nat} (hk : k < 64)
    (hset : w.getLsbD k = true) (hlow : ∀ j < k, w.getLsbD j = false) :
    countTrailingZerosBit64 w = k := by
  have hfind : ((List.range 64).find? fun i => w.getLsbD i) = some k := by
    rw [List.find?_range_eq_some]
    refine ⟨hset, List.mem_range.mpr hk, fun j hj => ?_⟩
    rw [hlow j hj]
    rfl
  unfold countTrailingZerosBit64
  rw [hfind]
  rfl

/-- Every bit of a full word is set. -/
theorem full_getLsbD (q : Nat) : (~~~0#64).getLsbD (q % 64) = true := by
  rw [BitVec.getLsbD_not]
  simp [Nat.mod_lt]

/-- A word that is not full ends a run at its lowest clear bit. -/
theorem Seen.wordEnd {s : Physical} {page i count : Nat} (h : Seen s page (64 * i) count)
    {w : BitVec 64} (hload : s.mmTable.load i = .ok w) (hfull : w ≠ ~~~0#64) :
    ∃ k, countTrailingZerosBit64 (~~~w) = k ∧ Seen s page (64 * i + k) (count + k) ∧
      ¬ s.Free (64 * i + k) := by
  have hne : ~~~w ≠ 0#64 := fun hz => hfull (by rw [← hz, BitVec.not_not])
  obtain ⟨k, hk, hset, hlow⟩ := exists_lowest hne
  have hbits : ∀ j < 64, (~~~w).getLsbD j = !w.getLsbD j := fun j hj => by
    rw [BitVec.getLsbD_not]
    simp [hj]
  refine ⟨k, countTrailingZerosBit64_eq hk hset hlow, ?_, ?_⟩
  · refine h.extend fun q hq hq' => (free_iff_word hload (by omega)).mpr ?_
    have := hlow (q % 64) (by omega)
    rw [hbits _ (Nat.mod_lt _ (by decide))] at this
    simpa using this
  · rw [free_iff_word hload (by omega), show (64 * i + k) % 64 = k by omega]
    rw [hbits k hk] at hset
    simpa using hset

/-- A scan of bits: it meets the end of a run, or it reaches its last bit. -/
theorem nextFreeScan_spec {s : Physical} {page stop : Nat} (hstop : stop ≤ 64 * mmTableMax) :
    ∀ (fuel bit count : Nat), 0 < fuel → stop < fuel + bit → bit ≤ stop → Seen s page bit count →
      (∃ p num, nextFreeScan s fuel bit stop count = .ok (.inl (p <<< pgBits, num <<< pgBits)) ∧
        NextRun s page p num) ∨
      ∃ count', nextFreeScan s fuel bit stop count = .ok (.inr count') ∧ Seen s page stop count' := by
  intro fuel
  induction fuel with
  | zero =>
    intro bit count h
    exact absurd h (Nat.lt_irrefl 0)
  | succ fuel ih =>
    intro bit count _ hf hle hseen
    unfold nextFreeScan
    by_cases hlt : bit < stop
    · rw [if_pos hlt, bitmap64CheckBit_eq, bitmap64Get_eq, if_pos (by omega), Exec.ok_bind]
      cases htest : s.mmTable.test bit with
      | true => exact ih (bit + 1) (count + 1) (by omega) (by omega) hlt (hseen.free_one htest)
      | false =>
        have htaken : ¬ s.Free bit := by
          unfold Physical.Free
          rw [htest]
          exact Bool.false_ne_true
        by_cases hpos : count > 0
        · rw [if_neg Bool.false_ne_true, if_pos hpos]
          exact .inl ⟨_, _, rfl, hseen.nextRun hpos htaken⟩
        · obtain rfl : count = 0 := by omega
          rw [if_neg Bool.false_ne_true, if_neg hpos]
          refine ih (bit + 1) 0 (by omega) (by omega) hlt (hseen.skip (by omega) fun q hq hq' => ?_)
          obtain rfl : q = bit := by omega
          exact htaken
    · obtain rfl : bit = stop := by omega
      rw [if_neg hlt]
      exact .inr ⟨count, rfl, hseen⟩

/-- The skipping loop stops at a word with a free page, or at `entry_end`. -/
theorem nextFreeSkip_spec {s : Physical} {page : Nat} (hend : s.entryEnd ≤ mmTableMax) :
    ∀ (fuel i : Nat), 0 < fuel → s.entryEnd < fuel + i → i ≤ s.entryEnd → Seen s page (64 * i) 0 →
      ∃ i', nextFreeSkip s fuel i = .ok i' ∧ i' ≤ s.entryEnd ∧ Seen s page (64 * i') 0 ∧
        (i' < s.entryEnd → ∃ q, s.Free q ∧ q / 64 = i') := by
  intro fuel
  induction fuel with
  | zero =>
    intro i h
    exact absurd h (Nat.lt_irrefl 0)
  | succ fuel ih =>
    intro i _ hf hle hseen
    unfold nextFreeSkip
    by_cases hlt : i < s.entryEnd
    · have hload := s.mmTable.load_of_lt (show i < mmTableMax by omega)
      rw [if_pos hlt, hload, Exec.ok_bind]
      by_cases hne : s.mmTable.word ⟨i, by omega⟩ ≠ 0#64
      · rw [if_pos hne]
        refine ⟨i, rfl, hle, hseen, fun _ => ?_⟩
        obtain ⟨k, hk, hset, _⟩ := exists_lowest hne
        refine ⟨64 * i + k, (free_iff_word hload (by omega)).mpr ?_, by omega⟩
        rwa [show (64 * i + k) % 64 = k by omega]
      · rw [if_neg hne]
        rw [not_not.mp hne] at hload
        exact ih (i + 1) (by omega) (by omega) hlt
          (hseen.skip (by omega) fun q hq hq' => not_free_of_zero hload (by omega))
    · rw [if_neg hlt]
      exact ⟨i, rfl, hle, hseen, fun h => absurd h hlt⟩

/-- The loop over whole words ends the run that has begun. -/
theorem nextFreeWords_spec {s : Physical} {page : Nat} (hlimit : ∀ p, s.Free p → p < s.mmLimit)
    (hend : s.entryEnd ≤ mmTableMax) :
    ∀ (fuel i count : Nat), 0 < fuel → s.entryEnd < fuel + i → Seen s page (64 * i) count →
      0 < count →
      ∃ p num, nextFreeWords s fuel i count = .ok (p <<< pgBits, num <<< pgBits) ∧
        NextRun s page p num := by
  intro fuel
  induction fuel with
  | zero =>
    intro i count h
    exact absurd h (Nat.lt_irrefl 0)
  | succ fuel ih =>
    intro i count _ hf hseen hpos
    unfold nextFreeWords
    by_cases hlt : i < s.entryEnd
    · have hload := s.mmTable.load_of_lt (show i < mmTableMax by omega)
      rw [if_pos hlt, hload, Exec.ok_bind]
      generalize s.mmTable.word ⟨i, by omega⟩ = w at hload ⊢
      by_cases hfull : w = ~~~0#64
      · rw [if_pos hfull]
        refine ih (i + 1) (count + 64) (by omega) (by omega) ?_ (by omega)
        refine hseen.extend (k := 64) fun q hq hq' => (free_iff_word hload (by omega)).mpr ?_
        rw [hfull]
        exact full_getLsbD q
      · rw [if_neg hfull]
        obtain ⟨k, hcount, hseen', hstop⟩ := hseen.wordEnd hload hfull
        rw [hcount, shiftLeft_six]
        refine ⟨64 * i - count, count + k, rfl, ?_⟩
        have := hseen'.nextRun (by omega) hstop
        rwa [show 64 * i + k - (count + k) = 64 * i - count by omega] at this
    · rw [if_neg hlt, shiftLeft_six]
      refine ⟨64 * i - count, count, rfl, hseen.nextRun hpos fun hfree => ?_⟩
      have := s.div_lt_entryEnd (hlimit _ hfree)
      omega

/-- The word that the skipping has stopped at, and what comes after it. Without a free page in that word
the skipping has reached `entry_end`. -/
theorem nextFreeWord_spec {s : Physical} {page i : Nat} (hlimit : ∀ p, s.Free p → p < s.mmLimit)
    (hend : s.entryEnd ≤ mmTableMax) (hword : i < mmTableMax) (hle : i ≤ s.entryEnd)
    (hseen : Seen s page (64 * i) 0) (hsome : i < s.entryEnd → ∃ q, s.Free q ∧ q / 64 = i) :
    (∃ p num, nextFreeScan s 65 (64 * i) (64 * (i + 1)) 0 = .ok (.inl (p <<< pgBits, num <<< pgBits)) ∧
        NextRun s page p num) ∨
      ∃ count, nextFreeScan s 65 (64 * i) (64 * (i + 1)) 0 = .ok (.inr count) ∧
        ((∃ p num, nextFreeWords s scanFuel (i + 1) count = .ok (p <<< pgBits, num <<< pgBits) ∧
            NextRun s page p num) ∨
          (∀ q, page ≤ q → ¬ s.Free q) ∧
            nextFreeWords s scanFuel (i + 1) count = .ok ((64 * (s.entryEnd + 1)) <<< pgBits, 0)) := by
  rcases nextFreeScan_spec (show 64 * (i + 1) ≤ 64 * mmTableMax by omega) 65 (64 * i) 0 (by decide)
    (by omega) (by omega) hseen with hrun | ⟨count, hscan, hseen'⟩
  · exact .inl hrun
  refine .inr ⟨count, hscan, ?_⟩
  by_cases hnone : count = 0
  · subst hnone
    have hi : i = s.entryEnd := by
      by_contra hne
      obtain ⟨q, hfree, hq⟩ := hsome (by omega)
      have := hseen'.le
      have := hseen.le
      exact hseen'.skipped q (by omega) (by omega) hfree
    right
    constructor
    · intro q hq hfree
      have := s.div_lt_entryEnd (hlimit q hfree)
      exact hseen'.skipped q hq (by omega) hfree
    · unfold scanFuel nextFreeWords
      rw [if_neg (by omega), shiftLeft_six, hi]
      rfl
  · left
    exact nextFreeWords_spec hlimit hend scanFuel (i + 1) count (by decide) (by unfold scanFuel; omega)
      hseen' (by omega)

/-! ## The function -/

/-- The next free range, where the word behind the last one exists or a free page is left. -/
theorem physicalNextFreeRange_left {s : Physical} (hlimit : ∀ p, s.Free p → p < s.mmLimit)
    (hend : s.entryEnd ≤ mmTableMax) (current start : Nat)
    (hleft : s.entryEnd < mmTableMax ∨ ∃ q, current >>> pgBits ≤ q ∧ s.Free q) :
    (∃ p num, physicalNextFreeRange s current start = .ok (p <<< pgBits, num <<< pgBits) ∧
      NextRun s (current >>> pgBits) p num) ∨
    ((∀ q, current >>> pgBits ≤ q → ¬ s.Free q) ∧
      ∃ start', physicalNextFreeRange s current start = .ok (start', 0) ∧
        (start' = start ∧ s.entryEnd ≤ (current >>> pgBits) / 64 ∨
          (64 * s.entryEnd) <<< pgBits ≤ start')) := by
  have hpast : ∀ q, 64 * s.entryEnd ≤ q → ¬ s.Free q := fun q hq hfree => by
    have := s.div_lt_entryEnd (hlimit q hfree)
    omega
  unfold physicalNextFreeRange
  generalize current >>> pgBits = page at hleft ⊢
  simp only [shiftRight_six, shiftLeft_six]
  by_cases hout : page / 64 ≥ s.entryEnd
  · rw [if_pos hout]
    exact .inr ⟨fun q hq => hpast q (by omega), start, rfl, .inl ⟨rfl, hout⟩⟩
  · rw [if_neg hout]
    rcases nextFreeScan_spec (show (page + 64 - 1) / 64 * 64 ≤ 64 * mmTableMax by omega)
        65 page 0 (by decide) (by omega) (by omega) (.start s page) with
      ⟨p, num, h, hrun⟩ | ⟨count, h, hseen⟩
    · simp only [h, Exec.ok_bind]
      exact .inl ⟨p, num, rfl, hrun⟩
    · have hword : (page + 64 - 1) / 64 * 64 / 64 = (page + 64 - 1) / 64 := by omega
      have hfirst : (page + 64 - 1) / 64 ≤ s.entryEnd := by omega
      simp only [h, Exec.ok_bind, hword]
      rw [Nat.mul_comm] at hseen
      generalize (page + 64 - 1) / 64 = i at hseen hfirst
      by_cases hzero : count = 0
      · subst hzero
        obtain ⟨i', hskip, hle, hseen', hsome⟩ :=
          nextFreeSkip_spec hend scanFuel i (by decide) (by unfold scanFuel; omega) hfirst hseen
        have hword : i' < mmTableMax := by
          rcases hleft with hlt | ⟨q, hq, hfree⟩
          · omega
          · by_contra hend'
            have := s.div_lt_entryEnd (hlimit q hfree)
            exact hseen'.skipped q hq (by omega) hfree
        simp only [if_true, hskip, Exec.ok_bind]
        rcases nextFreeWord_spec hlimit hend hword hle hseen' hsome with
          ⟨p, num, h, hrun⟩ | ⟨count, h, hafter⟩
        · simp only [h, Exec.ok_bind]
          exact .inl ⟨p, num, rfl, hrun⟩
        · simp only [h, Exec.ok_bind]
          rcases hafter with hrun | ⟨hnone, hlast⟩
          · exact .inl hrun
          · refine .inr ⟨hnone, _, hlast, .inr ?_⟩
            rw [Nat.shiftLeft_eq, Nat.shiftLeft_eq]
            exact Nat.mul_le_mul_right _ (by omega)
      · simp only [if_neg hzero]
        exact .inl (nextFreeWords_spec hlimit hend scanFuel i count (by decide)
          (by unfold scanFuel; omega) hseen (by omega))

/-- **The next free range.** The function returns; either it returns the next maximal run of free
pages, or there is no free page left, and it returns size 0 with a start that is past `entry_end`,
or with the old start if `current` is past it already. -/
theorem physicalNextFreeRange_spec {s : Physical} (hlimit : ∀ p, s.Free p → p < s.mmLimit)
    (hend : s.entryEnd < mmTableMax) (current start : Nat) :
    (∃ p num, physicalNextFreeRange s current start = .ok (p <<< pgBits, num <<< pgBits) ∧
      NextRun s (current >>> pgBits) p num) ∨
    ((∀ q, current >>> pgBits ≤ q → ¬ s.Free q) ∧
      ∃ start', physicalNextFreeRange s current start = .ok (start', 0) ∧
        (start' = start ∧ s.entryEnd ≤ (current >>> pgBits) / 64 ∨
          (64 * s.entryEnd) <<< pgBits ≤ start')) :=
  physicalNextFreeRange_left hlimit (Nat.le_of_lt hend) current start (Or.inl hend)

/-! ## Any table -/

/-- The `num` pages from `p` on are the first run of free pages at or after `page`. It is maximal if
it ends below the limit. -/
structure FirstRun (s : Physical) (page p num : Nat) : Prop where
  le : page ≤ p
  skipped : ∀ q, page ≤ q → q < p → ¬ s.Free q
  free : ∀ q, p ≤ q → q < p + num → s.Free q
  stop : p + num < s.mmLimit → ¬ s.Free (p + num)
  pos : 0 < num

theorem NextRun.firstRun {s : Physical} {page p num : Nat} (h : NextRun s page p num) :
    FirstRun s page p num :=
  ⟨h.le, h.skipped, h.free, fun _ => h.stop, h.pos⟩

theorem FirstRun.firstFree {s : Physical} {page p num : Nat} (h : FirstRun s page p num) :
    FirstFree s page p :=
  ⟨h.le, h.free p (Nat.le_refl p) (Nat.lt_add_of_pos_right h.pos), h.skipped⟩

/-- If all free pages lie below the limit, the run is maximal. -/
theorem FirstRun.not_free {s : Physical} {page p num : Nat} (h : FirstRun s page p num)
    (hlimit : ∀ p, s.Free p → p < s.mmLimit) : ¬ s.Free (p + num) :=
  fun hfree => h.stop (hlimit _ hfree) hfree

/-- There is one first free page at most. -/
theorem FirstFree.eq {s : Physical} {page p q : Nat} (h : FirstFree s page p)
    (h' : FirstFree s page q) : p = q := by
  rcases Nat.lt_trichotomy p q with hlt | heq | hlt
  · exact absurd h.2.1 (h'.2.2 p h.1 hlt)
  · exact heq
  · exact absurd h'.2.1 (h.2.2 q h'.1 hlt)

/-- The run that ends at `entry_end`. -/
theorem Seen.firstRun {s : Physical} {page bit count : Nat} (h : Seen s page bit count)
    (hpos : 0 < count) (hstop : bit < s.mmLimit → ¬ s.Free bit) :
    FirstRun s page (bit - count) count := by
  have hle := h.le
  refine ⟨by omega, fun q hq hq' => h.skipped q hq (by omega),
    fun q hq hq' => h.free q (by omega) (by omega), ?_, hpos⟩
  rwa [Nat.sub_add_cancel (by omega)]

theorem nextFreeScan_run {s : Physical} {page stop : Nat} :
    ∀ {fuel bit count : Nat} {r : Nat × Nat ⊕ Nat}, nextFreeScan s fuel bit stop count = .ok r →
      bit ≤ stop → Seen s page bit count →
        (∃ p num, r = .inl (p <<< pgBits, num <<< pgBits) ∧ NextRun s page p num) ∨
        ∃ count', r = .inr count' ∧ Seen s page stop count' := by
  intro fuel
  induction fuel with
  | zero => exact nofun
  | succ fuel ih =>
    intro bit count r h hle hseen
    rw [nextFreeScan] at h
    by_cases hlt : bit < stop
    · rw [if_pos hlt] at h
      obtain ⟨b, hb, h⟩ := Exec.bind_eq_ok.mp h
      rw [bitmap64CheckBit_eq, bitmap64Get_eq_ok] at hb
      obtain ⟨_, rfl⟩ := hb
      split_ifs at h with htest hpos
      · exact ih h hlt (hseen.free_one htest)
      · cases h
        exact Or.inl ⟨_, _, rfl, hseen.nextRun hpos htest⟩
      · obtain rfl : count = 0 := by omega
        refine ih h hlt (hseen.skip (by omega) fun q hq hq' => ?_)
        obtain rfl : q = bit := by omega
        exact htest
    · rw [if_neg hlt] at h
      cases h
      obtain rfl : bit = stop := by omega
      exact Or.inr ⟨count, rfl, hseen⟩

theorem nextFreeSkip_run {s : Physical} {page : Nat} : ∀ {fuel i i' : Nat},
    nextFreeSkip s fuel i = .ok i' → i ≤ s.entryEnd → Seen s page (64 * i) 0 →
      i' ≤ s.entryEnd ∧ Seen s page (64 * i') 0 ∧ (i' < s.entryEnd → ∃ q, s.Free q ∧ q / 64 = i') := by
  intro fuel
  induction fuel with
  | zero => exact nofun
  | succ fuel ih =>
    intro i i' h hle hseen
    rw [nextFreeSkip] at h
    split_ifs at h with hlt
    · obtain ⟨w, hload, h⟩ := Exec.bind_eq_ok.mp h
      split_ifs at h with hne
      · cases h
        refine ⟨hle, hseen, fun _ => ?_⟩
        obtain ⟨k, hk, hset, _⟩ := exists_lowest hne
        refine ⟨64 * i + k, (free_iff_word hload (by omega)).mpr ?_, by omega⟩
        rwa [show (64 * i + k) % 64 = k by omega]
      · rw [not_not.mp hne] at hload
        exact ih h hlt (hseen.skip (by omega) fun q hq hq' => not_free_of_zero hload (by omega))
    · cases h
      exact ⟨hle, hseen, fun hlt' => absurd hlt' hlt⟩

theorem nextFreeWords_run {s : Physical} {page : Nat} : ∀ {fuel i count : Nat} {r : Nat × Nat},
    nextFreeWords s fuel i count = .ok r → Seen s page (64 * i) count → 0 < count →
      ∃ p num, r = (p <<< pgBits, num <<< pgBits) ∧ FirstRun s page p num := by
  intro fuel
  induction fuel with
  | zero => exact nofun
  | succ fuel ih =>
    intro i count r h hseen hpos
    rw [nextFreeWords] at h
    split_ifs at h with hlt
    · obtain ⟨w, hload, h⟩ := Exec.bind_eq_ok.mp h
      split_ifs at h with hfull
      · refine ih h (hseen.extend (k := 64) fun q hq hq' => ?_) (by omega)
        rw [free_iff_word hload (by omega), hfull]
        exact full_getLsbD q
      · cases h
        obtain ⟨k, hcount, hseen', hstop⟩ := hseen.wordEnd hload hfull
        rw [hcount, shiftLeft_six]
        refine ⟨64 * i - count, count + k, rfl, ?_⟩
        have := (hseen'.nextRun (by omega) hstop).firstRun
        rwa [show 64 * i + k - (count + k) = 64 * i - count by omega] at this
    · cases h
      rw [shiftLeft_six]
      have hend := s.entryEnd_eq
      exact ⟨64 * i - count, count, rfl, hseen.firstRun hpos fun hlt' => absurd hlt' (by omega)⟩

/-- What the function returns on any table: the next run of free pages, or size 0 if there is no
free page left below the limit. -/
theorem physicalNextFreeRange_run {s : Physical} {current start : Nat} {r : Nat × Nat}
    (h : physicalNextFreeRange s current start = .ok r) :
    (∃ p num, r = (p <<< pgBits, num <<< pgBits) ∧ FirstRun s (current >>> pgBits) p num) ∨
    (r.2 = 0 ∧ ∀ q, current >>> pgBits ≤ q → q < s.mmLimit → ¬ s.Free q) := by
  have hend := s.entryEnd_eq
  unfold physicalNextFreeRange at h
  generalize current >>> pgBits = page at h ⊢
  simp only [shiftRight_six, shiftLeft_six] at h
  by_cases hout : page / 64 ≥ s.entryEnd
  · rw [if_pos hout] at h
    cases h
    exact Or.inr ⟨rfl, fun q hq hlt => absurd hq (by omega)⟩
  · rw [if_neg hout] at h
    obtain ⟨first, hfirst, h⟩ := Exec.bind_eq_ok.mp h
    rcases nextFreeScan_run hfirst (by omega) (.start s page) with
      ⟨p, num, rfl, hrun⟩ | ⟨count, rfl, hseen⟩
    · cases h
      exact Or.inl ⟨p, num, rfl, hrun.firstRun⟩
    · have hword : (page + 64 - 1) / 64 * 64 / 64 = (page + 64 - 1) / 64 := by omega
      have hle : (page + 64 - 1) / 64 ≤ s.entryEnd := by omega
      dsimp only at h
      rw [hword] at h
      rw [Nat.mul_comm] at hseen
      generalize (page + 64 - 1) / 64 = i at h hseen hle
      by_cases hzero : count = 0
      · subst hzero
        rw [if_pos rfl] at h
        obtain ⟨i', hskip, h⟩ := Exec.bind_eq_ok.mp h
        obtain ⟨hle', hseen', hsome⟩ := nextFreeSkip_run hskip hle hseen
        obtain ⟨second, hsecond, h⟩ := Exec.bind_eq_ok.mp h
        rcases nextFreeScan_run hsecond (by omega) hseen' with
          ⟨p, num, rfl, hrun⟩ | ⟨count, rfl, hseen''⟩
        · cases h
          exact Or.inl ⟨p, num, rfl, hrun.firstRun⟩
        · dsimp only at h
          rcases Nat.eq_zero_or_pos count with rfl | hpos
          · -- the word has no free page, so the scan had reached `entry_end`
            have hlast : i' = s.entryEnd := by
              by_contra hne
              obtain ⟨q, hfree, hq⟩ := hsome (by omega)
              have := hseen''.le
              have := hseen'.le
              exact hseen''.skipped q (by omega) (by omega) hfree
            obtain ⟨fuel, hfuel⟩ : ∃ fuel, scanFuel = fuel + 1 := ⟨64 * mmTableMax, rfl⟩
            rw [hfuel, nextFreeWords, if_neg (by omega), Exec.pure_eq, Except.ok.injEq] at h
            exact Or.inr ⟨h ▸ rfl, fun q hq hlt => hseen''.skipped q hq (by omega)⟩
          · exact Or.inl (nextFreeWords_run h hseen'' hpos)
      · rw [if_neg hzero] at h
        exact Or.inl (nextFreeWords_run h hseen (by omega))

end Rtv.Mm
