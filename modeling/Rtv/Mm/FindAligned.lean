import Rtv.Mm.FindRun

/-!
# Which aligned run of frames the scan finds

`alloc_phys_frames_aligned` walks over `mm_table` in steps of the alignment. It is bounded by
`mm_limit`, so that it neither leaves the table nor looks past the free pages.

From 64 pages on an alignment moves from word to word, and the scan passes no run that starts at a
multiple of it. Below that the scan has the defect of `alloc_phys_frames`: after a run that ends
with a word, a word of zeros keeps the position where it is inside the word, and the first page of
the next word that is not zero is passed unseen: that page is `SkippedBy` the alignment.

`allocPhysFramesAligned_outcome` says what is found in terms of these two.
-/

namespace Rtv.Mm

open Rtv.Lib Rtv.Utils

/-! ## Runs -/

/-- The `num` pages from `p` on are free, at or above 1MB, and `p` starts at a multiple of `align`
bytes. -/
def AlignedRun (s : Physical) (num align p : Nat) : Prop :=
  256 ≤ p ∧ align ∣ p * pgSize ∧ FreeRun s num p

/-- The scan in steps of `align` bytes, less than 64 pages, passes page `p` unseen: it is the first of
its word, and the last free page before it ends an earlier word, with as many free pages as the
alignment has. -/
def SkippedBy (s : Physical) (align p : Nat) : Prop :=
  align < 64 * pgSize ∧ p % 64 = 0 ∧
    ∃ q, q + 1 < p ∧ q % 64 = 63 ∧ LastFree s q p ∧ ∀ j, j * pgSize < align → s.Free (q - j)

/-- A run that the scan does not pass unseen. -/
def SeenRun (s : Physical) (num align p : Nat) : Prop :=
  AlignedRun s num align p ∧ ¬SkippedBy s align p

/-- The least page with a property. -/
def Lowest (P : Nat → Prop) (p : Nat) : Prop := P p ∧ ∀ q < p, ¬P q

/-- An allocation of `num` pages takes the lowest run with a property, and returns 0 with nothing
changed when there is none. -/
def FindsFirst (P : Nat → Prop) (s : Physical) (num : Nat) (r : Nat × Physical) : Prop :=
  (∃ p, Lowest P p ∧ r.1 = p <<< pgBits ∧ Marked s r.2 p num false) ∨ ((∀ p, ¬P p) ∧ r = (0, s))

/-! ## The inner loops -/

section Loops

variable {s : Physical} {num posInc : Nat}

/-- Page `a` is the first position from `pos` on, in steps of `posInc` pages, that is free or not
below the limit. -/
structure FirstStep (s : Physical) (posInc pos a : Nat) : Prop where
  le : pos ≤ a
  dvd : posInc ∣ a
  taken : ∀ p, pos ≤ p → p < a → posInc ∣ p → ¬s.Free p
  stop : s.Free a ∨ s.mmLimit ≤ a

/-- A multiple below the next one of a multiple is that multiple. -/
theorem eq_of_dvd_of_lt {pos p : Nat} (hpos : posInc ∣ pos) (hp : posInc ∣ p) (hle : pos ≤ p)
    (hlt : p < pos + posInc) : p = pos := by
  have hsub : posInc ∣ p - pos := Nat.dvd_sub hp hpos
  have hzero := Nat.eq_zero_of_dvd_of_lt hsub (by omega)
  omega

/-- The skipping loop stops at the first such position, or leaves the table where no position
is free. -/
theorem skipTakenAligned_first (hinc : 0 < posInc) : ∀ (fuel pos : Nat), 0 < fuel →
    64 * mmTableMax < fuel + pos → posInc ∣ pos →
      (∃ a, skipTakenAligned s posInc fuel pos = .ok a ∧ FirstStep s posInc pos a) ∨
        (skipTakenAligned s posInc fuel pos = .error .fault ∧ 64 * mmTableMax < s.mmLimit ∧
          ∀ p, pos ≤ p → posInc ∣ p → ¬s.Free p)
  | 0, pos, hpos, _, _ => absurd hpos (Nat.lt_irrefl 0)
  | fuel + 1, pos, _, hfuel, hdvd => by
    rw [skipTakenAligned]
    by_cases hlimit : pos < s.mmLimit
    case neg =>
      rw [if_neg hlimit]
      exact .inl ⟨pos, rfl, Nat.le_refl pos, hdvd, fun p _ _ => by omega, .inr (by omega)⟩
    rw [if_pos hlimit, bitmap64Get_eq]
    by_cases hin : pos / 64 < mmTableMax
    case neg =>
      rw [if_neg hin]
      refine .inr ⟨rfl, by omega, fun p hp _ hfree => ?_⟩
      have := hfree.lt
      omega
    rw [if_pos hin, Exec.ok_bind]
    cases hb : s.mmTable.test pos with
    | true => exact .inl ⟨pos, rfl, Nat.le_refl pos, hdvd, fun p _ _ => by omega, .inl hb⟩
    | false =>
      have htaken : ¬s.Free pos := by
        rw [Physical.Free, hb]
        exact Bool.false_ne_true
      have hnext : posInc ∣ pos + posInc := Nat.dvd_add hdvd (Nat.dvd_refl posInc)
      have hfirst : ∀ p, pos ≤ p → p < pos + posInc → posInc ∣ p → ¬s.Free p := by
        intro p hlo hhi hp
        rw [eq_of_dvd_of_lt hdvd hp hlo hhi]
        exact htaken
      rcases skipTakenAligned_first hinc fuel (pos + posInc) (by omega) (by omega)
        hnext with ⟨a, ha, hstep⟩ | ⟨hfault, hover, hnone⟩
      · refine .inl ⟨a, ha, by have := hstep.le; omega, hstep.dvd, fun p hlo hhi hp => ?_, hstep.stop⟩
        by_cases hlt : p < pos + posInc
        · exact hfirst p hlo hlt hp
        · exact hstep.taken p (by omega) hhi hp
      · refine .inr ⟨hfault, hover, fun p hlo hp => ?_⟩
        by_cases hlt : p < pos + posInc
        · exact hfirst p hlo hlt hp
        · exact hnone p (by omega) hp

/-- The counting loop stops after `num` pages, at a page that is taken or not below the limit, or it
leaves the table where all pages up to its end are free. -/
theorem countFreeLimited_stop : ∀ (fuel cur count : Nat), 0 < fuel →
    64 * mmTableMax < fuel + cur → cur ≤ 64 * mmTableMax ∨ s.mmLimit ≤ cur → count ≤ num →
      (∃ cur', countFreeLimited s num fuel cur count = .ok (cur', count + (cur' - cur)) ∧
        cur ≤ cur' ∧ count + (cur' - cur) ≤ num ∧ (∀ p, cur ≤ p → p < cur' → s.Free p) ∧
        (count + (cur' - cur) ≠ num → cur' < s.mmLimit → ¬s.Free cur')) ∨
      (countFreeLimited s num fuel cur count = .error .fault ∧ 64 * mmTableMax < s.mmLimit ∧
        count + (64 * mmTableMax - cur) < num)
  | 0, cur, count, hpos, _, _, _ => absurd hpos (Nat.lt_irrefl 0)
  | fuel + 1, cur, count, _, hfuel, hcur, hle => by
    rw [countFreeLimited]
    by_cases hmore : count < num ∧ cur < s.mmLimit
    case neg =>
      rw [if_neg hmore]
      refine .inl ⟨cur, by rw [Nat.sub_self]; rfl, Nat.le_refl cur, by omega, fun p _ _ => by omega, ?_⟩
      omega
    rw [if_pos hmore, bitmap64Get_eq]
    by_cases hin : cur / 64 < mmTableMax
    case neg =>
      rw [if_neg hin]
      exact .inr ⟨rfl, by omega, by omega⟩
    rw [if_pos hin, Exec.ok_bind]
    cases hb : s.mmTable.test cur with
    | false =>
      refine .inl ⟨cur, by rw [Nat.sub_self]; rfl, Nat.le_refl cur, by omega, fun p _ _ => by omega, ?_⟩
      intro _ _
      rw [Physical.Free, hb]
      exact Bool.false_ne_true
    | true =>
      rcases countFreeLimited_stop fuel (cur + 1) (count + 1) (by omega)
        (by omega) (by omega) (by omega) with ⟨cur', h, hlo, hbound, hall, hstop⟩ | ⟨h, hover, hshort⟩
      · have hsum : count + 1 + (cur' - (cur + 1)) = count + (cur' - cur) := by omega
        rw [hsum] at h hbound hstop
        refine .inl ⟨cur', h, by omega, hbound, fun p hp hp' => ?_, hstop⟩
        by_cases heq : p = cur
        · rw [heq]
          exact hb
        · exact hall p (by omega) hp'
      · exact .inr ⟨h, hover, by omega⟩

end Loops

/-! ## The head of the loop -/

/-- Page `q` is the last of its word, and `posInc` pages up to it are free. -/
def EndsWord (s : Physical) (posInc q : Nat) : Prop :=
  q % 64 = 63 ∧ ∀ j < posInc, s.Free (q - j)

/-- `SkippedBy` in pages. -/
def StepSkipped (s : Physical) (posInc p : Nat) : Prop :=
  p % 64 = 0 ∧ ∃ q, q + 1 < p ∧ EndsWord s posInc q ∧ LastFree s q p

/-- Where the bit position can be when the loop tests word `pos / 64`. -/
inductive StepHead (s : Physical) (posInc pos : Nat) : Prop
  /-- At the first page of a word; the last free page before it is not the end of a run up to the end
  of its word. -/
  | word : pos % 64 = 0 → (posInc < 64 → ∀ q, LastFree s q pos → ¬EndsWord s posInc q) →
      StepHead s posInc pos
  /-- One step into a word, after a run that ended with an earlier word. -/
  | drift (q : Nat) : posInc < 64 → pos % 64 = posInc → EndsWord s posInc q →
      LastFree s q (pos - posInc) → StepHead s posInc pos
  /-- Inside a word, after a free page of the word. -/
  | within (f : Nat) : posInc < 64 → pos % 64 ≠ 0 → f < pos → f / 64 = pos / 64 → 256 ≤ f →
      s.Free f → StepHead s posInc pos

namespace StepHead

variable {s : Physical} {posInc pos a cur : Nat}

/-- The offset of a position in its word is a multiple of the step. -/
theorem dvd_offset (h64 : posInc ∣ 64) (hpos : posInc ∣ pos) : posInc ∣ pos % 64 :=
  (Nat.dvd_mod_iff h64).mpr hpos

/-- Past a word of zeros, in steps of less than a word: the only free page at a position on the way
is a skipped one. -/
theorem zero (h : StepHead s posInc pos) (h64 : posInc ∣ 64) (hsmall : posInc < 64)
    (hzero : ∀ p, p / 64 = pos / 64 → ¬s.Free p) :
    StepHead s posInc (pos + 64) ∧
      ∀ p, pos ≤ p → p < pos + 64 → posInc ∣ p → s.Free p → StepSkipped s posInc p := by
  cases h with
  | word hmod hlast =>
    have hnone : ∀ p, pos ≤ p → p < pos + 64 → ¬s.Free p := fun p hlo hhi => hzero p (by omega)
    refine ⟨.word (by omega) fun _ q hq => ?_, fun p hlo hhi _ hfree => absurd hfree (hnone p hlo hhi)⟩
    apply hlast hsmall
    by_cases hlt : q < pos
    · exact hq.shrink hlt (by omega)
    · exact absurd hq.2.2.1 (hnone q (by omega) hq.2.1)
  | drift q _ hmod hq hlast =>
    have hlast' : LastFree s q (pos + 64 - posInc) :=
      hlast.extend (by omega) fun p hlo hhi => hzero p (by omega)
    refine ⟨.drift q hsmall (by omega) hq hlast', fun p hlo hhi hdvd hfree => ?_⟩
    have hnext : p / 64 ≠ pos / 64 := fun heq => hzero p heq hfree
    have hmod' := Nat.eq_zero_of_dvd_of_lt (dvd_offset h64 hdvd) (by omega)
    have heq : p = pos + 64 - posInc := by omega
    have hlt := hlast.2.1
    rw [heq]
    exact ⟨by omega, q, by omega, hq, hlast'⟩
  | within f _ _ _ hword _ hfree => exact absurd hfree (hzero f hword)

/-- After a run that is too short, in steps of less than a word. -/
theorem short {pos' : Nat} (hinc : 0 < posInc) (h64 : posInc ∣ 64) (hsmall : posInc < 64)
    (ha : posInc ∣ a) (hlow : 256 ≤ a) (hcur : a < cur) (hall : ∀ p, a ≤ p → p < cur → s.Free p)
    (htaken : ¬s.Free cur) (hpos' : posInc ∣ pos') (hlo : cur < pos') (hhi : pos' ≤ cur + posInc) :
    StepHead s posInc pos' := by
  have hprev := hall (cur - 1) (by omega) (by omega)
  by_cases hmod : pos' % 64 = 0
  · refine .word hmod fun _ q hq hends => ?_
    obtain ⟨-, hlt, -, hnone⟩ := hq
    have hge : cur - 1 ≤ q := by
      by_contra hlt'
      exact hnone (cur - 1) (by omega) (by omega) hprev
    by_cases heq : q = cur - 1
    · -- then `pos'` is one step past the end of the word
      have hword : posInc ∣ cur := by
        obtain ⟨hq63, -⟩ := hends
        exact Nat.dvd_trans h64 ⟨cur / 64, by omega⟩
      have hstep := eq_of_dvd_of_lt (Nat.dvd_add hword (Nat.dvd_refl posInc)) hpos'
        (by
          by_contra hlt'
          have := eq_of_dvd_of_lt hword hpos' (by omega) (by omega)
          omega)
        (by omega)
      have := hends.1
      omega
    · -- then the run up to `q` contains the page where the count stopped
      apply htaken
      have := hends.2 (q - cur) (by omega)
      rwa [Nat.sub_sub_self (by omega)] at this
  · have hoff : posInc ≤ pos' % 64 := Nat.le_of_dvd (by omega) (dvd_offset h64 hpos')
    by_cases hfirst : cur % 64 = 0
    · have hword : posInc ∣ cur := Nat.dvd_trans h64 ⟨cur / 64, by omega⟩
      have hstep : pos' = cur + posInc := by
        by_contra hne
        have := eq_of_dvd_of_lt hword hpos' (by omega) (by omega)
        omega
      have hlen : posInc ≤ cur - a := Nat.le_of_dvd (by omega) (Nat.dvd_sub hword ha)
      refine .drift (cur - 1) hsmall (by omega) ⟨by omega, fun j hj => ?_⟩ ?_
      · exact hall (cur - 1 - j) (by omega) (by omega)
      · rw [hstep, Nat.add_sub_cancel]
        exact ⟨by omega, by omega, hprev, fun p hlo hhi => by omega⟩
    · exact .within (cur - 1) hsmall hmod (by omega) (by omega) (by omega) hprev

/-- From a word that is not zero, the next free position is not a skipped one. -/
theorem found (h : StepHead s posInc pos) (hinc : 0 < posInc) (h64 : posInc ∣ 64)
    (hsmall : posInc < 64) (hword : ∃ p, p / 64 = pos / 64 ∧ s.Free p) (hpos : posInc ∣ pos)
    (hle : pos ≤ a) (hfirst : ∀ p, pos ≤ p → p < a → posInc ∣ p → ¬s.Free p) :
    ¬StepSkipped s posInc a := by
  rintro ⟨hmod, q, hqa, hends, hlast⟩
  obtain ⟨f, hf, hfree⟩ := hword
  obtain ⟨hq63, hrun⟩ := id hends
  have hqpos : q < pos := by
    by_contra hge
    -- the run up to `q` begins at a position
    have hdvd : posInc ∣ q + 1 := Nat.dvd_trans h64 ⟨q / 64 + 1, by omega⟩
    have hlen : posInc ≤ q + 1 - pos := Nat.le_of_dvd (by omega) (Nat.dvd_sub hdvd hpos)
    refine hfirst (q + 1 - posInc) (by omega) (by omega) (Nat.dvd_sub hdvd (Nat.dvd_refl posInc)) ?_
    have := hrun (posInc - 1) (by omega)
    rwa [show q - (posInc - 1) = q + 1 - posInc by omega] at this
  have hbefore : ∀ p, q < p → p < a → ¬s.Free p := hlast.2.2.2
  cases h with
  | word hmod' hall =>
    have hlt : a ≤ f := by
      by_contra hlt
      exact hbefore f (by omega) (by omega) hfree
    have heq : a = pos := by omega
    subst heq
    exact hall hsmall q hlast hends
  | drift q' _ hmod' _ hlast' =>
    by_cases hqf : f ≤ q
    · omega
    · exact hbefore f (by omega) (by omega) hfree
  | within f' _ hmod' hlt hword' hlow' hfree' =>
    have hge : f' ≤ q := by
      by_contra hlt'
      exact hbefore f' (by omega) (by omega) hfree'
    omega

end StepHead

/-! ## The scan -/

/-- What holds at the head of the loop: the position is one of the steps, and every run at a step
that is passed is a skipped one. -/
structure StepScanned (s : Physical) (num posInc pos : Nat) : Prop where
  low : 256 ≤ pos
  dvd : posInc ∣ pos
  head : StepHead s posInc pos
  runs : ∀ p, 256 ≤ p → p < pos → posInc ∣ p → FreeRun s num p → posInc < 64 ∧ StepSkipped s posInc p

/-- What a round of the loop at bit position `pos` comes to: the rest of the loop at another
position, or a result. -/
inductive StepRound (s : Physical) (num posInc iInc fuel pos : Nat) : Exec (Nat × Physical) → Prop
  /-- No run begins at a step from `pos` on: past `entry_end`, or out of memory. -/
  | none : (∀ p, pos ≤ p → posInc ∣ p → ¬FreeRun s num p) →
      StepRound s num posInc iInc fuel pos (.ok (0, s))
  /-- The same, seen by leaving a table that ends below the limit. -/
  | fault : (∀ p, pos ≤ p → posInc ∣ p → ¬FreeRun s num p) → 64 * mmTableMax < s.mmLimit →
      StepRound s num posInc iInc fuel pos (.error .fault)
  /-- A word of zeros, in steps of whole words. -/
  | zeroStep : 0 < iInc → pos / 64 < mmTableMax → (∀ p, p / 64 = pos / 64 → ¬s.Free p) →
      StepRound s num posInc iInc fuel pos
        (allocFramesAlignedScan s num posInc iInc fuel ((pos + posInc) / 64) (pos + posInc))
  /-- A word of zeros, in smaller steps. -/
  | zeroWord : iInc = 0 → pos / 64 < mmTableMax → (∀ p, p / 64 = pos / 64 → ¬s.Free p) →
      StepRound s num posInc iInc fuel pos
        (allocFramesAlignedScan s num posInc iInc fuel ((pos + 64) / 64) (pos + 64))
  /-- A run of `num` free pages. -/
  | take (a : Nat) (s' : Physical) : (∃ p, p / 64 = pos / 64 ∧ s.Free p) → FirstStep s posInc pos a →
      FreeRun s num a → Marked s s' a num false →
      StepRound s num posInc iInc fuel pos (.ok (a <<< pgBits, s'))
  /-- A run that is too short. -/
  | short (a cur pos' : Nat) : pos / 64 < mmTableMax → FirstStep s posInc pos a → a < cur →
      (∀ p, a ≤ p → p < cur → s.Free p) → cur < a + num → ¬s.Free cur → posInc ∣ pos' → cur < pos' →
      pos' ≤ cur + posInc →
      StepRound s num posInc iInc fuel pos
        (allocFramesAlignedScan s num posInc iInc fuel (pos' / 64) pos')

section Scan

variable {s : Physical} {num posInc iInc : Nat}

/-- Rounding up goes at most one step further. -/
theorem roundUp_le (hinc : 0 < posInc) (cur : Nat) :
    (if (cur + 1) % posInc ≠ 0 then cur + 1 + posInc - (cur + 1) % posInc else cur + 1) ≤
      cur + posInc := by
  split <;> omega

/-- The rounds of the loop. -/
theorem allocFramesAlignedScan_round (hnum : 1 ≤ num) (hinc : 0 < posInc)
    (hword : 0 < iInc → posInc = 64 * iInc) (hfree : ∀ p, s.Free p → p < s.mmLimit) (fuel : Nat)
    {pos : Nat} (hpos : posInc ∣ pos) : StepRound s num posInc iInc fuel pos
      (allocFramesAlignedScan s num posInc iInc (fuel + 1) (pos / 64) pos) := by
  have hend := s.entryEnd_eq
  rw [allocFramesAlignedScan]
  by_cases hin : pos / 64 < s.entryEnd
  case neg =>
    rw [if_neg hin]
    refine .none fun p hp _ hrun => ?_
    have := hfree p (hrun.free hnum)
    omega
  rw [if_pos hin]
  by_cases hout : pos / 64 < mmTableMax
  case neg =>
    rw [Bitmap.load, dif_neg hout]
    refine .fault (fun p hp _ hrun => ?_) (by omega)
    have := (hrun.free hnum).lt
    omega
  have hload := s.mmTable.load_of_lt hout
  rw [hload, Exec.ok_bind]
  generalize s.mmTable.word ⟨pos / 64, hout⟩ = w at hload ⊢
  by_cases hw : w = 0#64
  · subst hw
    rw [if_neg (fun hne => hne rfl)]
    have hzero : ∀ p, p / 64 = pos / 64 → ¬s.Free p := fun p => not_free_of_zero hload
    by_cases hi : 0 < iInc
    · rw [if_pos hi, show pos / 64 + iInc = (pos + posInc) / 64 by have := hword hi; omega]
      exact .zeroStep hi hout hzero
    · rw [if_neg hi, show pos / 64 + 1 = (pos + 64) / 64 by omega]
      exact .zeroWord (by omega) hout hzero
  · rw [if_pos hw]
    have hsome := exists_free_of_ne_zero hload hw
    rcases @skipTakenAligned_first s posInc hinc scanFuel pos (by decide)
      (by unfold scanFuel; omega) hpos with ⟨a, ha, hstep⟩ | ⟨hfault, hover, hnone⟩
    case inr =>
      rw [hfault, Exec.error_bind]
      exact .fault (fun p hp hdvd hrun => hnone p hp hdvd (hrun.free hnum)) hover
    rw [ha, Exec.ok_bind]
    have hinside : a ≤ 64 * mmTableMax ∨ s.mmLimit ≤ a := by
      rcases hstep.stop with hfa | hlimit
      · have := hfa.lt
        omega
      · exact .inr hlimit
    -- a run at a step from `pos` on begins at or after `a`
    have hafter : ∀ p, pos ≤ p → posInc ∣ p → FreeRun s num p → a ≤ p := by
      intro p hp hdvd hrun
      by_contra hlt
      exact hstep.taken p hp (by omega) hdvd (hrun.free hnum)
    rcases @countFreeLimited_stop s num scanFuel a 0
      (by decide) (by unfold scanFuel; omega) hinside (Nat.zero_le num) with
      ⟨cur, hcount, hle, hbound, hall, hstop⟩ | ⟨hfault, hover, hshort⟩
    case inr =>
      rw [hfault, Exec.error_bind]
      refine .fault (fun p hp hdvd hrun => ?_) hover
      have := hafter p hp hdvd hrun
      have := (hrun (num - 1) (by omega)).lt
      omega
    rw [hcount, Exec.ok_bind, Nat.zero_add]
    rw [Nat.zero_add] at hbound hstop
    simp only
    by_cases heq : cur - a = num
    · rw [if_pos heq]
      have hrun : FreeRun s num a := fun k hk => hall (a + k) (by omega) (by omega)
      have hlast := (hrun (num - 1) (by omega)).lt
      obtain ⟨s', t, ht, rfl, hm⟩ := clearRange_ok s a num (by omega)
      rw [ht, Exec.ok_bind]
      exact .take a _ hsome hstep hrun hm
    · rw [if_neg heq]
      by_cases hlimit : cur ≥ s.mmLimit
      · rw [if_pos hlimit]
        refine .none fun p hp hdvd hrun => ?_
        have := hafter p hp hdvd hrun
        have := hfree _ (hrun (num - 1) (by omega))
        omega
      · rw [if_neg hlimit, if_neg (Nat.ne_of_gt hinc), shiftRight_six]
        have htaken := hstop heq (by omega)
        have hne : a ≠ cur := by
          rintro rfl
          rcases hstep.stop with hfa | hlim
          · exact htaken hfa
          · omega
        obtain ⟨hup, hdvd⟩ := roundUp_spec hinc (cur + 1)
        exact .short a cur _ hout hstep (by omega) hall (by omega) htaken hdvd (by omega)
          (roundUp_le hinc cur)

/-- Past a word of zeros, in steps of whole words. -/
theorem StepScanned.zeroStep {pos : Nat} (hs : StepScanned s num posInc pos) (hnum : 1 ≤ num)
    (hi : 0 < iInc) (hstep : posInc = 64 * iInc) (hzero : ∀ p, p / 64 = pos / 64 → ¬s.Free p) :
    StepScanned s num posInc (pos + posInc) := by
  have hlow := hs.low
  have hmod : (pos + posInc) % 64 = 0 := by
    obtain ⟨k, hk⟩ := hs.dvd
    rw [hk, hstep, Nat.mul_assoc, ← Nat.mul_add, Nat.mul_mod_right]
  refine ⟨by omega, Nat.dvd_add hs.dvd (Nat.dvd_refl posInc), .word hmod (by omega), ?_⟩
  intro p hlo hhi hdvd hrun
  by_cases hlt : p < pos
  · exact hs.runs p hlo hlt hdvd hrun
  · have heq := eq_of_dvd_of_lt hs.dvd hdvd (by omega) hhi
    exact absurd (hrun.free hnum) (hzero p (by rw [heq]))

/-- Past a word of zeros, in smaller steps. -/
theorem StepScanned.zeroWord {pos : Nat} (hs : StepScanned s num posInc pos) (hnum : 1 ≤ num)
    (hlt64 : posInc < 64) (h64 : posInc ∣ 64) (hzero : ∀ p, p / 64 = pos / 64 → ¬s.Free p) :
    StepScanned s num posInc (pos + 64) := by
  have hlow := hs.low
  obtain ⟨hhead, hskip⟩ := hs.head.zero h64 hlt64 hzero
  refine ⟨by omega, Nat.dvd_add hs.dvd h64, hhead, ?_⟩
  intro p hlo hhi hdvd hrun
  by_cases hlt : p < pos
  · exact hs.runs p hlo hlt hdvd hrun
  · exact ⟨hlt64, hskip p (by omega) hhi hdvd (hrun.free hnum)⟩

/-- Past a run from `a` on that ends in front of `cur` and is too short. -/
theorem StepScanned.short {pos a cur pos' : Nat} (hs : StepScanned s num posInc pos) (hnum : 1 ≤ num)
    (hinc : 0 < posInc) (hword : 0 < iInc → posInc = 64 * iInc)
    (hsmall : iInc = 0 → posInc < 64 ∧ posInc ∣ 64) (hstep : FirstStep s posInc pos a) (hcur : a < cur)
    (hall : ∀ p, a ≤ p → p < cur → s.Free p) (hshort : cur < a + num) (htaken : ¬s.Free cur)
    (hdvd : posInc ∣ pos') (hlo : cur < pos') (hhi : pos' ≤ cur + posInc) :
    StepScanned s num posInc pos' := by
  have hle := hstep.le
  have hlow := hs.low
  refine ⟨by omega, hdvd, ?_, ?_⟩
  · rcases Nat.eq_zero_or_pos iInc with hi | hi
    · obtain ⟨hlt64, h64⟩ := hsmall hi
      exact .short hinc h64 hlt64 hstep.dvd (by omega) hcur hall htaken hdvd hlo hhi
    · have hpos' : 64 ∣ pos' := Nat.dvd_trans ⟨iInc, hword hi⟩ hdvd
      exact .word (Nat.mod_eq_zero_of_dvd hpos') (by have := hword hi; omega)
  · intro p hplo hphi hpdvd hrun
    by_cases hpos : p < pos
    · exact hs.runs p hplo hpos hpdvd hrun
    · exfalso
      by_cases hpa : p < a
      · exact hstep.taken p (by omega) hpa hpdvd (hrun.free hnum)
      · by_cases hpc : p ≤ cur
        · -- the run would contain the page where the count stopped
          apply htaken
          have := hrun (cur - p) (by omega)
          rwa [Nat.add_sub_cancel' hpc] at this
        · -- no step lies between that page and `pos'`
          have := Nat.le_of_dvd (by omega) (Nat.dvd_sub hdvd hpdvd)
          omega

/-- **What the scan finds**: the lowest run at a step that is not skipped; 0 when there is none. On a
table that ends below the limit it can leave the table when there is none. -/
theorem allocFramesAlignedScan_outcome (hnum : 1 ≤ num) (hinc : 0 < posInc)
    (hword : 0 < iInc → posInc = 64 * iInc) (hsmall : iInc = 0 → posInc < 64 ∧ posInc ∣ 64)
    (hfree : ∀ p, s.Free p → p < s.mmLimit) {P : Nat → Prop}
    (hP : ∀ p, P p ↔ (256 ≤ p ∧ posInc ∣ p ∧ FreeRun s num p) ∧ ¬(posInc < 64 ∧ StepSkipped s posInc p)) :
    ∀ {fuel pos : Nat}, 0 < fuel → 64 * mmTableMax < fuel + pos → StepScanned s num posInc pos →
      (∃ r, allocFramesAlignedScan s num posInc iInc fuel (pos / 64) pos = .ok r ∧ FindsFirst P s num r) ∨
        (allocFramesAlignedScan s num posInc iInc fuel (pos / 64) pos = .error .fault ∧
          64 * mmTableMax < s.mmLimit ∧ ∀ p, ¬P p)
  | 0, pos, hpos, _, _ => absurd hpos (Nat.lt_irrefl 0)
  | fuel + 1, pos, _, hfuel, hs => by
    have hlow := hs.low
    have hbefore : ∀ p, p < pos → ¬P p := by
      intro p hlt hp
      obtain ⟨⟨hlo, hdvd, hrun⟩, hseen⟩ := (hP p).mp hp
      exact hseen (hs.runs p hlo hlt hdvd hrun)
    have hnone : (∀ p, pos ≤ p → posInc ∣ p → ¬FreeRun s num p) → ∀ p, ¬P p := by
      intro hafter p hp
      by_cases hlt : p < pos
      · exact hbefore p hlt hp
      · obtain ⟨⟨-, hdvd, hrun⟩, -⟩ := (hP p).mp hp
        exact hafter p (by omega) hdvd hrun
    have hround := allocFramesAlignedScan_round hnum hinc hword hfree fuel hs.dvd
    generalize allocFramesAlignedScan s num posInc iInc (fuel + 1) (pos / 64) pos = x at hround ⊢
    cases hround with
    | none hafter => exact .inl ⟨_, rfl, .inr ⟨hnone hafter, rfl⟩⟩
    | fault hafter hover => exact .inr ⟨rfl, hover, hnone hafter⟩
    | zeroStep hi hin hzero =>
      exact allocFramesAlignedScan_outcome hnum hinc hword hsmall hfree hP (by omega) (by omega)
        (hs.zeroStep hnum hi (hword hi) hzero)
    | zeroWord hi hin hzero =>
      obtain ⟨hlt64, h64⟩ := hsmall hi
      exact allocFramesAlignedScan_outcome hnum hinc hword hsmall hfree hP (by omega) (by omega)
        (hs.zeroWord hnum hlt64 h64 hzero)
    | take a s' hsome hstep hrun hmark =>
      have hle := hstep.le
      refine .inl ⟨_, rfl, .inl ⟨a, ⟨(hP a).mpr ⟨⟨by omega, hstep.dvd, hrun⟩, ?_⟩, ?_⟩, rfl, hmark⟩⟩
      · rintro ⟨hlt64, hskip⟩
        obtain ⟨-, h64⟩ := hsmall (by
          by_contra hi
          have := hword (by omega)
          omega)
        exact hs.head.found hinc h64 hlt64 hsome hs.dvd hle hstep.taken hskip
      · intro p hlt hp
        by_cases hpos : p < pos
        · exact hbefore p hpos hp
        · obtain ⟨⟨-, hdvd, hrun'⟩, -⟩ := (hP p).mp hp
          exact hstep.taken p (by omega) hlt hdvd (hrun'.free hnum)
    | short a cur pos' hin hstep hcur hall hshort htaken hdvd hlo hhi =>
      have hle := hstep.le
      exact allocFramesAlignedScan_outcome hnum hinc hword hsmall hfree hP (by omega) (by omega)
        (hs.short hnum hinc hword hsmall hstep hcur hall hshort htaken hdvd hlo hhi)

end Scan

/-! ## The function -/

/-- An alignment of whole pages, in pages. -/
theorem align_eq {n : Nat} (hn : pgBits ≤ n) : 2 ^ n = 2 ^ (n - pgBits) * pgSize := by
  have hpg : pgSize = 2 ^ pgBits := by decide
  rw [hpg, ← Nat.pow_add, Nat.sub_add_cancel hn]

/-- `AlignedRun` in pages. -/
theorem alignedRun_pages {s : Physical} {num posInc p : Nat} :
    AlignedRun s num (posInc * pgSize) p ↔ 256 ≤ p ∧ posInc ∣ p ∧ FreeRun s num p := by
  have hpg : 0 < pgSize := by decide
  rw [AlignedRun, Nat.mul_dvd_mul_iff_right hpg]

/-- `SkippedBy` in pages. -/
theorem skippedBy_pages {s : Physical} {posInc p : Nat} :
    SkippedBy s (posInc * pgSize) p ↔ posInc < 64 ∧ StepSkipped s posInc p := by
  have hpg : 0 < pgSize := by decide
  have hlt : ∀ j k : Nat, j * pgSize < k * pgSize ↔ j < k := fun j k => Nat.mul_lt_mul_right hpg
  simp only [SkippedBy, StepSkipped, EndsWord, hlt]
  constructor
  · rintro ⟨hsmall, hmod, q, hlt, hq, hlast, hall⟩
    exact ⟨hsmall, hmod, q, hlt, ⟨hq, hall⟩, hlast⟩
  · rintro ⟨hsmall, hmod, q, hlt, ⟨hq, hall⟩, hlast⟩
    exact ⟨hsmall, hmod, q, hlt, hq, hlast, hall⟩

/-- Where the scan starts: no run at a step lies between 1MB and the first position. -/
theorem StepScanned.start (s : Physical) (num k : Nat) :
    StepScanned s num (2 ^ k) (64 * if 2 ^ k / 64 ≤ 4 then 4 else 2 ^ k / 64) := by
  have hcases := stride_cases k
  rcases Nat.lt_or_ge k 9 with hk | hk
  · have hdvd : 2 ^ k ∣ 256 := Nat.pow_dvd_pow 2 (n := 8) (by omega)
    have hle : 2 ^ k ≤ 256 := Nat.le_of_dvd (by decide) hdvd
    rw [if_pos (by omega)]
    exact ⟨by decide, hdvd, .word (by decide) fun _ q hq => absurd hq.2.1 (by have := hq.1; omega),
      fun p hlo hhi => by omega⟩
  · have hle : 2 ^ 9 ≤ 2 ^ k := Nat.pow_le_pow_right (by decide) hk
    have heq := hcases.1 (by omega)
    rw [if_neg (by omega), ← heq]
    refine ⟨by omega, Nat.dvd_refl _, .word (by omega) (by omega), fun p hlo hhi hdvd => ?_⟩
    have := Nat.le_of_dvd (by omega) hdvd
    omega

/-- **What `alloc_phys_frames_aligned` finds**: the lowest aligned run that is not skipped; 0 when
there is none. -/
theorem allocPhysFramesAligned_outcome {s : Physical} {num n : Nat} (hnum : 1 ≤ num) (hn : pgBits ≤ n)
    (hfree : ∀ p, s.Free p → p < s.mmLimit) :
    (∃ r, allocPhysFramesAligned s num (2 ^ n) = .ok r ∧ FindsFirst (SeenRun s num (2 ^ n)) s num r) ∨
      (allocPhysFramesAligned s num (2 ^ n) = .error .fault ∧ 64 * mmTableMax < s.mmLimit ∧
        ∀ p, ¬SeenRun s num (2 ^ n) p) := by
  have hcases := stride_cases (n - pgBits)
  have hstart := StepScanned.start s num (n - pgBits)
  unfold allocPhysFramesAligned
  simp only [stride_eq hn, shiftRight_six]
  generalize hi : (if 2 ^ (n - pgBits) / 64 ≤ 4 then 4 else 2 ^ (n - pgBits) / 64) = i at hstart ⊢
  rw [show i <<< 6 = 64 * i from (Nat.shiftLeft_eq i 6).trans (Nat.mul_comm i _)]
  rw [show allocFramesAlignedScan s num _ _ scanFuel i (64 * i) =
    allocFramesAlignedScan s num _ _ scanFuel (64 * i / 64) (64 * i) by
      rw [Nat.mul_div_cancel_left i (by decide)]]
  refine allocFramesAlignedScan_outcome hnum (Nat.two_pow_pos _) hcases.1 (fun hzero => ?_) hfree
    (fun p => ?_) (by decide) (by have := hstart.low; unfold scanFuel; omega) hstart
  · have := hcases.2 hzero
    exact ⟨by omega, this⟩
  · rw [SeenRun, align_eq hn, alignedRun_pages, skippedBy_pages]

/-- The address found is 0 exactly when there is nothing to find. -/
theorem FindsFirst.eq_zero_iff {P : Nat → Prop} {s : Physical} {num : Nat} {r : Nat × Physical}
    (h : FindsFirst P s num r) (hlow : ∀ p, P p → 256 ≤ p) : r.1 = 0 ↔ ∀ p, ¬P p := by
  rcases h with ⟨p, hp, hr, -⟩ | ⟨hnone, rfl⟩
  · rw [hr]
    exact ⟨fun hzero => absurd hzero (addr_ne_zero (hlow p hp.1)), fun hnone => absurd hp.1 (hnone p)⟩
  · exact ⟨fun _ => hnone, fun _ => rfl⟩

/-- **First fit for alignments of 64 pages and more.** The call returns; the result is the lowest
aligned run at or above 1MB, which is taken, and 0 with nothing changed exactly when there is
none. -/
theorem allocPhysFramesAligned_first_fit (s : Physical) (num n : Nat) (hnum : 1 ≤ num) (hn : 18 ≤ n)
    (hfree : ∀ p, s.Free p → p < s.mmLimit) (hlimit : s.mmLimit ≤ 64 * mmTableMax) :
    ∃ r, allocPhysFramesAligned s num (2 ^ n) = .ok r ∧
      FindsFirst (AlignedRun s num (2 ^ n)) s num r ∧
      (r.1 = 0 ↔ ∀ p, ¬AlignedRun s num (2 ^ n) p) := by
  have hbig : 2 ^ 18 ≤ 2 ^ n := Nat.pow_le_pow_right (by decide) hn
  have hseen : SeenRun s num (2 ^ n) = AlignedRun s num (2 ^ n) := by
    funext p
    refine propext ⟨fun h => h.1, fun h => ⟨h, fun hskip => ?_⟩⟩
    have := hskip.1
    unfold pgSize at this
    omega
  rcases allocPhysFramesAligned_outcome (n := n) hnum (by unfold pgBits; omega) hfree with
    ⟨r, hr, hfinds⟩ | ⟨-, hover, -⟩
  · rw [hseen] at hfinds
    exact ⟨r, hr, hfinds, hfinds.eq_zero_iff fun p hp => hp.1⟩
  · omega

/-- The pages 512 and 513 are free: a request for two aligned to 2MB. -/
theorem allocPhysFramesAligned_first_fit_large : ∃ r,
    allocPhysFramesAligned (oneWord 8 3#64 576) 2 (2 ^ 21) = .ok r ∧
      FindsFirst (AlignedRun (oneWord 8 3#64 576) 2 (2 ^ 21)) (oneWord 8 3#64 576) 2 r ∧
      (r.1 = 0 ↔ ∀ p, ¬AlignedRun (oneWord 8 3#64 576) 2 (2 ^ 21) p) :=
  allocPhysFramesAligned_first_fit _ 2 21 (by decide) (by decide)
    (fun p hp => by
      have := (oneWord_free hp).1
      show p < 576
      omega)
    (by decide)

/-! ## Weaker alignments -/

/-- A request with alignment `a` is served at least as well as one with alignment `b`. -/
def ServedAsWell (s : Physical) (num a b : Nat) : Prop :=
  ∀ r, allocPhysFramesAligned s num b = .ok r → r.1 ≠ 0 →
    ∃ r', allocPhysFramesAligned s num a = .ok r' ∧ r'.1 ≠ 0 ∧ r'.1 ≤ r.1

/-- No run that is aligned to `b` is hidden from the scan in steps of `a`: where that scan skips one
which the scan in steps of `b` does not, there is a lower run that it does not skip. -/
def NoneHidden (s : Physical) (num a b : Nat) : Prop :=
  ∀ p, SeenRun s num b p → SkippedBy s a p → ∃ q < p, SeenRun s num a q

/-- **When a weaker alignment never fails**, all free pages being below the limit: exactly when it
hides none of the runs of the stronger one. -/
theorem allocPhysFramesAligned_weaker_iff (s : Physical) (num m n : Nat) (hnum : 1 ≤ num)
    (hm : pgBits ≤ m) (hmn : m ≤ n) (hfree : ∀ p, s.Free p → p < s.mmLimit) :
    ServedAsWell s num (2 ^ m) (2 ^ n) ↔ NoneHidden s num (2 ^ m) (2 ^ n) := by
  have hlow : ∀ k p, SeenRun s num (2 ^ k) p → 256 ≤ p := fun k p hp => hp.1.1
  have hmono : ∀ p q, p <<< pgBits ≤ q <<< pgBits ↔ p ≤ q := fun p q => by
    rw [Nat.shiftLeft_eq, Nat.shiftLeft_eq]
    exact Nat.mul_le_mul_right_iff (Nat.two_pow_pos _)
  constructor
  · intro hserved p hp hskip
    rcases allocPhysFramesAligned_outcome hnum (Nat.le_trans hm hmn) hfree with ⟨r, hr, hfinds⟩ | ⟨-, -, hnone⟩
    case inr => exact absurd hp (hnone p)
    have hne : r.1 ≠ 0 := fun hzero => (hfinds.eq_zero_iff (hlow n)).mp hzero p hp
    obtain ⟨r', hr', hne', hle⟩ := hserved r hr hne
    rcases hfinds with ⟨p₀, hp₀, heq, -⟩ | ⟨hnone, -⟩
    case inr => exact absurd hp (hnone p)
    rcases allocPhysFramesAligned_outcome hnum hm hfree with ⟨r'', hr'', hfinds'⟩ | ⟨hfault, -, -⟩
    case inr =>
      rw [hfault] at hr'
      cases hr'
    rw [hr'] at hr''
    cases hr''
    rcases hfinds' with ⟨q, hq, heq', -⟩ | ⟨-, rfl⟩
    case inr => exact absurd rfl hne'
    rw [heq, heq', hmono] at hle
    have hfirst : p₀ ≤ p := by
      by_contra hlt
      exact hp₀.2 p (by omega) hp
    have hnp : q ≠ p := fun h => hq.1.2 (h ▸ hskip)
    exact ⟨q, by omega, hq.1⟩
  · intro hhidden r hr hne
    rcases allocPhysFramesAligned_outcome hnum (Nat.le_trans hm hmn) hfree with
      ⟨r₀, hr₀, hfinds⟩ | ⟨hfault, -, -⟩
    case inr =>
      rw [hfault] at hr
      cases hr
    rw [hr] at hr₀
    cases hr₀
    rcases hfinds with ⟨p, hp, heq, -⟩ | ⟨-, rfl⟩
    case inr => exact absurd rfl hne
    have hsome : ∃ q ≤ p, SeenRun s num (2 ^ m) q := by
      by_cases hskip : SkippedBy s (2 ^ m) p
      · obtain ⟨q, hlt, hq⟩ := hhidden p hp.1 hskip
        exact ⟨q, Nat.le_of_lt hlt, hq⟩
      · obtain ⟨hlo, hdvd, hrun⟩ := hp.1.1
        exact ⟨p, Nat.le_refl p, ⟨hlo, Nat.dvd_trans (Nat.pow_dvd_pow 2 hmn) hdvd, hrun⟩, hskip⟩
    obtain ⟨q, hle, hq⟩ := hsome
    rcases allocPhysFramesAligned_outcome hnum hm hfree with ⟨r', hr', hfinds'⟩ | ⟨-, -, hnone⟩
    case inr => exact absurd hq (hnone q)
    refine ⟨r', hr', fun hzero => (hfinds'.eq_zero_iff (hlow m)).mp hzero q hq, ?_⟩
    rcases hfinds' with ⟨q₀, hq₀, heq', -⟩ | ⟨hnone, -⟩
    case inr => exact absurd hq (hnone q)
    have hfirst : q₀ ≤ q := by
      by_contra hlt
      exact hq₀.2 q (by omega) hq
    rw [heq, heq', hmono]
    omega

/-- With the pages 384 and 385 free, page alignment does as well as one of 64 pages. -/
theorem allocPhysFramesAligned_weaker_one_run :
    ServedAsWell (oneWord 6 3#64 448) 2 (2 ^ 12) (2 ^ 18) ↔
      NoneHidden (oneWord 6 3#64 448) 2 (2 ^ 12) (2 ^ 18) :=
  allocPhysFramesAligned_weaker_iff _ 2 12 18 (by decide) (by decide) (by decide) fun p hp => by
    have := (oneWord_free hp).1
    show p < 448
    omega

/-- The pages 319, 384 and 385 are free. -/
def hiddenRun : Physical where
  mmTable := ⟨fun i => if i.val = 4 then 1#64 <<< 63 else if i.val = 6 then 3#64 else 0#64⟩
  mmLimit := 448
  entryEnd := 7
  entryEnd_eq := twoRuns.entryEnd_eq

/-- On that table two pages aligned to 64 pages are found, and two with page alignment are not. -/
theorem allocPhysFramesAligned_weaker_fails : (∀ p, hiddenRun.Free p → p < hiddenRun.mmLimit) ∧
    ¬ServedAsWell hiddenRun 2 (2 ^ 12) (2 ^ 18) := by
  constructor
  · intro p hp
    have hlt := hp.lt
    rw [Physical.Free, Bitmap.test_of_lt _ (by omega : p / 64 < mmTableMax)] at hp
    simp only [hiddenRun] at hp ⊢
    split at hp
    · omega
    · split at hp
      · omega
      · simp at hp
  · intro hserved
    have hlarge : (allocPhysFramesAligned hiddenRun 2 (2 ^ 18)).map Prod.fst = .ok (384 <<< pgBits) := by
      decide +kernel
    have hsmall : (allocPhysFramesAligned hiddenRun 2 (2 ^ 12)).map Prod.fst = .ok 0 := by
      decide +kernel
    obtain ⟨t, hr⟩ := Exec.exists_of_map_fst hlarge
    obtain ⟨r', hr', hne, -⟩ := hserved _ hr (show 384 <<< pgBits ≠ 0 by decide)
    rw [hr'] at hsmall
    exact hne (Except.ok.inj hsmall)

end Rtv.Mm
