import Rtv.Mm.PhysicalSpec

/-!
# Which run of frames the scan finds

`alloc_phys_frames` walks over `mm_table` with a word index `i` and a bit position `pos`. After a
run that is too short `pos` is two pages past its last page; a word of zeros moves both on by one
word, and keeps `pos` where it was inside the word. So when a run ends with a word and the next
word is zero, `pos` is at bit 1 of every word from then on, and the scan misses bit 0 of the first
word that is not zero: that page is `Skipped`. The bit position is not held below `entry_end`
either: from a word with no free page left the scan goes on to the next free page, wherever it is.

`allocFramesScan_outcome` says what the scan returns in terms of these two, and
`allocPhysFrames_finds_iff` when that is the lowest run there is below `entry_end`.
-/

namespace Rtv.Mm

open Rtv.Lib Rtv.Utils

/-! ## Runs -/

/-- The `num` pages from `p` on are free. -/
def FreeRun (s : Physical) (num p : Nat) : Prop := ∀ k < num, s.Free (p + k)

instance (s : Physical) (num p : Nat) : Decidable (FreeRun s num p) :=
  inferInstanceAs (Decidable (∀ k < num, _))

/-- The `num` pages from `p` on are free, at or above 1MB and below word `entry_end`. -/
def RunBelow (s : Physical) (num p : Nat) : Prop :=
  256 ≤ p ∧ p + num ≤ 64 * s.entryEnd ∧ FreeRun s num p

instance (s : Physical) (num p : Nat) : Decidable (RunBelow s num p) :=
  inferInstanceAs (Decidable (_ ∧ _ ∧ _))

/-- The lowest such run. -/
def LowestRun (s : Physical) (num p : Nat) : Prop :=
  RunBelow s num p ∧ ∀ q < p, ¬RunBelow s num q

/-- What `alloc_phys_frames` is for: the result is the lowest run, which is taken, and 0 with
nothing changed when there is none. -/
def FindsLowest (s : Physical) (num : Nat) (r : Nat × Physical) : Prop :=
  (∀ p, LowestRun s num p → r.1 = p <<< pgBits ∧ Marked s r.2 p num false) ∧
    ((∀ p, ¬RunBelow s num p) → r = (0, s))

/-- Page `q` is the last free page at or above 1MB and below `stop`. -/
def LastFree (s : Physical) (q stop : Nat) : Prop :=
  256 ≤ q ∧ q < stop ∧ s.Free q ∧ ∀ p, q < p → p < stop → ¬s.Free p

/-- Page `p` is the first of its word, and the last free page before it is the last of an earlier
word. -/
def Skipped (s : Physical) (p : Nat) : Prop :=
  p % 64 = 0 ∧ ∃ q, q + 1 < p ∧ q % 64 = 63 ∧ LastFree s q p

/-- When the scan finds what it should. The lowest run does not begin with a skipped page; and when
there is none below `entry_end`, no run that begins below it and is not skipped reaches past it,
nor does one begin with the first free page past it, unless the last free page below is one of the
last two of its word, or there is none. -/
def ScanSees (s : Physical) (num : Nat) : Prop :=
  (∀ p, LowestRun s num p → ¬Skipped s p) ∧
    ((∀ p, ¬RunBelow s num p) → ∀ p, 256 ≤ p → FreeRun s num p → ¬Skipped s p →
      64 * s.entryEnd ≤ p ∧ ((∃ f, 64 * s.entryEnd ≤ f ∧ f < p ∧ s.Free f) ∨
        ∀ q, LastFree s q (64 * s.entryEnd) → 62 ≤ q % 64))

section Runs

variable {s : Physical} {num p q stop : Nat}

/-- A run begins with a free page. -/
theorem FreeRun.free (h : FreeRun s num p) (hnum : 1 ≤ num) : s.Free p := h 0 hnum

/-- The last free page is unique. -/
theorem LastFree.unique {q' : Nat} (h : LastFree s q stop) (h' : LastFree s q' stop) : q = q' := by
  obtain ⟨-, hlt, hfree, hnone⟩ := h
  obtain ⟨-, hlt', hfree', hnone'⟩ := h'
  rcases Nat.lt_trichotomy q q' with hqq | hqq | hqq
  · exact absurd hfree' (hnone q' hqq hlt')
  · exact hqq
  · exact absurd hfree (hnone' q hqq hlt)

/-- A later end without free pages in between. -/
theorem LastFree.extend {stop' : Nat} (h : LastFree s q stop) (hle : stop ≤ stop')
    (hnone : ∀ p, stop ≤ p → p < stop' → ¬s.Free p) : LastFree s q stop' := by
  refine ⟨h.1, by have := h.2.1; omega, h.2.2.1, fun p hp hp' => ?_⟩
  by_cases hlt : p < stop
  · exact h.2.2.2 p hp hlt
  · exact hnone p (by omega) hp'

/-- An earlier end past the page. -/
theorem LastFree.shrink {stop' : Nat} (h : LastFree s q stop) (hlt : q < stop') (hle : stop' ≤ stop) :
    LastFree s q stop' :=
  ⟨h.1, hlt, h.2.2.1, fun p hp hp' => h.2.2.2 p hp (by omega)⟩

/-- Where there is a free page there is a last one. -/
theorem exists_lastFree (hp : 256 ≤ p) (hlt : p < stop) (hfree : s.Free p) :
    ∃ q, p ≤ q ∧ LastFree s q stop := by
  induction stop with
  | zero => exact absurd hlt (Nat.not_lt_zero p)
  | succ stop ih =>
    by_cases hlast : s.Free stop
    · refine ⟨stop, Nat.le_of_lt_succ hlt, by omega, Nat.lt_succ_self stop, hlast, ?_⟩
      intro p' hlo hhi
      omega
    · have hne : p ≠ stop := fun heq => hlast (heq ▸ hfree)
      obtain ⟨q, hpq, hq⟩ := ih (by omega)
      refine ⟨q, hpq, hq.extend (Nat.le_succ stop) fun p' hlo hhi => ?_⟩
      have heq : p' = stop := by omega
      rw [heq]
      exact hlast

/-- Where there is a run there is a lowest one. -/
theorem exists_lowestRun (h : RunBelow s num p) : ∃ m, LowestRun s num m := by
  induction p using Nat.strongRecOn with
  | ind p ih =>
    by_cases hlower : ∃ q < p, RunBelow s num q
    · obtain ⟨q, hlt, hq⟩ := hlower
      exact ih q hlt hq
    · exact ⟨p, h, fun q hlt hq => hlower ⟨q, hlt, hq⟩⟩

/-- The skipping loop passes over no free page. -/
theorem skipTaken_first : ∀ {fuel pos pos' : Nat}, skipTaken s fuel pos = .ok pos' →
    ∀ p, pos ≤ p → p < pos' → ¬s.Free p
  | 0, pos, pos', h => by cases h
  | fuel + 1, pos, pos', h => by
    intro p hlo hhi
    rw [skipTaken] at h
    obtain ⟨b, hb, h₁⟩ := Exec.bind_eq_ok.mp h
    cases b with
    | true =>
      cases h₁
      omega
    | false =>
      by_cases heq : p = pos
      · rw [heq, Physical.Free, (bitmap64Get_eq_ok.mp hb).2]
        exact Bool.false_ne_true
      · exact skipTaken_first h₁ p (by omega) hhi

/-- The counting loop stops at a page that is taken, unless it has counted enough. -/
theorem countFree_stop : ∀ {fuel cur count : Nat} {r : Nat × Nat},
    countFree s num fuel cur count = .ok r → count ≤ num → r.2 ≤ num ∧ (r.2 ≠ num → ¬s.Free r.1)
  | 0, cur, count, r, h, _ => by cases h
  | fuel + 1, cur, count, r, h, hle => by
    rw [countFree] at h
    split at h
    · obtain ⟨b, hb, h₁⟩ := Exec.bind_eq_ok.mp h
      cases b with
      | true => exact countFree_stop h₁ (by omega)
      | false =>
        cases h₁
        refine ⟨hle, fun _ => ?_⟩
        rw [Physical.Free, (bitmap64Get_eq_ok.mp hb).2]
        exact Bool.false_ne_true
    · cases h
      refine ⟨hle, fun hne => ?_⟩
      simp only at hne
      omega

/-- The skipping loop leaves the table when no free page is left. -/
theorem skipTaken_error {e : Stop} : ∀ {fuel pos : Nat}, skipTaken s fuel pos = .error e →
    e ≠ .hang → e = .fault ∧ ∀ p, pos ≤ p → ¬s.Free p
  | 0, pos, h, he => by
    cases h
    exact absurd rfl he
  | fuel + 1, pos, h, he => by
    rw [skipTaken, bitmap64Get_eq] at h
    by_cases hin : pos / 64 < mmTableMax
    · rw [if_pos hin, Exec.ok_bind] at h
      cases hb : s.mmTable.test pos with
      | true =>
        rw [hb] at h
        cases h
      | false =>
        rw [hb] at h
        obtain ⟨heq, hnone⟩ := skipTaken_error h he
        refine ⟨heq, fun p hp hfree => ?_⟩
        have hne : p ≠ pos := by
          rintro rfl
          rw [Physical.Free, hb] at hfree
          cases hfree
        exact hnone p (by omega) hfree
    · rw [if_neg hin] at h
      cases h
      refine ⟨rfl, fun p hp hfree => ?_⟩
      have hlt := hfree.lt
      omega

/-- The counting loop leaves the table when all pages up to its end are free, and too few. -/
theorem countFree_error {e : Stop} : ∀ {fuel cur count : Nat}, countFree s num fuel cur count = .error e →
    e ≠ .hang → cur ≤ 64 * mmTableMax → e = .fault ∧
      (∀ p, cur ≤ p → p < 64 * mmTableMax → s.Free p) ∧ count + (64 * mmTableMax - cur) < num
  | 0, cur, count, h, he, _ => by
    cases h
    exact absurd rfl he
  | fuel + 1, cur, count, h, he, hle => by
    rw [countFree] at h
    split at h
    case isFalse => cases h
    case isTrue hlt =>
      rw [bitmap64Get_eq] at h
      by_cases hin : cur / 64 < mmTableMax
      · rw [if_pos hin, Exec.ok_bind] at h
        cases hb : s.mmTable.test cur with
        | false =>
          rw [hb] at h
          cases h
        | true =>
          rw [hb] at h
          obtain ⟨heq, hall, hshort⟩ := countFree_error h he (by omega)
          refine ⟨heq, fun p hlo hhi => ?_, by omega⟩
          by_cases heq : p = cur
          · rw [heq]
            exact hb
          · exact hall p (by omega) hhi
      · rw [if_neg hin] at h
        cases h
        exact ⟨rfl, fun p hlo hhi => absurd hhi (by omega), by omega⟩

/-- The counting loop stops inside the table, unless it has counted enough. -/
theorem countFree_inside : ∀ {fuel cur count : Nat} {r : Nat × Nat},
    countFree s num fuel cur count = .ok r → count ≤ num → r.2 ≠ num → r.1 < 64 * mmTableMax
  | 0, cur, count, r, h, _ => by cases h
  | fuel + 1, cur, count, r, h, hle => by
    rw [countFree] at h
    intro hne
    split at h
    case isTrue hlt =>
      obtain ⟨b, hb, h₁⟩ := Exec.bind_eq_ok.mp h
      obtain ⟨hin, -⟩ := bitmap64Get_eq_ok.mp hb
      cases b with
      | true => exact countFree_inside h₁ hlt hne
      | false =>
        cases h₁
        simp only
        omega
    case isFalse hge =>
      cases h
      exact absurd hne (by simp only; omega)

/-- A word that is not zero holds a free page. -/
theorem exists_free_of_ne_zero {i : Nat} {w : BitVec 64} (h : s.mmTable.load i = .ok w)
    (hw : w ≠ 0#64) : ∃ p, p / 64 = i ∧ s.Free p := by
  obtain ⟨k, hk, hset, -⟩ := exists_lowest hw
  refine ⟨64 * i + k, by omega, ?_⟩
  rw [free_iff_word h (by omega), Nat.mul_add_mod, Nat.mod_eq_of_lt hk]
  exact hset

end Runs

/-! ## The head of the loop -/

/-- Where the bit position can be when the loop tests word `pos / 64`. -/
inductive Head (s : Physical) (pos : Nat) : Prop
  /-- At the first page of a word; the last free page before it is the last but one of its word. -/
  | aligned : pos % 64 = 0 → (∀ q, LastFree s q pos → q % 64 = 62) → Head s pos
  /-- At the second page of a word, after a run that ended with an earlier word. -/
  | drift (q : Nat) : pos % 64 = 1 → q % 64 = 63 → LastFree s q (pos - 1) → Head s pos
  /-- Two past the last page of a run, in the word of that page. -/
  | within : 258 ≤ pos → s.Free (pos - 2) → ¬s.Free (pos - 1) → (pos - 2) / 64 = pos / 64 →
      Head s pos

namespace Head

variable {s : Physical} {pos cur a : Nat}

/-- Past a word of zeros: the only free page on the way is a skipped one. -/
theorem zero (h : Head s pos) (hzero : ∀ p, p / 64 = pos / 64 → ¬s.Free p) :
    Head s (pos + 64) ∧ ∀ p, pos ≤ p → p < pos + 64 → s.Free p → Skipped s p := by
  cases h with
  | aligned hmod hlast =>
    have hnone : ∀ p, pos ≤ p → p < pos + 64 → ¬s.Free p := fun p hlo hhi => hzero p (by omega)
    refine ⟨.aligned (by omega) fun q hq => ?_, fun p hlo hhi hfree => absurd hfree (hnone p hlo hhi)⟩
    apply hlast
    by_cases hlt : q < pos
    · exact hq.shrink hlt (by omega)
    · exact absurd hq.2.2.1 (hnone q (by omega) hq.2.1)
  | drift q hmod hq hlast =>
    have hlast' : LastFree s q (pos + 63) :=
      hlast.extend (by omega) fun p hlo hhi => hzero p (by omega)
    constructor
    · exact .drift q (by omega) hq hlast'
    · intro p hlo hhi hfree
      have heq : p = pos + 63 := by
        by_contra hne
        exact hzero p (by omega) hfree
      have hlt := hlast.2.1
      rw [heq]
      exact ⟨by omega, q, by omega, hq, hlast'⟩
  | within hpos hfree _ hword => exact absurd hfree (hzero _ hword)

/-- After a run that is too short. -/
theorem fail (hcur : 257 ≤ cur) (hfree : s.Free (cur - 1)) (htaken : ¬s.Free cur) :
    Head s (cur + 1) := by
  have hlast : LastFree s (cur - 1) cur :=
    ⟨by omega, by omega, hfree, fun p hlo hhi => absurd hhi (by omega)⟩
  rcases Nat.lt_or_ge (cur % 64) 63 with hlt | hge
  · by_cases hzero : cur % 64 = 0
    · exact .drift (cur - 1) (by omega) (by omega) hlast
    · have hword : (cur + 1 - 2) / 64 = (cur + 1) / 64 := by omega
      exact .within (by omega) hfree htaken hword
  · refine .aligned (by omega) fun q hq => ?_
    have hlast' : LastFree s (cur - 1) (cur + 1) := by
      refine hlast.extend (by omega) fun p hlo hhi => ?_
      have heq : p = cur := by omega
      rw [heq]
      exact htaken
    have := hlast'.unique hq
    omega

/-- From a word that is not zero, the next free page is not a skipped one. -/
theorem found (h : Head s pos) (hword : ∃ p, p / 64 = pos / 64 ∧ s.Free p) (hle : pos ≤ a)
    (hfirst : ∀ p, pos ≤ p → p < a → ¬s.Free p) : ¬Skipped s a := by
  rintro ⟨hmod, q, hqa, hq, hlast⟩
  obtain ⟨p, hp, hfree⟩ := hword
  have hqpos : q < pos := by
    by_contra hge
    exact hfirst q (by omega) hlast.2.1 hlast.2.2.1
  by_cases hlt : p < pos
  · exact hlast.2.2.2 p (by omega) (by omega) hfree
  · have hap : a ≤ p := by
      by_contra hpa
      exact hfirst p (by omega) (by omega) hfree
    have heq : a = pos := by omega
    subst heq
    cases h with
    | aligned _ hall =>
      have := hall q hlast
      omega
    | drift _ hmod' _ _ => omega
    | within _ _ _ hword => omega

/-- From a word below `stop` that is not zero to a page past `stop`: the last free page below is
not one of the last two of its word. -/
theorem past {stop : Nat} (h : Head s pos) (hpos : 256 ≤ pos)
    (hword : ∃ p, p / 64 = pos / 64 ∧ s.Free p) (hstop : stop % 64 = 0) (hlt : pos < stop)
    (ha : stop ≤ a) (hfirst : ∀ p, pos ≤ p → p < a → ¬s.Free p) :
    ∃ q, LastFree s q stop ∧ q % 64 < 62 := by
  obtain ⟨p, hp, hfree⟩ := hword
  have hppos : p < pos := by
    by_contra hge
    exact hfirst p (by omega) (by omega) hfree
  obtain ⟨q, hpq, hq⟩ := exists_lastFree (by omega) hppos hfree
  refine ⟨q, hq.extend (Nat.le_of_lt hlt) fun p' hlo hhi => hfirst p' hlo (by omega), ?_⟩
  have hqpos := hq.2.1
  cases h with
  | aligned hmod _ => omega
  | drift _ hmod _ _ => omega
  | within _ _ htaken _ =>
    have hne : q ≠ pos - 1 := by
      rintro rfl
      exact htaken hq.2.2.1
    omega

end Head

/-! ## The scan -/

/-- What a round of the loop at bit position `pos` comes to: the rest of the loop at another
position, or a result. -/
inductive Round (s : Physical) (num fuel pos : Nat) : Exec (Nat × Physical) → Prop
  /-- Past `entry_end`. -/
  | finish : s.entryEnd ≤ pos / 64 → Round s num fuel pos (.ok (0, s))
  /-- The word is past the table. -/
  | outside : pos / 64 < s.entryEnd → mmTableMax ≤ pos / 64 → Round s num fuel pos (.error .fault)
  /-- A word of zeros. -/
  | zero : pos / 64 < s.entryEnd → (∀ p, p / 64 = pos / 64 → ¬s.Free p) →
      Round s num fuel pos (allocFramesScan s num fuel ((pos + 64) / 64) (pos + 64))
  /-- A run of `num` free pages. -/
  | take (a : Nat) (s' : Physical) : pos / 64 < s.entryEnd → (∃ p, p / 64 = pos / 64 ∧ s.Free p) →
      FirstFree s pos a → FreeRun s num a → Marked s s' a num false →
      Round s num fuel pos (.ok (a <<< pgBits, s'))
  /-- A run that is too short. -/
  | short (a cur : Nat) : FirstFree s pos a → a < cur → (∀ p, a ≤ p → p < cur → s.Free p) →
      cur < a + num → ¬s.Free cur → cur < 64 * mmTableMax →
      Round s num fuel pos (allocFramesScan s num fuel ((cur + 1) / 64) (cur + 1))
  /-- The word is not zero, and no page from `pos` on is free: the search leaves the table. -/
  | lost : pos / 64 < s.entryEnd → (∃ p, p / 64 = pos / 64 ∧ s.Free p) →
      (∀ p, pos ≤ p → ¬s.Free p) → Round s num fuel pos (.error .fault)
  /-- A run that is too short ends with the table: the count leaves the table. -/
  | off (a : Nat) : FirstFree s pos a → (∀ p, a ≤ p → p < 64 * mmTableMax → s.Free p) →
      64 * mmTableMax < a + num → Round s num fuel pos (.error .fault)

/-- The rounds of the loop. -/
theorem allocFramesScan_round {s : Physical} {num : Nat} (hnum : 1 ≤ num) (fuel pos : Nat) :
    Round s num fuel pos (allocFramesScan s num (fuel + 1) (pos / 64) pos) := by
  rw [allocFramesScan]
  by_cases hin : pos / 64 < s.entryEnd
  case neg =>
    rw [if_neg hin]
    exact .finish (by omega)
  rw [if_pos hin]
  cases hload : s.mmTable.load (pos / 64) with
  | error e =>
    rw [Bitmap.load] at hload
    split at hload
    case isTrue => cases hload
    case isFalse hout =>
      cases hload
      exact .outside hin (by omega)
  | ok w =>
    rw [Exec.ok_bind]
    by_cases hw : w = 0#64
    · subst hw
      rw [if_neg (fun hne => hne rfl), show pos / 64 + 1 = (pos + 64) / 64 by omega]
      exact .zero hin fun p => not_free_of_zero hload
    · rw [if_pos hw]
      have hword := exists_free_of_ne_zero hload hw
      cases hskip : skipTaken s scanFuel pos with
      | error e =>
        have hends := @skipTaken_ends s scanFuel pos (by decide)
          (by unfold scanFuel; omega)
        obtain ⟨rfl, hnone⟩ := skipTaken_error hskip fun heq => hends (heq ▸ hskip)
        exact .lost hin hword hnone
      | ok a =>
        obtain ⟨hle, hfree⟩ := skipTaken_spec hskip
        have hfirst : FirstFree s pos a := ⟨hle, hfree, skipTaken_first hskip⟩
        have hlt := hfree.lt
        rw [Exec.ok_bind]
        cases hcount : countFree s num scanFuel a 0 with
        | error e =>
          have hends := @countFree_ends s num scanFuel a 0 (by decide)
            (by unfold scanFuel; omega)
          obtain ⟨rfl, hall, hshort⟩ :=
            countFree_error hcount (fun heq => hends (heq ▸ hcount)) (Nat.le_of_lt hlt)
          exact .off a hfirst hall (by omega)
        | ok r =>
          obtain ⟨cur, count⟩ := r
          obtain ⟨hcur, hsum, hall⟩ := countFree_spec hcount
          obtain ⟨hbound, hstop⟩ := countFree_stop hcount (Nat.zero_le num)
          rw [Exec.ok_bind]
          simp only at hcur hsum hall hbound hstop ⊢
          by_cases heq : count = num
          · rw [if_pos heq]
            have hrun : FreeRun s num a := fun k hk => hall (a + k) (by omega) (by omega)
            have hlast := (hrun (num - 1) (by omega)).lt
            obtain ⟨s', t, ht, rfl, hm⟩ := clearRange_ok s a num (by omega)
            rw [ht, Exec.ok_bind]
            exact .take a _ hin hword hfirst hrun hm
          · rw [if_neg heq, shiftRight_six]
            have hne : a ≠ cur := fun h => hstop heq (h ▸ hfree)
            exact .short a cur hfirst (by omega) hall (by omega) (hstop heq) (countFree_inside hcount (Nat.zero_le num) heq)

/-- What holds at the head of the loop: every run passed is a skipped one, and once the position is
past `entry_end` the first free page there is passed as well, if the last one below is not late in
its word. -/
structure Scanned (s : Physical) (num pos : Nat) : Prop where
  low : 256 ≤ pos
  head : Head s pos
  runs : ∀ p, 256 ≤ p → p < pos → FreeRun s num p → Skipped s p
  ends : 64 * s.entryEnd ≤ pos → ∀ q, LastFree s q (64 * s.entryEnd) → q % 64 < 62 →
    ∀ p, 64 * s.entryEnd ≤ p → s.Free p → (∀ f, 64 * s.entryEnd ≤ f → f < p → ¬s.Free f) → p < pos

namespace Scanned

variable {s : Physical} {num pos cur a : Nat}

/-- Where the scan starts. -/
theorem start (s : Physical) (num : Nat) : Scanned s num 256 where
  low := Nat.le_refl 256
  head := .aligned (by decide) fun q hq => absurd hq.2.1 (by have := hq.1; omega)
  runs p hlo hhi := absurd hhi (by omega)
  ends hend q hq := absurd hq.2.1 (by have := hq.1; omega)

/-- Past a word of zeros below `entry_end`. -/
theorem zero (h : Scanned s num pos) (hnum : 1 ≤ num) (hword : pos / 64 < s.entryEnd)
    (hzero : ∀ p, p / 64 = pos / 64 → ¬s.Free p) : Scanned s num (pos + 64) where
  low := by have := h.low; omega
  head := (h.head.zero hzero).1
  runs p hlo hhi hrun := by
    by_cases hlt : p < pos
    · exact h.runs p hlo hlt hrun
    · exact (h.head.zero hzero).2 p (by omega) hhi (hrun.free hnum)
  ends hend q hq hlate := by
    -- the last free page before the word is one of the last two of its word, or there is none
    exfalso
    have hword' : pos / 64 + 1 = s.entryEnd := by omega
    have hqpos : q < pos - pos % 64 := by
      by_contra hge
      have := hq.2.1
      exact hzero q (by omega) hq.2.2.1
    have hlast : LastFree s q (pos - pos % 64) := hq.shrink hqpos (by omega)
    cases h.head with
    | aligned hmod hall =>
      rw [hmod] at hlast
      have := hall q hlast
      omega
    | drift q' hmod hq' hlast' =>
      rw [hmod] at hlast
      have := hlast.unique hlast'
      omega
    | within hpos hfree _ hin => exact hzero _ hin hfree

/-- After a run from `a` to `cur` that is too short. -/
theorem fail (h : Scanned s num pos) (hnum : 1 ≤ num) (hpos : pos ≤ a) (hcur : a < cur)
    (hfirst : ∀ p, pos ≤ p → p < a → ¬s.Free p) (hrun : ∀ p, a ≤ p → p < cur → s.Free p)
    (hshort : cur < a + num) (htaken : ¬s.Free cur) : Scanned s num (cur + 1) where
  low := by have := h.low; omega
  head := .fail (by have := h.low; omega) (hrun (cur - 1) (by omega) (by omega)) htaken
  runs p hlo hhi hfree := by
    by_cases hlt : p < pos
    · exact h.runs p hlo hlt hfree
    · exfalso
      by_cases hpa : p < a
      · exact hfirst p (by omega) hpa (hfree.free hnum)
      · -- the run would contain the page where the count stopped
        apply htaken
        have hin := hfree (cur - p) (by omega)
        rwa [Nat.add_sub_cancel' (by omega)] at hin
  ends hend q hq hlate p hp hfree hnone := by
    by_contra hge
    have hprev : s.Free (cur - 1) := hrun (cur - 1) (by omega) (by omega)
    have hbelow : cur - 1 < 64 * s.entryEnd := by
      by_contra habove
      exact hnone (cur - 1) (by omega) (by omega) hprev
    have hqlt := hq.2.1
    have hqcur : cur - 1 ≤ q := by
      by_contra hlt
      exact hq.2.2.2 (cur - 1) (by omega) hbelow hprev
    have hne : q ≠ cur := by
      rintro rfl
      exact htaken hq.2.2.1
    omega

end Scanned

/-- A run the scan takes: it is not skipped, all runs before it are, and where it lies past
`entry_end` it begins with the first free page there, the last one below not being late in its
word. -/
structure Taken (s : Physical) (num a : Nat) : Prop where
  low : 256 ≤ a
  run : FreeRun s num a
  seen : ¬Skipped s a
  runs : ∀ p, 256 ≤ p → p < a → FreeRun s num p → Skipped s p
  past : 64 * s.entryEnd ≤ a → (∀ p, 64 * s.entryEnd ≤ p → p < a → ¬s.Free p) ∧
    ∃ q, LastFree s q (64 * s.entryEnd) ∧ q % 64 < 62

/-- **What the scan returns**: the address of a run it takes, with those pages and no others marked
taken, or 0 with nothing changed at a position past `entry_end`. -/
theorem allocFramesScan_outcome {s : Physical} {num : Nat} (hnum : 1 ≤ num) :
    ∀ {fuel pos : Nat} {r : Nat × Physical}, Scanned s num pos →
      allocFramesScan s num fuel (pos / 64) pos = .ok r →
      (∃ a, r.1 = a <<< pgBits ∧ Taken s num a ∧ Marked s r.2 a num false) ∨
        (r = (0, s) ∧ ∃ pos', 64 * s.entryEnd ≤ pos' ∧ Scanned s num pos')
  | 0, pos, r, _, h => by cases h
  | fuel + 1, pos, r, hs, h => by
    have hround := allocFramesScan_round (s := s) hnum fuel pos
    rw [h] at hround
    have hlow := hs.low
    generalize hx : (Except.ok r : Exec (Nat × Physical)) = x at hround
    cases hround with
    | finish hend =>
      cases hx
      exact .inr ⟨rfl, pos, by omega, hs⟩
    | outside => cases hx
    | zero hin hzero => exact allocFramesScan_outcome hnum (hs.zero hnum hin hzero) hx.symm
    | take a s' hin hword hfirst hrun hmark =>
      cases hx
      obtain ⟨hle, -, hfirst⟩ := hfirst
      refine .inl ⟨a, rfl, ⟨by omega, hrun, hs.head.found hword hle hfirst, ?_, ?_⟩, hmark⟩
      · intro p hlo hhi hrun'
        by_cases hlt : p < pos
        · exact hs.runs p hlo hlt hrun'
        · exact absurd (hrun'.free hnum) (hfirst p (by omega) hhi)
      · intro ha
        refine ⟨fun p hlo hhi => hfirst p (by omega) hhi, ?_⟩
        exact hs.head.past hlow hword (by omega) (by omega) ha hfirst
    | short a cur hfirst hcur hall hshort htaken _ =>
      exact allocFramesScan_outcome hnum (hs.fail hnum hfirst.1 hcur hfirst.2.2 hall hshort htaken)
        hx.symm
    | lost => cases hx
    | off => cases hx

/-! ## The lowest run -/

/-- The address of a page at or above 1MB is not the value that says none was found. -/
theorem addr_ne_zero {p : Nat} (hp : 256 ≤ p) : p <<< pgBits ≠ 0 := by
  have hpg : 2 ^ pgBits = 4096 := by decide
  rw [Nat.shiftLeft_eq, hpg]
  omega

/-- **When `alloc_phys_frames` finds the lowest run.** Whenever the scan stays inside `mm_table`,
the result is the lowest run of free frames below `entry_end`, or 0 when there is none, exactly
when the scan sees what it should. -/
theorem allocPhysFrames_finds_iff (s : Physical) (num : Nat) (hnum : 1 ≤ num) (r : Nat × Physical)
    (h : allocPhysFrames s num = .ok r) : FindsLowest s num r ↔ ScanSees s num := by
  have hout := allocFramesScan_outcome hnum (Scanned.start s num) h
  by_cases hsome : ∃ p, RunBelow s num p
  · obtain ⟨p, hp⟩ := hsome
    obtain ⟨m, hm⟩ := exists_lowestRun hp
    obtain ⟨⟨hmlow, hmhigh, hmrun⟩, hmin⟩ := id hm
    have hvac : ¬∀ p, ¬RunBelow s num p := fun hnone => hnone m hm.1
    rcases hout with ⟨a, hr, ht, hmark⟩ | ⟨rfl, pos, hend, hs⟩
    · have hma : m ≤ a := by
        by_contra hlt
        exact hmin a (by omega) ⟨ht.low, by omega, ht.run⟩
      constructor
      · intro hfinds
        refine ⟨fun p hp => ?_, fun hnone => absurd hnone hvac⟩
        have heq : a <<< pgBits = p <<< pgBits := hr.symm.trans (hfinds.1 p hp).1
        rw [Nat.shiftLeft_eq, Nat.shiftLeft_eq] at heq
        rw [← Nat.eq_of_mul_eq_mul_right (Nat.two_pow_pos _) heq]
        exact ht.seen
      · intro hsees
        have heq : m = a := by
          by_contra hne
          exact hsees.1 m hm (ht.runs m hmlow (by omega) hmrun)
        refine ⟨fun p hp => ?_, fun hnone => absurd hnone hvac⟩
        have hpa : p = a := by
          rw [← heq]
          rcases Nat.lt_trichotomy p m with hlt | hpm | hlt
          · exact absurd hp.1 (hmin p hlt)
          · exact hpm
          · exact absurd hm.1 (hp.2 m hlt)
        rw [hpa]
        exact ⟨hr, hmark⟩
    · constructor
      · intro hfinds
        exact absurd (hfinds.1 m hm).1.symm (addr_ne_zero hmlow)
      · intro hsees
        exact absurd (hs.runs m hmlow (by omega) hmrun) (hsees.1 m hm)
  · have hnone : ∀ p, ¬RunBelow s num p := fun p hp => hsome ⟨p, hp⟩
    have hvac : ∀ p, ¬LowestRun s num p := fun p hp => hnone p hp.1
    rcases hout with ⟨a, hr, ht, -⟩ | ⟨rfl, pos, hend, hs⟩
    · constructor
      · intro hfinds
        have hzero : a <<< pgBits = 0 := by rw [← hr, hfinds.2 hnone]
        exact absurd hzero (addr_ne_zero ht.low)
      · intro hsees
        exfalso
        obtain ⟨hpast, hcases⟩ := hsees.2 hnone a ht.low ht.run ht.seen
        obtain ⟨hempty, q, hq, hlate⟩ := ht.past hpast
        rcases hcases with ⟨f, hlo, hhi, hfree⟩ | hlast
        · exact hempty f hlo hhi hfree
        · have := hlast q hq
          omega
    · constructor
      · intro _
        refine ⟨fun p hp => absurd hp (hvac p), fun _ p hp hrun hseen => ?_⟩
        have hpos : pos ≤ p := by
          by_contra hlt
          exact hseen (hs.runs p hp (by omega) hrun)
        refine ⟨by omega, ?_⟩
        by_cases hf : ∃ f, 64 * s.entryEnd ≤ f ∧ f < p ∧ s.Free f
        · exact .inl hf
        · right
          intro q hq
          by_contra hlate
          have hlt := hs.ends hend q hq (by omega) p (by omega) (hrun.free hnum) fun f hlo hhi hfree =>
            hf ⟨f, hlo, hhi, hfree⟩
          omega
      · intro _
        exact ⟨fun p hp => absurd hp (hvac p), fun _ => rfl⟩

/-- The pages 384 and 385 are free, and so are 400 and 401. -/
def twoRuns : Physical where
  mmTable := ⟨fun i => if i.val = 6 then 0x30003#64 else 0#64⟩
  mmLimit := 448
  entryEnd := 7
  entryEnd_eq := by decide

/-- On that table the result is the lower run. -/
theorem allocPhysFrames_finds_two_runs : ∃ r, allocPhysFrames twoRuns 2 = .ok r ∧
    r.1 = 384 <<< pgBits ∧ (FindsLowest twoRuns 2 r ↔ ScanSees twoRuns 2) := by
  have hok : (allocPhysFrames twoRuns 2).map Prod.fst = .ok (384 <<< pgBits) := by decide +kernel
  obtain ⟨t, hr⟩ := Exec.exists_of_map_fst hok
  exact ⟨_, hr, rfl, allocPhysFrames_finds_iff twoRuns 2 (by decide) _ hr⟩

/-- The same with page 319 free as well, the last one of its word. -/
def skipTable : Physical where
  mmTable := ⟨fun i => if i.val = 4 then 1#64 <<< 63 else if i.val = 6 then 0x30003#64 else 0#64⟩
  mmLimit := 448
  entryEnd := 7
  entryEnd_eq := by decide

/-- On that table the result is page 400, although the pages 384 and 385 are the lowest run. -/
theorem allocPhysFrames_skips_lowest : ∃ r, allocPhysFrames skipTable 2 = .ok r ∧
    r.1 = 400 <<< pgBits ∧ LowestRun skipTable 2 384 ∧ ¬FindsLowest skipTable 2 r := by
  have hok : (allocPhysFrames skipTable 2).map Prod.fst = .ok (400 <<< pgBits) := by decide +kernel
  have hrun : RunBelow skipTable 2 384 := by decide +kernel
  have hnone : ∀ q < 384, ¬RunBelow skipTable 2 q := by decide +kernel
  obtain ⟨t, hr⟩ := Exec.exists_of_map_fst hok
  refine ⟨_, hr, rfl, ⟨hrun, hnone⟩, fun hfinds => ?_⟩
  have heq : 400 <<< pgBits = 384 <<< pgBits := (hfinds.1 384 ⟨hrun, hnone⟩).1
  exact absurd heq (by decide)

/-! ## Staying inside the table -/

/-- When the scan stays inside the table: there is a run that it does not skip, or the last free page
below `entry_end` is one of the last two of its word and not the last of the table, or there is
none. -/
def ScanStays (s : Physical) (num : Nat) : Prop :=
  (∃ p, 256 ≤ p ∧ FreeRun s num p ∧ ¬Skipped s p) ∨
    ∀ q, LastFree s q (64 * s.entryEnd) → 62 ≤ q % 64 ∧ q + 1 < 64 * mmTableMax

/-- What is asked of `alloc_phys_frames` whatever it finds: it returns, so that every word it reads
is one of `mm_table`, and returns 0 when there is no run. -/
def ReturnsInside (s : Physical) (num : Nat) : Prop :=
  ∃ r, allocPhysFrames s num = .ok r ∧ ((∀ p, 256 ≤ p → ¬FreeRun s num p) → r.1 = 0)

section Stays

variable {s : Physical} {num pos : Nat}

/-- The scan leaves no free page behind that is the last one of the table. -/
def EndsBefore (s : Physical) (pos : Nat) : Prop :=
  ∀ q, LastFree s q pos → q + 1 < 64 * mmTableMax

/-- Past `entry_end` the last free page is one of the last two of its word. -/
theorem Head.late {q : Nat} (h : Head s pos) (hpast : ∀ p, s.Free p → p < 64 * s.entryEnd)
    (hpos : 64 * s.entryEnd ≤ pos) (hq : LastFree s q (64 * s.entryEnd)) : 62 ≤ q % 64 := by
  have hnone : ∀ stop p, 64 * s.entryEnd ≤ p → p < stop → ¬s.Free p := fun stop p hlo _ hfree => by
    have := hpast p hfree
    omega
  cases h with
  | aligned _ hall =>
    have := hall q (hq.extend hpos (hnone pos))
    omega
  | drift q' hmod hq' hlast =>
    have := (hq.extend (by omega) (hnone (pos - 1))).unique hlast
    omega
  | within hlow hfree _ hword =>
    have := hpast (pos - 2) hfree
    omega

/-- A scan that returns although it skips every run has found the last free page late in its word. -/
theorem allocFramesScan_late (hnum : 1 ≤ num) (hpast : ∀ p, s.Free p → p < 64 * s.entryEnd)
    (hskipped : ∀ p, 256 ≤ p → FreeRun s num p → Skipped s p) :
    ∀ {fuel pos : Nat} {r : Nat × Physical}, Scanned s num pos → EndsBefore s pos →
      allocFramesScan s num fuel (pos / 64) pos = .ok r →
      ∀ q, LastFree s q (64 * s.entryEnd) → 62 ≤ q % 64 ∧ q + 1 < 64 * mmTableMax
  | 0, pos, r, _, _, h => by cases h
  | fuel + 1, pos, r, hs, hbefore, h => by
    have hround := allocFramesScan_round (s := s) hnum fuel pos
    rw [h] at hround
    have hlow := hs.low
    generalize hx : (Except.ok r : Exec (Nat × Physical)) = x at hround
    cases hround with
    | finish hend =>
      intro q hq
      refine ⟨hs.head.late hpast (by omega) hq, hbefore q (hq.extend (by omega) fun p hlo _ hfree => ?_)⟩
      have := hpast p hfree
      omega
    | outside => cases hx
    | zero hin hzero =>
      refine allocFramesScan_late hnum hpast hskipped (hs.zero hnum hin hzero) (fun q hq => ?_) hx.symm
      by_cases hlt : q < pos
      · exact hbefore q (hq.shrink hlt (by omega))
      · -- the only free page on the way is the first one of its word
        obtain ⟨hmod, -⟩ := (hs.head.zero hzero).2 q (by omega) hq.2.1 hq.2.2.1
        have := hq.2.2.1.lt
        unfold mmTableMax at this ⊢
        omega
    | take a _ hin hword hfirst hrun _ =>
      exact absurd (hskipped _ (by have := hfirst.1; omega) hrun)
        (hs.head.found hword hfirst.1 hfirst.2.2)
    | short a cur hfirst hcur hall hshort htaken hinside =>
      refine allocFramesScan_late hnum hpast hskipped
        (hs.fail hnum hfirst.1 hcur hfirst.2.2 hall hshort htaken) (fun q hq => ?_) hx.symm
      have hlt := hq.2.1
      have hne : q ≠ cur := fun heq => htaken (heq ▸ hq.2.2.1)
      omega
    | lost => cases hx
    | off => cases hx

/-- A scan that has a run to find, or the last free page late in its word, does not leave the table. -/
theorem allocFramesScan_inside (hnum : 1 ≤ num) (hfree : ∀ p, s.Free p → p < s.mmLimit)
    (hlimit : s.mmLimit ≤ 64 * mmTableMax) (hstays : ScanStays s num) :
    ∀ {fuel pos : Nat} {e : Stop}, Scanned s num pos →
      allocFramesScan s num fuel (pos / 64) pos = .error e → e = .hang
  | 0, pos, e, _, h => by
    cases h
    rfl
  | fuel + 1, pos, e, hs, h => by
    have hround := allocFramesScan_round (s := s) hnum fuel pos
    rw [h] at hround
    have hlow := hs.low
    have hend := s.entryEnd_eq
    generalize hx : (Except.error e : Exec (Nat × Physical)) = x at hround
    cases hround with
    | finish => cases hx
    | outside hin hout => omega
    | zero hin hzero =>
      exact allocFramesScan_inside hnum hfree hlimit hstays (hs.zero hnum hin hzero) hx.symm
    | take => cases hx
    | short a cur hfirst hcur hall hshort htaken _ =>
      exact allocFramesScan_inside hnum hfree hlimit hstays
        (hs.fail hnum hfirst.1 hcur hfirst.2.2 hall hshort htaken) hx.symm
    | lost hin hword hnone =>
      exfalso
      rcases hstays with ⟨p, hp, hrun, hseen⟩ | hlate
      · by_cases hlt : p < pos
        · exact hseen (hs.runs p hp hlt hrun)
        · exact hnone p (by omega) (hrun.free hnum)
      · obtain ⟨q, hq, hmod⟩ := hs.head.past (a := 64 * s.entryEnd) hlow hword (by omega) (by omega)
          (Nat.le_refl _) fun p hlo _ => hnone p hlo
        have := (hlate q hq).1
        omega
    | off a hfirst hall hshort =>
      exfalso
      obtain ⟨hle, ha, hnone⟩ := hfirst
      have hlt := ha.lt
      rcases hstays with ⟨p, hp, hrun, hseen⟩ | hlate
      · by_cases hpos : p < pos
        · exact hseen (hs.runs p hp hpos hrun)
        · by_cases hpa : p < a
          · exact hnone p (by omega) hpa (hrun.free hnum)
          · have := (hrun (num - 1) (by omega)).lt
            omega
      · have hlast := hall (64 * mmTableMax - 1) (by omega) (by omega)
        have := hfree _ hlast
        have := (hlate (64 * mmTableMax - 1) ⟨by omega, by omega, hlast, fun p _ _ => by omega⟩).2
        omega

end Stays

/-- **When the scan returns**, the free pages being below the limit and the limit inside the table. -/
theorem allocPhysFrames_returns (s : Physical) (num : Nat) (hnum : 1 ≤ num)
    (hfree : ∀ p, s.Free p → p < s.mmLimit) (hlimit : s.mmLimit ≤ 64 * mmTableMax) :
    (∃ r, allocPhysFrames s num = .ok r) ↔ ScanStays s num := by
  have hend := s.entryEnd_eq
  constructor
  · rintro ⟨r, hr⟩
    by_cases hsome : ∃ p, 256 ≤ p ∧ FreeRun s num p ∧ ¬Skipped s p
    · exact .inl hsome
    · right
      refine allocFramesScan_late hnum (fun p hp => ?_) (fun p hp hrun => ?_) (Scanned.start s num)
        (fun q hq => absurd hq.2.1 (by have := hq.1; omega)) hr
      · have := hfree p hp
        omega
      · by_contra hseen
        exact hsome ⟨p, hp, hrun, hseen⟩
  · intro hstays
    have hends := (alloc_ends s hnum (Nat.le_refl pgBits)).2.1
    cases hr : allocPhysFrames s num with
    | ok r => exact ⟨r, rfl⟩
    | error e =>
      have heq := allocFramesScan_inside hnum hfree hlimit hstays (Scanned.start s num) hr
      exact absurd (heq ▸ hr) hends

/-- **When `alloc_phys_frames` stays inside the table** and returns 0 if there is no run: exactly
when there is a run that it does not skip, or the last free page is late in its word. -/
theorem allocPhysFrames_stays_iff (s : Physical) (num : Nat) (hnum : 1 ≤ num)
    (hfree : ∀ p, s.Free p → p < s.mmLimit) (hlimit : s.mmLimit ≤ 64 * mmTableMax) :
    ReturnsInside s num ↔ ScanStays s num := by
  constructor
  · rintro ⟨r, hr, -⟩
    exact (allocPhysFrames_returns s num hnum hfree hlimit).mp ⟨r, hr⟩
  · intro hstays
    obtain ⟨r, hr⟩ := (allocPhysFrames_returns s num hnum hfree hlimit).mpr hstays
    refine ⟨r, hr, fun hnone => ?_⟩
    rcases allocFramesScan_outcome hnum (Scanned.start s num) hr with ⟨a, -, ht, -⟩ | ⟨rfl, -⟩
    · exact absurd ht.run (hnone a ht.low)
    · rfl

/-- The bit pattern of one word, all others being zero. -/
def oneWord (i : Nat) (w : BitVec 64) (mmLimit : Nat) : Physical where
  mmTable := ⟨fun j => if j.val = i then w else 0#64⟩
  mmLimit
  entryEnd := (mmLimit + 63) / 64
  entryEnd_eq := rfl

/-- The free pages of such a table lie in that word. -/
theorem oneWord_free {i mmLimit p : Nat} {w : BitVec 64} (h : (oneWord i w mmLimit).Free p) :
    p / 64 = i ∧ w.getLsbD (p % 64) = true := by
  have hlt := h.lt
  rw [Physical.Free, Bitmap.test_of_lt _ (by omega : p / 64 < mmTableMax)] at h
  simp only [oneWord] at h
  split at h
  case isTrue heq => exact ⟨heq, h⟩
  case isFalse => simp at h

/-- On a table with the two free pages 384 and 385 a request for two stays inside the table. -/
theorem allocPhysFrames_stays_one_run : (∀ p, (oneWord 6 3#64 448).Free p → p < 448) ∧
    (448 ≤ 64 * mmTableMax) ∧ (ReturnsInside (oneWord 6 3#64 448) 2 ↔ ScanStays (oneWord 6 3#64 448) 2) := by
  have hfree : ∀ p, (oneWord 6 3#64 448).Free p → p < 448 := fun p hp => by
    have := (oneWord_free hp).1
    omega
  exact ⟨hfree, by decide, allocPhysFrames_stays_iff _ 2 (by decide) hfree (by decide)⟩

/-- With page 300 the only free one, a request for two leaves the table. -/
theorem allocPhysFrames_leaves_table : (∀ p, (oneWord 4 (1#64 <<< 44) 448).Free p → p < 448) ∧
    ¬ReturnsInside (oneWord 4 (1#64 <<< 44) 448) 2 := by
  have hpage : ∀ p, (oneWord 4 (1#64 <<< 44) 448).Free p → p = 300 := fun p hp => by
    obtain ⟨hword, hbit⟩ := oneWord_free hp
    rw [getLsbD_one_shiftLeft _ _ (by decide)] at hbit
    simp only [decide_eq_true_eq] at hbit
    omega
  have hfree : ∀ p, (oneWord 4 (1#64 <<< 44) 448).Free p → p < 448 := fun p hp => by
    have := hpage p hp
    omega
  refine ⟨hfree, ?_⟩
  rintro ⟨r, hr, -⟩
  rcases (allocPhysFrames_returns _ 2 (by decide) hfree (by decide)).mp ⟨r, hr⟩ with
    ⟨p, -, hrun, -⟩ | hlate
  · have h₀ := hpage p (hrun 0 (by decide))
    have h₁ := hpage (p + 1) (hrun 1 (by decide))
    omega
  · have hlast : LastFree (oneWord 4 (1#64 <<< 44) 448) 300 448 :=
      ⟨by decide, by decide, by decide +kernel, fun p hlo _ hp => by have := hpage p hp; omega⟩
    have := (hlate 300 hlast).1
    omega

end Rtv.Mm
