import Rtv.Mm.Physical

/-!
# What the frame allocators do

One specification for each function of `Rtv.Mm.Physical`; later modules use these and never open a
function again.

Every function moves one range of pages from free to taken or back, and leaves all else alone:
`Marked s s' page num v`. An allocation either returns 0 and changes nothing, or marks taken a range
of pages that were all free: `Allocated`. What the four allocators differ in is where such a range
may lie, a predicate on its first page.
-/

namespace Rtv.Mm

open Rtv.Lib Rtv.Utils

/-! ## Marking -/

/-- `s'` is `s` with the pages `[page, page + num)` marked free (`v`) or taken. -/
structure Marked (s s' : Physical) (page num : Nat) (v : Bool) : Prop where
  limit : s'.mmLimit = s.mmLimit
  table : Written s.mmTable s'.mmTable page (page + num) v

/-- `page << PG_BITS` is the address of a page. -/
theorem shiftLeft_pgBits (page : Nat) : page <<< pgBits = page * pgSize := Nat.shiftLeft_eq page pgBits

/-- The two limits go together. -/
theorem Marked.entryEnd {s s' : Physical} {page num : Nat} {v : Bool} (h : Marked s s' page num v) :
    s'.entryEnd = s.entryEnd := by
  rw [s'.entryEnd_eq, s.entryEnd_eq, h.limit]

/-- After marking free: the old free pages and the range. -/
theorem Marked.free_iff {s s' : Physical} {page num : Nat} (h : Marked s s' page num true) (p : Nat) :
    s'.Free p ↔ (page ≤ p ∧ p < page + num) ∨ s.Free p := by
  unfold Physical.Free
  rw [h.table p]
  by_cases hin : page ≤ p ∧ p < page + num <;> simp [hin]

/-- After marking taken: the old free pages outside the range. -/
theorem Marked.taken_iff {s s' : Physical} {page num : Nat} (h : Marked s s' page num false)
    (p : Nat) : s'.Free p ↔ s.Free p ∧ ¬ (page ≤ p ∧ p < page + num) := by
  unfold Physical.Free
  rw [h.table p]
  by_cases hin : page ≤ p ∧ p < page + num <;> simp [hin]

/-- A free page lies inside `mm_table`. -/
theorem Physical.Free.lt {s : Physical} {p : Nat} (h : s.Free p) : p < 64 * mmTableMax := by
  have := Bitmap.lt_of_test h
  omega

/-- Page `a` is the first free page from `pos` on. -/
def FirstFree (s : Physical) (pos a : Nat) : Prop :=
  pos ≤ a ∧ s.Free a ∧ ∀ p, pos ≤ p → p < a → ¬s.Free p

/-- The lowest free page after the lowest one was taken. -/
theorem FirstFree.next {s s' : Physical} {pos f g : Nat} (hf : FirstFree s pos f)
    (hm : Marked s s' f 1 false) (hg : FirstFree s' pos g) : FirstFree s (f + 1) g := by
  obtain ⟨_, _, hlow⟩ := hf
  obtain ⟨hle, hfree, hlow'⟩ := hg
  obtain ⟨hfree, hne⟩ := (hm.taken_iff g).mp hfree
  have hge : f ≤ g := by
    by_contra hlt
    exact hlow g hle (by omega) hfree
  refine ⟨by omega, hfree, fun p hp hpg hpf => ?_⟩
  exact hlow' p (by omega) hpg ((hm.taken_iff p).mpr ⟨hpf, by omega⟩)

/-- The outcome of an allocation of `num` frames: it returns 0 and changes nothing, or it returns
the address of a range of `num` pages, free before and taken now, whose first page meets `At`. -/
def Allocated (At : Nat → Prop) (num : Nat) (s : Physical) (r : Nat × Physical) : Prop :=
  r = (0, s) ∨
    ∃ page, r.1 = page <<< pgBits ∧ At page ∧ (∀ p, page ≤ p → p < page + num → s.Free p) ∧
      Marked s r.2 page num false

/-! ## Ranges of bytes -/

/-- The page lies wholly inside the bytes `[start, stop)`. -/
def Inside (start stop p : Nat) : Prop := start ≤ p * pgSize ∧ (p + 1) * pgSize ≤ stop

/-- The page and the bytes `[start, stop)` have a byte in common. -/
def Touches (start stop p : Nat) : Prop := p * pgSize < stop ∧ start < (p + 1) * pgSize

instance (start stop p : Nat) : Decidable (Inside start stop p) :=
  inferInstanceAs (Decidable (_ ∧ _))

instance (start stop p : Nat) : Decidable (Touches start stop p) :=
  inferInstanceAs (Decidable (_ ∧ _))

/-- The bytes that `mm_table` covers. -/
def mmTableBytes : Nat := mmTableMax * 64 * pgSize

/-- A range whose bytes the table covers ends with one of its pages. -/
theorem div_le_of_bytes {stop : Nat} (h : stop ≤ mmTableBytes) : stop / pgSize ≤ 64 * mmTableMax := by
  unfold mmTableBytes pgSize at *
  omega

/-- Setting a range of bits inside the table marks its pages free. -/
theorem setRange_ok (s : Physical) (page num : Nat) (hin : page + num ≤ 64 * mmTableMax) :
    ∃ s' t, bitmap64SetRange s.mmTable page num = .ok t ∧ s' = { s with mmTable := t } ∧
      Marked s s' page num true := by
  obtain ⟨t, ht⟩ := bitmap64Range_ok writes_set s.mmTable hin
  exact ⟨_, t, ht, rfl, rfl, (bitmap64SetRange_spec ht).2⟩

/-- Clearing a range of bits inside the table marks its pages taken. -/
theorem clearRange_ok (s : Physical) (page num : Nat) (hin : page + num ≤ 64 * mmTableMax) :
    ∃ s' t, bitmap64ClearRange s.mmTable page num = .ok t ∧ s' = { s with mmTable := t } ∧
      Marked s s' page num false := by
  obtain ⟨t, ht⟩ := bitmap64Range_ok writes_clear s.mmTable hin
  exact ⟨_, t, ht, rfl, rfl, (bitmap64ClearRange_spec ht).2⟩

/-- `physical_free_range` frees the pages inside the range, provided it starts with a page or reaches
the next one. -/
theorem physicalFreeRange_whole (s : Physical) {start length : Nat}
    (hreach : start % pgSize = 0 ∨ pgSize ≤ start % pgSize + length)
    (hin : (start + length) / pgSize ≤ 64 * mmTableMax) :
    ∃ s', physicalFreeRange s start length = .ok s' ∧ s'.mmLimit = s.mmLimit ∧
      ∀ p, s'.Free p ↔ Inside start (start + length) p ∨ s.Free p := by
  unfold pgSize at hreach
  unfold mmTableMax pgSize at hin
  have hwrap : (start + length) % 2 ^ 64 = start + length := Nat.mod_eq_of_lt (by omega)
  have hround : ∀ p, ((start + 4095) / 4096 ≤ p ∧ p < (start + length) / 4096) ↔
      Inside start (start + length) p := by
    intro p
    unfold Inside pgSize
    omega
  -- both branches mark from the first page boundary to the last one
  suffices h : ∀ page num, page = (start + 4095) / 4096 → page + num = (start + length) / 4096 →
      ∃ s' t, bitmap64SetRange s.mmTable page num = .ok t ∧ s' = { s with mmTable := t } ∧
        ∀ p, s'.Free p ↔ Inside start (start + length) p ∨ s.Free p by
    unfold physicalFreeRange
    simp only [hwrap, pgSize, pgBits, Nat.shiftRight_eq_div_pow]
    by_cases hr : start % 4096 = 0
    · have hsub : sub64 length ((start + length) % 4096) = length - (start + length) % 4096 :=
        sub64_of_le (by omega) (by omega)
      obtain ⟨s', t, ht, rfl, hfree⟩ := h (start / 2 ^ 12)
        ((length - (start + length) % 4096) / 2 ^ 12) (by omega) (by omega)
      rw [if_pos hr, hsub, ht]
      exact ⟨_, rfl, rfl, hfree⟩
    · have hsub : sub64 (sub64 length (4096 - start % 4096)) ((start + length) % 4096) =
          length - (4096 - start % 4096) - (start + length) % 4096 := by
        rw [sub64_of_le (by omega : 4096 - start % 4096 ≤ length) (by omega)]
        exact sub64_of_le (by omega) (by omega)
      obtain ⟨s', t, ht, rfl, hfree⟩ := h (start / 2 ^ 12 + 1)
        ((length - (4096 - start % 4096) - (start + length) % 4096) / 2 ^ 12) (by omega) (by omega)
      rw [if_neg hr, hsub, ht]
      exact ⟨_, rfl, rfl, hfree⟩
  intro page num hpage hnum
  obtain ⟨s', t, ht, hs', hm⟩ := setRange_ok s page num
    (by unfold mmTableMax; omega)
  refine ⟨s', t, ht, hs', fun p => ?_⟩
  rw [hm.free_iff, hnum, hpage, hround]

/-- `physical_free_range` frees the pages inside the range, provided there is one. -/
theorem physicalFreeRange_spec (s : Physical) {start length : Nat}
    (hsome : ∃ p, Inside start (start + length) p) (hin : start + length ≤ mmTableBytes) :
    ∃ s', physicalFreeRange s start length = .ok s' ∧ s'.mmLimit = s.mmLimit ∧
      ∀ p, s'.Free p ↔ Inside start (start + length) p ∨ s.Free p := by
  obtain ⟨p, hlo, hhi⟩ := hsome
  refine physicalFreeRange_whole s ?_ (div_le_of_bytes hin)
  unfold pgSize at *
  omega

/-- `physical_take_range` takes the pages that the range touches. -/
theorem physicalTakeRange_spec (s : Physical) (start length : Nat)
    (hin : start + length ≤ mmTableBytes) :
    ∃ s', physicalTakeRange s start length = .ok s' ∧ s'.mmLimit = s.mmLimit ∧
      ∀ p, s'.Free p ↔ s.Free p ∧ ¬ Touches start (start + length) p := by
  unfold mmTableBytes mmTableMax pgSize at hin
  have hwrap : (start + length) % 2 ^ 64 = start + length := Nat.mod_eq_of_lt (by omega)
  have hround : ∀ p, (start / 4096 ≤ p ∧ p < (start + length + 4095) / 4096) ↔
      Touches start (start + length) p := by
    intro p
    unfold Touches pgSize
    omega
  -- both branches mark from the page of the first byte to the next boundary after the last one
  suffices h : ∀ page num, page = start / 4096 → page + num = (start + length + 4095) / 4096 →
      ∃ s' t, bitmap64ClearRange s.mmTable page num = .ok t ∧ s' = { s with mmTable := t } ∧
        ∀ p, s'.Free p ↔ s.Free p ∧ ¬ Touches start (start + length) p by
    unfold physicalTakeRange
    simp only [hwrap, pgSize, pgBits, Nat.shiftRight_eq_div_pow]
    by_cases hr : (start + length) % 4096 = 0
    · have hmod : (length + start % 4096) % 2 ^ 64 = length + start % 4096 :=
        Nat.mod_eq_of_lt (by omega)
      obtain ⟨s', t, ht, rfl, hfree⟩ := h (start / 2 ^ 12) ((length + start % 4096) / 2 ^ 12)
        (by omega) (by omega)
      rw [if_pos hr, hmod, ht]
      exact ⟨_, rfl, rfl, hfree⟩
    · have hmod : (length + start % 4096 + 4096) % 2 ^ 64 = length + start % 4096 + 4096 :=
        Nat.mod_eq_of_lt (by omega)
      have hsub : sub64 (length + start % 4096 + 4096) ((start + length) % 4096) =
          length + start % 4096 + 4096 - (start + length) % 4096 :=
        sub64_of_le (by omega) (by omega)
      obtain ⟨s', t, ht, rfl, hfree⟩ := h (start / 2 ^ 12)
        ((length + start % 4096 + 4096 - (start + length) % 4096) / 2 ^ 12) (by omega) (by omega)
      rw [if_neg hr, hmod, hsub, ht]
      exact ⟨_, rfl, rfl, hfree⟩
  intro page num hpage hnum
  obtain ⟨s', t, ht, hs', hm⟩ := clearRange_ok s page num
    (by unfold mmTableMax; omega)
  refine ⟨s', t, ht, hs', fun p => ?_⟩
  rw [hm.taken_iff, hnum, hpage, hround]

/-- A range that starts inside a page and does not reach the next one: the number of pages wraps, and
the call leaves the table. -/
theorem physicalFreeRange_wraps (s : Physical) {start length : Nat} (hpage : start % pgSize ≠ 0)
    (hshort : start % pgSize + length < pgSize) (hin : start + length < 2 ^ 64) (s' : Physical) :
    physicalFreeRange s start length ≠ .ok s' := by
  unfold pgSize at hpage hshort
  have hwrap : (start + length) % 2 ^ 64 = start + length := Nat.mod_eq_of_lt hin
  have hsub : sub64 (sub64 length (4096 - start % 4096)) ((start + length) % 4096) = 2 ^ 64 - 4096 := by
    unfold sub64
    omega
  intro h
  unfold physicalFreeRange at h
  simp only [hwrap, pgSize, pgBits, hpage, if_false, hsub] at h
  obtain ⟨t, ht, -⟩ := Exec.bind_eq_ok.mp h
  have hlast := (bitmap64SetRange_spec ht).1 (by decide)
  unfold mmTableMax at hlast
  omega

/-- `physical_free_range` marks some pages free, whatever the range is. -/
theorem physicalFreeRange_marks {s s' : Physical} {start length : Nat}
    (h : physicalFreeRange s start length = .ok s') : ∃ page num, Marked s s' page num true := by
  unfold physicalFreeRange at h
  dsimp only at h
  split at h
  · obtain ⟨t, ht, h⟩ := Exec.bind_eq_ok.mp h
    cases h
    exact ⟨_, _, rfl, (bitmap64SetRange_spec ht).2⟩
  · obtain ⟨t, ht, h⟩ := Exec.bind_eq_ok.mp h
    cases h
    exact ⟨_, _, rfl, (bitmap64SetRange_spec ht).2⟩

/-- `physical_take_range` marks some pages taken, whatever the range is. -/
theorem physicalTakeRange_marks {s s' : Physical} {start length : Nat}
    (h : physicalTakeRange s start length = .ok s') : ∃ page num, Marked s s' page num false := by
  unfold physicalTakeRange at h
  dsimp only at h
  split at h
  · obtain ⟨t, ht, h⟩ := Exec.bind_eq_ok.mp h
    cases h
    exact ⟨_, _, rfl, (bitmap64ClearRange_spec ht).2⟩
  · obtain ⟨t, ht, h⟩ := Exec.bind_eq_ok.mp h
    cases h
    exact ⟨_, _, rfl, (bitmap64ClearRange_spec ht).2⟩

/-- Whatever the range is, `physical_free_range` frees no page that it does not touch. -/
theorem physicalFreeRange_touches {s s' : Physical} {start length : Nat} (hstart : start < 2 ^ 64)
    (hlength : length < 2 ^ 64) (h : physicalFreeRange s start length = .ok s') {p : Nat}
    (hp : s'.Free p) : s.Free p ∨ Touches start (start + length) p := by
  -- the pages marked begin inside the range, and as many as the table has end inside it
  have hmark : ∀ {page num : Nat} {t : Bitmap mmTableMax},
      bitmap64SetRange s.mmTable page num = .ok t → s' = { s with mmTable := t } →
        (∀ q, page ≤ q → q < page + num → page + num ≤ 64 * mmTableMax →
          Touches start (start + length) q) → s.Free p ∨ Touches start (start + length) p := by
    intro page num t ht hs' hin
    obtain ⟨hlast, hw⟩ := bitmap64SetRange_spec ht
    have hm : Marked s s' page num true := by
      subst hs'
      exact ⟨rfl, hw⟩
    rcases (hm.free_iff p).mp hp with ⟨hlo, hhi⟩ | hfree
    · have := hlast (by omega)
      exact Or.inr (hin p hlo hhi (by omega))
    · exact Or.inl hfree
  unfold Touches pgSize at hmark ⊢
  unfold physicalFreeRange at h
  simp only [pgSize, pgBits, Nat.shiftRight_eq_div_pow] at h
  split at h
  · next hr =>
    obtain ⟨t, ht, h⟩ := Exec.bind_eq_ok.mp h
    refine hmark ht (Except.ok.inj h).symm fun q hlo hhi _ => ?_
    unfold sub64 at hhi
    omega
  · next hr =>
    obtain ⟨t, ht, h⟩ := Exec.bind_eq_ok.mp h
    refine hmark ht (Except.ok.inj h).symm fun q hlo hhi hin => ?_
    unfold sub64 at hhi hin
    unfold mmTableMax at hin
    omega

/-- A word whose pages are as they were is as it was. -/
theorem word_eq_of_free {s s' : Physical} (i : Fin mmTableMax)
    (h : ∀ p, p / 64 = i.val → (s'.Free p ↔ s.Free p)) : s'.mmTable.word i = s.mmTable.word i := by
  refine BitVec.eq_of_getLsbD_eq fun j hj => ?_
  rw [← s'.mmTable.test_word i hj, ← s.mmTable.test_word i hj]
  exact Bool.eq_iff_iff.mpr (h (64 * i.val + j) (by omega))

/-- `physical_set_limit` leaves the table alone. -/
theorem physicalSetLimit_free (s : Physical) (limit p : Nat) :
    (physicalSetLimit s limit).Free p ↔ s.Free p := Iff.rfl

/-- A page below a limit has its word below `entry_end`. -/
theorem Physical.div_lt_entryEnd (s : Physical) {p : Nat} (h : p < s.mmLimit) :
    p / 64 < s.entryEnd := by
  rw [s.entryEnd_eq]
  omega

/-! ## Single frames -/

/-- One round of the loop moves a one-bit word down by one. -/
theorem shiftLeft_shiftRight_one {k : Nat} (hk : k + 1 < 64) :
    (1#64 <<< (k + 1)) >>> 1 = 1#64 <<< k := by
  refine BitVec.eq_of_getLsbD_eq fun j hj => ?_
  rw [BitVec.getLsbD_ushiftRight, getLsbD_one_shiftLeft _ _ hk, getLsbD_one_shiftLeft _ _ (by omega)]
  simp only [decide_eq_decide]
  omega

/-- The loop counts the position of the bit of a one-bit word. -/
theorem shiftPos_one : ∀ (fuel k pos : Nat), k + 1 < fuel → k < 64 →
    shiftPos fuel (1#64 <<< k) pos = .ok (pos + k + 1)
  | 0, k, pos, hf, _ => by omega
  | 1, k, pos, hf, _ => by omega
  | fuel + 2, 0, pos, _, _ => by simp [shiftPos]
  | fuel + 2, k + 1, pos, hf, hk => by
    have hne : 1#64 <<< (k + 1) ≠ 0#64 := by
      intro hz
      have := (eq_zero_iff_getLsbD _).mp hz (k + 1) hk
      rw [getLsbD_one_shiftLeft _ _ hk] at this
      simp at this
    rw [shiftPos, if_pos hne, shiftLeft_shiftRight_one hk,
      shiftPos_one (fuel + 1) k (pos + 1) (by omega) (by omega)]
    congr 1
    omega

/-- The position computed for a word is that of its lowest set bit. -/
theorem shiftPos_lowest {w : BitVec 64} {k : Nat} (hk : k < 64) (hset : w.getLsbD k = true)
    (hlow : ∀ j < k, w.getLsbD j = false) : shiftPos 65 ((w &&& -w) >>> 1) 0 = .ok k := by
  rw [and_neg_eq hk hset hlow]
  cases k with
  | zero => rfl
  | succ k =>
    rw [shiftLeft_shiftRight_one hk, shiftPos_one 65 k 0 (by omega) (by omega)]
    simp

/-- A word of `mm_table` holds the pages with its index, one bit each. -/
theorem free_iff_word {s : Physical} {i : Nat} {w : BitVec 64} (h : s.mmTable.load i = .ok w)
    {p : Nat} (hp : p / 64 = i) : s.Free p ↔ w.getLsbD (p % 64) = true := by
  obtain ⟨hi, rfl⟩ := Bitmap.load_eq_ok.mp h
  subst hp
  rw [Physical.Free, Bitmap.test_of_lt _ hi]

/-- No page of a zero word is free. -/
theorem not_free_of_zero {s : Physical} {i : Nat} (h : s.mmTable.load i = .ok 0#64) {p : Nat}
    (hp : p / 64 = i) : ¬ s.Free p := by
  rw [free_iff_word h hp]
  simp

/-- Storing a word with one bit cleared marks one page taken. -/
theorem marked_of_clearBit {s : Physical} {i k : Nat} {w : BitVec 64} {t : Bitmap mmTableMax}
    (hload : s.mmTable.load i = .ok w) (hk : k < 64)
    (hstore : s.mmTable.store i (clearBit64 w k) = .ok t) :
    Marked s { s with mmTable := t } (64 * i + k) 1 false := by
  obtain ⟨hi, rfl⟩ := Bitmap.load_eq_ok.mp hload
  refine ⟨rfl, fun p => ?_⟩
  rw [Bitmap.test_store hstore]
  by_cases hp : p / 64 = i
  · subst hp
    rw [if_pos rfl, getLsbD_clearBit64 _ hk (Nat.mod_lt _ (by decide)), ← Bitmap.test_of_lt]
    by_cases hpk : p % 64 = k
    · rw [if_pos (by omega)]
      simp [hpk]
    · rw [if_neg (by omega)]
      simp [hpk]
  · rw [if_neg hp, if_neg (by omega)]

/-- **The single-frame scan** over the words `[i, stop)`: it takes their lowest free page, and
returns 0 when they hold none. -/
theorem allocFrameScan_spec {s : Physical} {stop : Nat} :
    ∀ {fuel i : Nat} {r : Nat × Physical}, allocFrameScan s stop fuel i = .ok r →
      (r = (0, s) ∧ ∀ p, 64 * i ≤ p → p < 64 * stop → ¬ s.Free p) ∨
      ∃ page, r.1 = page <<< pgBits ∧ 64 * i ≤ page ∧ page < 64 * stop ∧ s.Free page ∧
        (∀ p, 64 * i ≤ p → p < page → ¬ s.Free p) ∧ Marked s r.2 page 1 false
  | 0, i, r, h => by cases h
  | fuel + 1, i, r, h => by
    unfold allocFrameScan at h
    split at h
    · next hi =>
      obtain ⟨w, hw, h₁⟩ := Exec.bind_eq_ok.mp h
      split at h₁
      · next hne =>
        obtain ⟨k, hk, hset, hlow⟩ := exists_lowest hne
        rw [shiftPos_lowest hk hset hlow, Exec.ok_bind] at h₁
        obtain ⟨t, hs, h₂⟩ := Exec.bind_eq_ok.mp h₁
        cases h₂
        refine .inr ⟨64 * i + k, ?_, by omega, by omega, ?_, fun p hlo hhi => ?_,
          marked_of_clearBit hw hk hs⟩
        · rw [Nat.shiftLeft_eq i, Nat.mul_comm]
        · rw [free_iff_word hw (by omega), show (64 * i + k) % 64 = k by omega]
          exact hset
        · rw [free_iff_word hw (by omega), hlow _ (by omega)]
          simp
      · next hz =>
        rw [not_not.mp hz] at hw
        have hskip : ∀ p, 64 * i ≤ p → p < 64 * (i + 1) → ¬ s.Free p := fun p hlo hhi =>
          not_free_of_zero hw (by omega)
        rcases allocFrameScan_spec h₁ with ⟨hr, hnone⟩ | ⟨page, hr, hlo, hhi, hfree, hlow, hm⟩
        · refine .inl ⟨hr, fun p hp hp' => ?_⟩
          by_cases hnext : p < 64 * (i + 1)
          · exact hskip p hp hnext
          · exact hnone p (by omega) hp'
        · refine .inr ⟨page, hr, by omega, hhi, hfree, fun p hp hp' => ?_, hm⟩
          by_cases hnext : p < 64 * (i + 1)
          · exact hskip p hp hnext
          · exact hlow p (by omega) hp'
    · next hi =>
      cases h
      exact .inl ⟨rfl, fun p hlo hhi => absurd hhi (by omega)⟩

/-- The single-frame scan returns as long as its words lie inside `mm_table`. -/
theorem allocFrameScan_ok {s : Physical} {stop : Nat} (hstop : stop ≤ mmTableMax) :
    ∀ {fuel i : Nat}, 0 < fuel → stop < fuel + i → ∃ r, allocFrameScan s stop fuel i = .ok r
  | 0, i, hpos, _ => absurd hpos (Nat.lt_irrefl 0)
  | fuel + 1, i, _, hf => by
    unfold allocFrameScan
    by_cases hi : i < stop
    · rw [if_pos hi, Bitmap.load_of_lt _ (by omega : i < mmTableMax), Exec.ok_bind]
      split
      · next hne =>
        obtain ⟨k, hk, hset, hlow⟩ := exists_lowest hne
        rw [shiftPos_lowest hk hset hlow, Exec.ok_bind,
          Bitmap.store_of_lt _ _ (by omega : i < mmTableMax)]
        exact ⟨_, rfl⟩
      · exact allocFrameScan_ok hstop (by omega) (by omega)
    · rw [if_neg hi]
      exact ⟨_, rfl⟩

/-- `alloc_phys_frame` takes the lowest free page at or above 1MB. -/
theorem allocPhysFrame_first {s : Physical} {r : Nat × Physical} (h : allocPhysFrame s = .ok r) :
    r = (0, s) ∨ ∃ page, r.1 = page <<< pgBits ∧ FirstFree s 256 page ∧ Marked s r.2 page 1 false := by
  rcases allocFrameScan_spec h with ⟨hr, _⟩ | ⟨page, hr, hlo, _, hfree, hlow, hm⟩
  · exact .inl hr
  · exact .inr ⟨page, hr, ⟨hlo, hfree, hlow⟩, hm⟩

/-- `alloc_phys_frame`: a free page at or above 1MB. -/
theorem allocPhysFrame_spec {s : Physical} {r : Nat × Physical} (h : allocPhysFrame s = .ok r) :
    Allocated (fun page => 256 ≤ page) 1 s r := by
  rcases allocPhysFrame_first h with hr | ⟨page, hr, ⟨hlo, hfree, _⟩, hm⟩
  · exact .inl hr
  · exact .inr ⟨page, hr, hlo, fun p hp hp' => (show p = page by omega) ▸ hfree, hm⟩

/-- `alloc_phys_frame_lowmem`: the lowest free page below 1MB. -/
theorem allocPhysFrameLowmem_spec {s : Physical} {r : Nat × Physical}
    (h : allocPhysFrameLowmem s = .ok r) : Allocated (fun page => page < 256) 1 s r := by
  rcases allocFrameScan_spec h with ⟨hr, _⟩ | ⟨page, hr, _, hhi, hfree, _, hm⟩
  · exact .inl hr
  · exact .inr ⟨page, hr, hhi, fun p hp hp' => (show p = page by omega) ▸ hfree, hm⟩

/-! ## Runs of frames -/

/-- `bitmap64_get` finds free pages. -/
theorem free_of_get {s : Physical} {p : Nat} (h : bitmap64Get s.mmTable p = .ok true) : s.Free p :=
  (bitmap64Get_eq_ok.mp h).2

/-- The skipping loop stops at a free page. -/
theorem skipTaken_spec {s : Physical} : ∀ {fuel pos pos' : Nat}, skipTaken s fuel pos = .ok pos' →
    pos ≤ pos' ∧ s.Free pos'
  | 0, pos, pos', h => by cases h
  | fuel + 1, pos, pos', h => by
    unfold skipTaken at h
    obtain ⟨b, hb, h₁⟩ := Exec.bind_eq_ok.mp h
    split at h₁
    · next ht =>
      cases h₁
      subst ht
      exact ⟨Nat.le_refl _, free_of_get hb⟩
    · obtain ⟨hle, hfree⟩ := skipTaken_spec h₁
      exact ⟨by omega, hfree⟩

/-- A free page in front of free pages. -/
theorem free_cons {s : Physical} {cur stop : Nat} (hcur : s.Free cur)
    (hall : ∀ p, cur + 1 ≤ p → p < stop → s.Free p) : ∀ p, cur ≤ p → p < stop → s.Free p := by
  intro p hp hp'
  rcases Nat.eq_or_lt_of_le hp with rfl | hlt
  · exact hcur
  · exact hall p hlt hp'

/-- The counting loop passes over free pages only, and counts them. -/
theorem countFree_spec {s : Physical} {num : Nat} : ∀ {fuel cur count : Nat} {r : Nat × Nat},
    countFree s num fuel cur count = .ok r →
      cur ≤ r.1 ∧ r.2 + cur = count + r.1 ∧ ∀ p, cur ≤ p → p < r.1 → s.Free p
  | 0, cur, count, r, h => by cases h
  | fuel + 1, cur, count, r, h => by
    unfold countFree at h
    split at h
    · obtain ⟨b, hb, h₁⟩ := Exec.bind_eq_ok.mp h
      split at h₁
      · next ht =>
        subst ht
        obtain ⟨hle, hcount, hall⟩ := countFree_spec h₁
        exact ⟨by omega, by omega, free_cons (free_of_get hb) hall⟩
      · cases h₁
        exact ⟨Nat.le_refl _, rfl, fun p hp hp' => absurd hp' (by simp only; omega)⟩
    · cases h
      exact ⟨Nat.le_refl _, rfl, fun p hp hp' => absurd hp' (by simp only; omega)⟩

/-- Marking a counted run taken. -/
theorem allocated_of_clearRange {At : Nat → Prop} {s : Physical} {pos num : Nat}
    {t : Bitmap mmTableMax} (hpos : At pos) (hfree : ∀ p, pos ≤ p → p < pos + num → s.Free p)
    (h : bitmap64ClearRange s.mmTable pos num = .ok t) :
    Allocated At num s (pos <<< pgBits, { s with mmTable := t }) :=
  .inr ⟨pos, rfl, hpos, hfree, rfl, (bitmap64ClearRange_spec h).2⟩

theorem allocFramesScan_spec {s : Physical} {num : Nat} :
    ∀ {fuel i pos : Nat} {r : Nat × Physical}, 256 ≤ pos →
      allocFramesScan s num fuel i pos = .ok r → Allocated (fun page => 256 ≤ page) num s r
  | 0, i, pos, r, _, h => by cases h
  | fuel + 1, i, pos, r, hpos, h => by
    unfold allocFramesScan at h
    split at h
    · obtain ⟨w, _, h₁⟩ := Exec.bind_eq_ok.mp h
      split at h₁
      · obtain ⟨pos', hskip, h₂⟩ := Exec.bind_eq_ok.mp h₁
        obtain ⟨⟨cur, count⟩, hcount, h₃⟩ := Exec.bind_eq_ok.mp h₂
        obtain ⟨hle, _⟩ := skipTaken_spec hskip
        obtain ⟨hcur, hnum, hfree⟩ := countFree_spec hcount
        simp only at hcur hnum hfree h₃
        split at h₃
        · next heq =>
          obtain ⟨t, ht, h₄⟩ := Exec.bind_eq_ok.mp h₃
          cases h₄
          exact allocated_of_clearRange (by omega) (fun p hp hp' => hfree p hp (by omega)) ht
        · exact allocFramesScan_spec (by omega) h₃
      · exact allocFramesScan_spec (by omega) h₁
    · cases h
      exact .inl rfl

/-- `alloc_phys_frames`: `num` free pages in a row, at or above 1MB. -/
theorem allocPhysFrames_spec {s : Physical} {num : Nat} {r : Nat × Physical}
    (h : allocPhysFrames s num = .ok r) : Allocated (fun page => 256 ≤ page) num s r :=
  allocFramesScan_spec (Nat.le_refl 256) h

/-! ## Aligned runs of frames -/

/-- The skipping loop moves forward, on multiples of its stride. -/
theorem skipTakenAligned_spec {s : Physical} {posInc : Nat} : ∀ {fuel pos pos' : Nat},
    skipTakenAligned s posInc fuel pos = .ok pos' → pos ≤ pos' ∧ (posInc ∣ pos → posInc ∣ pos')
  | 0, pos, pos', h => by cases h
  | fuel + 1, pos, pos', h => by
    unfold skipTakenAligned at h
    split at h
    · obtain ⟨b, hb, h₁⟩ := Exec.bind_eq_ok.mp h
      split at h₁
      · cases h₁
        exact ⟨Nat.le_refl _, id⟩
      · obtain ⟨hle, hdvd⟩ := skipTakenAligned_spec h₁
        exact ⟨by omega, fun h => hdvd (Nat.dvd_add h (Nat.dvd_refl _))⟩
    · cases h
      exact ⟨Nat.le_refl _, id⟩

/-- The bounded counting loop passes over free pages only, and counts them. -/
theorem countFreeLimited_spec {s : Physical} {num : Nat} :
    ∀ {fuel cur count : Nat} {r : Nat × Nat}, countFreeLimited s num fuel cur count = .ok r →
      cur ≤ r.1 ∧ r.2 + cur = count + r.1 ∧ ∀ p, cur ≤ p → p < r.1 → s.Free p
  | 0, cur, count, r, h => by cases h
  | fuel + 1, cur, count, r, h => by
    unfold countFreeLimited at h
    split at h
    · obtain ⟨b, hb, h₁⟩ := Exec.bind_eq_ok.mp h
      split at h₁
      · next ht =>
        subst ht
        obtain ⟨hle, hcount, hall⟩ := countFreeLimited_spec h₁
        exact ⟨by omega, by omega, free_cons (free_of_get hb) hall⟩
      · cases h₁
        exact ⟨Nat.le_refl _, rfl, fun p hp hp' => absurd hp' (by simp only; omega)⟩
    · cases h
      exact ⟨Nat.le_refl _, rfl, fun p hp hp' => absurd hp' (by simp only; omega)⟩

/-- Rounding a position up to the next multiple. -/
theorem roundUp_spec {posInc : Nat} (h : 0 < posInc) (pos : Nat) :
    (pos ≤ if pos % posInc ≠ 0 then pos + posInc - pos % posInc else pos) ∧
      posInc ∣ if pos % posInc ≠ 0 then pos + posInc - pos % posInc else pos := by
  have hmod := Nat.mod_lt pos h
  split
  · refine ⟨by omega, pos / posInc + 1, ?_⟩
    have := Nat.div_add_mod pos posInc
    rw [Nat.mul_add, Nat.mul_one]
    omega
  · next hz => exact ⟨Nat.le_refl _, Nat.dvd_of_mod_eq_zero (not_not.mp hz)⟩

theorem allocFramesAlignedScan_spec {s : Physical} {num posInc iInc : Nat}
    (hword : iInc = 0 → posInc ∣ 64) :
    ∀ {fuel i pos : Nat} {r : Nat × Physical}, 256 ≤ pos → posInc ∣ pos →
      allocFramesAlignedScan s num posInc iInc fuel i pos = .ok r →
      Allocated (fun page => 256 ≤ page ∧ posInc ∣ page) num s r
  | 0, i, pos, r, _, _, h => by cases h
  | fuel + 1, i, pos, r, hpos, hdvd, h => by
    unfold allocFramesAlignedScan at h
    split at h
    · obtain ⟨w, _, h₁⟩ := Exec.bind_eq_ok.mp h
      split at h₁
      · obtain ⟨pos', hskip, h₂⟩ := Exec.bind_eq_ok.mp h₁
        obtain ⟨⟨cur, count⟩, hcount, h₃⟩ := Exec.bind_eq_ok.mp h₂
        obtain ⟨hle, hdvd'⟩ := skipTakenAligned_spec hskip
        obtain ⟨hcur, hnum, hfree⟩ := countFreeLimited_spec hcount
        simp only at hcur hnum hfree h₃
        split at h₃
        · obtain ⟨t, ht, h₄⟩ := Exec.bind_eq_ok.mp h₃
          cases h₄
          exact allocated_of_clearRange ⟨by omega, hdvd' hdvd⟩
            (fun p hp hp' => hfree p hp (by omega)) ht
        · split at h₃
          · cases h₃
            exact .inl rfl
          · split at h₃
            · cases h₃
            · next hinc =>
              obtain ⟨hup, hdvd''⟩ := roundUp_spec (Nat.pos_of_ne_zero hinc) (cur + 1)
              exact allocFramesAlignedScan_spec hword (by omega) hdvd'' h₃
      · split at h₁
        · exact allocFramesAlignedScan_spec hword (by omega) (Nat.dvd_add hdvd (Nat.dvd_refl _)) h₁
        · next hinc =>
          exact allocFramesAlignedScan_spec hword (by omega)
            (Nat.dvd_add hdvd (hword (by omega))) h₁
    · cases h
      exact .inl rfl

/-- The stride of an aligned scan: a multiple of the word when it is at least one word, a divisor
of the word otherwise. -/
theorem stride_cases (k : Nat) :
    (0 < 2 ^ k / 64 → 2 ^ k = 64 * (2 ^ k / 64)) ∧ (2 ^ k / 64 = 0 → 2 ^ k ∣ 64) := by
  rcases Nat.lt_or_ge k 6 with hk | hk
  · have hdvd : 2 ^ k ∣ 64 := Nat.pow_dvd_pow 2 (n := 6) (by omega)
    have hlt : 2 ^ k < 64 := Nat.pow_lt_pow_right (n := 6) (by decide) hk
    exact ⟨fun h => by omega, fun _ => hdvd⟩
  · have hdvd : (64 : Nat) ∣ 2 ^ k := Nat.pow_dvd_pow 2 (m := 6) hk
    have := Nat.two_pow_pos k
    exact ⟨fun _ => by omega, fun h => by omega⟩

/-- The stride of an aligned scan, in pages. -/
theorem stride_eq {n : Nat} (hn : pgBits ≤ n) : 2 ^ n >>> pgBits = 2 ^ (n - pgBits) := by
  rw [Nat.shiftRight_eq_div_pow, Nat.pow_div hn (by decide)]

/-- `alloc_phys_frames_aligned`: `num` free pages in a row, at or above 1MB, the first one at a
multiple of the alignment. -/
theorem allocPhysFramesAligned_spec {s : Physical} {num n : Nat} {r : Nat × Physical}
    (hn : pgBits ≤ n) (h : allocPhysFramesAligned s num (2 ^ n) = .ok r) :
    Allocated (fun page => 256 ≤ page ∧ 2 ^ (n - pgBits) ∣ page) num s r := by
  unfold allocPhysFramesAligned at h
  simp only [stride_eq hn, shiftRight_six, Nat.shiftLeft_eq] at h
  generalize n - pgBits = k at h ⊢
  refine allocFramesAlignedScan_spec (stride_cases k).2 ?_ ?_ h
  · split <;> omega
  · rcases Nat.lt_or_ge k 9 with hk | hk
    · have hdvd : 2 ^ k ∣ 256 := Nat.pow_dvd_pow 2 (n := 8) (by omega)
      have hle : 2 ^ k ≤ 256 := Nat.le_of_dvd (by decide) hdvd
      rw [if_pos (by omega)]
      exact hdvd
    · have hle : 2 ^ 9 ≤ 2 ^ k := Nat.pow_le_pow_right (by decide) hk
      have heq := (stride_cases k).1 (by omega)
      have hstart : 2 ^ k = 2 ^ k / 64 * 2 ^ 6 := by omega
      rw [if_neg (by omega)]
      exact ⟨1, by omega⟩

/-! ## Giving frames back -/

/-- `free_phys_frame` marks one page free. -/
theorem freePhysFrame_spec {s s' : Physical} {frame : Nat} (h : freePhysFrame s frame = .ok s') :
    Marked s s' (frame >>> pgBits) 1 true := by
  obtain ⟨t, ht, h₁⟩ := Exec.bind_eq_ok.mp h
  cases h₁
  refine ⟨rfl, fun p => ?_⟩
  rw [test_bitmap64Set ht]
  by_cases hp : p = frame >>> pgBits
  · rw [if_pos (by omega)]
    simp [hp]
  · rw [if_neg (by omega)]
    simp [hp]

/-- `free_phys_frames` marks `num` pages free. -/
theorem freePhysFrames_spec {s s' : Physical} {frame num : Nat}
    (h : freePhysFrames s frame num = .ok s') : Marked s s' (frame >>> pgBits) num true := by
  obtain ⟨t, ht, h₁⟩ := Exec.bind_eq_ok.mp h
  cases h₁
  exact ⟨rfl, (bitmap64SetRange_spec ht).2⟩

/-! ## The scans end

The fuel of every scan is enough: a call that does not return has left `mm_table`. -/

theorem bitmap64Get_ends (s : Physical) (pos : Nat) : Exec.Ends (bitmap64Get s.mmTable pos) := by
  rw [bitmap64Get_eq]
  split
  · exact Exec.ends_ok _
  · exact Exec.ends_fault

theorem load_ends (s : Physical) (i : Nat) : Exec.Ends (s.mmTable.load i) := by
  unfold Bitmap.load
  split
  · exact Exec.ends_ok _
  · exact Exec.ends_fault

/-- Marking a counted run taken stays inside `mm_table`. -/
theorem clearRange_ends {s : Physical} {pos num : Nat} (hnum : 1 ≤ num)
    (h : ∀ p, pos ≤ p → p < pos + num → s.Free p) :
    Exec.Ends (bitmap64ClearRange s.mmTable pos num) := by
  have hlast := (h (pos + num - 1) (by omega) (by omega)).lt
  obtain ⟨t, ht⟩ := bitmap64Range_ok writes_clear s.mmTable
    (show pos + num ≤ 64 * mmTableMax by omega)
  rw [bitmap64ClearRange, ht]
  exact Exec.ends_ok _

theorem allocFrameScan_ends {s : Physical} {stop : Nat} : ∀ {fuel i : Nat}, 0 < fuel →
    mmTableMax < fuel + i → Exec.Ends (allocFrameScan s stop fuel i)
  | 0, i, h, _ => absurd h (Nat.lt_irrefl 0)
  | fuel + 1, i, _, h => by
    unfold allocFrameScan
    split
    · refine (load_ends s i).bind fun w hw => ?_
      obtain ⟨hi, _⟩ := Bitmap.load_eq_ok.mp hw
      split
      · next hne =>
        obtain ⟨k, hk, hset, hlow⟩ := exists_lowest hne
        rw [shiftPos_lowest hk hset hlow, Exec.ok_bind, Bitmap.store_of_lt _ _ hi]
        exact Exec.ends_ok _
      · exact allocFrameScan_ends (by omega) (by omega)
    · exact Exec.ends_ok _

theorem skipTaken_ends {s : Physical} : ∀ {fuel pos : Nat}, 0 < fuel →
    64 * mmTableMax < fuel + pos → Exec.Ends (skipTaken s fuel pos)
  | 0, pos, h, _ => absurd h (Nat.lt_irrefl 0)
  | fuel + 1, pos, _, h => by
    unfold skipTaken
    refine (bitmap64Get_ends s pos).bind fun b hb => ?_
    obtain ⟨hlt, _⟩ := bitmap64Get_eq_ok.mp hb
    split
    · exact Exec.ends_ok _
    · exact skipTaken_ends (by omega) (by omega)

theorem countFree_ends {s : Physical} {num : Nat} : ∀ {fuel cur count : Nat}, 0 < fuel →
    64 * mmTableMax < fuel + cur → Exec.Ends (countFree s num fuel cur count)
  | 0, cur, count, h, _ => absurd h (Nat.lt_irrefl 0)
  | fuel + 1, cur, count, _, h => by
    unfold countFree
    split
    · refine (bitmap64Get_ends s cur).bind fun b hb => ?_
      obtain ⟨hlt, _⟩ := bitmap64Get_eq_ok.mp hb
      split
      · exact countFree_ends (by omega) (by omega)
      · exact Exec.ends_ok _
    · exact Exec.ends_ok _

theorem allocFramesScan_ends {s : Physical} {num : Nat} (hnum : 1 ≤ num) :
    ∀ {fuel i pos : Nat}, 0 < fuel → i = pos / 64 → 64 * mmTableMax < fuel + pos →
      Exec.Ends (allocFramesScan s num fuel i pos)
  | 0, i, pos, h, _, _ => absurd h (Nat.lt_irrefl 0)
  | fuel + 1, i, pos, _, hi, h => by
    unfold allocFramesScan
    split
    · refine (load_ends s i).bind fun w hw => ?_
      obtain ⟨hlt, _⟩ := Bitmap.load_eq_ok.mp hw
      split
      · refine (skipTaken_ends (by decide) (by unfold scanFuel; omega)).bind fun pos' hpos' => ?_
        obtain ⟨hle, hfree⟩ := skipTaken_spec hpos'
        refine (countFree_ends (by decide) (by unfold scanFuel; omega)).bind fun r hr => ?_
        obtain ⟨hcur, hcount, hall⟩ := countFree_spec hr
        simp only
        split
        · exact (clearRange_ends hnum fun p hp hp' => hall p hp (by omega)).bind
            fun t _ => Exec.ends_ok _
        · exact allocFramesScan_ends hnum (by omega) (shiftRight_six _) (by omega)
      · exact allocFramesScan_ends hnum (by omega) (by omega) (by omega)
    · exact Exec.ends_ok _

theorem skipTakenAligned_ends {s : Physical} {posInc : Nat} (hinc : 0 < posInc) :
    ∀ {fuel pos : Nat}, 0 < fuel → 64 * mmTableMax < fuel + pos →
      Exec.Ends (skipTakenAligned s posInc fuel pos)
  | 0, pos, h, _ => absurd h (Nat.lt_irrefl 0)
  | fuel + 1, pos, _, h => by
    unfold skipTakenAligned
    split
    · refine (bitmap64Get_ends s pos).bind fun b hb => ?_
      obtain ⟨hlt, _⟩ := bitmap64Get_eq_ok.mp hb
      split
      · exact Exec.ends_ok _
      · exact skipTakenAligned_ends hinc (by omega) (by omega)
    · exact Exec.ends_ok _

theorem countFreeLimited_ends {s : Physical} {num : Nat} : ∀ {fuel cur count : Nat}, 0 < fuel →
    64 * mmTableMax < fuel + cur → Exec.Ends (countFreeLimited s num fuel cur count)
  | 0, cur, count, h, _ => absurd h (Nat.lt_irrefl 0)
  | fuel + 1, cur, count, _, h => by
    unfold countFreeLimited
    split
    · refine (bitmap64Get_ends s cur).bind fun b hb => ?_
      obtain ⟨hlt, _⟩ := bitmap64Get_eq_ok.mp hb
      split
      · exact countFreeLimited_ends (by omega) (by omega)
      · exact Exec.ends_ok _
    · exact Exec.ends_ok _

theorem allocFramesAlignedScan_ends {s : Physical} {num posInc iInc : Nat} (hnum : 1 ≤ num)
    (hinc : 0 < posInc) (hword : 0 < iInc → posInc = 64 * iInc) :
    ∀ {fuel i pos : Nat}, 0 < fuel → i = pos / 64 → 64 * mmTableMax < fuel + pos →
      Exec.Ends (allocFramesAlignedScan s num posInc iInc fuel i pos)
  | 0, i, pos, h, _, _ => absurd h (Nat.lt_irrefl 0)
  | fuel + 1, i, pos, _, hi, h => by
    unfold allocFramesAlignedScan
    split
    · refine (load_ends s i).bind fun w hw => ?_
      obtain ⟨hlt, _⟩ := Bitmap.load_eq_ok.mp hw
      split
      · refine (skipTakenAligned_ends hinc (by decide) (by unfold scanFuel; omega)).bind
          fun pos' hpos' => ?_
        obtain ⟨hle, _⟩ := skipTakenAligned_spec hpos'
        refine (countFreeLimited_ends (by decide) (by unfold scanFuel; omega)).bind fun r hr => ?_
        obtain ⟨hcur, hcount, hall⟩ := countFreeLimited_spec hr
        simp only
        split
        · exact (clearRange_ends hnum fun p hp hp' => hall p hp (by omega)).bind
            fun t _ => Exec.ends_ok _
        · split
          · exact Exec.ends_ok _
          · rw [if_neg (Nat.ne_of_gt hinc)]
            obtain ⟨hup, _⟩ := roundUp_spec hinc (r.1 + 1)
            exact allocFramesAlignedScan_ends hnum hinc hword (by omega) (shiftRight_six _) (by omega)
      · split
        · next hpos =>
          have := hword hpos
          exact allocFramesAlignedScan_ends hnum hinc hword (by omega) (by omega) (by omega)
        · exact allocFramesAlignedScan_ends hnum hinc hword (by omega) (by omega) (by omega)
    · exact Exec.ends_ok _

/-- Every allocation call ends: it returns, or it has left `mm_table`. -/
theorem alloc_ends (s : Physical) {num n : Nat} (hnum : 1 ≤ num) (hn : pgBits ≤ n) :
    Exec.Ends (allocPhysFrame s) ∧ Exec.Ends (allocPhysFrames s num) ∧
      Exec.Ends (allocPhysFramesAligned s num (2 ^ n)) ∧ Exec.Ends (allocPhysFrameLowmem s) := by
  refine ⟨allocFrameScan_ends (by decide) (by decide),
    allocFramesScan_ends hnum (by decide) rfl (by decide), ?_,
    allocFrameScan_ends (by decide) (by decide)⟩
  unfold allocPhysFramesAligned
  simp only [stride_eq hn, shiftRight_six, Nat.shiftLeft_eq]
  exact allocFramesAlignedScan_ends hnum (Nat.two_pow_pos _) (stride_cases _).1 (by decide) (by omega)
    (by unfold scanFuel; omega)

end Rtv.Mm
