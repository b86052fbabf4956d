import Rtv.Mm.Ranges

/-!
# Giving back pages behind `mm_table`

`physical_free_range` does not compare its range with the table. For pages behind it
`bitmap64_set_range` goes on with the words that follow `mm_table` in the kernel's memory: where they can
be written it returns, elsewhere the write page-faults. Which of them can be written is a parameter,
`behind`, by their index from the begin of the table on. They belong to other parts of the kernel and are
not in the model: a write to one of them is taken to change nothing that is read afterwards.

If none can be written, the function is the one of `Rtv.Mm.Physical` (`physicalFreeRangeBehind_none`).
-/

namespace Rtv.Mm

open Rtv.Lib Rtv.Utils

variable {n : Nat} {behind : Nat → Bool}

/-! ## Writing the words -/

/-- A word of the table, or one behind it that can be written. -/
def Writable (n : Nat) (behind : Nat → Bool) (i : Nat) : Prop := i < n ∨ behind i = true

instance (n : Nat) (behind : Nat → Bool) (i : Nat) : Decidable (Writable n behind i) :=
  inferInstanceAs (Decidable (_ ∨ _))

/-- `*ptr |= mask`. -/
def orWord (behind : Nat → Bool) (map : Bitmap n) (ptr : Nat) (mask : BitVec 64) : Exec (Bitmap n) :=
  if ptr < n then do
    let w ← map.load ptr
    map.store ptr (w ||| mask)
  else if behind ptr then
    return map
  else
    .error .fault

/-- The `while (length >= bits)` loop of `bitmap64_set_range`, and what follows it. -/
def setRounds (behind : Nat → Bool) (stop : Nat) :
    Nat → Bitmap n → Nat → Nat → BitVec 64 → Nat → Exec (Bitmap n)
  | 0, _, _, _, _, _ => .error .hang
  | fuel + 1, map, ptr, bits, mask, length =>
    if length ≥ bits then do
      let map ← orWord behind map ptr mask
      setRounds behind stop fuel map (ptr + 1) 64 (~~~0#64) (length - bits)
    else if length > 0 then
      orWord behind map ptr (mask &&& (~~~0#64 >>> (sub64 0 stop &&& 63)))
    else
      return map

/-- `bitmap64_set_range`. -/
def setRangeBehind (behind : Nat → Bool) (map : Bitmap n) (start length : Nat) : Exec (Bitmap n) :=
  -- a round takes at least one bit off the length
  setRounds behind ((start + length) % 2 ^ 64) (length + 1) map (start >>> 6) (64 - (start &&& 63))
    (~~~0#64 <<< (start &&& 63)) length

/-- `physical_free_range`. -/
def physicalFreeRangeBehind (behind : Nat → Bool) (s : Physical) (start length : Nat) :
    Exec Physical := do
  let remain := start % pgSize
  let endRemain := (start + length) % 2 ^ 64 % pgSize
  let mmTable ←
    if remain = 0 then
      setRangeBehind behind s.mmTable (start >>> pgBits) (sub64 length endRemain >>> pgBits)
    else
      setRangeBehind behind s.mmTable ((start >>> pgBits) + 1)
        (sub64 (sub64 length (pgSize - remain)) endRemain >>> pgBits)
  return { s with mmTable }

/-! ## When it returns -/

theorem orWord_returns (map : Bitmap n) {ptr : Nat} (mask : BitVec 64) (h : Writable n behind ptr) :
    ∃ map', orWord behind map ptr mask = .ok map' := by
  unfold orWord
  by_cases hptr : ptr < n
  · rw [if_pos hptr, map.load_of_lt hptr, Exec.ok_bind, map.store_of_lt _ hptr]
    exact ⟨_, rfl⟩
  · rw [if_neg hptr, if_pos (h.resolve_left hptr)]
    exact ⟨map, rfl⟩

/-- A write that returned was to a word that can be written, and cleared no bit. -/
theorem orWord_spec {map map' : Bitmap n} {ptr : Nat} {mask : BitVec 64}
    (h : orWord behind map ptr mask = .ok map') :
    Writable n behind ptr ∧ ∀ i, map.test i = true → map'.test i = true := by
  unfold orWord at h
  split_ifs at h with hptr hbehind
  · rw [map.load_of_lt hptr, Exec.ok_bind] at h
    refine ⟨Or.inl hptr, fun i hi => ?_⟩
    rw [Bitmap.test_store h]
    split
    · next hword =>
      rw [Bitmap.test_of_lt map (hword ▸ hptr)] at hi
      simp only [hword] at hi
      rw [BitVec.getLsbD_or, hi, Bool.true_or]
    · exact hi
  · cases h
    exact ⟨Or.inr hbehind, fun _ hi => hi⟩

/-- The rounds from bit `p` on return if the words of all bits that are left can be written. -/
theorem setRounds_returns {stop : Nat} : ∀ {fuel : Nat} {map : Bitmap n} {p ptr bits length : Nat}
    {mask : BitVec 64}, length < fuel → ptr = p / 64 → bits = 64 - p % 64 →
      (∀ q, p ≤ q → q < p + length → Writable n behind (q / 64)) →
        ∃ map', setRounds behind stop fuel map ptr bits mask length = .ok map' := by
  intro fuel
  induction fuel with
  | zero => exact fun hfuel => absurd hfuel (Nat.not_lt_zero _)
  | succ fuel ih =>
    rintro map p _ _ length mask hfuel rfl rfl hall
    rw [setRounds]
    split_ifs with hround hrest
    · obtain ⟨map₁, hmap₁⟩ := orWord_returns map mask (hall p le_rfl (by omega))
      rw [hmap₁, Exec.ok_bind]
      refine ih (p := 64 * (p / 64) + 64) (by omega) (by omega) (by omega) fun q hlo hhi => ?_
      exact hall q (by omega) (by omega)
    · exact orWord_returns map _ (hall p le_rfl (by omega))
    · exact ⟨map, rfl⟩

/-- If they return, the words could be written, and no bit was cleared. -/
theorem setRounds_spec {stop : Nat} : ∀ {fuel : Nat} {map map' : Bitmap n} {p ptr bits length : Nat}
    {mask : BitVec 64}, ptr = p / 64 → bits = 64 - p % 64 →
      setRounds behind stop fuel map ptr bits mask length = .ok map' →
        (∀ q, p ≤ q → q < p + length → Writable n behind (q / 64)) ∧
          ∀ i, map.test i = true → map'.test i = true := by
  intro fuel
  induction fuel with
  | zero => exact fun _ _ h => nomatch h
  | succ fuel ih =>
    rintro map map' p _ _ length mask rfl rfl h
    rw [setRounds] at h
    split_ifs at h with hround hrest
    · obtain ⟨map₁, hmap₁, h⟩ := Exec.bind_eq_ok.mp h
      obtain ⟨hfirst, hkeep₁⟩ := orWord_spec hmap₁
      obtain ⟨hall, hkeep⟩ := ih (p := 64 * (p / 64) + 64) (by omega) (by omega) h
      refine ⟨fun q hlo hhi => ?_, fun i hi => hkeep i (hkeep₁ i hi)⟩
      by_cases hword : q / 64 = p / 64
      · rwa [hword]
      · exact hall q (by omega) (by omega)
    · obtain ⟨hlast, hkeep⟩ := orWord_spec h
      refine ⟨fun q hlo hhi => ?_, hkeep⟩
      have hword : q / 64 = p / 64 := by omega
      rwa [hword]
    · cases h
      exact ⟨fun q hlo hhi => by omega, fun _ hi => hi⟩

/-- The whole pages of a range that starts with a page. -/
theorem physicalFreeRangeBehind_aligned (s : Physical) {start length : Nat} (hpage : start % pgSize = 0)
    (hlength : length < 2 ^ 64) : physicalFreeRangeBehind behind s start length =
      setRangeBehind behind s.mmTable (start / pgSize) (length / pgSize) >>= fun mmTable =>
        pure { s with mmTable } := by
  have hnum : sub64 length ((start + length) % 2 ^ 64 % pgSize) >>> pgBits = length / pgSize := by
    rw [Nat.shiftRight_eq_div_pow]
    unfold sub64 pgSize pgBits at *
    omega
  have hfirst : start >>> pgBits = start / pgSize := Nat.shiftRight_eq_div_pow _ 12
  unfold physicalFreeRangeBehind
  simp only [if_pos hpage, hnum, hfirst]

/-- **When giving back a range that starts with a page returns**: the words of its pages are in the table,
or can be written behind it. No page is taken. -/
theorem physicalFreeRangeBehind_returns_iff (s : Physical) {start length : Nat}
    (hpage : start % pgSize = 0) (hlength : length < 2 ^ 64) :
    (∃ s', physicalFreeRangeBehind behind s start length = .ok s') ↔
      ∀ p, Inside start (start + length) p → Writable mmTableMax behind (p / 64) := by
  have hinside : ∀ p, Inside start (start + length) p ↔
      start / pgSize ≤ p ∧ p < start / pgSize + length / pgSize := by
    intro p
    unfold Inside pgSize at *
    omega
  simp only [physicalFreeRangeBehind_aligned s hpage hlength, hinside, setRangeBehind, and_sixtyThree]
  constructor
  · rintro ⟨s', h⟩ p ⟨hlo, hhi⟩
    obtain ⟨t, ht, _⟩ := Exec.bind_eq_ok.mp h
    exact (setRounds_spec (shiftRight_six _) rfl ht).1 p hlo hhi
  · intro hall
    obtain ⟨t, ht⟩ := @setRounds_returns mmTableMax behind ((start / pgSize + length / pgSize) % 2 ^ 64)
      _ s.mmTable _ _ _ _ (~~~0#64 <<< (start / pgSize % 64)) (Nat.lt_succ_self _)
      (shiftRight_six (start / pgSize)) rfl fun q hlo hhi => hall q ⟨hlo, hhi⟩
    exact ⟨_, by rw [ht]; rfl⟩

/-- Giving back takes no page. -/
theorem physicalFreeRangeBehind_keeps {s s' : Physical} {start length : Nat}
    (h : physicalFreeRangeBehind behind s start length = .ok s') :
    s'.mmLimit = s.mmLimit ∧ ∀ p, s.Free p → s'.Free p := by
  have hset : ∀ {first num : Nat} {t : Bitmap mmTableMax},
      setRangeBehind behind s.mmTable first num = .ok t → ∀ p, s.Free p → t.test p = true :=
    fun ht => (setRounds_spec (shiftRight_six _) (by rw [and_sixtyThree]) ht).2
  unfold physicalFreeRangeBehind at h
  dsimp only at h
  split at h
  · obtain ⟨t, ht, h⟩ := Exec.bind_eq_ok.mp h
    cases h
    exact ⟨rfl, hset ht⟩
  · obtain ⟨t, ht, h⟩ := Exec.bind_eq_ok.mp h
    cases h
    exact ⟨rfl, hset ht⟩

/-! ## Without such words -/

section None

/-- No word behind the table can be written. -/
def noWord : Nat → Bool := fun _ => false

theorem orWord_none (map : Bitmap n) (ptr : Nat) (mask : BitVec 64) :
    orWord noWord map ptr mask = map.load ptr >>= fun w => map.store ptr (w ||| mask) := by
  unfold orWord
  by_cases hptr : ptr < n
  · rw [if_pos hptr]
  · rw [if_neg hptr, Bitmap.load, dif_neg hptr]
    rfl

/-- The rounds are those of `bitmap64_set_range` inside its map, which have less fuel: a round outside
faults. -/
theorem setRounds_none {stop : Nat} : ∀ {fuel fuel' : Nat} {map : Bitmap n} {ptr bits length : Nat}
    {mask : BitVec 64}, n < fuel + ptr → 0 < fuel → length < fuel' → 1 ≤ bits →
      setRounds noWord stop fuel' map ptr bits mask length =
        bitmap64RangeLoop (fun w mask => w ||| mask) fuel map ptr bits mask length >>=
          fun (map, ptr, mask, length) =>
            if length > 0 then
              map.load ptr >>= fun w =>
                map.store ptr (w ||| mask &&& (~~~0#64 >>> (sub64 0 stop &&& 63)))
            else
              pure map := by
  intro fuel fuel'
  induction fuel' generalizing fuel with
  | zero => exact fun _ _ hlength => absurd hlength (Nat.not_lt_zero _)
  | succ fuel' ih =>
    intro map ptr bits length mask hfuel hpos hlength hbits
    obtain ⟨fuel, rfl⟩ : ∃ f, fuel = f + 1 := ⟨fuel - 1, by omega⟩
    rw [setRounds, bitmap64RangeLoop, orWord_none]
    split_ifs with hround hrest
    · by_cases hptr : ptr < n
      · simp only [map.load_of_lt hptr, map.store_of_lt _ hptr, Exec.ok_bind]
        exact ih (by omega) (by omega) (by omega) (by decide)
      · rw [Bitmap.load, dif_neg hptr]
        rfl
    · rw [orWord_none, Exec.ok_bind]
      simp only [if_pos hrest]
    · rw [Exec.ok_bind]
      simp only [if_neg hrest]

theorem setRangeBehind_none (map : Bitmap n) (start length : Nat) :
    setRangeBehind noWord map start length = bitmap64SetRange map start length := by
  rw [setRangeBehind, bitmap64SetRange, bitmap64Range]
  refine setRounds_none (by omega) (Nat.succ_pos n) (Nat.lt_succ_self _) ?_
  rw [and_sixtyThree]
  omega

/-- It is `physical_free_range` as a function that faults behind `mm_table`. -/
theorem physicalFreeRangeBehind_none (s : Physical) (start length : Nat) :
    physicalFreeRangeBehind noWord s start length = physicalFreeRange s start length := by
  simp only [physicalFreeRangeBehind, physicalFreeRange, setRangeBehind_none]

end None

end Rtv.Mm
