import Mathlib.Data.Nat.Find
import Rtv.Lib.Exec

/-!
# Bitmaps

`utils/bits.c` and `include/utils/bits.h`: bitmaps over arrays of `uint64_t`. Within a word, bit
`n` is the least significant one and bit `n + 63` the most significant one.

A C map is a pointer without a length. Here a `Bitmap n` is an array of `n` words, and a read or
write of a word at index `n` or above stops the computation with a fault, so that a result is
always the result of a run that stayed inside the array.

`bitmap64_set_range` and `bitmap64_clear_range` are the same loop around two word operations;
`bitmap64Range` is that loop, and `bitmap64Range_spec` says what it does to every bit.
-/

namespace Rtv.Utils

open Rtv.Lib

/-! ## Words -/

/-- `bits.h: clear_bit64`. -/
def clearBit64 (data : BitVec 64) (index : Nat) : BitVec 64 :=
  data &&& ~~~(1#64 <<< index)

/-- `bits.h: count_trailing_zeros_bit64`, the number of trailing zeros of a word that is not
zero. For zero the source leaves the result undefined; here it is 64. -/
def countTrailingZerosBit64 (data : BitVec 64) : Nat :=
  ((List.range 64).find? fun i => data.getLsbD i).getD 64

/-! ## Maps -/

/-- An array of `n` words. -/
structure Bitmap (n : Nat) where
  word : Fin n → BitVec 64

variable {n : Nat}

/-- Read `map[i]`. -/
def Bitmap.load (map : Bitmap n) (i : Nat) : Exec (BitVec 64) :=
  if h : i < n then .ok (map.word ⟨i, h⟩) else .error .fault

/-- Write `map[i]`. -/
def Bitmap.store (map : Bitmap n) (i : Nat) (w : BitVec 64) : Exec (Bitmap n) :=
  if i < n then .ok ⟨fun j => if j.val = i then w else map.word j⟩ else .error .fault

/-- The bit at an index; false outside the map. -/
def Bitmap.test (map : Bitmap n) (i : Nat) : Bool :=
  if h : i / 64 < n then (map.word ⟨i / 64, h⟩).getLsbD (i % 64) else false

/-- `bits.h: bitmap64_get`. -/
def bitmap64Get (map : Bitmap n) (index : Nat) : Exec Bool := do
  let w ← map.load (index >>> 6)
  return (w &&& (1#64 <<< (index &&& 63))) != 0

/-- `bits.h: bitmap64_set`. -/
def bitmap64Set (map : Bitmap n) (index : Nat) : Exec (Bitmap n) := do
  let w ← map.load (index >>> 6)
  map.store (index >>> 6) (w ||| (1#64 <<< (index &&& 63)))

/-- `bits.h: bitmap64_clear`. -/
def bitmap64Clear (map : Bitmap n) (index : Nat) : Exec (Bitmap n) := do
  let w ← map.load (index >>> 6)
  map.store (index >>> 6) (w &&& ~~~(1#64 <<< (index &&& 63)))

/-- `bits.c: bitmap64_check_bit`. -/
def bitmap64CheckBit (map : Bitmap n) (index : Nat) : Exec Bool := do
  let w ← map.load (index >>> 6)
  return (w &&& (1#64 <<< (index % 64))) != 0

/-- The `while (length >= bits)` loop of the range operations, with the word operation as a
parameter: one word a round, the first one from its start bit on and the later ones whole. -/
def bitmap64RangeLoop (op : BitVec 64 → BitVec 64 → BitVec 64) :
    Nat → Bitmap n → Nat → Nat → BitVec 64 → Nat → Exec (Bitmap n × Nat × BitVec 64 × Nat)
  | 0, _, _, _, _, _ => .error .hang
  | fuel + 1, map, ptr, bits, mask, length =>
    if length ≥ bits then do
      let w ← map.load ptr
      let map ← map.store ptr (op w mask)
      bitmap64RangeLoop op fuel map (ptr + 1) 64 (~~~0#64) (length - bits)
    else .ok (map, ptr, mask, length)

/-- The range operations, with the word operation as a parameter. -/
def bitmap64Range (op : BitVec 64 → BitVec 64 → BitVec 64) (map : Bitmap n) (start length : Nat) :
    Exec (Bitmap n) := do
  let ptr := start >>> 6
  let bits := 64 - (start &&& 63)
  let stop := (start + length) % 2 ^ 64
  let mask := ~~~0#64 <<< (start &&& 63)
  -- a round writes a word of the map, so `n` rounds are the most there can be
  let (map, ptr, mask, length) ← bitmap64RangeLoop op (n + 1) map ptr bits mask length
  if length > 0 then
    let mask := mask &&& (~~~0#64 >>> (sub64 0 stop &&& 63))
    let w ← map.load ptr
    map.store ptr (op w mask)
  else
    return map

/-- `bits.c: bitmap64_set_range`. -/
def bitmap64SetRange (map : Bitmap n) (start length : Nat) : Exec (Bitmap n) :=
  bitmap64Range (fun w mask => w ||| mask) map start length

/-- `bits.c: bitmap64_clear_range`. -/
def bitmap64ClearRange (map : Bitmap n) (start length : Nat) : Exec (Bitmap n) :=
  bitmap64Range (fun w mask => w &&& ~~~mask) map start length

/-! ## What single accesses do -/

/-- `x >> 6` is the word index. -/
theorem shiftRight_six (x : Nat) : x >>> 6 = x / 64 := by
  rw [Nat.shiftRight_eq_div_pow]

/-- `i << 6` is the first bit of word `i`. -/
theorem shiftLeft_six (i : Nat) : i <<< 6 = 64 * i := (Nat.shiftLeft_eq i 6).trans (Nat.mul_comm i _)

/-- `x & 63` is the bit index. -/
theorem and_sixtyThree (x : Nat) : x &&& 63 = x % 64 := Nat.and_two_pow_sub_one_eq_mod x 6

/-- The one-bit mask, bit by bit. -/
theorem getLsbD_one_shiftLeft (k j : Nat) (hk : k < 64) :
    (1#64 <<< k).getLsbD j = decide (j = k) := by
  rw [← BitVec.twoPow_eq, BitVec.getLsbD_twoPow]
  simp [hk, eq_comm]

/-- A word is zero when none of its bits is set. -/
theorem eq_zero_iff_getLsbD (w : BitVec 64) : w = 0#64 ↔ ∀ j < 64, w.getLsbD j = false := by
  constructor
  · rintro rfl j _
    simp
  · intro h
    refine BitVec.eq_of_getLsbD_eq fun j hj => ?_
    rw [h j hj]
    simp

/-- Masking with one bit and comparing with zero tests that bit. -/
theorem and_one_shiftLeft_ne_zero (w : BitVec 64) (k : Nat) (hk : k < 64) :
    ((w &&& (1#64 <<< k)) != 0) = w.getLsbD k := by
  cases hb : w.getLsbD k with
  | false =>
    have hz : w &&& (1#64 <<< k) = 0#64 := by
      refine (eq_zero_iff_getLsbD _).mpr fun j _ => ?_
      rw [BitVec.getLsbD_and, getLsbD_one_shiftLeft k j hk]
      by_cases hj : j = k
      · subst hj
        rw [hb, Bool.false_and]
      · simp [hj]
    rw [hz]
    rfl
  | true =>
    have hne : w &&& (1#64 <<< k) ≠ 0#64 := by
      intro hz
      have := (eq_zero_iff_getLsbD _).mp hz k hk
      rw [BitVec.getLsbD_and, getLsbD_one_shiftLeft k k hk, hb] at this
      simp at this
    exact bne_iff_ne.mpr hne

/-- A word that is not zero has a lowest set bit. -/
theorem exists_lowest {w : BitVec 64} (h : w ≠ 0#64) :
    ∃ k < 64, w.getLsbD k = true ∧ ∀ j < k, w.getLsbD j = false := by
  have hex : ∃ k, w.getLsbD k = true := by
    by_contra hn
    refine h ((eq_zero_iff_getLsbD w).mpr fun j _ => ?_)
    have := fun hj => hn ⟨j, hj⟩
    simpa using this
  refine ⟨Nat.find hex, BitVec.lt_of_getLsbD (Nat.find_spec hex), Nat.find_spec hex, fun j hj => ?_⟩
  simpa using Nat.find_min hex hj

/-- `data & -data` keeps the lowest set bit. -/
theorem and_neg_eq {w : BitVec 64} {k : Nat} (hk : k < 64) (hset : w.getLsbD k = true)
    (hlow : ∀ j < k, w.getLsbD j = false) : w &&& -w = 1#64 <<< k := by
  refine BitVec.eq_of_getLsbD_eq fun j hj => ?_
  rw [BitVec.getLsbD_and, BitVec.getLsbD_neg, getLsbD_one_shiftLeft k j hk]
  rcases Nat.lt_trichotomy j k with hlt | rfl | hgt
  · simp [hlow j hlt, Nat.ne_of_lt hlt]
  · have hnone : ¬ ∃ i < j, w.getLsbD i = true := by
      rintro ⟨i, hi, hb⟩
      simp [hlow i hi] at hb
    simp [hj, hset, hnone]
  · have hsome : ∃ i < j, w.getLsbD i = true := ⟨k, hgt, hset⟩
    simp [hj, hsome, Nat.ne_of_gt hgt]

/-- `clear_bit64` clears its bit and no other. -/
theorem getLsbD_clearBit64 (w : BitVec 64) {k j : Nat} (hk : k < 64) (hj : j < 64) :
    (clearBit64 w k).getLsbD j = (w.getLsbD j && !decide (j = k)) := by
  unfold clearBit64
  rw [BitVec.getLsbD_and, BitVec.getLsbD_not, getLsbD_one_shiftLeft k j hk]
  simp [hj]

theorem Bitmap.load_eq_ok {map : Bitmap n} {i : Nat} {w : BitVec 64} :
    map.load i = .ok w ↔ ∃ h : i < n, map.word ⟨i, h⟩ = w := by
  unfold Bitmap.load
  by_cases h : i < n <;> simp [h]

theorem Bitmap.load_of_lt (map : Bitmap n) {i : Nat} (h : i < n) :
    map.load i = .ok (map.word ⟨i, h⟩) := dif_pos h

theorem Bitmap.store_of_lt (map : Bitmap n) {i : Nat} (w : BitVec 64) (h : i < n) :
    map.store i w = .ok ⟨fun j => if j.val = i then w else map.word j⟩ := if_pos h

theorem Bitmap.store_eq_ok {map map' : Bitmap n} {i : Nat} {w : BitVec 64} :
    map.store i w = .ok map' ↔
      i < n ∧ (⟨fun j => if j.val = i then w else map.word j⟩ : Bitmap n) = map' := by
  unfold Bitmap.store
  by_cases h : i < n <;> simp [h]

/-- The bit at an index inside the map. -/
theorem Bitmap.test_of_lt (map : Bitmap n) {i : Nat} (h : i / 64 < n) :
    map.test i = (map.word ⟨i / 64, h⟩).getLsbD (i % 64) := dif_pos h

/-- A set bit lies inside the map. -/
theorem Bitmap.lt_of_test {map : Bitmap n} {i : Nat} (h : map.test i = true) : i / 64 < n := by
  by_contra hn
  rw [Bitmap.test, dif_neg hn] at h
  cases h

/-- A bit of a word inside the map. -/
theorem Bitmap.test_word (map : Bitmap n) (i : Fin n) {j : Nat} (hj : j < 64) :
    map.test (64 * i.val + j) = (map.word i).getLsbD j := by
  have hdiv : (64 * i.val + j) / 64 = i.val := by omega
  have hmod : (64 * i.val + j) % 64 = j := by omega
  have hlt : (64 * i.val + j) / 64 < n := by rw [hdiv]; exact i.isLt
  rw [map.test_of_lt hlt, hmod]
  simp only [hdiv]

/-- A store changes the bits of its word and no others. -/
theorem Bitmap.test_store {map map' : Bitmap n} {i : Nat} {w : BitVec 64}
    (h : map.store i w = .ok map') (j : Nat) :
    map'.test j = if j / 64 = i then w.getLsbD (j % 64) else map.test j := by
  obtain ⟨hi, rfl⟩ := Bitmap.store_eq_ok.mp h
  by_cases hj : j / 64 < n
  · rw [Bitmap.test_of_lt _ hj, Bitmap.test_of_lt _ hj]
    by_cases hji : j / 64 = i <;> simp [hji]
  · have hne : j / 64 ≠ i := fun heq => hj (by rw [heq]; exact hi)
    rw [if_neg hne, Bitmap.test, dif_neg hj, Bitmap.test, dif_neg hj]

/-- `bitmap64_get` reads the bit, or faults outside the map. -/
theorem bitmap64Get_eq (map : Bitmap n) (i : Nat) :
    bitmap64Get map i = if i / 64 < n then .ok (map.test i) else .error .fault := by
  unfold bitmap64Get
  rw [shiftRight_six, and_sixtyThree]
  by_cases h : i / 64 < n
  · rw [if_pos h, map.load_of_lt h, Exec.ok_bind, map.test_of_lt h,
      and_one_shiftLeft_ne_zero _ _ (Nat.mod_lt _ (by decide))]
    rfl
  · rw [if_neg h, Bitmap.load, dif_neg h]
    rfl

/-- `bitmap64_check_bit` is `bitmap64_get` as a `bool`. -/
theorem bitmap64CheckBit_eq (map : Bitmap n) (i : Nat) : bitmap64CheckBit map i = bitmap64Get map i := by
  unfold bitmap64CheckBit bitmap64Get
  rw [and_sixtyThree]

theorem bitmap64Get_eq_ok {map : Bitmap n} {i : Nat} {b : Bool} :
    bitmap64Get map i = .ok b ↔ i / 64 < n ∧ map.test i = b := by
  rw [bitmap64Get_eq, Exec.guard_eq_ok]
  simp

/-- `bitmap64_set` sets the bit and no other. -/
theorem test_bitmap64Set {map map' : Bitmap n} {i : Nat} (h : bitmap64Set map i = .ok map') (j : Nat) :
    map'.test j = (decide (j = i) || map.test j) := by
  unfold bitmap64Set at h
  rw [shiftRight_six, and_sixtyThree] at h
  obtain ⟨w, hw, hs⟩ := Exec.bind_eq_ok.mp h
  obtain ⟨hi, rfl⟩ := Bitmap.load_eq_ok.mp hw
  rw [Bitmap.test_store hs]
  by_cases hj : j / 64 = i / 64
  · rw [if_pos hj, BitVec.getLsbD_or, getLsbD_one_shiftLeft _ _ (Nat.mod_lt _ (by decide)),
      Bitmap.test_of_lt map (hj ▸ hi), Bool.or_comm]
    have heq : (j % 64 = i % 64) ↔ j = i := by omega
    simp [heq, hj]
  · have hne : j ≠ i := fun heq => hj (by rw [heq])
    simp [hj, hne]

/-! ## The range operations -/

/-- The mask of a round that starts at bit `k`: all bits from `k` on. -/
theorem getLsbD_highMask {k j : Nat} (hj : j < 64) :
    (~~~0#64 <<< k).getLsbD j = decide (k ≤ j) := by
  rw [BitVec.getLsbD_shiftLeft, BitVec.getLsbD_not]
  have hsub : j - k < 64 := by omega
  by_cases hk : k ≤ j
  · simp [hj, hsub, hk]
  · have hlt : j < k := by omega
    simp [hk, hlt]

/-- A word operation that writes the value `v` under its mask. -/
def Writes (op : BitVec 64 → BitVec 64 → BitVec 64) (v : Bool) : Prop :=
  ∀ w mask j, j < 64 → (op w mask).getLsbD j = if mask.getLsbD j then v else w.getLsbD j

/-- `bitmap64_set_range` writes ones. -/
theorem writes_set : Writes (fun w mask => w ||| mask) true := by
  intro w mask j _
  rw [BitVec.getLsbD_or]
  cases mask.getLsbD j <;> simp

/-- `bitmap64_clear_range` writes zeros. -/
theorem writes_clear : Writes (fun w mask => w &&& ~~~mask) false := by
  intro w mask j hj
  rw [BitVec.getLsbD_and, BitVec.getLsbD_not]
  cases mask.getLsbD j <;> simp [hj]

/-- The map `map'` is `map` with the bits of `[p, q)` set to `v`. -/
def Written (map map' : Bitmap n) (p q : Nat) (v : Bool) : Prop :=
  ∀ i, map'.test i = if p ≤ i ∧ i < q then v else map.test i

theorem Written.refl (map : Bitmap n) (p : Nat) (v : Bool) : Written map map p p v := by
  intro i
  rw [if_neg (by omega)]

theorem Written.trans {map map' map'' : Bitmap n} {p q r : Nat} {v : Bool} (hpq : p ≤ q)
    (hqr : q ≤ r) (h : Written map map' p q v) (h' : Written map' map'' q r v) :
    Written map map'' p r v := by
  intro i
  rw [h' i, h i]
  by_cases hp : p ≤ i ∧ i < q
  · rw [if_pos hp, if_pos (show p ≤ i ∧ i < r by omega), if_neg (by omega)]
  · rw [if_neg hp]
    by_cases hq : q ≤ i ∧ i < r
    · rw [if_pos hq, if_pos (by omega)]
    · rw [if_neg hq, if_neg (by omega)]

/-- One masked write covers the bits of one word from `p` up to `q`. -/
theorem Written.of_store {op : BitVec 64 → BitVec 64 → BitVec 64} {v : Bool} (hop : Writes op v)
    {map map' : Bitmap n} {p q : Nat} {mask : BitVec 64} (hi : p / 64 < n)
    (hmask : ∀ j < 64, mask.getLsbD j = decide (p % 64 ≤ j ∧ 64 * (p / 64) + j < q))
    (hq : q ≤ 64 * (p / 64) + 64)
    (hs : map.store (p / 64) (op (map.word ⟨p / 64, hi⟩) mask) = .ok map') :
    Written map map' p q v := by
  intro i
  rw [Bitmap.test_store hs]
  by_cases hword : i / 64 = p / 64
  · have hmod : i % 64 < 64 := Nat.mod_lt _ (by decide)
    have hin : (p % 64 ≤ i % 64 ∧ 64 * (p / 64) + i % 64 < q) ↔ (p ≤ i ∧ i < q) := by omega
    rw [if_pos hword, hop _ _ _ hmod, hmask _ hmod, Bitmap.test_of_lt map (hword ▸ hi)]
    simp only [hword, decide_eq_true_eq, hin]
  · rw [if_neg hword, if_neg (by omega)]

/-- The loop of the range operations started at bit `p`: it has written the bits up to some `q`,
and what is left lies in one word. -/
theorem bitmap64RangeLoop_spec {op : BitVec 64 → BitVec 64 → BitVec 64} {v : Bool} (hop : Writes op v) :
    ∀ (fuel : Nat) (map : Bitmap n) (p ptr bits length : Nat) (mask : BitVec 64)
      (r : Bitmap n × Nat × BitVec 64 × Nat),
      ptr = p / 64 → bits = 64 - p % 64 → mask = ~~~0#64 <<< (p % 64) →
      bitmap64RangeLoop op fuel map ptr bits mask length = .ok r →
      ∃ q, p ≤ q ∧ q + r.2.2.2 = p + length ∧ r.2.1 = q / 64 ∧
        r.2.2.1 = ~~~0#64 <<< (q % 64) ∧ r.2.2.2 + q % 64 < 64 ∧ (p < q → (q - 1) / 64 < n) ∧
        Written map r.1 p q v
  | 0, map, p, ptr, bits, length, mask, r, _, _, _, h => by cases h
  | fuel + 1, map, p, ptr, bits, length, mask, r, hptr, hbits, hmask, h => by
    subst hptr hbits hmask
    unfold bitmap64RangeLoop at h
    split at h
    · next hge =>
      obtain ⟨w, hw, h₁⟩ := Exec.bind_eq_ok.mp h
      obtain ⟨map₁, hs, h₂⟩ := Exec.bind_eq_ok.mp h₁
      obtain ⟨hi, rfl⟩ := Bitmap.load_eq_ok.mp hw
      -- the next round starts at the first bit of the next word
      have hfirst : Written map map₁ p (64 * (p / 64) + 64) v :=
        .of_store hop hi (fun j hj => by
          rw [getLsbD_highMask hj]
          have : 64 * (p / 64) + j < 64 * (p / 64) + 64 := by omega
          simp [this]) (Nat.le_refl _) hs
      have hmod0 : (64 * (p / 64) + 64) % 64 = 0 := by omega
      obtain ⟨q, hpq, hlen, hp', hm', hlt, hn, hwr⟩ :=
        bitmap64RangeLoop_spec hop fuel map₁ (64 * (p / 64) + 64) _ _ _ _ r (by omega) (by omega)
          (by rw [hmod0, BitVec.shiftLeft_zero]) h₂
      refine ⟨q, by omega, by omega, hp', hm', hlt, fun _ => ?_, hfirst.trans (by omega) hpq hwr⟩
      by_cases hq : 64 * (p / 64) + 64 < q
      · exact hn hq
      · have : (q - 1) / 64 = p / 64 := by omega
        rw [this]
        exact hi
    · next hlt =>
      cases h
      exact ⟨p, Nat.le_refl _, rfl, rfl, rfl, by simp only; omega,
        fun h => absurd h (Nat.lt_irrefl _), .refl map p v⟩

/-- The mask of the last word: the bits from `k` on, below the end of the range. -/
theorem getLsbD_lastMask {k j stop : Nat} (hj : j < 64) (hstop : stop % 64 ≠ 0) (hlt : stop < 2 ^ 64) :
    ((~~~0#64 <<< k) &&& (~~~0#64 >>> (sub64 0 stop &&& 63))).getLsbD j =
      decide (k ≤ j ∧ j < stop % 64) := by
  have hshift : sub64 0 stop &&& 63 = 64 - stop % 64 := by
    rw [and_sixtyThree]
    unfold sub64
    omega
  rw [hshift, BitVec.getLsbD_and, getLsbD_highMask hj, BitVec.getLsbD_ushiftRight,
    BitVec.getLsbD_not]
  by_cases hlo : j < stop % 64
  · have h64 : 64 - stop % 64 + j < 64 := by omega
    simp [hlo, h64]
  · have h64 : ¬ 64 - stop % 64 + j < 64 := by omega
    simp [hlo, h64]

/-- **What a range operation does.** When it returns, the range lies inside the map (or is empty),
its bits have the value the operation writes, and every other bit is as before. -/
theorem bitmap64Range_spec {op : BitVec 64 → BitVec 64 → BitVec 64} {v : Bool} (hop : Writes op v)
    {map map' : Bitmap n} {start length : Nat}
    (h : bitmap64Range op map start length = .ok map') :
    (0 < length → (start + length - 1) / 64 < n) ∧ Written map map' start (start + length) v := by
  unfold bitmap64Range at h
  obtain ⟨r, hloop, h₁⟩ := Exec.bind_eq_ok.mp h
  obtain ⟨q, hpq, hlen, hptr, hmask, hlt, hn, hwr⟩ :=
    bitmap64RangeLoop_spec hop (n + 1) map start _ _ length _ r (shiftRight_six start)
      (by rw [and_sixtyThree]) (by rw [and_sixtyThree]) hloop
  obtain ⟨map₁, ptr, mask, rest⟩ := r
  simp only at hlen hptr hmask hlt hwr h₁
  subst hptr hmask
  split at h₁
  · next hrest =>
    obtain ⟨w, hw, hs⟩ := Exec.bind_eq_ok.mp h₁
    obtain ⟨hi, rfl⟩ := Bitmap.load_eq_ok.mp hw
    have hq64 : (q + rest - 1) / 64 = q / 64 := by omega
    have hmod : (start + length) % 2 ^ 64 % 64 = q % 64 + rest := by omega
    refine ⟨fun _ => by rw [← hlen, hq64]; exact hi, ?_⟩
    have hlast : Written map₁ map' q (q + rest) v :=
      .of_store hop hi (fun j hj => by
        rw [getLsbD_lastMask hj (by omega) (Nat.mod_lt _ (by decide)), hmod]
        have : j < q % 64 + rest ↔ 64 * (q / 64) + j < q + rest := by omega
        simp only [this]) (by omega) hs
    rw [← hlen]
    exact hwr.trans hpq (by omega) hlast
  · next hrest =>
    cases h₁
    have hq : q = start + length := by omega
    subst hq
    exact ⟨fun hpos => hn (by omega), hwr⟩

/-- The loop of the range operations returns when the range lies inside the map. -/
theorem bitmap64RangeLoop_ok (op : BitVec 64 → BitVec 64 → BitVec 64) :
    ∀ (fuel : Nat) (map : Bitmap n) (p ptr bits length : Nat) (mask : BitVec 64),
      ptr = p / 64 → bits = 64 - p % 64 → n < fuel + ptr → p + length ≤ 64 * n →
      ∃ r, bitmap64RangeLoop op fuel map ptr bits mask length = .ok r
  | 0, map, p, ptr, bits, length, mask, hptr, hbits, hfuel, hin => by omega
  | fuel + 1, map, p, ptr, bits, length, mask, hptr, hbits, hfuel, hin => by
    unfold bitmap64RangeLoop
    by_cases hge : length ≥ bits
    · have hi : ptr < n := by omega
      rw [if_pos hge, map.load_of_lt hi, Exec.ok_bind, map.store_of_lt _ hi, Exec.ok_bind]
      exact bitmap64RangeLoop_ok op fuel _ (64 * (p / 64) + 64) _ _ _ _ (by omega) (by omega)
        (by omega) (by omega)
    · rw [if_neg hge]
      exact ⟨_, rfl⟩

/-- A range operation returns when its range lies inside the map. -/
theorem bitmap64Range_ok {op : BitVec 64 → BitVec 64 → BitVec 64} {v : Bool} (hop : Writes op v)
    (map : Bitmap n) {start length : Nat} (hin : start + length ≤ 64 * n) :
    ∃ map', bitmap64Range op map start length = .ok map' := by
  obtain ⟨r, hr⟩ := bitmap64RangeLoop_ok op (n + 1) map start (start >>> 6) (64 - (start &&& 63))
    length (~~~0#64 <<< (start &&& 63)) (shiftRight_six start) (by rw [and_sixtyThree])
    (by rw [shiftRight_six]; omega) hin
  obtain ⟨q, hpq, hlen, hptr, _, hlt, _, _⟩ :=
    bitmap64RangeLoop_spec hop (n + 1) map start _ _ length _ r (shiftRight_six start)
      (by rw [and_sixtyThree]) (by rw [and_sixtyThree]) hr
  unfold bitmap64Range
  simp only [hr, Exec.ok_bind]
  by_cases hrest : r.2.2.2 > 0
  · have hi : r.2.1 < n := by omega
    simp only [if_pos hrest, Bitmap.load_of_lt _ hi, Bitmap.store_of_lt _ _ hi, Exec.ok_bind]
    exact ⟨_, rfl⟩
  · simp only [if_neg hrest]
    exact ⟨_, rfl⟩

/-- `bitmap64_set_range` sets exactly the bits of its range. -/
theorem bitmap64SetRange_spec {map map' : Bitmap n} {start length : Nat}
    (h : bitmap64SetRange map start length = .ok map') :
    (0 < length → (start + length - 1) / 64 < n) ∧ Written map map' start (start + length) true :=
  bitmap64Range_spec writes_set h

/-- `bitmap64_clear_range` clears exactly the bits of its range. -/
theorem bitmap64ClearRange_spec {map map' : Bitmap n} {start length : Nat}
    (h : bitmap64ClearRange map start length = .ok map') :
    (0 < length → (start + length - 1) / 64 < n) ∧ Written map map' start (start + length) false :=
  bitmap64Range_spec writes_clear h

end Rtv.Utils
