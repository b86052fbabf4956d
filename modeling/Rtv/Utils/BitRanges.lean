import Rtv.Lib.Logged
import Rtv.Utils.Bits

/-!
# Range operations, bit by bit

`bitmap64_set_range` and `bitmap64_clear_range` beside `bitmap64_set` and `bitmap64_clear` for every
bit of the range, and with a log of the words that they write.

**The law** (`bitmap_ranges_exact`): for a range inside the map they return, with the map that setting
or clearing its bits one by one gives, and each word they write has a bit of the range.
-/

namespace Rtv.Utils

open Rtv.Lib

variable {n : Nat}

/-! ## The words that are written -/

/-- Write `map[i]`, and log it. -/
def Bitmap.logStore (map : Bitmap n) (i : Nat) (w : BitVec 64) : Logged Nat (Bitmap n) := do
  Logged.record i
  Logged.lift (map.store i w)

/-- The loop of the range operations with its writes. -/
def logRangeLoop (op : BitVec 64 → BitVec 64 → BitVec 64) :
    Nat → Bitmap n → Nat → Nat → BitVec 64 → Nat → Logged Nat (Bitmap n × Nat × BitVec 64 × Nat)
  | 0, _, _, _, _, _ => Logged.lift (.error .hang)
  | fuel + 1, map, ptr, bits, mask, length =>
    if length ≥ bits then do
      let w ← Logged.lift (map.load ptr)
      let map ← map.logStore ptr (op w mask)
      logRangeLoop op fuel map (ptr + 1) 64 (~~~0#64) (length - bits)
    else pure (map, ptr, mask, length)

/-- The range operations with their writes. -/
def logRange (op : BitVec 64 → BitVec 64 → BitVec 64) (map : Bitmap n) (start length : Nat) :
    Logged Nat (Bitmap n) := do
  let ptr := start >>> 6
  let bits := 64 - (start &&& 63)
  let stop := (start + length) % 2 ^ 64
  let mask := ~~~0#64 <<< (start &&& 63)
  let (map, ptr, mask, length) ← logRangeLoop op (n + 1) map ptr bits mask length
  if length > 0 then
    let mask := mask &&& (~~~0#64 >>> (sub64 0 stop &&& 63))
    let w ← Logged.lift (map.load ptr)
    map.logStore ptr (op w mask)
  else
    return map

/-- `bitmap64_set_range` with its writes. -/
def logSetRange (map : Bitmap n) (start length : Nat) : Logged Nat (Bitmap n) :=
  logRange (fun w mask => w ||| mask) map start length

/-- `bitmap64_clear_range` with its writes. -/
def logClearRange (map : Bitmap n) (start length : Nat) : Logged Nat (Bitmap n) :=
  logRange (fun w mask => w &&& ~~~mask) map start length

/-! ## A range, bit by bit -/

/-- A range operation does what the operation `one` on a bit does for each bit of the range: it gives
them the value `v`. -/
structure RangeExact (range : Bitmap n → Nat → Nat → Exec (Bitmap n))
    (logged : Bitmap n → Nat → Nat → Logged Nat (Bitmap n)) (one : Bitmap n → Nat → Exec (Bitmap n))
    (v : Bool) (map : Bitmap n) (start length : Nat) (map' : Bitmap n) : Prop where
  /-- It returns. -/
  returns : range map start length = .ok map'
  /-- The bits of the range have the value, all others the one they had. -/
  get : ∀ i, bitmap64Get map' i =
    if start ≤ i ∧ i < start + length then .ok v else bitmap64Get map i
  check_bit : ∀ i, bitmap64CheckBit map' i =
    if start ≤ i ∧ i < start + length then .ok v else bitmap64CheckBit map i
  /-- The operation with its writes is the operation. -/
  outcome : (logged map start length).outcome = range map start length
  /-- A word that is written has a bit of the range. -/
  words : ∀ i ∈ (logged map start length).log, ∃ bit, start ≤ bit ∧ bit < start + length ∧ bit / 64 = i
  /-- The bits one by one. -/
  bitwise : (List.range' start length).foldlM one map = .ok map'

/-! ## The writes -/

section Writes

variable (op : BitVec 64 → BitVec 64 → BitVec 64) (map : Bitmap n)

@[simp] theorem Bitmap.logStore_outcome (i : Nat) (w : BitVec 64) :
    (map.logStore i w).outcome = map.store i w := by simp [Bitmap.logStore]

@[simp] theorem Bitmap.logStore_log (i : Nat) (w : BitVec 64) : (map.logStore i w).log = [i] := rfl

theorem logRangeLoop_outcome (fuel ptr bits : Nat) (mask : BitVec 64) (length : Nat) :
    (logRangeLoop op fuel map ptr bits mask length).outcome =
      bitmap64RangeLoop op fuel map ptr bits mask length := by
  induction fuel generalizing map ptr bits mask length with
  | zero => rfl
  | succ fuel ih => simp [logRangeLoop, bitmap64RangeLoop, ih]

theorem logRange_outcome (start length : Nat) :
    (logRange op map start length).outcome = bitmap64Range op map start length := by
  simp [logRange, bitmap64Range, logRangeLoop_outcome]

variable {op map} {i : Nat}

/-- The words that the loop writes when it starts at the bit `p`. -/
theorem mem_logRangeLoop {fuel p ptr bits length : Nat} {mask : BitVec 64} (hptr : ptr = p / 64)
    (hbits : bits = 64 - p % 64) (hi : i ∈ (logRangeLoop op fuel map ptr bits mask length).log) :
    ∃ bit, p ≤ bit ∧ bit < p + length ∧ bit / 64 = i := by
  induction fuel generalizing map p ptr bits mask length with
  | zero => cases hi
  | succ fuel ih =>
    rw [logRangeLoop] at hi
    by_cases hge : length ≥ bits
    · simp only [if_pos hge, Logged.mem_log_bind, Logged.log_lift, List.not_mem_nil, false_or,
        Bitmap.logStore_log, List.mem_singleton] at hi
      obtain ⟨w, -, rfl | ⟨map₁, -, hrest⟩⟩ := hi
      · exact ⟨p, Nat.le_refl p, by omega, hptr.symm⟩
      · -- the next round starts at the first bit of the next word
        obtain ⟨bit, hle, hlt, hword⟩ := ih (p := 64 * (p / 64) + 64) (by omega) (by omega) hrest
        exact ⟨bit, by omega, by omega, hword⟩
    · rw [if_neg hge] at hi
      cases hi

/-- The words that a range operation writes have a bit of the range. -/
theorem mem_logRange {v : Bool} (hop : Writes op v) {start length : Nat}
    (hi : i ∈ (logRange op map start length).log) :
    ∃ bit, start ≤ bit ∧ bit < start + length ∧ bit / 64 = i := by
  rw [logRange, Logged.mem_log_bind] at hi
  obtain hloop | ⟨r, hr, hlast⟩ := hi
  · exact mem_logRangeLoop (shiftRight_six start) (by rw [and_sixtyThree]) hloop
  rw [logRangeLoop_outcome] at hr
  obtain ⟨q, hle, hlen, hptr, -, -, -, -⟩ :=
    bitmap64RangeLoop_spec hop (n + 1) map start _ _ length _ r (shiftRight_six start)
      (by rw [and_sixtyThree]) (by rw [and_sixtyThree]) hr
  obtain ⟨map₁, ptr, mask, rest⟩ := r
  simp only at hlen hptr hlast
  by_cases hrest : rest > 0
  · simp only [if_pos hrest, Logged.mem_log_bind, Logged.log_lift, List.not_mem_nil, false_or,
      Bitmap.logStore_log, List.mem_singleton] at hlast
    obtain ⟨w, -, rfl⟩ := hlast
    exact ⟨q, hle, by omega, hptr.symm⟩
  · rw [if_neg hrest] at hlast
    cases hlast

end Writes

/-! ## Bit by bit -/

/-- A map is what its bits are. -/
theorem Bitmap.ext_test {map map' : Bitmap n} (h : ∀ i, map.test i = map'.test i) : map = map' := by
  obtain ⟨word⟩ := map
  obtain ⟨word'⟩ := map'
  congr 1
  funext i
  refine BitVec.eq_of_getLsbD_eq fun j hj => ?_
  have hbit := h (64 * i.val + j)
  rw [Bitmap.test_word _ _ hj, Bitmap.test_word _ _ hj] at hbit
  exact hbit

section Bitwise

variable {op : BitVec 64 → BitVec 64 → BitVec 64} {v : Bool} {map map' : Bitmap n}

/-- The operations on one bit, with the word operation as a parameter. -/
def bitmap64One (op : BitVec 64 → BitVec 64 → BitVec 64) (map : Bitmap n) (index : Nat) :
    Exec (Bitmap n) := do
  let w ← map.load (index >>> 6)
  map.store (index >>> 6) (op w (1#64 <<< (index &&& 63)))

/-- An operation on a bit of the map returns and writes the bit. -/
theorem bitmap64One_spec (hop : Writes op v) (map : Bitmap n) {i : Nat} (hi : i / 64 < n) :
    ∃ map', bitmap64One op map i = .ok map' ∧ Written map map' i (i + 1) v := by
  rw [bitmap64One, shiftRight_six, and_sixtyThree, map.load_of_lt hi, Exec.ok_bind]
  refine ⟨_, Bitmap.store_of_lt _ _ hi, Written.of_store hop hi ?_ (by omega) (Bitmap.store_of_lt _ _ hi)⟩
  intro j hj
  rw [getLsbD_one_shiftLeft _ _ (Nat.mod_lt i (by decide))]
  have hone : j = i % 64 ↔ i % 64 ≤ j ∧ 64 * (i / 64) + j < i + 1 := by omega
  simp only [hone]

/-- The bits of a range one by one. -/
theorem bitmap64One_range (hop : Writes op v) (map : Bitmap n) {start length : Nat}
    (hin : start + length ≤ 64 * n) :
    ∃ map', (List.range' start length).foldlM (bitmap64One op) map = .ok map' ∧
      Written map map' start (start + length) v := by
  induction length generalizing start map with
  | zero => exact ⟨map, rfl, .refl map start v⟩
  | succ length ih =>
    obtain ⟨map₁, hfirst, hwritten₁⟩ := bitmap64One_spec hop map (show start / 64 < n by omega)
    obtain ⟨map₂, hrest, hwritten₂⟩ := ih map₁ (show start + 1 + length ≤ 64 * n by omega)
    refine ⟨map₂, ?_, ?_⟩
    · rw [List.range'_succ, List.foldlM_cons, hfirst, Exec.ok_bind, hrest]
    · rw [Nat.add_comm length, ← Nat.add_assoc]
      exact hwritten₁.trans (Nat.le_succ start) (Nat.le_add_right _ _) hwritten₂

/-- What the bits of a range are read as when it has been written. -/
theorem Written.get {p q : Nat} (h : Written map map' p q v) (hq : q ≤ 64 * n) (i : Nat) :
    bitmap64Get map' i = if p ≤ i ∧ i < q then .ok v else bitmap64Get map i := by
  rw [bitmap64Get_eq, bitmap64Get_eq, h i]
  by_cases hi : p ≤ i ∧ i < q
  · rw [if_pos hi, if_pos hi, if_pos (by omega)]
  · rw [if_neg hi, if_neg hi]

/-- A range operation, whatever it does to the words. -/
theorem bitmap64Range_exact (hop : Writes op v) (map : Bitmap n) {start length : Nat}
    (hin : start + length ≤ 64 * n) :
    ∃ map', RangeExact (bitmap64Range op) (logRange op) (bitmap64One op) v map start length map' := by
  obtain ⟨map', hrun⟩ := bitmap64Range_ok hop map hin
  obtain ⟨map₁, hbits, hwritten₁⟩ := bitmap64One_range hop map hin
  have hwritten := (bitmap64Range_spec hop hrun).2
  have hsame : map₁ = map' := Bitmap.ext_test fun i => by rw [hwritten₁ i, hwritten i]
  exact ⟨map', {
    returns := hrun
    get := hwritten.get hin
    check_bit := fun i => by
      rw [bitmap64CheckBit_eq, bitmap64CheckBit_eq]
      exact hwritten.get hin i
    outcome := logRange_outcome op map start length
    words := fun _ => mem_logRange hop
    bitwise := hsame ▸ hbits }⟩

end Bitwise

/-- **The range operations are their bits.** -/
theorem bitmap_ranges_exact (map : Bitmap n) {start length : Nat} (hin : start + length ≤ 64 * n) :
    (∃ map', RangeExact bitmap64SetRange logSetRange bitmap64Set true map start length map') ∧
      ∃ map', RangeExact bitmap64ClearRange logClearRange bitmap64Clear false map start length map' :=
  ⟨bitmap64Range_exact writes_set map hin, bitmap64Range_exact writes_clear map hin⟩

/-- A range in the middle of a word. -/
theorem bitmap_ranges_exact_inside :
    (∃ map', RangeExact bitmap64SetRange logSetRange bitmap64Set true (⟨fun _ => 0⟩ : Bitmap 1) 3 5 map') ∧
      ∃ map', RangeExact bitmap64ClearRange logClearRange bitmap64Clear false (⟨fun _ => 0⟩ : Bitmap 1) 3 5
        map' :=
  bitmap_ranges_exact _ (by decide)

end Rtv.Utils
