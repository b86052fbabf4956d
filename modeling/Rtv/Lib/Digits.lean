import Mathlib.Data.Nat.Digits.Defs
import Mathlib.Data.List.TakeWhile

/-!
# Numerals

The digits of a number with the most significant one first, as they are written: a fixed number of
them (`topDigits`), without the leading zeros (`digits_reverse_eq`), and filled up on the left
(`List.leftpad`). In each form they stand for the number.
-/

namespace Rtv.Lib

/-! ## A fixed number of digits -/

/-- The last `k` digits of a number, the most significant one first. -/
def topDigits (b : Nat) : Nat → Nat → List Nat
  | 0, _ => []
  | k + 1, x => x / b ^ k % b :: topDigits b k x

theorem length_topDigits (b k x : Nat) : (topDigits b k x).length = k := by
  induction k with
  | zero => rfl
  | succ k ih => rw [topDigits, List.length_cons, ih]

theorem topDigits_lt {b : Nat} (hb : 0 < b) (k x : Nat) : ∀ q ∈ topDigits b k x, q < b := by
  induction k with
  | zero => exact nofun
  | succ k ih =>
    intro q hq
    rcases List.mem_cons.mp hq with rfl | hrest
    · exact Nat.mod_lt _ hb
    · exact ih q hrest

/-- They stand for the number, as far as they go. -/
theorem ofDigits_topDigits (b k x : Nat) : Nat.ofDigits b (topDigits b k x).reverse = x % b ^ k := by
  induction k with
  | zero => rw [pow_zero, Nat.mod_one]; rfl
  | succ k ih => rw [topDigits, Nat.ofDigits_reverse_cons, ih, length_topDigits, Nat.mod_pow_succ]

/-- The digits one by one. -/
theorem topDigits_eq_map (b k x : Nat) :
    topDigits b k x = (List.range k).map fun i => x / b ^ (k - 1 - i) % b := by
  induction k with
  | zero => rfl
  | succ k ih =>
    rw [topDigits, ih, List.range_succ_eq_map, List.map_cons, List.map_map]
    congr 1
    apply List.map_congr_left
    intro i _
    rw [Function.comp_apply, Nat.add_sub_cancel, Nat.sub_sub, Nat.add_comm 1 i]

/-! ## Leading zeros -/

/-- The digits of a number are any digits for it without the leading zeros. -/
theorem digits_reverse_eq {b : Nat} (hb : 1 < b) {qs : List Nat} (hqs : ∀ q ∈ qs, q < b) :
    (Nat.digits b (Nat.ofDigits b qs.reverse)).reverse = qs.dropWhile (· = 0) := by
  induction qs with
  | nil => rw [List.reverse_nil, Nat.ofDigits_nil, Nat.digits_zero]; rfl
  | cons q qs ih =>
    by_cases hq : q = 0
    · rw [hq, Nat.ofDigits_reverse_zero_cons, List.dropWhile_cons_of_pos (by simp)]
      exact ih fun q' hq' => hqs q' (List.mem_cons_of_mem q hq')
    · have hdigits : Nat.digits b (Nat.ofDigits b (q :: qs).reverse) = (q :: qs).reverse := by
        apply Nat.digits_ofDigits b hb
        · exact fun d hd => hqs d (List.mem_reverse.mp hd)
        · intro hne
          rw [List.getLast_reverse]
          exact hq
      rw [hdigits, List.reverse_reverse, List.dropWhile_cons_of_neg (by simpa using hq)]

/-! ## Filling up on the left -/

section Leftpad

variable {α β : Type} {n : Nat} {a : α} {l : List α}

/-- What is long enough is left alone. -/
theorem leftpad_of_le (h : n ≤ l.length) : l.leftpad n a = l := by
  rw [List.leftpad, Nat.sub_eq_zero_of_le h]
  rfl

/-- One more. -/
theorem leftpad_succ (h : l.length ≤ n) : l.leftpad (n + 1) a = a :: l.leftpad n a := by
  rw [List.leftpad, List.leftpad, Nat.succ_sub h]
  rfl

theorem map_leftpad (f : α → β) : (l.leftpad n a).map f = (l.map f).leftpad n (f a) := by
  simp [List.leftpad]

/-- What was dropped on the left is filled up. -/
theorem leftpad_dropWhile [DecidableEq α] :
    (l.dropWhile (· = a)).leftpad l.length a = l := by
  induction l with
  | nil => rfl
  | cons x l ih =>
    by_cases hx : x = a
    · have hle : (l.dropWhile (· = a)).length ≤ l.length := List.length_dropWhile_le _ _
      rw [List.dropWhile_cons_of_pos (by simpa using hx), List.length_cons, leftpad_succ hle, ih, hx]
    · rw [List.dropWhile_cons_of_neg (by simpa using hx)]
      exact leftpad_of_le (Nat.le_refl _)

/-- Zeros on the left do not change the number. -/
theorem ofDigits_leftpad (b : Nat) (qs : List Nat) :
    Nat.ofDigits b (qs.leftpad n 0).reverse = Nat.ofDigits b qs.reverse := by
  rw [List.leftpad, List.reverse_append, List.reverse_replicate, Nat.ofDigits_append_replicate_zero]

end Leftpad

end Rtv.Lib
