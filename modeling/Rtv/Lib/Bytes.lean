import Mathlib.Tactic.Ring
import Mathlib.Data.Nat.Basic

/-!
# Memory as bytes

A memory is a byte at every address. `loadLE` and `storeLE` read and write the little-endian
number in `n` consecutive bytes. A store changes the bytes it covers and no other, so a load sees
either the whole number that was stored or, when the two ranges are apart, what it saw before.
-/

namespace Rtv.Lib

/-- The contents of memory. -/
structure Bytes where
  byte : Nat → UInt8

instance : CoeFun Bytes fun _ => Nat → UInt8 := ⟨Bytes.byte⟩

/-- Write one byte. -/
def Bytes.setByte (m : Bytes) (a : Nat) (b : UInt8) : Bytes := ⟨fun x => if x = a then b else m x⟩

@[simp] theorem Bytes.setByte_self (m : Bytes) (a : Nat) (b : UInt8) : m.setByte a b a = b :=
  if_pos rfl

theorem Bytes.setByte_ne (m : Bytes) {a x : Nat} (b : UInt8) (h : x ≠ a) :
    m.setByte a b x = m x :=
  if_neg h

/-- The number in the `n` bytes from `a` on, the first byte the lowest. -/
def Bytes.loadLE (m : Bytes) (a : Nat) : Nat → Nat
  | 0 => 0
  | n + 1 => (m a).toNat + 2 ^ 8 * m.loadLE (a + 1) n

/-- Write a number to the `n` bytes from `a` on, the first byte the lowest. -/
def Bytes.storeLE (m : Bytes) (a n v : Nat) : Bytes :=
  ⟨fun x => if a ≤ x ∧ x < a + n then UInt8.ofNat (v / 2 ^ (8 * (x - a))) else m x⟩

namespace Bytes

variable {m m' : Bytes} {a b n k v : Nat}

/-- A byte of a stored number. -/
theorem storeLE_inside {x : Nat} (hlo : a ≤ x) (hhi : x < a + n) :
    m.storeLE a n v x = UInt8.ofNat (v / 2 ^ (8 * (x - a))) :=
  if_pos ⟨hlo, hhi⟩

/-- A store changes only the bytes it covers. -/
theorem storeLE_outside {x : Nat} (h : x < a ∨ a + n ≤ x) : m.storeLE a n v x = m x := by
  apply if_neg
  omega

/-- A load depends only on the bytes it covers. -/
theorem loadLE_congr (h : ∀ x, a ≤ x → x < a + n → m' x = m x) :
    m'.loadLE a n = m.loadLE a n := by
  induction n generalizing a with
  | zero => rfl
  | succ n ih =>
    have hhead : m' a = m a := h a le_rfl (by omega)
    have htail : m'.loadLE (a + 1) n = m.loadLE (a + 1) n := by
      apply ih
      intro x hlo hhi
      exact h x (by omega) (by omega)
    rw [loadLE, loadLE, hhead, htail]

/-- A load of `n` bytes is a number of `8 * n` bits. -/
theorem loadLE_lt : m.loadLE a n < 2 ^ (8 * n) := by
  induction n generalizing a with
  | zero => exact Nat.one_pos
  | succ n ih =>
    have hbyte := (m a).toNat_lt
    have htail : m.loadLE (a + 1) n < 2 ^ (8 * n) := ih
    have hsplit : 2 ^ (8 * (n + 1)) = 2 ^ 8 * 2 ^ (8 * n) := by ring
    rw [loadLE, hsplit]
    omega

/-- A load in two parts. -/
theorem loadLE_add (m : Bytes) (a n k : Nat) :
    m.loadLE a (n + k) = m.loadLE a n + 2 ^ (8 * n) * m.loadLE (a + n) k := by
  induction n generalizing a with
  | zero =>
    rw [Nat.zero_add, Nat.mul_zero, Nat.pow_zero, Nat.one_mul, Nat.add_zero]
    exact (Nat.zero_add _).symm
  | succ n ih =>
    have hsplit : 2 ^ (8 * (n + 1)) = 2 ^ 8 * 2 ^ (8 * n) := by ring
    rw [Nat.add_right_comm, loadLE, loadLE, ih, hsplit, Nat.add_right_comm a 1 n, Nat.mul_add,
      Nat.mul_assoc]
    exact (Nat.add_assoc _ _ _).symm

/-- A load apart from a store sees what it saw before. -/
theorem loadLE_storeLE_apart (h : b + k ≤ a ∨ a + n ≤ b) :
    (m.storeLE a n v).loadLE b k = m.loadLE b k := by
  apply loadLE_congr
  intro x hlo hhi
  apply storeLE_outside
  omega

/-- A load of what was stored is the number stored. -/
theorem loadLE_storeLE_same : (m.storeLE a n v).loadLE a n = v % 2 ^ (8 * n) := by
  induction n generalizing m a v with
  | zero =>
    rw [Nat.mul_zero, Nat.pow_zero, Nat.mod_one]
    rfl
  | succ n ih =>
    have hhead : (m.storeLE a (n + 1) v a).toNat = v % 2 ^ 8 := by
      rw [storeLE_inside le_rfl (by omega), Nat.sub_self, Nat.mul_zero, Nat.pow_zero, Nat.div_one]
      exact UInt8.toNat_ofNat'
    have htail : (m.storeLE a (n + 1) v).loadLE (a + 1) n =
        (m.storeLE (a + 1) n (v / 2 ^ 8)).loadLE (a + 1) n := by
      apply loadLE_congr
      intro x hlo hhi
      have hexp : 8 * (x - a) = 8 + 8 * (x - (a + 1)) := by omega
      rw [storeLE_inside (by omega) (by omega), storeLE_inside hlo hhi, hexp, Nat.pow_add,
        Nat.div_div_eq_div_mul]
    have hsplit : 8 * (n + 1) = 8 + 8 * n := by ring
    rw [loadLE, hhead, htail, ih, hsplit, Nat.pow_add, Nat.mod_mul]

end Bytes

end Rtv.Lib
