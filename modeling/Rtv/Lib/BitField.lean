import Mathlib.Data.Nat.Basic

/-!
# Bit-fields

Reading and writing the bits of a word from an offset on, as a compiler does for a packed record.
What is written is read back, also in part, and no other bit changes.
-/

namespace Rtv.Lib

variable {n len len' : Nat}

/-- The `len` bits of the word from `off` on. -/
def getField (w : BitVec n) (off len : Nat) : BitVec len := w.extractLsb' off len

/-- The word with the bits from `off` on replaced. -/
def setField (w : BitVec n) (off : Nat) (v : BitVec len) : BitVec n :=
  (w &&& ~~~((BitVec.allOnes len).setWidth n <<< off)) ||| (v.setWidth n <<< off)

/-- Every bit after a write. -/
theorem getLsbD_setField (w : BitVec n) (off : Nat) (v : BitVec len) {j : Nat} (hj : j < n) :
    (setField w off v).getLsbD j =
      if off ≤ j ∧ j < off + len then v.getLsbD (j - off) else w.getLsbD j := by
  unfold setField
  by_cases hlo : off ≤ j
  · have hge : ¬j < off := Nat.not_lt.mpr hlo
    by_cases hhi : j < off + len
    · have hin : j - off < len := by omega
      simp [hj, hlo, hge, hhi, hin]
    · have hout : len ≤ j - off := by omega
      simp [hj, hlo, hge, hhi, hout]
  · have hlt : j < off := not_le.mp hlo
    simp [hj, hlo, hlt]

theorem getLsbD_getField (w : BitVec n) (off len j : Nat) :
    (getField w off len).getLsbD j = (decide (j < len) && w.getLsbD (off + j)) :=
  BitVec.getLsbD_extractLsb' off len w j

/-- A field of the low part of a word put together from two. -/
theorem getField_append_low {m : Nat} (x : BitVec m) (y : BitVec n) {off : Nat} (h : off + len ≤ n) :
    getField (x ++ y) off len = getField y off len := by
  refine BitVec.eq_of_getLsbD_eq fun j hj => ?_
  rw [getLsbD_getField, getLsbD_getField, BitVec.getLsbD_append, if_pos (by omega)]

/-- A field of a field. -/
theorem getField_getField (w : BitVec n) (off : Nat) {off' : Nat} (h : off' + len' ≤ len) :
    getField (getField w off len) off' len' = getField w (off + off') len' := by
  refine BitVec.eq_of_getLsbD_eq fun j hj => ?_
  have hin : off' + j < len := by omega
  rw [getLsbD_getField, getLsbD_getField, getLsbD_getField, decide_eq_true hin, Bool.true_and,
    Nat.add_assoc]

/-- A field that lies in the one written is part of what was written. -/
theorem getField_setField_inside (w : BitVec n) {off off' : Nat} (v : BitVec len)
    (hlo : off ≤ off') (hhi : off' + len' ≤ off + len) (hn : off + len ≤ n) :
    getField (setField w off v) off' len' = v.extractLsb' (off' - off) len' := by
  refine BitVec.eq_of_getLsbD_eq fun j hj => ?_
  have hin : off ≤ off' + j ∧ off' + j < off + len := by omega
  have hsub : off' + j - off = off' - off + j := by omega
  rw [getLsbD_getField, getLsbD_setField w off v (by omega), if_pos hin, BitVec.getLsbD_extractLsb',
    hsub]

/-- A field is read back. -/
theorem getField_setField (w : BitVec n) {off : Nat} (v : BitVec len) (hn : off + len ≤ n) :
    getField (setField w off v) off len = v := by
  rw [getField_setField_inside w v (Nat.le_refl _) (Nat.le_refl _) hn, Nat.sub_self,
    BitVec.extractLsb'_eq_self]

/-- A field apart from the one written is as it was. -/
theorem getField_setField_apart (w : BitVec n) {off off' : Nat} (v : BitVec len)
    (happart : off' + len' ≤ off ∨ off + len ≤ off') (hn : off' + len' ≤ n) :
    getField (setField w off v) off' len' = getField w off' len' := by
  refine BitVec.eq_of_getLsbD_eq fun j hj => ?_
  have hout : ¬(off ≤ off' + j ∧ off' + j < off + len) := by omega
  rw [getLsbD_getField, getLsbD_getField, getLsbD_setField w off v (by omega), if_neg hout]

/-- A bit of the field written. -/
theorem getLsbD_setField_inside (w : BitVec n) {off j : Nat} (v : BitVec len) (hlo : off ≤ j)
    (hhi : j < off + len) (hn : off + len ≤ n) : (setField w off v).getLsbD j = v.getLsbD (j - off) := by
  rw [getLsbD_setField w off v (by omega), if_pos ⟨hlo, hhi⟩]

/-- A flag is read back. -/
theorem getLsbD_setField_flag (w : BitVec n) (b : Bool) {off : Nat} (hn : off < n) :
    (setField w off (BitVec.ofBool b)).getLsbD off = b := by
  rw [getLsbD_setField w off _ hn, if_pos (by omega), Nat.sub_self]
  cases b <;> rfl

/-- A bit apart from the field written is as it was. -/
theorem getLsbD_setField_apart (w : BitVec n) {off j : Nat} (v : BitVec len)
    (happart : j < off ∨ off + len ≤ j) (hn : j < n) :
    (setField w off v).getLsbD j = w.getLsbD j := by
  rw [getLsbD_setField w off v hn, if_neg (by omega)]

end Rtv.Lib
