import Rtv.Lib.Digits
import Rtv.Utils.FormatReads

/-!
# Numbers as `vprintf` writes them

The loop over the digits of a number keeps two flags, which `HANDLE_OPTIONS` updates at each digit:
whether the digits have begun, and whether the padding has. It runs over all the digits that there can
be, the leading zeros among them, and decides at each whether it is written, is padding or is left out.

**The law** (`number_format_exact`): a width and a precision of no more characters than there can be
digits give the digits without leading zeros, filled up with zeros to the precision and then with the
padding to the width. Such a text can be read back.
-/

namespace Rtv.Utils

open Rtv.Lib

/-! ## The loop over the digits -/

section Loop

variable {d : Directive} {maxW i q : UInt32} {char : UInt32 → UInt8} {print : PrintFlags}
  {qs : List UInt32}

/-- Once the digits have begun, all that are left are written. -/
theorem putDigits_begun (hprint : print.digits = true) (endI : UInt32) :
    putDigits d maxW endI char i print qs = qs.map char := by
  induction qs generalizing i print with
  | nil => rfl
  | cons q qs ih =>
    have hstep : (handleOptions d maxW endI i q print).1.digits = true ∧
        (handleOptions d maxW endI i q print).2 = [] := by
      rw [handleOptions]
      by_cases hq : q ≠ 0 ∨ i = endI
      · simp [hq]
      · simp [hq, hprint]
    rw [putDigits]
    simp only [hstep.1, hstep.2, ih hstep.1]
    rfl

/-- Before the digits have begun: they begin at a digit that is not zero, at the last one, and when
those left are as many as the precision. Until then, a digit is padding if those left are no more than
the width. -/
theorem handleOptions_eq {endI : UInt32} (hprint : print.digits = false) :
    handleOptions d maxW endI i q print =
      if q ≠ 0 ∨ i = endI then (⟨print.padding, true⟩, [])
      else if i ≥ maxW - d.precision then (⟨print.padding || decide (i ≥ maxW - d.width), true⟩, [])
      else if print.padding ∨ i ≥ maxW - d.width then (⟨true, false⟩, [d.padding])
      else (⟨false, false⟩, []) := by
  obtain ⟨padding, digits⟩ := print
  obtain rfl : digits = false := hprint
  rw [handleOptions]
  by_cases hdigit : q ≠ 0 ∨ i = endI
  · simp [hdigit]
  obtain ⟨hq, hi⟩ := not_or.mp hdigit
  have hzero : q = 0 := not_not.mp hq
  by_cases hprecision : i ≥ maxW - d.precision
  · by_cases hwidth : i ≥ maxW - d.width
    · simp [hzero, hi, hprecision, hwidth]
    · simp [hzero, hi, hprecision, hwidth]
  · by_cases hwidth : i ≥ maxW - d.width
    · simp [hzero, hi, hprecision, hwidth]
    · cases padding
      · simp [hzero, hi, hprecision, hwidth]
      · simp [hzero, hi, hprecision, hwidth]

/-- `i >= max_w - n` compares the digits left with `n`. -/
theorem ge_sub_iff {n : UInt32} (hn : n ≤ maxW) {left : Nat} (hleft : i.toNat + left = maxW.toNat) :
    i ≥ maxW - n ↔ left ≤ n.toNat := by
  have hle := UInt32.le_iff_toNat_le.mp hn
  rw [ge_iff_le, UInt32.le_iff_toNat_le, UInt32.toNat_sub_of_le _ _ hn]
  omega

/-- The last digit is the one that is left alone. -/
theorem eq_last_iff {left : Nat} (hpos : 0 < left) (hleft : i.toNat + left = maxW.toNat) :
    i = maxW - 1 ↔ left = 1 := by
  have hone : (maxW - 1).toNat = maxW.toNat - 1 := by
    apply UInt32.toNat_sub_of_le
    rw [UInt32.le_iff_toNat_le]
    exact Nat.le_trans hpos (Nat.le_trans (Nat.le_add_left left _) (Nat.le_of_eq hleft))
  rw [← UInt32.toNat_inj, hone]
  omega

theorem toNat_next {left : Nat} (hleft : i.toNat + (left + 1) = maxW.toNat) :
    (i + 1).toNat + left = maxW.toNat := by
  have hlt := maxW.toNat_lt
  have hnext : (i + 1).toNat = i.toNat + 1 := by
    rw [UInt32.toNat_add]
    exact Nat.mod_eq_of_lt (show i.toNat + 1 < 2 ^ 32 by omega)
  rw [hnext, ← hleft]
  omega

/-- Where the digits begin, all that are left are written. -/
theorem putDigits_begins {endI : UInt32} (hprint : print.digits = false)
    (hbegin : (q ≠ 0 ∨ i = endI) ∨ i ≥ maxW - d.precision) :
    putDigits d maxW endI char i print (q :: qs) = (q :: qs).map char := by
  rw [putDigits, handleOptions_eq hprint]
  by_cases hdigit : q ≠ 0 ∨ i = endI
  · simp [if_pos hdigit, putDigits_begun]
  · simp [if_neg hdigit, if_pos (hbegin.resolve_left hdigit), putDigits_begun]

/-- Before that, a leading zero is padding if the padding has begun, or if the digits left are no more
than the width. -/
theorem putDigits_waits {endI : UInt32} (hprint : print.digits = false)
    (hbegin : ¬((q ≠ 0 ∨ i = endI) ∨ i ≥ maxW - d.precision)) :
    putDigits d maxW endI char i print (q :: qs) =
      if print.padding ∨ i ≥ maxW - d.width then
        d.padding :: putDigits d maxW endI char (i + 1) ⟨true, false⟩ qs
      else putDigits d maxW endI char (i + 1) ⟨false, false⟩ qs := by
  obtain ⟨hdigit, hprecision⟩ := not_or.mp hbegin
  rw [putDigits, handleOptions_eq hprint, if_neg hdigit, if_neg hprecision]
  by_cases hpad : print.padding ∨ i ≥ maxW - d.width
  · rw [if_pos hpad, if_pos hpad]
    rfl
  · rw [if_neg hpad, if_neg hpad]
    rfl

/-- The digits that are left when they begin are the number's, filled up to the precision. -/
theorem leftpad_begins {rest : List UInt32} {precision : Nat} (hleft : precision ≤ rest.length + 1)
    (hbegin : (q ≠ 0 ∨ rest.length + 1 = 1) ∨ rest.length + 1 ≤ precision) :
    ((q :: rest).dropWhile (· = 0)).leftpad (max precision 1) 0 = q :: rest := by
  by_cases hq : q = 0
  · have hmax : max precision 1 = (q :: rest).length := by
      rw [List.length_cons]
      rcases hbegin with (hne | hone) | hle
      · exact absurd hq hne
      · omega
      · omega
    rw [hmax, ← hq]
    exact leftpad_dropWhile
  · rw [List.dropWhile_cons_of_neg (by simpa using hq)]
    apply leftpad_of_le
    rw [List.length_cons]
    omega

/-- What is written before the digits begin is no longer than the digits left. -/
theorem length_written_le {rest : List UInt32} {precision : Nat} (hpos : 0 < rest.length)
    (hleft : precision ≤ rest.length) :
    (((rest.dropWhile (· = 0)).leftpad (max precision 1) 0).map char).length ≤ rest.length := by
  rw [List.length_map, List.length_leftpad]
  exact max_le (max_le hleft hpos) (List.length_dropWhile_le _ _)

/-- **What the loop writes**: the digits without leading zeros, filled up with zeros to the precision
and then with the padding to the width. -/
theorem putDigits_eq (hwidth : d.width ≤ maxW) (hprecision : d.precision ≤ maxW) (hqs : qs ≠ [])
    (hlen : i.toNat + qs.length = maxW.toNat) (hprint : print.digits = false)
    (hpadding : print.padding → qs.length ≤ d.width.toNat)
    (hleft : d.precision.toNat ≤ qs.length) :
    putDigits d maxW (maxW - 1) char i print qs =
      (((qs.dropWhile (· = 0)).leftpad (max d.precision.toNat 1) 0).map char).leftpad
        (min d.width.toNat qs.length) d.padding := by
  induction qs generalizing i print with
  | nil => exact absurd rfl hqs
  | cons q rest ih =>
    rw [List.length_cons] at hlen hpadding hleft ⊢
    have hlast := eq_last_iff (Nat.succ_pos rest.length) hlen
    have hbegin_iff := or_congr (or_congr_right (a := q ≠ 0) hlast) (ge_sub_iff hprecision hlen)
    by_cases hbegin : (q ≠ 0 ∨ i = maxW - 1) ∨ i ≥ maxW - d.precision
    · rw [putDigits_begins hprint hbegin, leftpad_begins hleft (hbegin_iff.mp hbegin)]
      apply (leftpad_of_le _).symm
      rw [List.length_map, List.length_cons]
      exact min_le_right _ _
    rw [putDigits_waits hprint hbegin]
    rw [hbegin_iff, not_or, not_or, not_not, not_le] at hbegin
    obtain ⟨⟨rfl, hmore⟩, hprecision'⟩ := hbegin
    have hpos : 0 < rest.length := by omega
    have hrest : rest ≠ [] := List.length_pos_iff.mp hpos
    have hleft' : d.precision.toNat ≤ rest.length := Nat.le_of_lt_succ hprecision'
    have hlen' := toNat_next hlen
    have htrim : (0 :: rest).dropWhile (· = 0) = rest.dropWhile (· = 0) :=
      List.dropWhile_cons_of_pos (by simp)
    rw [htrim]
    by_cases hpad : print.padding ∨ i ≥ maxW - d.width
    · -- one character of padding
      have hwide : rest.length + 1 ≤ d.width.toNat :=
        hpad.elim hpadding (ge_sub_iff hwidth hlen).mp
      have hnext : rest.length ≤ d.width.toNat := Nat.le_of_succ_le hwide
      rw [if_pos hpad, ih hrest hlen' rfl (fun _ => hnext) hleft', min_eq_right hnext,
        min_eq_right hwide, leftpad_succ (length_written_le hpos hleft')]
    · have hnarrow : d.width.toNat ≤ rest.length := by
        have hlt := (not_congr (ge_sub_iff hwidth hlen)).mp (not_or.mp hpad).2
        omega
      have hnone : (⟨false, false⟩ : PrintFlags).padding → rest.length ≤ d.width.toNat := nofun
      rw [if_neg hpad, ih hrest hlen' rfl hnone hleft', min_eq_left hnarrow,
        min_eq_left (Nat.le_succ_of_le hnarrow)]

end Loop

/-! ## Numbers -/

/-- The text of a number: its digits, filled up with zeros to the precision (and to one digit), and
then with the padding to the width. -/
def formatNumber (b : Nat) (char : Nat → UInt8) (d : Directive) (x : Nat) : List UInt8 :=
  (((Nat.digits b x).reverse.leftpad (max d.precision.toNat 1) 0).map char).leftpad d.width.toNat
    d.padding

/-- A digit, with the letters from `letter` on behind 9. -/
def digitChar (letter : UInt8) (q : Nat) : UInt8 :=
  if q < 10 then UInt8.ofNat (48 + q) else letter + UInt8.ofNat (q - 10)

/-- A loop over digits that stand for a number writes it. -/
theorem putDigits_number {d : Directive} {maxW : UInt32} {char : UInt32 → UInt8} {char' : Nat → UInt8}
    {b x : Nat} {qs : List UInt32} (hb : 1 < b) (hwidth : d.width ≤ maxW) (hprecision : d.precision ≤ maxW)
    (hchar : ∀ q : UInt32, q.toNat < b → char q = char' q.toNat) (hpos : qs ≠ []) (hlen : qs.length = maxW.toNat)
    (hdigits : ∀ q ∈ qs, q.toNat < b) (hx : Nat.ofDigits b (qs.map UInt32.toNat).reverse = x) :
    putDigits d maxW (maxW - 1) char 0 ⟨false, false⟩ qs = formatNumber b char' d x := by
  have hlen' : (0 : UInt32).toNat + qs.length = maxW.toNat := by
    rw [hlen]
    exact Nat.zero_add _
  have hle : d.precision.toNat ≤ qs.length := hlen ▸ UInt32.le_iff_toNat_le.mp hprecision
  have hmin : min d.width.toNat qs.length = d.width.toNat :=
    min_eq_left (hlen ▸ UInt32.le_iff_toNat_le.mp hwidth)
  have htrim : (Nat.digits b x).reverse = (qs.dropWhile (· = 0)).map UInt32.toNat := by
    have hall : ∀ q ∈ qs.map UInt32.toNat, q < b := by
      intro q hq
      obtain ⟨q', hq', rfl⟩ := List.mem_map.mp hq
      exact hdigits q' hq'
    have hzero : ((fun q : Nat => decide (q = 0)) ∘ UInt32.toNat) = fun q : UInt32 => decide (q = 0) := by
      funext q
      simp [← UInt32.toNat_inj]
    rw [← hx, digits_reverse_eq hb hall, List.dropWhile_map, hzero]
  have hmap : (qs.dropWhile (· = 0)).map char = ((qs.dropWhile (· = 0)).map UInt32.toNat).map char' := by
    rw [List.map_map]
    refine List.map_congr_left fun q hq => hchar q (hdigits q ?_)
    exact (List.dropWhile_suffix _).subset hq
  have hloop : putDigits d maxW (maxW - 1) char 0 ⟨false, false⟩ qs = _ :=
    putDigits_eq hwidth hprecision hpos hlen' rfl nofun hle
  rw [hloop, hmin, formatNumber, htrim, map_leftpad, map_leftpad, hmap,
    hchar 0 (Nat.lt_trans Nat.zero_lt_one hb)]
  rfl

/-- The digits of the loop over the divisors. -/
theorem divisorDigits_spec {k : Nat} {divisors : List UInt32} {x : UInt32}
    (hdivisors : divisors.map UInt32.toNat = (List.range k).reverse.map (10 ^ ·))
    (hx : x.toNat < 10 ^ k) :
    (divisorDigits divisors x).length = k ∧ (∀ q ∈ divisorDigits divisors x, q.toNat < 10) ∧
      Nat.ofDigits 10 ((divisorDigits divisors x).map UInt32.toNat).reverse = x.toNat := by
  induction k generalizing divisors x with
  | zero =>
    obtain rfl : divisors = [] := by simpa using hdivisors
    refine ⟨rfl, nofun, ?_⟩
    rw [pow_zero] at hx
    exact (Nat.lt_one_iff.mp hx).symm
  | succ k ih =>
    rw [List.range_succ, List.reverse_append, List.reverse_singleton, List.singleton_append,
      List.map_cons] at hdivisors
    obtain ⟨divisor, rest, rfl, hdivisor, hrest⟩ := List.map_eq_cons_iff.mp hdivisors
    have hmod : (x % divisor).toNat = x.toNat % 10 ^ k := by rw [UInt32.toNat_mod, hdivisor]
    have hdiv : (x / divisor).toNat = x.toNat / 10 ^ k := by rw [UInt32.toNat_div, hdivisor]
    obtain ⟨hlen, hdigits, hvalue⟩ := ih (x := x % divisor) hrest
      (hmod ▸ Nat.mod_lt _ (Nat.pow_pos (by decide)))
    refine ⟨?_, ?_, ?_⟩
    · rw [divisorDigits, List.length_cons, hlen]
    · intro q hq
      rcases List.mem_cons.mp hq with rfl | hq
      · rw [hdiv]
        exact Nat.div_lt_of_lt_mul (pow_succ 10 k ▸ hx)
      · exact hdigits q hq
    · rw [divisorDigits, List.map_cons, Nat.ofDigits_reverse_cons, hvalue, hmod, hdiv, List.length_map,
        hlen, Nat.mod_add_div]

/-- The digits of the loop over the hexadecimal digits. -/
theorem hexDigits_spec {w : Nat} (hw : w ≤ 16) (x : UInt64) :
    (hexDigits w x).map UInt32.toNat = topDigits 16 w x.toNat := by
  rw [hexDigits, topDigits_eq_map, List.map_map]
  apply List.map_congr_left
  intro i hi
  rw [Function.comp_apply]
  have hk : w - 1 - i ≤ 15 := by omega
  generalize w - 1 - i = k at hk
  have hshift : (UInt64.ofNat k <<< 2).toNat = k * 4 := by
    have htwo : (2 : UInt64).toNat % 64 = 2 := rfl
    rw [UInt64.toNat_shiftLeft, UInt64.toNat_ofNat_of_lt' (Nat.lt_of_le_of_lt hk (by decide)), htwo,
      Nat.shiftLeft_eq]
    exact Nat.mod_eq_of_lt (by omega)
  have hpow : 2 ^ (k * 4) = 16 ^ k := by rw [Nat.mul_comm, pow_mul]; rfl
  have hmask : x.toNat / 16 ^ k &&& (0x0F : UInt64).toNat = x.toNat / 16 ^ k % 16 :=
    Nat.and_two_pow_sub_one_eq_mod _ 4
  rw [UInt64.toNat_toUInt32, UInt64.toNat_and, UInt64.toNat_shiftRight, hshift,
    Nat.mod_eq_of_lt (by omega : k * 4 < 64), Nat.shiftRight_eq_div_pow, hpow, hmask]
  exact Nat.mod_eq_of_lt ((Nat.mod_lt _ (by decide)).trans (by decide))

/-! ## The conversions -/

section Conversions

variable {d : Directive}

/-- The letters of a hexadecimal number. -/
def Directive.letter (d : Directive) : UInt8 := if d.upper then 65 else 97

theorem decChar_eq {q : UInt32} (hq : q.toNat < 10) : decChar q = digitChar 65 q.toNat := by
  rw [digitChar, if_pos hq, decChar, UInt8.ofNat_add]
  rfl

theorem hexChar_eq (upper : Bool) (li : UInt32) :
    hexChar upper li = digitChar (if upper then 65 else 97) li.toNat := by
  have hgt : li > 9 ↔ ¬li.toNat < 10 := by
    rw [gt_iff_lt, UInt32.lt_iff_toNat_lt, Nat.not_lt]
    exact Iff.rfl
  rw [hexChar, digitChar]
  by_cases hlt : li.toNat < 10
  · rw [if_neg (by rw [hgt]; exact not_not.mpr hlt), if_pos hlt, UInt8.ofNat_add]
    rfl
  · have hten : li.toUInt8 = UInt8.ofNat (li.toNat - 10) + 10 := by
      have hsum := UInt8.ofNat_add (li.toNat - 10) 10
      rw [Nat.sub_add_cancel (not_lt.mp hlt)] at hsum
      exact hsum
    rw [if_pos (hgt.mpr hlt), if_neg hlt, hten, ← UInt8.add_assoc, UInt8.add_sub_cancel]

/-- The loop over the hexadecimal digits of a number that has no more of them. -/
theorem putDigits_hex {w : Nat} (hpos : 0 < w) (hw : w ≤ 16) {x : UInt64} (hx : x.toNat < 16 ^ w)
    (hwidth : d.width.toNat ≤ w) (hprecision : d.precision.toNat ≤ w) :
    putDigits d (.ofNat w) (.ofNat w - 1) (hexChar d.upper) 0 ⟨false, false⟩ (hexDigits w x) =
      formatNumber 16 (digitChar d.letter) d x.toNat := by
  have hmax : (UInt32.ofNat w).toNat = w :=
    UInt32.toNat_ofNat_of_lt' (Nat.lt_of_le_of_lt hw (by decide))
  have hspec := hexDigits_spec hw x
  have hlen : (hexDigits w x).length = w := by
    rw [← List.length_map UInt32.toNat, hspec, length_topDigits]
  apply putDigits_number (by decide)
  · exact UInt32.le_iff_toNat_le.mpr (Nat.le_trans hwidth (Nat.le_of_eq hmax.symm))
  · exact UInt32.le_iff_toNat_le.mpr (Nat.le_trans hprecision (Nat.le_of_eq hmax.symm))
  · exact fun q _ => hexChar_eq d.upper q
  · exact List.length_pos_iff.mp (Nat.lt_of_lt_of_eq hpos hlen.symm)
  · exact hlen.trans hmax.symm
  · intro q hq
    exact topDigits_lt (by decide) w x.toNat _ (hspec ▸ List.mem_map_of_mem hq)
  · rw [hspec, ofDigits_topDigits, Nat.mod_eq_of_lt hx]

/-- `%x` and `%X`. -/
theorem putHex_eq (word : UInt64) (hwidth : d.width.toNat ≤ if d.ells = 2 then 16 else 8)
    (hprecision : d.precision.toNat ≤ if d.ells = 2 then 16 else 8) :
    putHex d word = formatNumber 16 (digitChar d.letter) d
      (if d.ells = 2 then word.toNat else word.toUInt32.toNat) := by
  rw [putHex]
  by_cases hells : d.ells = 2
  · simp only [if_pos hells] at hwidth hprecision ⊢
    exact putDigits_hex (by decide) (by decide) word.toNat_lt hwidth hprecision
  · simp only [if_neg hells] at hwidth hprecision ⊢
    exact putDigits_hex (by decide) (by decide) word.toUInt32.toNat_lt hwidth hprecision

/-- `%u`. -/
theorem putUnsigned_eq (x : UInt32) (hwidth : d.width.toNat ≤ 10) (hprecision : d.precision.toNat ≤ 10) :
    putUnsigned d x = formatNumber 10 (digitChar 65) d x.toNat := by
  have hspec : (divisorDigits base10U32Divisors x).length = 10 ∧ _ :=
    divisorDigits_spec (by decide) (x.toNat_lt.trans (by decide))
  obtain ⟨hlen, hdigits, hvalue⟩ := hspec
  apply putDigits_number (by decide)
  · exact UInt32.le_iff_toNat_le.mpr hwidth
  · exact UInt32.le_iff_toNat_le.mpr hprecision
  · exact fun _ => decChar_eq
  · exact List.cons_ne_nil _ _
  · exact hlen
  · exact hdigits
  · exact hvalue

/-- A negative number is 2^32 below its 32 bits, any other is them. -/
theorem toInt_cases (x : Int32) :
    (x < 0 ∧ x.toInt = (x.toUInt32.toNat : Int) - 2 ^ 32) ∨ (¬x < 0 ∧ x.toInt = x.toUInt32.toNat) := by
  have hbits : x.toInt = if 2 * x.toUInt32.toNat < 2 ^ 32 then (x.toUInt32.toNat : Int)
      else (x.toUInt32.toNat : Int) - (2 ^ 32 : Nat) :=
    BitVec.toInt_eq_toNat_cond x.toBitVec
  have hlt := x.toUInt32.toNat_lt
  have hneg : x < 0 ↔ x.toInt < 0 := Int32.lt_iff_toInt_lt
  rw [hneg, hbits]
  split
  · exact Or.inr ⟨by omega, rfl⟩
  · exact Or.inl ⟨by omega, rfl⟩

/-- The negation of a negative number is its absolute value, also for the least one. -/
theorem neg_toNat {x : Int32} (hx : x < 0) : (x * -1).toUInt32.toNat = x.toInt.natAbs := by
  have hneg : (x * -1).toUInt32.toNat = (2 ^ 32 - x.toUInt32.toNat) % 2 ^ 32 := by
    have hmul : (x * -1).toBitVec = -x.toBitVec := by
      rw [← BitVec.mul_one (-x.toBitVec), BitVec.neg_mul_comm]
      rfl
    exact (congrArg BitVec.toNat hmul).trans (BitVec.toNat_neg x.toBitVec)
  have hlt := x.toUInt32.toNat_lt
  rcases toInt_cases x with ⟨-, hint⟩ | ⟨hpos, -⟩
  · have hbelow : x.toInt < 0 := Int32.lt_iff_toInt_lt.mp hx
    have hleast : -2147483648 ≤ x.toInt := x.le_toInt
    rw [hneg]
    omega
  · exact absurd hx hpos

/-- `%d`. -/
theorem putSigned_eq (x : Int32) (hwidth : d.width.toNat ≤ 10) (hprecision : d.precision.toNat ≤ 10) :
    putSigned d x = (if x < 0 then [45] else []) ++
      formatNumber 10 (digitChar 65) d x.toInt.natAbs := by
  rw [putSigned]
  by_cases hx : x < 0
  · rw [if_pos hx, if_pos hx, putUnsigned_eq _ hwidth hprecision, neg_toNat hx]
    rfl
  · rw [if_neg hx, if_neg hx, putUnsigned_eq _ hwidth hprecision]
    rcases toInt_cases x with ⟨hneg, -⟩ | ⟨-, hint⟩
    · exact absurd hneg hx
    · rw [hint]
      rfl

end Conversions

/-! ## Reading them back -/

/-- The value of a digit as `digitChar` writes it in capitals. -/
def digitValue (c : UInt8) : Nat := if c < 58 then c.toNat - 48 else c.toNat - 55

/-- The number that a text stands for, after its spaces. -/
def parseNumber (b : Nat) (text : List UInt8) : Nat :=
  Nat.ofDigits b ((text.dropWhile (· = 32)).map digitValue).reverse

/-- Digits are read back. -/
theorem parseNumber_digits {b : Nat} (hb : b ≤ 16) {qs : List Nat} (hqs : ∀ q ∈ qs, q < b) (k : Nat) :
    parseNumber b (List.replicate k 32 ++ qs.map (digitChar 65)) = Nat.ofDigits b qs.reverse := by
  have hspace : ∀ q < 16, digitChar 65 q ≠ 32 := by decide
  have hvalue : ∀ q < 16, digitValue (digitChar 65 q) = q := by decide
  have hdrop : (List.replicate k 32 ++ qs.map (digitChar 65)).dropWhile (· = 32) = qs.map (digitChar 65) := by
    induction k with
    | zero =>
      cases qs with
      | nil => rfl
      | cons q qs =>
        apply List.dropWhile_cons_of_neg
        simpa using hspace q ((hqs q List.mem_cons_self).trans_le hb)
    | succ k ih => exact (List.dropWhile_cons_of_pos (by simp)).trans ih
  have hmap : (qs.map (digitChar 65)).map digitValue = qs := by
    rw [List.map_map]
    calc qs.map (digitValue ∘ digitChar 65) = qs.map id :=
          List.map_congr_left fun q hq => hvalue q ((hqs q hq).trans_le hb)
      _ = qs := List.map_id qs
  rw [parseNumber, hdrop, hmap]

/-- What is written is read back. -/
theorem parseNumber_formatNumber {b : Nat} (hb : 1 < b) (hb' : b ≤ 16) {d : Directive}
    (hpadding : d.padding = 32 ∨ d.padding = 48) (x : Nat) :
    parseNumber b (formatNumber b (digitChar 65) d x) = x := by
  have hpos : 0 < b := Nat.lt_trans Nat.zero_lt_one hb
  have hfill : ∀ {n : Nat} {qs : List Nat}, (∀ q ∈ qs, q < b) → ∀ q ∈ qs.leftpad n 0, q < b := by
    intro n qs hqs q hq
    rcases List.mem_append.mp hq with hzero | hq
    · rw [List.eq_of_mem_replicate hzero]
      exact hpos
    · exact hqs q hq
  have hdigits : ∀ q ∈ (Nat.digits b x).reverse, q < b := fun q hq =>
    Nat.digits_lt_base hb (List.mem_reverse.mp hq)
  have hvalue : Nat.ofDigits b (Nat.digits b x).reverse.reverse = x := by
    rw [List.reverse_reverse, Nat.ofDigits_digits]
  rw [formatNumber]
  rcases hpadding with hpad | hpad
  · rw [hpad, List.leftpad, parseNumber_digits hb' (hfill hdigits), ofDigits_leftpad, hvalue]
  · -- zeros are digits as well
    have hzero : (48 : UInt8) = digitChar 65 0 := rfl
    have hparse := parseNumber_digits hb' (hfill (n := d.width.toNat) (hfill (n := max d.precision.toNat 1)
      hdigits)) 0
    rw [hpad, hzero, ← map_leftpad]
    exact hparse.trans (by rw [ofDigits_leftpad, ofDigits_leftpad, hvalue])

/-! ## Directives -/

/-- The conversions of numbers. -/
inductive NumberConversion where
  | hexLower
  | hexUpper
  | unsigned
  | signed
deriving DecidableEq, Repr

namespace NumberConversion

/-- `x`, `X`, `u` and `d`. -/
def char : NumberConversion → UInt8
  | .hexLower => 120
  | .hexUpper => 88
  | .unsigned => 117
  | .signed => 100

/-- The digits there can be. -/
def capacity (d : Directive) : NumberConversion → Nat
  | .hexLower | .hexUpper => if d.ells = 2 then 16 else 8
  | .unsigned | .signed => 10

/-- What an argument should look like. -/
def text (d : Directive) (word : UInt64) : NumberConversion → List UInt8
  | .hexLower => formatNumber 16 (digitChar 97) d (if d.ells = 2 then word.toNat else word.toUInt32.toNat)
  | .hexUpper => formatNumber 16 (digitChar 65) d (if d.ells = 2 then word.toNat else word.toUInt32.toNat)
  | .unsigned => formatNumber 10 (digitChar 65) d word.toUInt32.toNat
  | .signed =>
    (if word.toUInt32.toInt32 < 0 then [45] else []) ++
      formatNumber 10 (digitChar 65) d word.toUInt32.toInt32.toInt.natAbs

end NumberConversion

/-- Options are what can stand between `%` and a conversion. -/
def IsOptions (options : List UInt8) : Prop := ∀ c ∈ options, c ≠ 0 ∧ c ∉ conversions

instance (options : List UInt8) : Decidable (IsOptions options) :=
  List.decidableBAll (fun c => c ≠ 0 ∧ c ∉ conversions) options

/-- The variables of a directive with these options. -/
def directiveOf (options : List UInt8) : Directive := options.foldl Directive.option .init

example : directiveOf [48, 49, 54, 46, 56, 108, 108] = ⟨8, 16, true, 48, 2, printfModePrecision⟩ := by decide

section Directives

variable {args : VaList} {options rest out : List UInt8} {arg fuel steps : Nat} {d : Directive}
  {conv : NumberConversion}

/-- No option changes the case of the digits, and the padding is a space or a zero. -/
theorem directiveOf_spec (options : List UInt8) :
    (directiveOf options).upper = true ∧
      ((directiveOf options).padding = 32 ∨ (directiveOf options).padding = 48) := by
  have hinit : Directive.init.upper = true ∧ (Directive.init.padding = 32 ∨ Directive.init.padding = 48) :=
    ⟨rfl, Or.inl rfl⟩
  refine List.foldlRecOn options Directive.option
    (motive := fun d => d.upper = true ∧ (d.padding = 32 ∨ d.padding = 48)) hinit ?_
  rintro d ⟨hupper, hpadding⟩ c -
  rw [Directive.option]
  split_ifs
  · exact ⟨hupper, hpadding⟩
  · exact ⟨hupper, hpadding⟩
  · exact ⟨hupper, hpadding⟩
  · exact ⟨hupper, Or.inr rfl⟩
  · exact ⟨hupper, hpadding⟩
  · exact ⟨hupper, hpadding⟩

/-- The options go into the variables. -/
theorem directiveLoop_options (hoptions : IsOptions options) :
    directiveLoop args (fuel + options.length) d ⟨some (options ++ rest), arg, out⟩ =
      directiveLoop args fuel (options.foldl Directive.option d) ⟨some rest, arg, out⟩ := by
  induction options generalizing d with
  | nil => rfl
  | cons c options ih =>
    obtain ⟨hzero, hc⟩ := hoptions c List.mem_cons_self
    rw [List.length_cons, ← Nat.add_assoc, List.cons_append, directiveLoop_option _ _ _ _ _ hzero hc,
      ih fun c' hc' => hoptions c' (List.mem_cons_of_mem c hc'), List.foldl_cons]

/-- At the conversion the argument is written. -/
theorem directiveLoop_number (hupper : d.upper = true) (hwidth : d.width.toNat ≤ conv.capacity d)
    (hprecision : d.precision.toNat ≤ conv.capacity d) :
    directiveLoop args (fuel + 1) d ⟨some (conv.char :: rest), arg, out⟩ =
      .ok ⟨some (conv.char :: rest), arg + 1, out ++ conv.text d (args.word arg)⟩ := by
  have hput : ∀ {text}, text = conv.text d (args.word arg) →
      (Except.ok (Printf.put ⟨some (conv.char :: rest), arg, out⟩ text) : Exec Printf) =
        .ok ⟨some (conv.char :: rest), arg + 1, out ++ conv.text d (args.word arg)⟩ := by
    rintro _ rfl
    rfl
  cases conv with
  | hexLower =>
    have htext : putHex { d with upper := false } (args.word arg) = _ := putHex_eq _ hwidth hprecision
    exact hput htext
  | hexUpper =>
    have hletter : d.letter = 65 := if_pos hupper
    have htext : putHex d (args.word arg) = _ := putHex_eq _ hwidth hprecision
    rw [hletter] at htext
    exact hput htext
  | unsigned => exact hput (putUnsigned_eq _ hwidth hprecision)
  | signed => exact hput (putSigned_eq _ hwidth hprecision)

/-- A round of the loop over the format takes the directive, and the pointer moves past it. -/
theorem vprintfLoop_number (hoptions : IsOptions options) (hsteps : options.length < steps)
    (hwidth : (directiveOf options).width.toNat ≤ conv.capacity (directiveOf options))
    (hprecision : (directiveOf options).precision.toNat ≤ conv.capacity (directiveOf options)) :
    vprintfLoop args steps (fuel + 1) ⟨some (37 :: (options ++ conv.char :: rest)), arg, out⟩ =
      vprintfLoop args steps fuel
        ⟨some rest, arg + 1, out ++ conv.text (directiveOf options) (args.word arg)⟩ := by
  obtain ⟨left, rfl⟩ := Nat.exists_eq_add_of_lt hsteps
  have hrun : directiveLoop args (options.length + left + 1) .init
        ⟨some (options ++ conv.char :: rest), arg, out⟩ =
      .ok ⟨some (conv.char :: rest), arg + 1,
        out ++ conv.text (directiveOf options) (args.word arg)⟩ := by
    rw [show options.length + left + 1 = left + 1 + options.length by omega,
      directiveLoop_options hoptions]
    exact directiveLoop_number (directiveOf_spec options).1 hwidth hprecision
  rw [vprintfLoop]
  simp only [StrPtr.read, StrPtr.next, Exec.ok_bind, hrun]
  rfl

end Directives

/-! ## Numbers that are written exactly -/

/-- `vprintf` writes an argument exactly. -/
structure NumberExact (args : VaList) (options : List UInt8) (conv : NumberConversion) : Prop where
  /-- Wherever the directive stands in the format, the next argument is written as it should look. -/
  written : ∀ {steps fuel rest arg out}, options.length < steps →
    vprintfLoop args steps (fuel + 1) ⟨some (37 :: (options ++ conv.char :: rest)), arg, out⟩ =
      vprintfLoop args steps fuel
        ⟨some rest, arg + 1, out ++ conv.text (directiveOf options) (args.word arg)⟩
  /-- A format that is just the directive gives just the number. -/
  alone : ∀ {fmt : CString}, fmt.bytes = 37 :: (options ++ [conv.char]) →
    vprintf fmt args = .ok (conv.text (directiveOf options) (args.word 0))
  /-- A 64-bit number is read back. -/
  hex_back : ∀ word, (directiveOf options).ells = 2 →
    parseNumber 16 (NumberConversion.text (directiveOf options) word .hexUpper) = word.toNat
  /-- A decimal number is read back. -/
  decimal_back : ∀ word,
    parseNumber 10 (NumberConversion.text (directiveOf options) word .unsigned) = word.toUInt32.toNat

/-- **Numbers are written exactly**, with any options that ask for no more characters than there can
be digits. -/
theorem number_format_exact (args : VaList) {options : List UInt8} {conv : NumberConversion}
    (hoptions : IsOptions options)
    (hwidth : (directiveOf options).width.toNat ≤ conv.capacity (directiveOf options))
    (hprecision : (directiveOf options).precision.toNat ≤ conv.capacity (directiveOf options)) :
    NumberExact args options conv where
  written hsteps := vprintfLoop_number hoptions hsteps hwidth hprecision
  alone {fmt} hfmt := by
    rw [vprintf, hfmt]
    have hsteps : options.length < (37 :: (options ++ [conv.char])).length + 2 := by
      rw [List.length_cons, List.length_append]
      omega
    rw [vprintfLoop_number hoptions hsteps hwidth hprecision]
    rfl
  hex_back word hells := by
    rw [NumberConversion.text, if_pos hells]
    exact parseNumber_formatNumber (by decide) (by decide) (directiveOf_spec options).2 _
  decimal_back word :=
    parseNumber_formatNumber (by decide) (by decide) (directiveOf_spec options).2 _

/-- `"%016llX"`. -/
theorem number_format_exact_llX :
    NumberExact ⟨fun _ => 0xFEE00000, fun _ => ⟨[], nofun⟩⟩ [48, 49, 54, 108, 108] .hexUpper :=
  number_format_exact _ (by decide) (by decide) (by decide)

end Rtv.Utils
