import Mathlib.Data.List.Basic
import Rtv.Utils.Screen

/-!
# What `vprintf` reads of its format

The loop over a directive stops at a conversion and at the terminator. In both cases the loop over the
format then moves on by a character: past the conversion, or past the terminator, behind which it
reads on.

**The law** (`vprintf_inside_iff`): `vprintf` ends and reads no byte behind the terminator exactly if
the format does not end inside a directive.
-/

namespace Rtv.Utils

open Rtv.Lib

/-! ## Reads inside the format -/

/-- `vprintf` ends and reads nothing behind the terminator of its format. -/
def ReadsInside (fmt : CString) (args : VaList) : Prop := ∃ out, vprintf fmt args = .ok out

/-- The characters `x`, `X`, `u`, `d`, `s` and `%`, which end a directive. -/
def conversions : List UInt8 := [120, 88, 117, 100, 115, 37]

/-- Where a character of a format stands. -/
inductive FormatMode where
  | text
  | directive
deriving DecidableEq, Repr

/-- A directive goes from `%` to the next conversion. -/
def FormatMode.step : FormatMode → UInt8 → FormatMode
  | .text, c => if c = 37 then .directive else .text
  | .directive, c => if c ∈ conversions then .text else .directive

/-- The format does not end inside a directive. -/
def Finished (fmt : List UInt8) : Prop := fmt.foldl FormatMode.step .text = .text

instance (fmt : List UInt8) : Decidable (Finished fmt) := inferInstanceAs (Decidable (_ = _))

/-! ## The loop over a directive -/

section Directive

variable (args : VaList) (fuel arg : Nat) (d : Directive) (out : List UInt8) {c : UInt8}
  {l rest : List UInt8}

/-- A character that is no conversion is an option, known or not. -/
theorem directiveLoop_option (hzero : c ≠ 0) (hc : c ∉ conversions) :
    directiveLoop args (fuel + 1) d ⟨some (c :: rest), arg, out⟩ =
      directiveLoop args fuel (d.option c) ⟨some rest, arg, out⟩ := by
  simp only [conversions, List.mem_cons, List.not_mem_nil, or_false, not_or] at hc
  obtain ⟨hx, hX, hu, hd, hs, hpercent⟩ := hc
  rw [directiveLoop]
  simp [StrPtr.read, StrPtr.next, hzero, hx, hX, hu, hd, hs, hpercent]

/-- At a conversion the loop ends, with the pointer there. -/
theorem directiveLoop_conversion (hc : c ∈ conversions) :
    ∃ arg' out', directiveLoop args (fuel + 1) d ⟨some (c :: rest), arg, out⟩ =
      .ok ⟨some (c :: rest), arg', out'⟩ := by
  rw [directiveLoop]
  simp only [StrPtr.read, Exec.ok_bind]
  simp only [conversions, List.mem_cons, List.not_mem_nil, or_false] at hc
  rcases hc with rfl | rfl | rfl | rfl | rfl | rfl
  all_goals exact ⟨_, _, rfl⟩

/-- The loop ends at a conversion, or at the terminator when the format ends inside the directive. -/
theorem directiveLoop_ends (hzero : 0 ∉ l) (hfuel : l.length < fuel) :
    ∃ arg' out', (∃ c rest, c :: rest <:+ l ∧
        l.foldl FormatMode.step .directive = rest.foldl FormatMode.step .text ∧
        directiveLoop args fuel d ⟨some l, arg, out⟩ = .ok ⟨some (c :: rest), arg', out'⟩) ∨
      l.foldl FormatMode.step .directive = .directive ∧
        directiveLoop args fuel d ⟨some l, arg, out⟩ = .ok ⟨some [], arg', out'⟩ := by
  induction l generalizing fuel d with
  | nil =>
    obtain ⟨fuel, rfl⟩ := Nat.exists_eq_succ_of_ne_zero (Nat.ne_zero_of_lt hfuel)
    exact ⟨arg, out, Or.inr ⟨rfl, rfl⟩⟩
  | cons c rest ih =>
    obtain ⟨fuel, rfl⟩ := Nat.exists_eq_succ_of_ne_zero (Nat.ne_zero_of_lt hfuel)
    obtain ⟨hc0, hrest0⟩ := List.ne_and_not_mem_of_not_mem_cons hzero
    rw [List.foldl_cons, FormatMode.step]
    by_cases hc : c ∈ conversions
    · obtain ⟨arg', out', hrun⟩ := directiveLoop_conversion args fuel arg d out hc
      rw [if_pos hc]
      exact ⟨arg', out', Or.inl ⟨c, rest, List.suffix_refl _, rfl, hrun⟩⟩
    · rw [if_neg hc, directiveLoop_option args fuel arg d out (Ne.symm hc0) hc]
      obtain ⟨arg', out', ⟨c', rest', hsuffix, hmode, hrun⟩ | hend⟩ :=
        ih fuel (d.option c) hrest0 (Nat.lt_of_succ_lt_succ hfuel)
      · exact ⟨arg', out', Or.inl ⟨c', rest', hsuffix.trans (List.suffix_cons c rest), hmode, hrun⟩⟩
      · exact ⟨arg', out', Or.inr hend⟩

end Directive

/-! ## The loop over the format -/

section Format

variable (args : VaList) {steps fuel arg : Nat} {out l : List UInt8}

/-- The loop returns if the format is finished, and reads behind the terminator if it is not. -/
theorem vprintfLoop_ends (hzero : 0 ∉ l) (hsteps : l.length < steps) (hfuel : l.length + 1 < fuel) :
    (Finished l → ∃ t, vprintfLoop args steps fuel ⟨some l, arg, out⟩ = .ok t) ∧
      (¬Finished l → vprintfLoop args steps fuel ⟨some l, arg, out⟩ = .error .fault) := by
  induction fuel generalizing l arg out with
  | zero => exact absurd hfuel (Nat.not_lt_zero _)
  | succ fuel ih =>
    cases l with
    | nil => exact ⟨fun _ => ⟨_, rfl⟩, fun h => absurd rfl h⟩
    | cons c rest =>
      obtain ⟨hc0, hrest0⟩ := List.ne_and_not_mem_of_not_mem_cons hzero
      rw [List.length_cons] at hsteps hfuel
      by_cases hpercent : c = 37
      · have hmode : (c :: rest).foldl FormatMode.step .text = rest.foldl FormatMode.step .directive := by
          rw [List.foldl_cons, FormatMode.step, if_pos hpercent]
        obtain ⟨arg', out', ⟨c', rest', hsuffix, hmode', hrun⟩ | ⟨hmode', hrun⟩⟩ :=
          directiveLoop_ends args steps arg .init out hrest0 (by omega)
        · have hlen := hsuffix.length_le
          have hrest0' : 0 ∉ rest' := fun hmem =>
            hrest0 (hsuffix.subset (List.mem_cons_of_mem c' hmem))
          rw [List.length_cons] at hlen
          have hfinished : Finished (c :: rest) ↔ Finished rest' := by
            rw [Finished, hmode, hmode', Finished]
          rw [hfinished, vprintfLoop]
          simp only [StrPtr.read, StrPtr.next, Exec.ok_bind, if_neg (Ne.symm hc0), if_pos hpercent, hrun]
          exact ih hrest0' (by omega) (by omega)
        · -- the pointer moves on from the terminator
          obtain ⟨fuel, rfl⟩ := Nat.exists_eq_succ_of_ne_zero (show fuel ≠ 0 by omega)
          constructor
          · intro hfinished
            rw [Finished, hmode, hmode'] at hfinished
            cases hfinished
          · intro _
            rw [vprintfLoop]
            simp only [StrPtr.read, StrPtr.next, Exec.ok_bind, if_neg (Ne.symm hc0), if_pos hpercent,
              hrun]
            rfl
      · have hfinished : Finished (c :: rest) ↔ Finished rest := by
          rw [Finished, List.foldl_cons, FormatMode.step, if_neg hpercent, Finished]
        rw [hfinished, vprintfLoop]
        simp only [StrPtr.read, StrPtr.next, Exec.ok_bind, if_neg (Ne.symm hc0), if_neg hpercent,
          Exec.pure_eq]
        exact ih hrest0 (by omega) (by omega)

end Format

/-- **`vprintf` stays inside its format** exactly if the format does not end inside a directive. -/
theorem vprintf_inside_iff (fmt : CString) (args : VaList) :
    ReadsInside fmt args ↔ Finished fmt.bytes := by
  rw [ReadsInside, vprintf]
  set len := fmt.bytes.length with hlen
  have hends : (Finished fmt.bytes →
        ∃ t, vprintfLoop args (len + 2) (len + 2) ⟨some fmt.bytes, 0, []⟩ = .ok t) ∧
      (¬Finished fmt.bytes →
        vprintfLoop args (len + 2) (len + 2) ⟨some fmt.bytes, 0, []⟩ = .error .fault) :=
    vprintfLoop_ends args fmt.nonzero (by omega) (by omega)
  obtain ⟨hreturns, hfaults⟩ := hends
  constructor
  · rintro ⟨out, hout⟩
    by_contra hopen
    rw [hfaults hopen] at hout
    cases hout
  · intro hfinished
    obtain ⟨t, ht⟩ := hreturns hfinished
    exact ⟨t.out, by rw [ht]; rfl⟩

/-- **A read behind the terminator**, for the format `"%"`. -/
theorem vprintf_outside : ¬ ∀ fmt args, ReadsInside fmt args := by
  intro h
  obtain ⟨out, hout⟩ := h ⟨[37], by decide⟩ ⟨fun _ => 0, fun _ => ⟨[], nofun⟩⟩
  cases hout

end Rtv.Utils
