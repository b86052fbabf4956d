import Mathlib.Data.List.Induction

/-!
# A list of writes to a device

Code that sets up a device is the list of its writes. `after` is what the device is after them, and
`Along` says that something holds of the device before the first write and after each of them, that is
after each beginning of the list (`along_iff_prefix`).

A loop that makes some writes for each element of a list has the rule `Along.flatMap`, with an invariant
that speaks about the elements done so far.
-/

namespace Rtv.Lib

variable {δ ω α : Type*} (write : δ → ω → δ)

/-- The device after the writes. -/
def after (d : δ) (ws : List ω) : δ := ws.foldl write d

/-- The device is in `P` all along the writes. -/
def Along (P : δ → Prop) : δ → List ω → Prop
  | d, [] => P d
  | d, w :: ws => P d ∧ Along P (write d w) ws

variable {write} {P Q : δ → Prop} {d : δ} {a b ws : List ω}

@[simp] theorem after_nil : after write d [] = d := rfl

@[simp] theorem after_cons (w : ω) : after write d (w :: ws) = after write (write d w) ws := rfl

@[simp] theorem after_append : after write d (a ++ b) = after write (after write d a) b :=
  List.foldl_append

theorem Along.first (h : Along write P d ws) : P d := by
  cases ws with
  | nil => exact h
  | cons w ws => exact h.1

/-- One list after another. -/
theorem Along.append (ha : Along write P d a) (hb : Along write P (after write d a) b) :
    Along write P d (a ++ b) := by
  induction a generalizing d with
  | nil => exact hb
  | cons w a ih => exact ⟨ha.1, ih ha.2 hb⟩

/-- What follows from it at each point holds all along. -/
theorem Along.mono (h : Along write P d ws) (hPQ : ∀ d, P d → Q d) : Along write Q d ws := by
  induction ws generalizing d with
  | nil => exact hPQ d h
  | cons w ws ih => exact ⟨hPQ d h.1, ih h.2⟩

/-- **All along is after each beginning.** -/
theorem along_iff_prefix : Along write P d ws ↔ ∀ pre, pre <+: ws → P (after write d pre) := by
  induction ws generalizing d with
  | nil =>
    constructor
    · intro h pre hpre
      rw [List.prefix_nil.mp hpre]
      exact h
    · intro h
      exact h [] (List.prefix_refl [])
  | cons w ws ih =>
    constructor
    · rintro ⟨hd, hrest⟩ pre hpre
      cases pre with
      | nil => exact hd
      | cons v pre =>
        obtain ⟨rfl, htail⟩ := List.cons_prefix_cons.mp hpre
        exact ih.mp hrest pre htail
    · intro h
      refine ⟨h [] List.nil_prefix, ih.mpr fun pre hpre => ?_⟩
      exact h (w :: pre) (List.cons_prefix_cons.mpr ⟨rfl, hpre⟩)

/-- **The rule for a loop**: an invariant on the elements done so far, whose writes stay in `P`. -/
theorem Along.flatMap {f : α → List ω} {I : List α → δ → Prop} {xs : List α} (hstart : I [] d)
    (hP : ∀ pre d, I pre d → P d)
    (step : ∀ pre x d, x ∈ xs → I pre d → Along write P d (f x) ∧ I (pre ++ [x]) (after write d (f x))) :
    Along write P d (xs.flatMap f) ∧ I xs (after write d (xs.flatMap f)) := by
  induction xs using List.reverseRecOn with
  | nil => exact ⟨hP [] d hstart, hstart⟩
  | append_singleton xs x ih =>
    obtain ⟨halong, hI⟩ := ih fun pre y d hy => step pre y d (List.mem_append_left _ hy)
    obtain ⟨hmore, hnext⟩ := step xs x _ (List.mem_append_right _ (List.mem_singleton_self x)) hI
    rw [List.flatMap_append, List.flatMap_singleton, after_append]
    exact ⟨halong.append hmore, hnext⟩

end Rtv.Lib
