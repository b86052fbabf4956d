import Rtv.Lib.Exec

/-!
# Triples

Rules for computations on a state that may stop, `StateT σ Exec α`.

`Triple P x Q`: if `x` starts in a state with `P` and returns, then `Q` holds of its result and of
the state afterwards. `Total P x Q`: and it does return. `Pair R x S` compares two runs of one
computation: if it returns from the first of two states related by `R`, it returns the same from the
second, and the states afterwards are related by `S`. A computation that stops meets every triple and
every pair.
-/

namespace Rtv.Lib

variable {σ α β : Type}

/-- A sequence that returns: its first part returned, and then the rest did. -/
theorem run_bind_eq_ok {x : StateT σ Exec α} {f : α → StateT σ Exec β} {s : σ} {r : β × σ} :
    (x >>= f) s = .ok r ↔ ∃ a s₁, x s = .ok (a, s₁) ∧ f a s₁ = .ok r := by
  constructor
  · intro h
    obtain ⟨⟨a, s₁⟩, hx, hf⟩ := Exec.bind_eq_ok.mp h
    exact ⟨a, s₁, hx, hf⟩
  · rintro ⟨a, s₁, hx, hf⟩
    exact Exec.bind_eq_ok.mpr ⟨(a, s₁), hx, hf⟩

/-- If `x` returns from a state with `P`, its result and the state afterwards have `Q`. -/
def Triple (P : σ → Prop) (x : StateT σ Exec α) (Q : α → σ → Prop) : Prop :=
  ∀ s a s', P s → x s = .ok (a, s') → Q a s'

namespace Triple

variable {P P' : σ → Prop} {Q Q' : α → σ → Prop} {x : StateT σ Exec α}

theorem bind {R : β → σ → Prop} {f : α → StateT σ Exec β} (hx : Triple P x Q)
    (hf : ∀ a, Triple (Q a) (f a) R) : Triple P (x >>= f) R := by
  intro s b s' hs hrun
  obtain ⟨a, s₁, hxs, hfs⟩ := run_bind_eq_ok.mp hrun
  exact hf a s₁ b s' (hx s a s₁ hs hxs) hfs

/-- A part that does not matter. -/
theorem skip {R : β → σ → Prop} {f : α → StateT σ Exec β} (hf : ∀ a, Triple (fun _ => True) (f a) R) :
    Triple (fun _ => True) (x >>= f) R :=
  bind (fun _ _ _ _ _ => trivial) hf

theorem pure {a : α} (h : ∀ s, P s → Q a s) : Triple P (pure a : StateT σ Exec α) Q := by
  intro s b s' hs hrun
  cases hrun
  exact h s hs

theorem mono (h : Triple P x Q) (hpre : ∀ s, P' s → P s) (hpost : ∀ a s, Q a s → Q' a s) :
    Triple P' x Q' := by
  intro s a s' hs hrun
  exact hpost a s' (h s a s' (hpre s hs) hrun)

/-- What two triples say of a computation. -/
theorem and (h : Triple P x Q) (h' : Triple P x Q') : Triple P x fun a s => Q a s ∧ Q' a s :=
  fun s a s' hs hrun => ⟨h s a s' hs hrun, h' s a s' hs hrun⟩

/-- A fact that does not depend on the state is for the whole triple. -/
theorem intro {p : Prop} (h : p → Triple P x Q) : Triple (fun s => p ∧ P s) x Q := by
  intro s a s' hs hrun
  exact h hs.1 s a s' hs.2 hrun

/-- A fact about the parts before is all that is known. -/
theorem of_fact {p : Prop} (h : p → Triple (fun _ => True) x Q) : Triple (fun _ => p) x Q :=
  fun s a s' hp hrun => h hp s a s' trivial hrun

theorem exists_intro {γ : Sort*} {P : γ → σ → Prop} (h : ∀ c, Triple (P c) x Q) :
    Triple (fun s => ∃ c, P c s) x Q := by
  rintro s a s' ⟨c, hs⟩ hrun
  exact h c s a s' hs hrun

theorem ite {c : Prop} [Decidable c] {y : StateT σ Exec α} (hx : c → Triple P x Q)
    (hy : ¬ c → Triple P y Q) : Triple P (if c then x else y) Q := by
  split
  · next hc => exact hx hc
  · next hc => exact hy hc

/-- The rule for a loop over a list. -/
theorem foldlM {P : β → σ → Prop} {f : β → α → StateT σ Exec β}
    (step : ∀ b x, Triple (P b) (f b x) P) (xs : List α) (b : β) :
    Triple (P b) (xs.foldlM f b) P := by
  induction xs generalizing b with
  | nil => exact pure fun _ hs => hs
  | cons x rest ih =>
    rw [List.foldlM_cons]
    exact (step b x).bind ih

/-- The rule for a loop that counts. -/
theorem foldlM_range {P : Nat → β → σ → Prop} {f : β → Nat → StateT σ Exec β} {k : Nat}
    (step : ∀ i < k, ∀ b, Triple (P i b) (f b i) (P (i + 1))) (b : β) :
    Triple (P 0 b) ((List.range k).foldlM f b) (P k) := by
  induction k with
  | zero => exact pure fun _ hs => hs
  | succ k ih =>
    rw [List.range_succ, List.foldlM_append]
    refine (ih fun i hi => step i (Nat.lt_succ_of_lt hi)).bind fun b' => ?_
    rw [List.foldlM_cons]
    exact (step k (Nat.lt_succ_self k) b').bind fun _ => pure fun _ hs => hs

end Triple

/-- `x` returns from every state with `P`, with a result and a state that have `Q`. -/
def Total (P : σ → Prop) (x : StateT σ Exec α) (Q : α → σ → Prop) : Prop :=
  ∀ s, P s → ∃ a s', x s = .ok (a, s') ∧ Q a s'

namespace Total

variable {P P' : σ → Prop} {Q Q' : α → σ → Prop} {x : StateT σ Exec α}

theorem bind {R : β → σ → Prop} {f : α → StateT σ Exec β} (hx : Total P x Q)
    (hf : ∀ a, Total (Q a) (f a) R) : Total P (x >>= f) R := by
  intro s hs
  obtain ⟨a, s₁, hrun, hQ⟩ := hx s hs
  obtain ⟨b, s', hrest, hR⟩ := hf a s₁ hQ
  exact ⟨b, s', run_bind_eq_ok.mpr ⟨a, s₁, hrun, hrest⟩, hR⟩

theorem pure {a : α} (h : ∀ s, P s → Q a s) : Total P (pure a : StateT σ Exec α) Q :=
  fun s hs => ⟨a, s, rfl, h s hs⟩

theorem mono (h : Total P x Q) (hpre : ∀ s, P' s → P s) (hpost : ∀ a s, Q a s → Q' a s) :
    Total P' x Q' := by
  intro s hs
  obtain ⟨a, s', hrun, hQ⟩ := h s (hpre s hs)
  exact ⟨a, s', hrun, hpost a s' hQ⟩

/-- A fact that does not depend on the state. -/
theorem intro {p : Prop} (h : p → Total P x Q) : Total (fun s => p ∧ P s) x Q :=
  fun s hs => h hs.1 s hs.2

/-- A triple adds what it says to a computation that returns. -/
theorem and (h : Total P x Q) (h' : Triple P' x Q') :
    Total (fun s => P s ∧ P' s) x fun a s => Q a s ∧ Q' a s := by
  intro s hs
  obtain ⟨a, s', hrun, hQ⟩ := h s hs.1
  exact ⟨a, s', hrun, hQ, h' s a s' hs.2 hrun⟩

end Total

/-- If `x` returns from `s`, it returns the same from `t`, and the states afterwards have `S`. -/
def Pair (R : σ → σ → Prop) (x : StateT σ Exec α) (S : α → σ → σ → Prop) : Prop :=
  ∀ s t a s', R s t → x s = .ok (a, s') → ∃ t', x t = .ok (a, t') ∧ S a s' t'

namespace Pair

variable {R R' : σ → σ → Prop} {S S' : α → σ → σ → Prop} {x : StateT σ Exec α}

theorem bind {T : β → σ → σ → Prop} {f : α → StateT σ Exec β} (hx : Pair R x S)
    (hf : ∀ a, Pair (S a) (f a) T) : Pair R (x >>= f) T := by
  intro s t b s' hst hrun
  obtain ⟨a, s₁, hxs, hfs⟩ := run_bind_eq_ok.mp hrun
  obtain ⟨t₁, hxt, hst₁⟩ := hx s t a s₁ hst hxs
  obtain ⟨t', hft, hst'⟩ := hf a s₁ t₁ b s' hst₁ hfs
  exact ⟨t', run_bind_eq_ok.mpr ⟨a, t₁, hxt, hft⟩, hst'⟩

theorem pure {a : α} (h : ∀ s t, R s t → S a s t) : Pair R (pure a : StateT σ Exec α) S := by
  intro s t b s' hst hrun
  cases hrun
  exact ⟨t, rfl, h s t hst⟩

theorem mono (h : Pair R x S) (hpre : ∀ s t, R' s t → R s t)
    (hpost : ∀ a s t, S a s t → S' a s t) : Pair R' x S' := by
  intro s t a s' hst hrun
  obtain ⟨t', hxt, hst'⟩ := h s t a s' (hpre s t hst) hrun
  exact ⟨t', hxt, hpost a s' t' hst'⟩

/-- A sequence whose rest relies on what the first part returns. -/
theorem bind_of {T : β → σ → σ → Prop} {f : α → StateT σ Exec β} {p : α → Prop} (hx : Pair R x S)
    (hp : ∀ s a s', x s = .ok (a, s') → p a) (hf : ∀ a, p a → Pair (S a) (f a) T) :
    Pair R (x >>= f) T := by
  intro s t b s' hst hrun
  obtain ⟨a, s₁, hxs, hfs⟩ := run_bind_eq_ok.mp hrun
  obtain ⟨t₁, hxt, hst₁⟩ := hx s t a s₁ hst hxs
  obtain ⟨t', hft, hst'⟩ := hf a (hp s a s₁ hxs) s₁ t₁ b s' hst₁ hfs
  exact ⟨t', run_bind_eq_ok.mpr ⟨a, t₁, hxt, hft⟩, hst'⟩

theorem foldlM {R : β → σ → σ → Prop} {f : β → α → StateT σ Exec β}
    (step : ∀ b x, Pair (R b) (f b x) R) (xs : List α) (b : β) :
    Pair (R b) (xs.foldlM f b) R := by
  induction xs generalizing b with
  | nil => exact pure fun _ _ hst => hst
  | cons x rest ih =>
    rw [List.foldlM_cons]
    exact (step b x).bind ih

end Pair

end Rtv.Lib
