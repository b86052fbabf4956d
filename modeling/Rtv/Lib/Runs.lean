import Mathlib.Data.List.Basic
import Mathlib.Data.List.Induction

/-!
# Runs of a labelled transition system

A system is a step relation `step s e s'` over states and labels; what it does is its runs,
`Runs step s tr s'`: from `s`, through the labels `tr`, to `s'`. A run grows at its end, because
an invariant is argued about the last step.

Everything a safety argument needs of runs is here once. `Runs.invariant` turns a step lemma into
a run lemma, `Runs.mono` reads a run of a restricted system as one of the whole system, and
`Runs.trans` glues two runs. `Runs.simulate` follows a run in a second system through related
states, and `Runs.restrict` turns a condition met before every step into a run of the restricted
system. Where the steps are a function, `follow` computes the run of given labels.
`runs_to_stuck` is the liveness side: a measure that some step always lowers leads every state to
one where no such step is left.
-/

namespace Rtv.Lib

variable {σ ε : Type*}

/-- The runs of a step relation: the labels in order, the last step at the end. -/
inductive Runs (step : σ → ε → σ → Prop) (s : σ) : List ε → σ → Prop
  | nil : Runs step s [] s
  | snoc {tr : List ε} {t t' : σ} {e : ε} :
      Runs step s tr t → step t e t' → Runs step s (tr ++ [e]) t'

namespace Runs

variable {step : σ → ε → σ → Prop} {s t u : σ} {tr tr' : List ε} {e : ε}

/-- A run of one step. -/
theorem single (h : step s e t) : Runs step s [e] t := by
  have hrun : Runs step s ([] ++ [e]) t := .snoc .nil h
  exact hrun

/-- Runs compose. -/
theorem trans (h : Runs step s tr t) (h' : Runs step t tr' u) : Runs step s (tr ++ tr') u := by
  induction h' with
  | nil => simpa only [List.append_nil] using h
  | snoc _ hstep ih =>
    rw [← List.append_assoc]
    exact .snoc ih hstep

/-- A run whose first step comes first. -/
theorem cons (h : step s e t) (h' : Runs step t tr u) : Runs step s (e :: tr) u :=
  (single h).trans h'

theorem of_nil (h : Runs step s [] t) : s = t := by
  generalize hnil : [] = none at h
  cases h with
  | nil => rfl
  | snoc _ _ => simp at hnil

/-- A run in two parts. -/
theorem of_append (h : Runs step s (tr ++ tr') u) : ∃ t, Runs step s tr t ∧ Runs step t tr' u := by
  induction tr' using List.reverseRecOn generalizing u with
  | nil =>
    rw [List.append_nil] at h
    exact ⟨u, h, .nil⟩
  | append_singleton tr' e ih =>
    rw [← List.append_assoc] at h
    generalize hall : tr ++ tr' ++ [e] = all at h
    cases h with
    | nil => simp at hall
    | snoc hrun hstep =>
      obtain ⟨hpre, hlast⟩ := List.append_inj' hall rfl
      cases hlast
      subst hpre
      obtain ⟨t, hfirst, hsecond⟩ := ih hrun
      exact ⟨t, hfirst, .snoc hsecond hstep⟩

/-- The first step of a run. -/
theorem of_cons (h : Runs step s (e :: tr) u) : ∃ t, step s e t ∧ Runs step t tr u := by
  have happend : Runs step s ([e] ++ tr) u := h
  obtain ⟨t, hfirst, hrest⟩ := happend.of_append
  generalize hone : [e] = one at hfirst
  cases hfirst with
  | nil => cases hone
  | snoc hrun hstep =>
    have hsplit : [] ++ [e] = _ := hone
    obtain ⟨hpre, hlast⟩ := List.append_inj' hsplit rfl
    cases hlast
    subst hpre
    cases of_nil hrun
    exact ⟨t, hstep, hrest⟩

/-- What one step preserves, a run preserves. -/
theorem invariant {I : σ → Prop} (keeps : ∀ a e b, I a → step a e b → I b)
    (h : Runs step s tr t) (hs : I s) : I t := by
  induction h with
  | nil => exact hs
  | snoc _ hstep ih => exact keeps _ _ _ ih hstep

/-- Every label of a run is that of a step taken on the way. -/
theorem step_of_mem (h : Runs step s tr t) (he : e ∈ tr) :
    ∃ before u v, Runs step s before u ∧ step u e v := by
  induction h with
  | nil => exact absurd he List.not_mem_nil
  | @snoc tr u v e' hrun hstep ih =>
    rcases List.mem_append.mp he with hmem | hlast
    · exact ih hmem
    · rw [List.mem_singleton] at hlast
      exact ⟨tr, u, v, hrun, hlast ▸ hstep⟩

/-- The runs of a restricted system are runs of the system. -/
theorem mono {step' : σ → ε → σ → Prop} (sub : ∀ a e b, step a e b → step' a e b)
    (h : Runs step s tr t) : Runs step' s tr t := by
  induction h with
  | nil => exact .nil
  | snoc _ hstep ih => exact .snoc ih (sub _ _ _ hstep)

/-- A condition that holds before every step of a run restricts its steps. -/
theorem restrict {ok : σ → ε → Prop} (h : Runs step s tr t)
    (hok : ∀ before e u, before ++ [e] <+: tr → Runs step s before u → ok u e) :
    Runs (fun a e b => ok a e ∧ step a e b) s tr t := by
  induction h with
  | nil => exact .nil
  | @snoc tr t t' e hrun hstep ih =>
    have hlast : ok t e := hok tr e t (List.prefix_refl _) hrun
    apply Runs.snoc _ ⟨hlast, hstep⟩
    apply ih
    intro before e' u hpre
    exact hok before e' u (hpre.trans (List.prefix_append _ _))

/-- A step relation that answers every step with the event it stands for, or stays where it is
when the step stands for none, follows the whole run. -/
theorem simulate {τ ε' : Type*} {step' : τ → ε' → τ → Prop} {R : σ → τ → Prop}
    {event : ε → Option ε'} {x : τ}
    (silent : ∀ a e b x, R a x → step a e b → event e = none → R b x)
    (answer : ∀ a e b x e', R a x → step a e b → event e = some e' → ∃ y, step' x e' y ∧ R b y)
    (h : Runs step s tr t) (hx : R s x) : ∃ y, Runs step' x (tr.filterMap event) y ∧ R t y := by
  induction h with
  | nil => exact ⟨x, .nil, hx⟩
  | @snoc tr t t' e _ hstep ih =>
    obtain ⟨y, hrun, hy⟩ := ih
    rw [List.filterMap_append]
    cases he : event e with
    | none =>
      refine ⟨y, ?_, silent t e t' y hy hstep he⟩
      rw [List.filterMap_cons_none he, List.filterMap_nil, List.append_nil]
      exact hrun
    | some e' =>
      obtain ⟨z, hz, hR⟩ := answer t e t' y e' hy hstep he
      refine ⟨z, ?_, hR⟩
      rw [List.filterMap_cons_some he, List.filterMap_nil]
      exact .snoc hrun hz

end Runs

/-- Where the steps are a function, the state that the given labels lead to. -/
def follow (next : σ → ε → Option σ) (s : σ) : List ε → Option σ
  | [] => some s
  | e :: es => (next s e).bind fun t => follow next t es

/-- Labels that can be followed are a run. -/
theorem runs_of_follow {next : σ → ε → Option σ} : ∀ {es : List ε} {s t : σ},
    follow next s es = some t → Runs (fun a e b => next a e = some b) s es t
  | [], s, t, h => by
    cases h
    exact .nil
  | e :: es, s, t, h => by
    obtain ⟨u, hu, ht⟩ := Option.bind_eq_some_iff.mp h
    exact .cons hu (runs_of_follow ht)

/-- **A measure that steps down leads to rest.** If every state of the invariant either is at
rest or has a step that keeps the invariant and lowers the measure, then a run leads from every
state of the invariant to a state at rest. -/
theorem runs_to_stuck {step : σ → ε → σ → Prop} {I Rest : σ → Prop} (measure : σ → Nat)
    (progress : ∀ a, I a → Rest a ∨ ∃ e b, step a e b ∧ I b ∧ measure b < measure a) :
    ∀ s, I s → ∃ tr t, Runs step s tr t ∧ I t ∧ Rest t := by
  intro s
  induction hm : measure s using Nat.strongRecOn generalizing s with
  | ind m ih =>
    intro hs
    rcases progress s hs with hrest | ⟨e, b, hstep, hb, hlt⟩
    · exact ⟨[], s, .nil, hs, hrest⟩
    · obtain ⟨tr, t, hrun, ht, hrest⟩ := ih (measure b) (hm ▸ hlt) b rfl hb
      exact ⟨e :: tr, t, .cons hstep hrun, ht, hrest⟩

end Rtv.Lib
