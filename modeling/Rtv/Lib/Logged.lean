import Rtv.Lib.Exec

/-!
# Computations with a log

A computation that may stop and keeps a log of what it has done, `Logged ω α`. The log is there also
when the computation stops, so that it can be said what was done before.

Without its log it is a computation of `Rtv.Lib.Exec`: `outcome`, which commutes with the operations.
-/

namespace Rtv.Lib

/-- A computation with a log of entries `ω`. -/
structure Logged (ω α : Type) where
  log : List ω
  outcome : Exec α

namespace Logged

variable {ω α β : Type}

instance : Monad (Logged ω) where
  pure a := ⟨[], .ok a⟩
  bind x f :=
    match x.outcome with
    | .ok a => ⟨x.log ++ (f a).log, (f a).outcome⟩
    | .error e => ⟨x.log, .error e⟩

/-- An entry of the log. -/
def record (w : ω) : Logged ω Unit := ⟨[w], .ok ()⟩

/-- A computation that logs nothing. -/
def lift (x : Exec α) : Logged ω α := ⟨[], x⟩

/-! ## Sequences -/

section Sequences

variable (l : List ω) (w : ω) (a : α) (f : α → Logged ω β) (g : Unit → Logged ω β)

theorem bind_ok : ((⟨l, .ok a⟩ : Logged ω α) >>= f) = ⟨l ++ (f a).log, (f a).outcome⟩ := rfl

theorem lift_ok_bind : ((lift (.ok a) : Logged ω α) >>= f) = f a := rfl

theorem record_bind : (record w >>= g) = ⟨w :: (g ()).log, (g ()).outcome⟩ := rfl

end Sequences

/-! ## Without the log -/

@[simp] theorem outcome_pure (a : α) : (pure a : Logged ω α).outcome = .ok a := rfl

@[simp] theorem outcome_record (w : ω) : (record w).outcome = .ok () := rfl

@[simp] theorem outcome_lift (x : Exec α) : (lift x : Logged ω α).outcome = x := rfl

@[simp] theorem outcome_bind (x : Logged ω α) (f : α → Logged ω β) :
    (x >>= f).outcome = x.outcome >>= fun a => (f a).outcome := by
  obtain ⟨log, x⟩ := x
  cases x with
  | error e => rfl
  | ok a => rfl

@[simp] theorem outcome_ite {c : Prop} [Decidable c] (x y : Logged ω α) :
    (if c then x else y).outcome = if c then x.outcome else y.outcome :=
  apply_ite outcome c x y

/-! ## The log -/

variable {w : ω}

@[simp] theorem log_pure (a : α) : (pure a : Logged ω α).log = [] := rfl

@[simp] theorem log_record (w : ω) : (record w).log = [w] := rfl

@[simp] theorem log_lift (x : Exec α) : (lift x : Logged ω α).log = [] := rfl

/-- What a sequence has logged. -/
theorem mem_log_bind {x : Logged ω α} {f : α → Logged ω β} :
    w ∈ (x >>= f).log ↔ w ∈ x.log ∨ ∃ a, x.outcome = .ok a ∧ w ∈ (f a).log := by
  obtain ⟨log, x⟩ := x
  cases x with
  | error e =>
    change w ∈ log ↔ _
    simp
  | ok a =>
    change w ∈ log ++ (f a).log ↔ _
    simp

/-- The log of a sequence whose first part returns. -/
theorem log_bind_ok {x : Logged ω α} {f : α → Logged ω β} {a : α} (h : x.outcome = .ok a) :
    (x >>= f).log = x.log ++ (f a).log := by
  obtain ⟨log, x⟩ := x
  obtain rfl : x = .ok a := h
  rfl

/-- A result that is only passed on. -/
@[simp] theorem log_bind_pure (x : Logged ω α) (f : α → β) : (x >>= fun a => pure (f a)).log = x.log := by
  obtain ⟨log, x⟩ := x
  cases x with
  | error e => rfl
  | ok a => exact List.append_nil log

/-- **What a loop over a list has logged**: each entry was logged by the body for one of the elements,
after it returned for all elements before. -/
theorem mem_log_foldlM {f : β → α → Logged ω β} {xs : List α} {b : β} :
    w ∈ (xs.foldlM f b).log ↔ ∃ pre x post b', xs = pre ++ x :: post ∧
      (pre.foldlM f b).outcome = .ok b' ∧ w ∈ (f b' x).log := by
  induction xs generalizing b with
  | nil =>
    constructor
    · exact nofun
    · rintro ⟨pre, x, post, b', heq, -⟩
      exact absurd heq (List.append_ne_nil_of_right_ne_nil _ (List.cons_ne_nil _ _)).symm
  | cons x rest ih =>
    rw [List.foldlM_cons, mem_log_bind]
    constructor
    · rintro (hfirst | ⟨b₁, hb₁, hrest⟩)
      · exact ⟨[], x, rest, b, rfl, rfl, hfirst⟩
      · obtain ⟨pre, y, post, b', rfl, hpre, hw⟩ := ih.mp hrest
        refine ⟨x :: pre, y, post, b', rfl, ?_, hw⟩
        rw [List.foldlM_cons, outcome_bind, hb₁]
        exact hpre
    · rintro ⟨pre, y, post, b', heq, hpre, hw⟩
      cases pre with
      | nil =>
        obtain ⟨rfl, rfl⟩ := List.cons.inj heq
        cases hpre
        exact Or.inl hw
      | cons z pre =>
        obtain ⟨rfl, rfl⟩ := List.cons.inj heq
        rw [List.foldlM_cons, outcome_bind] at hpre
        obtain ⟨b₁, hb₁, hpre⟩ := Exec.bind_eq_ok.mp hpre
        exact Or.inr ⟨b₁, hb₁, ih.mpr ⟨pre, y, post, b', rfl, hpre, hw⟩⟩

/-- A loop over a list without the log. -/
theorem outcome_foldlM {f : β → α → Logged ω β} (xs : List α) (b : β) :
    (xs.foldlM f b).outcome = xs.foldlM (fun b x => (f b x).outcome) b := by
  induction xs generalizing b with
  | nil => rfl
  | cons x rest ih =>
    rw [List.foldlM_cons, List.foldlM_cons, outcome_bind]
    congr 1
    funext b'
    exact ih b'

end Logged

end Rtv.Lib
