import Mathlib.Algebra.Group.Nat.Defs
import Mathlib.Data.Nat.Basic

/-!
# Computations that may stop

A C function of the machine either returns or stops: it panics, it touches memory it must not
touch, or it runs for ever. `Exec α` is `Except Stop α`. A loop whose bound is not syntactic
recurses on fuel and stops with `hang` when the fuel is used up; the fuel of every loop is chosen
so that a loop which ends never meets that case, and the function's specification says so.

Machine integers are natural numbers here, and `add64` and `sub64` are the wrapping operations on
`uint64_t`; code that cannot wrap uses plain arithmetic.
-/

namespace Rtv.Lib

/-- How a computation ends without a result. -/
inductive Stop where
  /-- A call of `panic` in a function, with its message. -/
  | panic (func msg : String)
  /-- An access outside the object it is meant for, or a trap of the processor. -/
  | fault
  /-- A loop that did not end within its fuel. -/
  | hang
deriving DecidableEq, Repr

/-- A computation that returns or stops. -/
abbrev Exec (α : Type) := Except Stop α

namespace Exec

variable {α β : Type}

@[simp] theorem pure_eq (a : α) : (pure a : Exec α) = .ok a := rfl

@[simp] theorem ok_bind (a : α) (f : α → Exec β) : ((Except.ok a : Exec α) >>= f) = f a := rfl

@[simp] theorem error_bind (e : Stop) (f : α → Exec β) :
    ((Except.error e : Exec α) >>= f) = .error e := rfl

/-- What follows a check. -/
theorem check_bind {c : Prop} [Decidable c] (e : Stop) (a : α) (f : α → Exec β) :
    ((if c then .error e else .ok a : Exec α) >>= f) = if c then .error e else f a := by
  split
  · rfl
  · rfl

/-- A sequence that returns: its first part returned, and then the rest did. -/
theorem bind_eq_ok {x : Exec α} {f : α → Exec β} {b : β} :
    x >>= f = .ok b ↔ ∃ a, x = .ok a ∧ f a = .ok b := by
  cases x with
  | error e => simp
  | ok a => simp

/-- A guarded computation that returns: the guard held. -/
theorem guard_eq_ok {c : Prop} [Decidable c] {x : Exec α} {e : Stop} {a : α} :
    (if c then x else .error e) = .ok a ↔ c ∧ x = .ok a := by
  by_cases h : c <;> simp [h]

/-- A computation that is seen to return has a result. -/
theorem exists_of_isOk {x : Exec α} (h : x.isOk = true) : ∃ a, x = .ok a := by
  cases x with
  | error e => cases h
  | ok a => exact ⟨a, rfl⟩

/-- A computation whose first result is seen has returned it. -/
theorem exists_of_map_fst {x : Exec (α × β)} {a : α} (h : x.map Prod.fst = .ok a) :
    ∃ b, x = .ok (a, b) := by
  cases x with
  | error e => cases h
  | ok r =>
    cases h
    exact ⟨r.2, rfl⟩

/-- **The rule for a loop over a list.** A property of the elements done so far and the state, true
at the start and carried on by a body that returns, holds after the loop, which returns. -/
theorem foldlM_ok {f : β → α → Exec β} {P : List α → β → Prop} {xs : List α} {b : β} (h₀ : P [] b)
    (step : ∀ pre x b, x ∈ xs → P pre b → ∃ b', f b x = .ok b' ∧ P (pre ++ [x]) b') :
    ∃ b', xs.foldlM f b = .ok b' ∧ P xs b' := by
  suffices h : ∀ (rest pre : List α) (b : β), (∀ x ∈ rest, x ∈ xs) → P pre b →
      ∃ b', rest.foldlM f b = .ok b' ∧ P (pre ++ rest) b' from
    h xs [] b (fun _ hx => hx) h₀
  intro rest
  induction rest with
  | nil =>
    intro pre b _ hb
    exact ⟨b, rfl, by rwa [List.append_nil]⟩
  | cons x rest ih =>
    intro pre b hsub hb
    obtain ⟨b₁, hf, hb₁⟩ := step pre x b (hsub x List.mem_cons_self) hb
    obtain ⟨b₂, hrest, hb₂⟩ :=
      ih (pre ++ [x]) b₁ (fun y hy => hsub y (List.mem_cons_of_mem x hy)) hb₁
    refine ⟨b₂, ?_, by simpa using hb₂⟩
    rw [List.foldlM_cons, hf, ok_bind, hrest]

/-- The rule for a loop over a list that has returned: the body need not return from every state. -/
theorem foldlM_inv {f : β → α → Exec β} {P : List α → β → Prop} {xs : List α} {b b' : β}
    (h₀ : P [] b) (step : ∀ pre x b b', P pre b → f b x = .ok b' → P (pre ++ [x]) b')
    (h : xs.foldlM f b = .ok b') : P xs b' := by
  suffices hgen : ∀ (rest pre : List α) (b : β), P pre b → rest.foldlM f b = .ok b' →
      P (pre ++ rest) b' from
    hgen xs [] b h₀ h
  intro rest
  induction rest with
  | nil =>
    intro pre b hb hrun
    cases hrun
    rwa [List.append_nil]
  | cons x rest ih =>
    intro pre b hb hrun
    rw [List.foldlM_cons, bind_eq_ok] at hrun
    obtain ⟨b₁, hf, hrest⟩ := hrun
    have hall := ih (pre ++ [x]) b₁ (step pre x b b₁ hb hf) hrest
    rwa [List.append_assoc, List.singleton_append] at hall

/-- A loop over a list returns exactly if its body does for each element, where that depends on the
element alone. -/
theorem foldlM_returns_iff {f : β → α → Exec β} {Q : α → Prop} {xs : List α} {b : β}
    (h : ∀ x ∈ xs, ∀ b, (∃ b', f b x = .ok b') ↔ Q x) :
    (∃ b', xs.foldlM f b = .ok b') ↔ ∀ x ∈ xs, Q x := by
  induction xs generalizing b with
  | nil => exact iff_of_true ⟨b, rfl⟩ nofun
  | cons x rest ih =>
    have hrest : ∀ y ∈ rest, ∀ b, (∃ b', f b y = .ok b') ↔ Q y := fun y hy =>
      h y (List.mem_cons_of_mem x hy)
    simp only [List.foldlM_cons, bind_eq_ok, List.forall_mem_cons]
    constructor
    · rintro ⟨b', b₁, hfirst, hrun⟩
      exact ⟨(h x List.mem_cons_self b).mp ⟨b₁, hfirst⟩, (ih hrest).mp ⟨b', hrun⟩⟩
    · rintro ⟨hx, hall⟩
      obtain ⟨b₁, hfirst⟩ := (h x List.mem_cons_self b).mpr hx
      obtain ⟨b', hrun⟩ := (ih (b := b₁) hrest).mpr hall
      exact ⟨b', b₁, hfirst, hrun⟩

/-- The rule for a loop over a list that has stopped: some body did. -/
theorem foldlM_error {f : β → α → Exec β} {P : Stop → Prop} {xs : List α} {b : β} {e : Stop}
    (step : ∀ b x e, f b x = .error e → P e) (h : xs.foldlM f b = .error e) : P e := by
  induction xs generalizing b with
  | nil => cases h
  | cons x rest ih =>
    rw [List.foldlM_cons] at h
    cases hx : f b x with
    | error e' =>
      rw [hx, error_bind] at h
      cases h
      exact step b x e hx
    | ok b₁ =>
      rw [hx, ok_bind] at h
      exact ih h

/-- A computation whose loops all ended within their fuel. -/
def Ends (x : Exec α) : Prop := x ≠ .error .hang

theorem ends_ok (a : α) : Ends (.ok a : Exec α) := nofun

theorem ends_fault : Ends (.error .fault : Exec α) := nofun

/-- A sequence ends if its parts do. -/
theorem Ends.bind {x : Exec α} {f : α → Exec β} (hx : Ends x) (hf : ∀ a, x = .ok a → Ends (f a)) :
    Ends (x >>= f) := by
  cases x with
  | error e => exact fun h => hx (by simpa using h)
  | ok a => exact hf a rfl

end Exec

/-- `a - b` on `uint64_t`. -/
def sub64 (a b : Nat) : Nat := (a + 2 ^ 64 - b) % 2 ^ 64

/-- Without a borrow, `uint64_t` subtraction is subtraction. -/
theorem sub64_of_le {a b : Nat} (h : b ≤ a) (ha : a < 2 ^ 64) : sub64 a b = a - b := by
  unfold sub64
  omega

/-- `a + b` on `uint64_t`. -/
def add64 (a b : Nat) : Nat := (a + b) % 2 ^ 64

/-- Without a carry, `uint64_t` addition is addition. -/
theorem add64_of_lt {a b : Nat} (h : a + b < 2 ^ 64) : add64 a b = a + b := Nat.mod_eq_of_lt h

/-- More rounds than any loop over a `uint64_t` counter that only goes up can make. -/
def loopFuel : Nat := 2 ^ 64

end Rtv.Lib
