import Mathlib.Algebra.BigOperators.Fin
import Mathlib.Algebra.Order.BigOperators.Group.Finset
import Rtv.Lib.Runs

/-!
# The MTRR barrier

`kernel_main` on the bootstrap CPU and `ap_main` on every other CPU end with the same lines
around `mtrr_config`:

    spin_lock(&mtrr_lock);  mtrr_sync++;  spin_unlock(&mtrr_lock);
    while (mtrr_sync != g_cpus) ;
    mtrr_config();
    spin_lock(&mtrr_lock);  mtrr_sync--;  spin_unlock(&mtrr_lock);
    while (mtrr_sync != 0) ;

The model is the interleaving of these steps over `n = g_cpus` CPUs. `mtrr_lock` is a mutual
exclusion lock: taking it is a step that is only there while it is free, so a CPU waiting for it
is blocked and a CPU holding it is not. One read of a spin loop is one step, which moves on or
leaves the state as it is.

## What is proved

The counter counts the CPUs between their increment and their decrement (`Inv.sync_eq`), whatever
the interleaving. The barrier is nevertheless wrong: the first wait asks for the exact value `n`,
and the CPU that sees it may decrement before another one has looked. From then on the counter
stays below `n` and the late CPU waits for ever.

- `barrier_progress_when_drained`: in the runs where nobody decrements before everybody has left
  the first wait, no state is stuck, and a run that breaks this condition even once can be
  continued into a stuck state.
- `two_cpus_deadlock`: with two CPUs such a run exists.
- `barrier_safe`: what the barrier is for does hold in every run, stuck or not. Nobody runs
  `mtrr_config` before everybody has incremented, and nobody gets past the second wait before
  everybody has run it.
-/

namespace Rtv.Smp

open Rtv.Lib

/-! ## The CPUs -/

/-- Where a CPU is in the barrier code. `lockUp` and `lockDown` wait for `mtrr_lock`; `spinUp`
and `spinDown` are the two spin loops; `done` is past the second one. -/
inductive Pc where
  | lockUp | incr | unlockUp | spinUp | config | lockDown | decr | unlockDown | spinDown | done
deriving DecidableEq, Repr

/-- The place of a program point in the code. -/
def Pc.rank : Pc → Nat
  | .lockUp => 0
  | .incr => 1
  | .unlockUp => 2
  | .spinUp => 3
  | .config => 4
  | .lockDown => 5
  | .decr => 6
  | .unlockDown => 7
  | .spinDown => 8
  | .done => 9

/-- A CPU that holds `mtrr_lock`. -/
def Pc.holds : Pc → Bool
  | .incr | .unlockUp | .decr | .unlockDown => true
  | _ => false

/-- One for a CPU between its increment and its decrement: what `mtrr_sync` counts. -/
def Pc.counted : Pc → Nat
  | .unlockUp | .spinUp | .config | .lockDown | .decr => 1
  | _ => 0

/-- The machine: every CPU's program point, `mtrr_sync` (a `uint8_t`) and the holder of
`mtrr_lock`. -/
structure Barrier (n : Nat) where
  pc : Fin n → Pc
  mtrrSync : Nat
  lock : Option (Fin n)

/-- Before the first CPU arrives. -/
def Barrier.init (n : Nat) : Barrier n := ⟨fun _ => .lockUp, 0, none⟩

/-- CPU `i` moves on to `p`. -/
def Barrier.goto {n : Nat} (s : Barrier n) (i : Fin n) (p : Pc) : Barrier n :=
  { s with pc := Function.update s.pc i p }

/-- The next step of CPU `i`. It has none while it waits for a lock somebody holds, and none
once it has left the second spin loop. A failing spin read leaves the state as it is. -/
def Barrier.step {n : Nat} (s : Barrier n) (i : Fin n) : Option (Barrier n) :=
  match s.pc i with
  | .lockUp => if s.lock = none then some { s.goto i .incr with lock := some i } else none
  | .incr => some { s.goto i .unlockUp with mtrrSync := (s.mtrrSync + 1) % 256 }
  | .unlockUp => some { s.goto i .spinUp with lock := none }
  | .spinUp => if s.mtrrSync = n then some (s.goto i .config) else some s
  | .config => some (s.goto i .lockDown)
  | .lockDown => if s.lock = none then some { s.goto i .decr with lock := some i } else none
  | .decr => some { s.goto i .unlockDown with mtrrSync := (s.mtrrSync + 255) % 256 }
  | .unlockDown => some { s.goto i .spinDown with lock := none }
  | .spinDown => if s.mtrrSync = 0 then some (s.goto i .done) else some s
  | .done => none

/-- One step of the machine, labelled with the CPU that takes it. -/
def Barrier.Step {n : Nat} (s : Barrier n) (i : Fin n) (s' : Barrier n) : Prop :=
  s.step i = some s'

/-- CPU `i` is at a spin loop whose next read fails. -/
def Barrier.FailingRead {n : Nat} (s : Barrier n) (i : Fin n) : Prop :=
  s.pc i = .spinUp ∧ s.mtrrSync ≠ n ∨ s.pc i = .spinDown ∧ s.mtrrSync ≠ 0

instance {n : Nat} (s : Barrier n) (i : Fin n) : Decidable (s.FailingRead i) :=
  inferInstanceAs (Decidable (_ ∨ _))

/-- Stuck: some CPU has not left the second spin loop, and no CPU has a step other than a
failing spin read. -/
def Barrier.Stuck {n : Nat} (s : Barrier n) : Prop :=
  (∃ i, s.pc i ≠ .done) ∧ ∀ i, s.step i = none ∨ s.FailingRead i

instance {n : Nat} (s : Barrier n) : Decidable s.Stuck :=
  inferInstanceAs (Decidable ((∃ _, _) ∧ ∀ _, _ ∨ _))

/-- The step of CPU `i` in `s` is not a decrement made while some CPU has yet to leave the first
spin loop. -/
def Barrier.Drained {n : Nat} (s : Barrier n) (i : Fin n) : Prop :=
  s.pc i = .decr → ∀ j, Pc.spinUp.rank < (s.pc j).rank

instance {n : Nat} (s : Barrier n) (i : Fin n) : Decidable (s.Drained i) :=
  inferInstanceAs (Decidable (_ → _))

@[simp] theorem Barrier.goto_pc {n : Nat} (s : Barrier n) (i : Fin n) (p : Pc) :
    (s.goto i p).pc = Function.update s.pc i p := rfl

@[simp] theorem Barrier.goto_mtrrSync {n : Nat} (s : Barrier n) (i : Fin n) (p : Pc) :
    (s.goto i p).mtrrSync = s.mtrrSync := rfl

@[simp] theorem Barrier.goto_lock {n : Nat} (s : Barrier n) (i : Fin n) (p : Pc) :
    (s.goto i p).lock = s.lock := rfl

/-! ## What one step can do -/

/-- A step, read backwards: it either is a failing read, or moves its CPU one program point on,
with the effect that point has on the counter and on the lock. -/
inductive Barrier.Moves {n : Nat} (s : Barrier n) (i : Fin n) : Barrier n → Prop
  | idle : s.FailingRead i → Moves s i s
  | acquire (p q : Pc) : s.pc i = p → (p = .lockUp ∧ q = .incr ∨ p = .lockDown ∧ q = .decr) →
      s.lock = none → Moves s i { s.goto i q with lock := some i }
  | count : s.pc i = .incr →
      Moves s i { s.goto i .unlockUp with mtrrSync := (s.mtrrSync + 1) % 256 }
  | uncount : s.pc i = .decr →
      Moves s i { s.goto i .unlockDown with mtrrSync := (s.mtrrSync + 255) % 256 }
  | release (p q : Pc) : s.pc i = p →
      (p = .unlockUp ∧ q = .spinUp ∨ p = .unlockDown ∧ q = .spinDown) →
      Moves s i { s.goto i q with lock := none }
  | leaveUp : s.pc i = .spinUp → s.mtrrSync = n → Moves s i (s.goto i .config)
  | configure : s.pc i = .config → Moves s i (s.goto i .lockDown)
  | leaveDown : s.pc i = .spinDown → s.mtrrSync = 0 → Moves s i (s.goto i .done)

/-- Every step is one of the moves. -/
theorem Barrier.Step.moves {n : Nat} {s s' : Barrier n} {i : Fin n} (h : s.Step i s') :
    s.Moves i s' := by
  unfold Barrier.Step Barrier.step at h
  cases hp : s.pc i <;> simp only [hp] at h
  case lockUp =>
    split at h <;> cases h
    exact .acquire _ _ hp (.inl ⟨rfl, rfl⟩) ‹_›
  case incr => cases h; exact .count hp
  case unlockUp => cases h; exact .release _ _ hp (.inl ⟨rfl, rfl⟩)
  case spinUp =>
    split at h <;> cases h
    · exact .leaveUp hp ‹_›
    · exact .idle (.inl ⟨hp, ‹_›⟩)
  case config => cases h; exact .configure hp
  case lockDown =>
    split at h <;> cases h
    exact .acquire _ _ hp (.inr ⟨rfl, rfl⟩) ‹_›
  case decr => cases h; exact .uncount hp
  case unlockDown => cases h; exact .release _ _ hp (.inr ⟨rfl, rfl⟩)
  case spinDown =>
    split at h <;> cases h
    · exact .leaveDown hp ‹_›
    · exact .idle (.inr ⟨hp, ‹_›⟩)
  case done => cases h

/-! ## The counting invariant -/

/-- Changing one summand of a sum over the CPUs. -/
theorem sum_update {n : Nat} (f : Pc → Nat) (g : Fin n → Pc) (i : Fin n) (p : Pc) :
    ∑ j, f (Function.update g i p j) + f (g i) = ∑ j, f (g j) + f p := by
  have hne : ∀ j ∈ Finset.univ.erase i, f (Function.update g i p j) = f (g j) := by
    intro j hj
    rw [Function.update_of_ne (Finset.ne_of_mem_erase hj)]
  have hold := Finset.add_sum_erase Finset.univ (fun j => f (g j)) (Finset.mem_univ i)
  have hnew := Finset.add_sum_erase Finset.univ (fun j => f (Function.update g i p j))
    (Finset.mem_univ i)
  rw [Finset.sum_congr rfl hne, Function.update_self] at hnew
  omega

/-- A CPU counts for at most one. -/
theorem Pc.counted_le (p : Pc) : p.counted ≤ 1 := by cases p <;> decide

/-- What holds in every reachable state, whatever the interleaving: the counter counts the CPUs
between increment and decrement, the lock is held by whoever is inside a locked section, and once
one CPU has left the first wait every CPU has made its increment. -/
structure Barrier.Inv {n : Nat} (s : Barrier n) : Prop where
  sync_eq : s.mtrrSync = ∑ j, (s.pc j).counted
  lock_iff : ∀ i, s.lock = some i ↔ (s.pc i).holds = true
  arrived : (∃ i, Pc.spinUp.rank < (s.pc i).rank) → ∀ j, Pc.incr.rank < (s.pc j).rank

/-- The counter never exceeds the number of CPUs. -/
theorem Barrier.Inv.sync_le {n : Nat} {s : Barrier n} (h : s.Inv) : s.mtrrSync ≤ n := by
  rw [h.sync_eq]
  calc ∑ j, (s.pc j).counted ≤ ∑ _j : Fin n, 1 := Finset.sum_le_sum fun j _ => (s.pc j).counted_le
    _ = n := by simp

/-- The counter reads `n` only while every CPU is between its increment and its decrement. -/
theorem Barrier.Inv.all_counted {n : Nat} {s : Barrier n} (h : s.Inv) (hn : s.mtrrSync = n) :
    ∀ j, (s.pc j).counted = 1 := by
  intro j
  by_contra hj
  have hlt : ∑ k, (s.pc k).counted < ∑ _k : Fin n, 1 :=
    Finset.sum_lt_sum (fun k _ => (s.pc k).counted_le)
      ⟨j, Finset.mem_univ j, lt_of_le_of_ne (s.pc j).counted_le hj⟩
  simp only [Finset.sum_const, Finset.card_univ, Fintype.card_fin, smul_eq_mul, mul_one] at hlt
  have := h.sync_eq
  omega

/-- The counter reads zero only while nobody is between its increment and its decrement. -/
theorem Barrier.Inv.none_counted {n : Nat} {s : Barrier n} (h : s.Inv) (h0 : s.mtrrSync = 0) :
    ∀ j, (s.pc j).counted = 0 := by
  have hsum := h.sync_eq.symm.trans h0
  intro j
  exact (Finset.sum_eq_zero_iff.mp hsum) j (Finset.mem_univ j)

/-- A CPU that is counted makes the counter positive. -/
theorem Barrier.Inv.sync_pos {n : Nat} {s : Barrier n} (h : s.Inv) {i : Fin n}
    (hi : (s.pc i).counted = 1) : 0 < s.mtrrSync := by
  rcases Nat.eq_zero_or_pos s.mtrrSync with h0 | hpos
  · have := h.none_counted h0 i
    omega
  · exact hpos

/-- The initial state satisfies the invariant. -/
theorem Barrier.init_inv (n : Nat) : (Barrier.init n).Inv where
  sync_eq := by simp [Barrier.init, Pc.counted]
  lock_iff := by simp [Barrier.init, Pc.holds]
  arrived := by rintro ⟨i, hi⟩; exact absurd hi (Nat.not_lt_zero _)

/-- The counter after CPU `i` moves from `s.pc i` to `p` and the counter becomes `v`. -/
theorem Barrier.Inv.sync_goto {n : Nat} {s : Barrier n} (h : s.Inv) {i : Fin n} {p : Pc} {v : Nat}
    (hv : v + (s.pc i).counted = s.mtrrSync + p.counted) :
    v = ∑ j, (Function.update s.pc i p j).counted := by
  have hupd := sum_update Pc.counted s.pc i p
  have hsum := h.sync_eq
  omega

/-- The lock clause after CPU `i` moves to a point that holds the lock just if it did before. -/
theorem Barrier.Inv.lock_goto {n : Nat} {s : Barrier n} (h : s.Inv) {i : Fin n} {p : Pc}
    (hp : p.holds = (s.pc i).holds) (k : Fin n) :
    s.lock = some k ↔ (Function.update s.pc i p k).holds = true := by
  by_cases hk : k = i
  · subst hk
    rw [Function.update_self, hp]
    exact h.lock_iff k
  · rw [Function.update_of_ne hk]
    exact h.lock_iff k

/-- The arrival clause after a CPU moves forward without leaving the first wait. -/
theorem Barrier.Inv.arrived_goto {n : Nat} {s : Barrier n} (h : s.Inv) {i : Fin n} {p : Pc}
    (hle : (s.pc i).rank ≤ p.rank)
    (hup : Pc.spinUp.rank < p.rank → ∀ j, Pc.incr.rank < (s.pc j).rank) :
    (∃ j, Pc.spinUp.rank < (Function.update s.pc i p j).rank) →
      ∀ j, Pc.incr.rank < (Function.update s.pc i p j).rank := by
  rintro ⟨k, hk⟩ j
  have hall : ∀ j, Pc.incr.rank < (s.pc j).rank := by
    by_cases hki : k = i
    · subst hki
      rw [Function.update_self] at hk
      exact hup hk
    · rw [Function.update_of_ne hki] at hk
      exact h.arrived ⟨k, hk⟩
  by_cases hj : j = i
  · subst hj
    rw [Function.update_self]
    exact lt_of_lt_of_le (hall j) hle
  · rw [Function.update_of_ne hj]
    exact hall j

/-- **One step keeps the invariant**, for at most 255 CPUs, so that the `uint8_t` never wraps. -/
theorem Barrier.step_inv {n : Nat} (hn : n ≤ 255) {s s' : Barrier n} {i : Fin n} (h : s.Inv)
    (hstep : s.Step i s') : s'.Inv := by
  cases hstep.moves with
  | idle => exact h
  | acquire p q hp hpq hfree =>
    have hself : ∀ k, some i = some k ↔ (Function.update s.pc i q k).holds = true := by
      intro k
      by_cases hk : k = i
      · subst hk
        rcases hpq with ⟨_, rfl⟩ | ⟨_, rfl⟩ <;> simp [Pc.holds]
      · rw [Function.update_of_ne hk, ← h.lock_iff k, hfree]
        simp [Ne.symm hk]
    rcases hpq with ⟨rfl, rfl⟩ | ⟨rfl, rfl⟩
    · exact ⟨h.sync_goto (by rw [hp]; simp [Pc.counted]), hself,
        h.arrived_goto (by rw [hp]; decide) (fun hlt => absurd hlt (by decide))⟩
    · exact ⟨h.sync_goto (by rw [hp]; simp [Pc.counted]), hself,
        h.arrived_goto (by rw [hp]; decide) (fun _ => h.arrived ⟨i, by rw [hp]; decide⟩)⟩
  | count hp =>
    -- the CPU that increments is not counted yet, so the counter is below 255
    have hlt : s.mtrrSync < n := by
      refine lt_of_le_of_ne h.sync_le fun heq => ?_
      have := h.all_counted heq i
      rw [hp] at this
      exact absurd this (by decide)
    exact ⟨h.sync_goto (by rw [hp]; simp only [Pc.counted]; omega),
      h.lock_goto (by rw [hp]; rfl),
      h.arrived_goto (by rw [hp]; decide) (fun hlt => absurd hlt (by decide))⟩
  | uncount hp =>
    have hpos : 0 < s.mtrrSync := h.sync_pos (i := i) (by rw [hp]; rfl)
    have hle := h.sync_le
    exact ⟨h.sync_goto (by rw [hp]; simp only [Pc.counted]; omega),
      h.lock_goto (by rw [hp]; rfl),
      h.arrived_goto (by rw [hp]; decide) (fun _ => h.arrived ⟨i, by rw [hp]; decide⟩)⟩
  | release p q hp hpq =>
    have hheld : s.lock = some i := (h.lock_iff i).mpr (by
      rcases hpq with ⟨rfl, _⟩ | ⟨rfl, _⟩ <;> rw [hp] <;> rfl)
    have hnone : ∀ k, none = some k ↔ (Function.update s.pc i q k).holds = true := by
      intro k
      by_cases hk : k = i
      · subst hk
        rcases hpq with ⟨_, rfl⟩ | ⟨_, rfl⟩ <;> simp [Pc.holds]
      · rw [Function.update_of_ne hk, ← h.lock_iff k, hheld]
        simp [Ne.symm hk]
    rcases hpq with ⟨rfl, rfl⟩ | ⟨rfl, rfl⟩
    · exact ⟨h.sync_goto (by rw [hp]; simp [Pc.counted]), hnone,
        h.arrived_goto (by rw [hp]; decide) (fun hlt => absurd hlt (by decide))⟩
    · exact ⟨h.sync_goto (by rw [hp]; simp [Pc.counted]), hnone,
        h.arrived_goto (by rw [hp]; decide) (fun _ => h.arrived ⟨i, by rw [hp]; decide⟩)⟩
  | leaveUp hp heq =>
    have hall : ∀ j, Pc.incr.rank < (s.pc j).rank := by
      intro j
      have hj := h.all_counted heq j
      cases hpj : s.pc j <;> rw [hpj] at hj <;> first | (exact absurd hj (by decide)) | decide
    exact ⟨h.sync_goto (by rw [hp]; simp [Pc.counted]), h.lock_goto (by rw [hp]; rfl),
      h.arrived_goto (by rw [hp]; decide) (fun _ => hall)⟩
  | configure hp =>
    exact ⟨h.sync_goto (by rw [hp]; simp [Pc.counted]), h.lock_goto (by rw [hp]; rfl),
      h.arrived_goto (by rw [hp]; decide) (fun _ => h.arrived ⟨i, by rw [hp]; decide⟩)⟩
  | leaveDown hp heq =>
    exact ⟨h.sync_goto (by rw [hp]; simp [Pc.counted]), h.lock_goto (by rw [hp]; rfl),
      h.arrived_goto (by rw [hp]; decide) (fun _ => h.arrived ⟨i, by rw [hp]; decide⟩)⟩

/-! ## Progress -/

/-- The steps that meet the condition: no decrement before everybody has left the first wait. -/
def Barrier.StepDrained {n : Nat} (s : Barrier n) (i : Fin n) (s' : Barrier n) : Prop :=
  s.Step i s' ∧ s.Drained i

/-- Under the condition, a CPU past its decrement means that everybody has left the first wait. -/
def Barrier.Late {n : Nat} (s : Barrier n) : Prop :=
  (∃ i, Pc.decr.rank < (s.pc i).rank) → ∀ j, Pc.spinUp.rank < (s.pc j).rank

/-- A step that meets the condition keeps `Late`. -/
theorem Barrier.step_late {n : Nat} {s s' : Barrier n} {i : Fin n} (h : s.Late)
    (hstep : s.StepDrained i s') : s'.Late := by
  have forward : ∀ {p : Pc}, (s.pc i).rank ≤ p.rank →
      (Pc.decr.rank < p.rank → ∀ j, Pc.spinUp.rank < (s.pc j).rank) →
      (∃ k, Pc.decr.rank < (Function.update s.pc i p k).rank) →
        ∀ j, Pc.spinUp.rank < (Function.update s.pc i p j).rank := by
    rintro p hle hup ⟨k, hk⟩ j
    have hall : ∀ j, Pc.spinUp.rank < (s.pc j).rank := by
      by_cases hki : k = i
      · subst hki
        rw [Function.update_self] at hk
        exact hup hk
      · rw [Function.update_of_ne hki] at hk
        exact h ⟨k, hk⟩
    by_cases hj : j = i
    · subst hj
      rw [Function.update_self]
      exact lt_of_lt_of_le (hall j) hle
    · rw [Function.update_of_ne hj]
      exact hall j
  cases hstep.1.moves with
  | idle => exact h
  | acquire p q hp hpq =>
    rcases hpq with ⟨rfl, rfl⟩ | ⟨rfl, rfl⟩ <;>
      exact forward (by rw [hp]; decide) (fun hlt => absurd hlt (by decide))
  | count hp => exact forward (by rw [hp]; decide) (fun hlt => absurd hlt (by decide))
  | uncount hp => exact forward (by rw [hp]; decide) (fun _ => hstep.2 hp)
  | release p q hp hpq =>
    rcases hpq with ⟨rfl, rfl⟩ | ⟨rfl, rfl⟩
    · exact forward (by rw [hp]; decide) (fun hlt => absurd hlt (by decide))
    · exact forward (by rw [hp]; decide) (fun _ => h ⟨i, by rw [hp]; decide⟩)
  | leaveUp hp => exact forward (by rw [hp]; decide) (fun hlt => absurd hlt (by decide))
  | configure hp => exact forward (by rw [hp]; decide) (fun hlt => absurd hlt (by decide))
  | leaveDown hp => exact forward (by rw [hp]; decide) (fun _ => h ⟨i, by rw [hp]; decide⟩)

/-- In a stuck state every CPU is at a spin loop whose read fails, or done: nobody holds the lock,
for a holder always has a step, and so nobody waits for it. -/
theorem Barrier.Inv.stuck_cases {n : Nat} {s : Barrier n} (h : s.Inv) (hs : s.Stuck) :
    ∀ i, s.pc i = .spinUp ∧ s.mtrrSync ≠ n ∨ s.pc i = .spinDown ∧ s.mtrrSync ≠ 0 ∨
      s.pc i = .done := by
  have hfree : s.lock = none := by
    cases hl : s.lock with
    | none => rfl
    | some k =>
      have hk := (h.lock_iff k).mp hl
      rcases hs.2 k with hnone | hfail
      · unfold Barrier.step at hnone
        cases hp : s.pc k <;> rw [hp] at hk hnone <;> first | exact absurd hk (by decide) | cases hnone
      · rcases hfail with ⟨hp, _⟩ | ⟨hp, _⟩ <;> rw [hp] at hk <;> exact absurd hk (by decide)
  intro i
  rcases hs.2 i with hnone | hfail
  · unfold Barrier.step at hnone
    cases hp : s.pc i <;> simp only [hp, hfree, if_true, reduceCtorEq] at hnone
    case spinUp => split at hnone <;> cases hnone
    case spinDown => split at hnone <;> cases hnone
    case done => exact .inr (.inr rfl)
  · rcases hfail with hup | hdown
    · exact .inl hup
    · exact .inr (.inl hdown)

/-- A state of the invariant in which nobody has decremented before everybody left the first wait
is not stuck: CPUs still at the first loop would read `n`, and otherwise those at the second loop
read zero. -/
theorem Barrier.Inv.not_stuck {n : Nat} {s : Barrier n} (h : s.Inv) (hlate : s.Late) :
    ¬ s.Stuck := by
  intro hs
  have hcases := h.stuck_cases hs
  by_cases hup : ∃ i, s.pc i = .spinUp
  · obtain ⟨i, hi⟩ := hup
    have hnot : ∀ j, ¬ Pc.decr.rank < (s.pc j).rank := by
      intro j hj
      have := hlate ⟨j, hj⟩ i
      rw [hi] at this
      exact absurd this (by decide)
    have hall : ∀ j, s.pc j = .spinUp ∧ s.mtrrSync ≠ n := by
      intro j
      rcases hcases j with hj | ⟨hj, _⟩ | hj
      · exact hj
      · exact absurd (by rw [hj]; decide) (hnot j)
      · exact absurd (by rw [hj]; decide) (hnot j)
    refine (hall i).2 ?_
    rw [h.sync_eq]
    simp [fun j => (hall j).1, Pc.counted]
  · obtain ⟨i, hi⟩ := hs.1
    have hzero : s.mtrrSync = 0 := by
      rw [h.sync_eq]
      refine Finset.sum_eq_zero fun j _ => ?_
      rcases hcases j with ⟨hj, _⟩ | ⟨hj, _⟩ | hj
      · exact absurd ⟨j, hj⟩ hup
      · rw [hj]; rfl
      · rw [hj]; rfl
    rcases hcases i with ⟨hj, _⟩ | ⟨_, hj⟩ | hj
    · exact hup ⟨i, hj⟩
    · exact hj hzero
    · exact hi hj

/-! ## The deadlock -/

/-- The deadlock to come: one CPU is not past the first wait, another one has decremented. -/
def Barrier.Doomed {n : Nat} (s : Barrier n) : Prop :=
  s.Inv ∧ (∃ j, (s.pc j).rank ≤ Pc.spinUp.rank) ∧ ∃ i, Pc.decr.rank < (s.pc i).rank

/-- In a doomed state the counter is below `n`: the CPU that has decremented is not counted. -/
theorem Barrier.Doomed.sync_ne {n : Nat} {s : Barrier n} (h : s.Doomed) : s.mtrrSync ≠ n := by
  obtain ⟨hinv, _, i, hi⟩ := h
  intro heq
  have hc := hinv.all_counted heq i
  cases hp : s.pc i <;> rw [hp] at hc hi <;>
    first | exact absurd hc (by decide) | exact absurd hi (by decide)

/-- A move other than a failing read moves its CPU one program point on. -/
theorem Barrier.Moves.forward {n : Nat} {s s' : Barrier n} {i : Fin n} (h : s.Moves i s')
    (hne : ¬ s.FailingRead i) :
    ∃ p, s'.pc = Function.update s.pc i p ∧ p.rank = (s.pc i).rank + 1 := by
  cases h with
  | idle hf => exact absurd hf hne
  | acquire p q hp hpq =>
    rcases hpq with ⟨rfl, rfl⟩ | ⟨rfl, rfl⟩ <;> exact ⟨_, rfl, by rw [hp]; rfl⟩
  | count hp => exact ⟨_, rfl, by rw [hp]; rfl⟩
  | uncount hp => exact ⟨_, rfl, by rw [hp]; rfl⟩
  | release p q hp hpq =>
    rcases hpq with ⟨rfl, rfl⟩ | ⟨rfl, rfl⟩ <;> exact ⟨_, rfl, by rw [hp]; rfl⟩
  | leaveUp hp => exact ⟨_, rfl, by rw [hp]; rfl⟩
  | configure hp => exact ⟨_, rfl, by rw [hp]; rfl⟩
  | leaveDown hp => exact ⟨_, rfl, by rw [hp]; rfl⟩

/-- A doomed state stays doomed: the late CPU cannot leave the first wait any more. -/
theorem Barrier.Doomed.step {n : Nat} (hn : n ≤ 255) {s s' : Barrier n} {k : Fin n}
    (h : s.Doomed) (hstep : s.Step k s') (hne : ¬ s.FailingRead k) : s'.Doomed := by
  obtain ⟨p, hpc, hrank⟩ := hstep.moves.forward hne
  refine ⟨Barrier.step_inv hn h.1 hstep, ?_, ?_⟩
  · obtain ⟨j, hj⟩ := h.2.1
    refine ⟨j, ?_⟩
    rw [hpc]
    by_cases hjk : j = k
    · subst hjk
      rw [Function.update_self]
      -- the late CPU moved: it was not at the first loop, whose read fails
      have hnot : s.pc j ≠ .spinUp := fun hp => hne (.inl ⟨hp, h.sync_ne⟩)
      have hlt : (s.pc j).rank ≠ Pc.spinUp.rank := by
        intro heq
        cases hp : s.pc j <;> rw [hp] at heq hnot <;>
          first | exact absurd heq (by decide) | exact hnot rfl
      omega
    · rw [Function.update_of_ne hjk]
      exact hj
  · obtain ⟨i, hi⟩ := h.2.2
    refine ⟨i, ?_⟩
    rw [hpc]
    by_cases hik : i = k
    · subst hik
      rw [Function.update_self]
      omega
    · rw [Function.update_of_ne hik]
      exact hi

/-- Every program point comes before the end. -/
theorem Pc.rank_le (p : Pc) : p.rank ≤ 9 := by cases p <;> decide

/-- What is left to do, over all CPUs. -/
def Barrier.todo {n : Nat} (s : Barrier n) : Nat := ∑ j, (9 - (s.pc j).rank)

/-- A move other than a failing read leaves less to do. -/
theorem Barrier.Moves.todo_lt {n : Nat} {s s' : Barrier n} {i : Fin n} (h : s.Moves i s')
    (hne : ¬ s.FailingRead i) : s'.todo < s.todo := by
  obtain ⟨p, hpc, hrank⟩ := h.forward hne
  have hupd := sum_update (fun p => 9 - p.rank) s.pc i p
  have hp := p.rank_le
  unfold Barrier.todo
  rw [hpc]
  omega

/-- A doomed state is stuck, or one of its steps lowers the work left and stays doomed. -/
theorem Barrier.Doomed.progress {n : Nat} (hn : n ≤ 255) {s : Barrier n} (h : s.Doomed) :
    s.Stuck ∨ ∃ i s', s.Step i s' ∧ s'.Doomed ∧ s'.todo < s.todo := by
  by_cases hmove : ∃ k, s.step k ≠ none ∧ ¬ s.FailingRead k
  · obtain ⟨k, hsome, hne⟩ := hmove
    obtain ⟨t, ht⟩ := Option.ne_none_iff_exists'.mp hsome
    exact .inr ⟨k, t, ht, h.step hn ht hne, (Barrier.Step.moves ht).todo_lt hne⟩
  · refine .inl ⟨?_, fun k => ?_⟩
    · obtain ⟨j, hj⟩ := h.2.1
      exact ⟨j, fun hp => absurd hj (by rw [hp]; decide)⟩
    · by_cases hnone : s.step k = none
      · exact .inl hnone
      · exact .inr (not_not.mp fun hne => hmove ⟨k, hnone, hne⟩)

/-- **From a doomed state a run leads into a stuck one.** -/
theorem Barrier.Doomed.deadlock {n : Nat} (hn : n ≤ 255) {s : Barrier n} (h : s.Doomed) :
    ∃ tr t, Runs Barrier.Step s tr t ∧ t.Stuck := by
  obtain ⟨tr, t, hrun, _, hstuck⟩ := runs_to_stuck Barrier.todo (fun _ ha => ha.progress hn) s h
  exact ⟨tr, t, hrun, hstuck⟩

/-- A decrement made while some CPU is not past the first wait dooms the run. -/
theorem Barrier.doomed_of_early {n : Nat} (hn : n ≤ 255) {s s' : Barrier n} {i : Fin n}
    (h : s.Inv) (hstep : s.Step i s') (hearly : ¬ s.Drained i) : s'.Doomed := by
  obtain ⟨hp, hj⟩ : s.pc i = .decr ∧ ∃ j, ¬ Pc.spinUp.rank < (s.pc j).rank := by
    simpa only [Barrier.Drained, Classical.not_imp, not_forall] using hearly
  obtain ⟨j, hj⟩ := hj
  have hji : j ≠ i := by
    rintro rfl
    exact hj (by rw [hp]; decide)
  have hne : ¬ s.FailingRead i := by
    rintro (⟨hf, _⟩ | ⟨hf, _⟩) <;> rw [hp] at hf <;> cases hf
  obtain ⟨p, hpc, hrank⟩ := hstep.moves.forward hne
  refine ⟨Barrier.step_inv hn h hstep, ⟨j, ?_⟩, ⟨i, ?_⟩⟩
  · rw [hpc, Function.update_of_ne hji]
    omega
  · rw [hpc, Function.update_self, hrank, hp]
    decide

/-- The invariant along a run from the start. -/
theorem Barrier.runs_inv {n : Nat} (hn : n ≤ 255) {tr : List (Fin n)} {s : Barrier n}
    (h : Runs Barrier.Step (Barrier.init n) tr s) : s.Inv :=
  h.invariant (fun _ _ _ ha hab => Barrier.step_inv hn ha hab) (Barrier.init_inv n)

/-- **When the barrier lets everybody through.** In a run in which no CPU decrements before every
CPU has left the first wait, no state is stuck; a run with a single earlier decrement can be
continued until it is. -/
theorem barrier_progress_when_drained (n : Nat) (hn : n ≤ 255) :
    (∀ tr s, Runs Barrier.StepDrained (Barrier.init n) tr s → ¬ s.Stuck) ∧
    (∀ tr s i s', Runs Barrier.Step (Barrier.init n) tr s → s.Step i s' → ¬ s.Drained i →
      ∃ tr' t, Runs Barrier.Step s' tr' t ∧ t.Stuck) := by
  constructor
  · intro tr s hrun
    have hinv := Barrier.runs_inv hn (hrun.mono fun _ _ _ h => h.1)
    have hlate : s.Late :=
      hrun.invariant (I := Barrier.Late) (fun _ _ _ ha hab => Barrier.step_late ha hab)
        (by rintro ⟨i, hi⟩; exact absurd hi (Nat.not_lt_zero _))
    exact hinv.not_stuck hlate
  · intro tr s i s' hrun hstep hearly
    exact (Barrier.doomed_of_early hn (Barrier.runs_inv hn hrun) hstep hearly).deadlock hn

/-- The case of two CPUs. -/
theorem barrier_progress_two_cpus :
    (∀ tr s, Runs Barrier.StepDrained (Barrier.init 2) tr s → ¬ s.Stuck) ∧
    (∀ tr s i s', Runs Barrier.Step (Barrier.init 2) tr s → s.Step i s' → ¬ s.Drained i →
      ∃ tr' t, Runs Barrier.Step s' tr' t ∧ t.Stuck) :=
  barrier_progress_when_drained 2 (by decide)

/-- The states a schedule leads through. -/
def Barrier.schedule {n : Nat} (s : Barrier n) : List (Fin n) → Option (Barrier n)
  | [] => some s
  | i :: is => (s.step i).bind fun t => t.schedule is

/-- A schedule that goes through is a run. -/
theorem Barrier.runs_of_schedule {n : Nat} :
    ∀ {is : List (Fin n)} {s t : Barrier n}, s.schedule is = some t → Runs Barrier.Step s is t
  | [], s, t, h => by
    cases h
    exact .nil
  | i :: is, s, t, h => by
    obtain ⟨u, hu, ht⟩ := Option.bind_eq_some_iff.mp h
    exact .cons hu (Barrier.runs_of_schedule ht)

/-- **Two CPUs can deadlock.** CPU 0 increments, CPU 1 increments, sees 2, configures and
decrements; CPU 0 then looks for the first time, reads 1 and waits for ever. -/
theorem two_cpus_deadlock :
    ¬ ∀ n, 1 ≤ n → n ≤ 255 → ∀ tr s, Runs Barrier.Step (Barrier.init n) tr s → ¬ s.Stuck := by
  intro h
  have hsome : ((Barrier.init 2).schedule [0, 0, 0, 1, 1, 1, 1, 1, 1, 1, 1]).any
      (fun t => decide t.Stuck) = true := by decide
  obtain ⟨t, ht, hstuck⟩ := Option.any_eq_true _ _ |>.mp hsome
  exact h 2 (by decide) (by decide) _ t (Barrier.runs_of_schedule ht) (of_decide_eq_true hstuck)

/-! ## Safety -/

/-- Once one CPU is past the second wait, every CPU has run `mtrr_config`. -/
def Barrier.Configured {n : Nat} (s : Barrier n) : Prop :=
  (∃ i, s.pc i = .done) → ∀ j, Pc.config.rank < (s.pc j).rank

/-- A CPU that leaves the second wait has seen the counter at zero, when everybody has come and
nobody is counted any more. -/
theorem Barrier.step_configured {n : Nat} {s s' : Barrier n} {i : Fin n} (h : s.Inv)
    (hconf : s.Configured) (hstep : s.Step i s') : s'.Configured := by
  have keep : ∀ {p : Pc}, s'.pc = Function.update s.pc i p → (s.pc i).rank ≤ p.rank → p ≠ .done →
      s'.Configured := by
    rintro p hpc hle hp ⟨k, hk⟩ j
    have hki : k ≠ i := by
      rintro rfl
      rw [hpc, Function.update_self] at hk
      exact hp hk
    rw [hpc, Function.update_of_ne hki] at hk
    have hall := hconf ⟨k, hk⟩
    by_cases hj : j = i
    · rw [hpc, hj, Function.update_self]
      exact lt_of_lt_of_le (hall i) hle
    · rw [hpc, Function.update_of_ne hj]
      exact hall j
  cases hstep.moves with
  | idle => exact hconf
  | acquire p q hp hpq _ =>
    rcases hpq with ⟨rfl, rfl⟩ | ⟨rfl, rfl⟩
    · exact keep rfl (by rw [hp]; decide) (by decide)
    · exact keep rfl (by rw [hp]; decide) (by decide)
  | count hp => exact keep rfl (by rw [hp]; decide) (by decide)
  | uncount hp => exact keep rfl (by rw [hp]; decide) (by decide)
  | release p q hp hpq =>
    rcases hpq with ⟨rfl, rfl⟩ | ⟨rfl, rfl⟩
    · exact keep rfl (by rw [hp]; decide) (by decide)
    · exact keep rfl (by rw [hp]; decide) (by decide)
  | leaveUp hp _ => exact keep rfl (by rw [hp]; decide) (by decide)
  | configure hp => exact keep rfl (by rw [hp]; decide) (by decide)
  | leaveDown hp hzero =>
    have hpast : ∀ j, Pc.config.rank < (s.pc j).rank := by
      intro j
      have hcount := h.none_counted hzero j
      have harrived := h.arrived ⟨i, by rw [hp]; decide⟩ j
      cases hpc : s.pc j <;> rw [hpc] at hcount harrived <;>
        first | decide | exact absurd hcount (by decide) | exact absurd harrived (by decide)
    rintro - j
    by_cases hj : j = i
    · rw [hj, goto_pc, Function.update_self]
      decide
    · rw [goto_pc, Function.update_of_ne hj]
      exact hpast j

/-- **Safety of the barrier.** In every interleaving, a CPU that has left the first wait finds that
every CPU has incremented, and a CPU that has left the second one that every CPU has finished
`mtrr_config`. -/
theorem barrier_safe (n : Nat) (hn : n ≤ 255) (tr : List (Fin n)) (s : Barrier n)
    (hrun : Runs Barrier.Step (Barrier.init n) tr s) :
    (∀ i j, Pc.spinUp.rank < (s.pc i).rank → Pc.incr.rank < (s.pc j).rank) ∧
      ∀ i j, s.pc i = .done → Pc.config.rank < (s.pc j).rank := by
  have hboth : s.Inv ∧ s.Configured := by
    refine hrun.invariant (I := fun s => s.Inv ∧ s.Configured) ?_ ⟨Barrier.init_inv n, ?_⟩
    · rintro a i b ⟨hinv, hconf⟩ hstep
      exact ⟨Barrier.step_inv hn hinv hstep, Barrier.step_configured hinv hconf hstep⟩
    · rintro ⟨i, hi⟩
      cases hi
  exact ⟨fun i j hi => hboth.1.arrived ⟨i, hi⟩ j, fun i j hi => hboth.2 ⟨i, hi⟩ j⟩

/-- Two CPUs on their way through both waits. CPU 0 reads once in vain in each; at the end it is through,
and CPU 1 has yet to look. -/
def twoThrough : List (Fin 2) :=
  [0, 0, 0, 0, 1, 1, 1, 0, 1, 0, 0, 0, 0, 0, 1, 1, 1, 1, 0]

theorem barrier_safe_two_cpus : ∃ s, Runs Barrier.Step (Barrier.init 2) twoThrough s ∧
    s.pc 0 = .done ∧ s.pc 1 = .spinDown ∧ Pc.incr.rank < (s.pc 1).rank ∧
    Pc.config.rank < (s.pc 1).rank := by
  have hsome : ((Barrier.init 2).schedule twoThrough).any
      (fun t => decide (t.pc 0 = .done ∧ t.pc 1 = .spinDown)) = true := by decide
  obtain ⟨t, ht, hpcs⟩ := Option.any_eq_true _ _ |>.mp hsome
  obtain ⟨hdone, hspin⟩ := of_decide_eq_true hpcs
  have hrun := Barrier.runs_of_schedule ht
  obtain ⟨hcounted, hsafe⟩ := barrier_safe 2 (by decide) _ t hrun
  refine ⟨t, hrun, hdone, hspin, hcounted 0 1 ?_, hsafe 0 1 hdone⟩
  rw [hdone]
  decide

end Rtv.Smp
