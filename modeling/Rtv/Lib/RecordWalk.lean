import Mathlib.Algebra.BigOperators.Group.Finset.Basic
import Mathlib.Algebra.Order.BigOperators.Group.Finset
import Rtv.Lib.Exec

/-!
# Walks along records

A table of records of different lengths: each record says how long it is, and the next one begins
where it ends. `walk` interprets them one after the other with `body`, up to an address `fin`. What
`len` says need not be sensible: it may be 0, and a record may reach over `fin`.

`cursor` is the address of record `k` and `after` the state in front of it, so that what a walk
does can be said record by record:

- `visits_iff`: which records are interpreted.
- `walk_hang_iff`: when the fuel is used up.
- `walk_ends` and `walk_stuck`: a walk ends if every record moves it on or uses up something of
  which there is only so much, and does not end at a record of length 0 that changes nothing.
-/

namespace Rtv.Lib.RecordWalk

variable {σ : Type} (body : Nat → σ → Exec σ) (len : Nat → Nat) (fin : Nat)

/-- The walk from the record at `p`. -/
def walk : Nat → Nat → σ → Exec σ
  | 0, _, _ => .error .hang
  | fuel + 1, p, s =>
    if p < fin then do
      let s ← body p s
      walk fuel (p + len p) s
    else return s

/-- The address of record `k` of those that begin at `p`. -/
def cursor (p : Nat) : Nat → Nat
  | 0 => p
  | k + 1 => cursor p k + len (cursor p k)

/-- The state after the first `k` records. -/
def after (p : Nat) (s : σ) : Nat → Exec σ
  | 0 => .ok s
  | k + 1 => after p s k >>= body (cursor len p k)

/-- The walk from `p` interprets the record at `q`. -/
inductive Visits : Nat → σ → Nat → Prop
  | here {p : Nat} {s : σ} (hp : p < fin) : Visits p s p
  | next {p q : Nat} {s t : σ} (hp : p < fin) (hrun : body p s = .ok t)
      (hrest : Visits (p + len p) t q) : Visits p s q

variable {body : Nat → σ → Exec σ} {len : Nat → Nat} {fin : Nat} {p q k : Nat} {s t : σ}

/-! ## Records and states -/

/-- The records from the second one on. -/
theorem cursor_next (p k : Nat) : cursor len (p + len p) k = cursor len p (k + 1) := by
  induction k with
  | zero => rfl
  | succ k ih =>
    rw [cursor, ih]
    rfl

theorem cursor_mono (len : Nat → Nat) (p : Nat) {j : Nat} (h : j ≤ k) : cursor len p j ≤ cursor len p k := by
  induction k with
  | zero => rw [Nat.le_zero.mp h]
  | succ k ih =>
    rcases Nat.le_succ_iff.mp h with hle | rfl
    · exact (ih hle).trans (Nat.le_add_right _ _)
    · exact le_rfl

/-- The state after the first record and the others. -/
theorem after_next (p k : Nat) (s : σ) :
    after body len p s (k + 1) = body p s >>= fun t => after body len (p + len p) t k := by
  induction k with
  | zero =>
    change body p s = _
    cases body p s <;> rfl
  | succ k ih =>
    rw [after, ih, ← cursor_next]
    cases body p s <;> rfl

theorem after_succ_ok : after body len p s (k + 1) = .ok t ↔
    ∃ u, after body len p s k = .ok u ∧ body (cursor len p k) u = .ok t :=
  Exec.bind_eq_ok

/-- Where a walk has come, it has come through what is before. -/
theorem after_of_le {j : Nat} (h : after body len p s k = .ok t) (hj : j ≤ k) :
    ∃ u, after body len p s j = .ok u := by
  induction k generalizing t with
  | zero =>
    rw [Nat.le_zero.mp hj]
    exact ⟨t, h⟩
  | succ k ih =>
    rcases Nat.le_succ_iff.mp hj with hle | rfl
    · obtain ⟨u, hu, -⟩ := after_succ_ok.mp h
      exact ih hu hle
    · exact ⟨t, h⟩

/-! ## What is interpreted -/

/-- **The records that are interpreted** begin before `fin`, and the body has returned on all the
records before. -/
theorem visits_iff : Visits body len fin p s q ↔
    ∃ k t, q = cursor len p k ∧ q < fin ∧ after body len p s k = .ok t := by
  constructor
  · intro h
    induction h with
    | @here p s hp => exact ⟨0, s, rfl, hp, rfl⟩
    | @next p q s t hp hrun _ ih =>
      obtain ⟨k, u, hq, hfin, hafter⟩ := ih
      refine ⟨k + 1, u, hq.trans (cursor_next p k), hfin, ?_⟩
      rw [after_next, hrun]
      exact hafter
  · rintro ⟨k, t, rfl, hfin, hafter⟩
    induction k generalizing p s with
    | zero => exact Visits.here hfin
    | succ k ih =>
      have hp : p < fin := (cursor_mono len p (Nat.zero_le (k + 1))).trans_lt hfin
      rw [after_next, Exec.bind_eq_ok] at hafter
      obtain ⟨u, hrun, hrest⟩ := hafter
      rw [← cursor_next] at hfin ⊢
      exact Visits.next hp hrun (ih hfin hrest)

/-- A walk that returns has come through some of the records. -/
theorem walk_ok {fuel : Nat} (h : walk body len fin fuel p s = .ok t) :
    ∃ k, after body len p s k = .ok t := by
  induction fuel generalizing p s with
  | zero => cases h
  | succ fuel ih =>
    rw [walk] at h
    split at h
    · rw [Exec.bind_eq_ok] at h
      obtain ⟨u, hrun, hrest⟩ := h
      obtain ⟨k, hk⟩ := ih hrest
      refine ⟨k + 1, ?_⟩
      rw [after_next, hrun]
      exact hk
    · exact ⟨0, h⟩

/-! ## When a walk ends -/

/-- **A walk uses up its fuel** if as many records begin before `fin` and are interpreted. -/
theorem walk_hang_iff (hbody : ∀ p s, Exec.Ends (body p s)) (fuel : Nat) :
    walk body len fin fuel p s = .error .hang ↔
      ∀ k < fuel, cursor len p k < fin ∧ ∃ t, after body len p s (k + 1) = .ok t := by
  induction fuel generalizing p s with
  | zero => exact iff_of_true rfl nofun
  | succ fuel ih =>
    rw [walk]
    by_cases hp : p < fin
    · rw [if_pos hp]
      cases hrun : body p s with
      | error e =>
        refine iff_of_false (fun h => ?_) (fun h => ?_)
        · exact hbody p s (hrun.trans h)
        · obtain ⟨-, t, ht⟩ := h 0 (Nat.succ_pos fuel)
          rw [after_next, hrun] at ht
          cases ht
      | ok u =>
        rw [Exec.ok_bind, ih]
        have hstep : ∀ k, after body len p s (k + 2) = after body len (p + len p) u (k + 1) := by
          intro k
          rw [after_next, hrun]
          rfl
        constructor
        · intro h k hk
          cases k with
          | zero =>
            refine ⟨hp, u, ?_⟩
            rw [after_next, hrun]
            rfl
          | succ k =>
            obtain ⟨hlt, t, ht⟩ := h k (Nat.lt_of_succ_lt_succ hk)
            rw [← cursor_next]
            exact ⟨hlt, t, (hstep k).trans ht⟩
        · intro h k hk
          obtain ⟨hlt, t, ht⟩ := h (k + 1) (Nat.succ_lt_succ hk)
          rw [cursor_next]
          exact ⟨hlt, t, (hstep k).symm.trans ht⟩
    · rw [if_neg hp]
      refine iff_of_false nofun fun h => ?_
      exact hp (h 0 (Nat.succ_pos fuel)).1

/-- **A walk ends** if each record moves it on or uses up some of a bounded amount. -/
theorem walk_ends (hbody : ∀ p s, Exec.Ends (body p s)) {fuel : Nat} (bound : Nat)
    (use : Nat → Nat)
    (hstep : ∀ k t, cursor len p k < fin → after body len p s k = .ok t →
      1 ≤ len (cursor len p k) + use k)
    (huse : ∀ k t, after body len p s k = .ok t → ∑ j ∈ Finset.range k, use j ≤ bound)
    (hfuel : fin - p + bound < fuel) : Exec.Ends (walk body len fin fuel p s) := by
  intro hhang
  have hall := (walk_hang_iff hbody fuel).mp hhang
  have hcount : ∀ k ≤ fuel, k + p ≤ cursor len p k + ∑ j ∈ Finset.range k, use j := by
    intro k hk
    induction k with
    | zero => exact Nat.le_of_eq (Nat.add_comm 0 p)
    | succ k ih =>
      obtain ⟨hlt, t, ht⟩ := hall k hk
      obtain ⟨u, hu, -⟩ := after_succ_ok.mp ht
      have hmove := hstep k u hlt hu
      have hle := ih (Nat.le_of_succ_le hk)
      rw [cursor, Finset.sum_range_succ]
      omega
  obtain ⟨n, rfl⟩ := Nat.exists_eq_succ_of_ne_zero (Nat.ne_zero_of_lt hfuel)
  obtain ⟨hlt, t, ht⟩ := hall n (Nat.lt_succ_self n)
  obtain ⟨u, hu, -⟩ := after_succ_ok.mp ht
  have hn := hcount n (Nat.le_succ n)
  have hsum := huse n u hu
  omega

/-- **A walk that does not end**: it comes to a record of length 0 that the body goes on accepting. -/
theorem walk_stuck (hbody : ∀ p s, Exec.Ends (body p s)) (I : σ → Prop) (fuel : Nat)
    (hk : cursor len p k < fin) (hlen : len (cursor len p k) = 0)
    (hafter : after body len p s k = .ok t) (hI : I t)
    (hstep : ∀ u, I u → ∃ v, body (cursor len p k) u = .ok v ∧ I v) :
    walk body len fin fuel p s = .error .hang := by
  have hstay : ∀ n, cursor len p (k + n) = cursor len p k ∧
      ∃ u, after body len p s (k + n) = .ok u ∧ I u := by
    intro n
    induction n with
    | zero => exact ⟨rfl, t, hafter, hI⟩
    | succ n ih =>
      obtain ⟨hcursor, u, hu, hIu⟩ := ih
      obtain ⟨v, hv, hIv⟩ := hstep u hIu
      constructor
      · rw [← Nat.add_assoc, cursor, hcursor, hlen, Nat.add_zero]
      · rw [← hcursor] at hv
        exact ⟨v, after_succ_ok.mpr ⟨u, hu, hv⟩, hIv⟩
  rw [walk_hang_iff hbody]
  intro j _
  obtain ⟨hcursor, u, hu, -⟩ := hstay (j + 1)
  refine ⟨?_, after_of_le hu (Nat.le_add_left _ k)⟩
  have hle := cursor_mono len p (Nat.le_add_left (j + 1) k)
  have hmono := cursor_mono len p (Nat.le_succ j)
  rw [hcursor] at hle
  exact (hmono.trans hle).trans_lt hk

end Rtv.Lib.RecordWalk
