import Mathlib.Data.List.Nodup
import Rtv.Lib.Runs

/-!
# A lock served in order of arrival

What a fair lock is for, over any type of clients: the clients stand in line, the first one in line
may enter, and only it may leave. A client is in line at most once.

`FifoLock.arrived_eq` is the order of service: over every run, those who have entered are the
first of those who have arrived, in the same order, and the rest of the arrivals is who still
waits. An implementation that simulates this lock inherits mutual exclusion, because at most the
first in line is inside, and the order of service.
-/

namespace Rtv.Lib

variable {ι : Type*}

/-- Who stands in line, the first one in front, and whether the first one is inside. -/
structure FifoLock (ι : Type*) where
  line : List ι
  inside : Bool

namespace FifoLock

/-- What happens at the lock. -/
inductive Event (ι : Type*) where
  | arrive (i : ι)
  | enter (i : ι)
  | leave (i : ι)

/-- Nobody in line. -/
def unlocked : FifoLock ι := ⟨[], false⟩

/-- One event. -/
inductive Step : FifoLock ι → Event ι → FifoLock ι → Prop
  | arrive {line : List ι} {inside : Bool} {i : ι} :
      i ∉ line → Step ⟨line, inside⟩ (.arrive i) ⟨line ++ [i], inside⟩
  | enter {rest : List ι} {i : ι} : Step ⟨i :: rest, false⟩ (.enter i) ⟨i :: rest, true⟩
  | leave {rest : List ι} {i : ι} : Step ⟨i :: rest, true⟩ (.leave i) ⟨rest, false⟩

/-- Who is in line and not inside. -/
def waiting (s : FifoLock ι) : List ι :=
  if s.inside then s.line.tail else s.line

/-- The client that arrives, for an arrival. -/
def Event.arrival : Event ι → Option ι
  | .arrive i => some i
  | .enter _ | .leave _ => none

/-- The client that enters, for an entry. -/
def Event.entry : Event ι → Option ι
  | .enter i => some i
  | .arrive _ | .leave _ => none

/-- Somebody inside is in line, and nobody is in line twice. -/
structure Inv (s : FifoLock ι) : Prop where
  nodup : s.line.Nodup
  inside : s.inside = true → s.line ≠ []

theorem unlocked_inv : (unlocked : FifoLock ι).Inv := ⟨List.nodup_nil, nofun⟩

theorem step_inv {s t : FifoLock ι} {e : Event ι} (h : s.Inv) (hstep : Step s e t) : t.Inv := by
  cases hstep with
  | @arrive line inside i hi =>
    refine ⟨?_, fun _ => List.append_ne_nil_of_right_ne_nil _ (List.cons_ne_nil i [])⟩
    exact h.nodup.append (List.nodup_singleton i) (List.disjoint_singleton.mpr hi)
  | enter => exact ⟨h.nodup, fun _ => List.cons_ne_nil _ _⟩
  | leave => exact ⟨h.nodup.of_cons, nofun⟩

/-- **Service in order of arrival.** The arrivals are the entries followed by those who wait. -/
theorem arrived_eq {s : FifoLock ι} {tr : List (Event ι)} (h : Runs Step unlocked tr s) :
    tr.filterMap Event.arrival = tr.filterMap Event.entry ++ s.waiting := by
  have hboth : s.Inv ∧ tr.filterMap Event.arrival = tr.filterMap Event.entry ++ s.waiting := by
    induction h with
    | nil => exact ⟨unlocked_inv, rfl⟩
    | @snoc tr s t e _ hstep ih =>
      obtain ⟨hinv, heq⟩ := ih
      refine ⟨step_inv hinv hstep, ?_⟩
      rw [List.filterMap_append, List.filterMap_append, heq]
      cases hstep with
      | @arrive line inside i hi =>
        have hwait : (⟨line ++ [i], inside⟩ : FifoLock ι).waiting =
            (⟨line, inside⟩ : FifoLock ι).waiting ++ [i] := by
          cases inside with
          | false => rfl
          | true => exact List.tail_append_of_ne_nil (hinv.inside rfl)
        rw [hwait, ← List.append_assoc]
        change _ ++ [i] = tr.filterMap Event.entry ++ [] ++ _ ++ [i]
        rw [List.append_nil]
      | @enter rest i =>
        change tr.filterMap Event.entry ++ (i :: rest) ++ [] = tr.filterMap Event.entry ++ [i] ++ rest
        rw [List.append_nil, List.append_assoc, List.singleton_append]
      | @leave rest i =>
        change tr.filterMap Event.entry ++ rest ++ [] = tr.filterMap Event.entry ++ [] ++ rest
        rw [List.append_nil, List.append_nil]
  exact hboth.2

end FifoLock

end Rtv.Lib
