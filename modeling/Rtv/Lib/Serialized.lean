import Mathlib.Logic.Function.Basic
import Rtv.Lib.FifoLock

/-!
# Jobs behind a lock served in order of arrival

Clients have jobs, which are lists of items, and work them off on one shared state, an item at a time,
while they are inside a lock. The steps of different clients are interleaved in any way.

**The law** (`Serialized.state_eq`): at every point the shared state is what the jobs make of it one
after the other, in the order in which their clients arrived, and of the job at work some items.
-/

namespace Rtv.Lib

variable {ι α σ : Type*}

/-- The lock, what each client has left to do, and the shared state. -/
structure Serialized (ι α σ : Type*) where
  lock : FifoLock ι
  left : ι → List α
  state : σ

namespace Serialized

/-- What a client does: it comes with a job, enters, works off an item, or leaves. -/
inductive Event (ι α : Type*) where
  | arrive (i : ι) (job : List α)
  | enter (i : ι)
  | work (i : ι)
  | leave (i : ι)

variable [DecidableEq ι] (put : σ → α → σ)

/-- One event. -/
inductive Step : Serialized ι α σ → Event ι α → Serialized ι α σ → Prop
  | arrive {s : Serialized ι α σ} {i : ι} {job : List α} {lock : FifoLock ι}
      (h : FifoLock.Step s.lock (.arrive i) lock) :
      Step s (.arrive i job) { s with lock, left := Function.update s.left i job }
  | enter {s : Serialized ι α σ} {i : ι} {lock : FifoLock ι}
      (h : FifoLock.Step s.lock (.enter i) lock) : Step s (.enter i) { s with lock }
  | work {s : Serialized ι α σ} {i : ι} {rest : List ι} {x : α} {xs : List α}
      (h : s.lock = ⟨i :: rest, true⟩) (hleft : s.left i = x :: xs) :
      Step s (.work i) { s with left := Function.update s.left i xs, state := put s.state x }
  | leave {s : Serialized ι α σ} {i : ι} {lock : FifoLock ι}
      (h : FifoLock.Step s.lock (.leave i) lock) (hleft : s.left i = []) :
      Step s (.leave i) { s with lock }

/-- The jobs in the order in which they came. -/
def Event.job : Event ι α → Option (List α)
  | .arrive _ job => some job
  | .enter _ | .work _ | .leave _ => none

/-- The clients that have left. -/
def Event.left : Event ι α → Option ι
  | .leave i => some i
  | .arrive _ _ | .enter _ | .work _ => none

/-- What is left of the jobs of a line, of the first of which the items `begun` are worked off. -/
def ofLine (begun : List α) (left : ι → List α) : List ι → List (List α)
  | [] => []
  | i :: rest => (begun ++ left i) :: rest.map left

/-- The jobs that came are those that are done and those of the line, and of these only the first one
may have been begun. -/
structure Inv (s₀ : σ) (jobs done : List (List α)) (begun : List α) (s : Serialized ι α σ) : Prop where
  lock : s.lock.Inv
  state : s.state = (done.flatten ++ begun).foldl put s₀
  outside : s.lock.inside = false → begun = []
  jobs : jobs = done ++ ofLine begun s.left s.lock.line

variable {put} {s₀ : σ} {jobs done : List (List α)} {begun : List α} {s t : Serialized ι α σ}

/-- What is left to those in line does not depend on one who is not. -/
theorem map_update {i : ι} {line : List ι} (hi : i ∉ line) (left : ι → List α) (job : List α) :
    line.map (Function.update left i job) = line.map left := by
  apply List.map_congr_left
  intro j hj
  apply Function.update_of_ne
  rintro rfl
  exact hi hj

/-- A job comes last. -/
theorem ofLine_arrive {i : ι} {line : List ι} (hi : i ∉ line) (hbegun : line = [] → begun = [])
    (left : ι → List α) (job : List α) :
    ofLine begun (Function.update left i job) (line ++ [i]) = ofLine begun left line ++ [job] := by
  cases line with
  | nil =>
    rw [hbegun rfl]
    exact congrArg (· :: []) ((List.nil_append _).trans (Function.update_self i job left))
  | cons j rest =>
    have hij : j ≠ i := fun heq => hi (heq ▸ List.mem_cons_self)
    have hrest : i ∉ rest := fun hmem => hi (List.mem_cons_of_mem j hmem)
    rw [List.cons_append, ofLine, ofLine, List.map_append, map_update hrest,
      Function.update_of_ne hij, List.map_singleton, Function.update_self, List.cons_append]

theorem step_inv {e : Event ι α} (h : Inv put s₀ jobs done begun s) (hstep : Step put s e t) :
    ∃ done' begun', Inv put s₀ (jobs ++ e.job.toList) done' begun' t ∧
      done'.length = done.length + e.left.toList.length := by
  obtain ⟨lock, left, state⟩ := s
  cases hstep with
  | @arrive i job lock' harrive =>
    have hlock := FifoLock.step_inv h.lock harrive
    cases harrive with
    | @arrive line inside i hi =>
      have hbegun : line = [] → begun = [] := by
        intro hline
        apply h.outside
        cases inside with
        | false => rfl
        | true => exact absurd hline (h.lock.inside rfl)
      refine ⟨done, begun, ⟨hlock, h.state, h.outside, ?_⟩, rfl⟩
      change jobs ++ [job] = done ++ ofLine begun (Function.update left i job) (line ++ [i])
      rw [ofLine_arrive hi hbegun, h.jobs, List.append_assoc]
  | enter henter =>
    have hlock := FifoLock.step_inv h.lock henter
    cases henter with
    | enter =>
      refine ⟨done, begun, ⟨hlock, h.state, nofun, ?_⟩, rfl⟩
      exact (List.append_nil jobs).trans h.jobs
  | @work i rest x xs hinside hleft =>
    cases hinside
    have hrest : i ∉ rest := (List.nodup_cons.mp h.lock.nodup).1
    refine ⟨done, begun ++ [x], ⟨h.lock, ?_, nofun, ?_⟩, rfl⟩
    · rw [← List.append_assoc, List.foldl_append, ← h.state]
      rfl
    · have hjobs : jobs = done ++ (begun ++ left i) :: rest.map left := h.jobs
      change left i = x :: xs at hleft
      rw [hleft] at hjobs
      change jobs ++ [] = done ++ ofLine (begun ++ [x]) (Function.update left i xs) (i :: rest)
      rw [ofLine, map_update hrest, Function.update_self, List.append_nil, List.append_assoc]
      exact hjobs
  | @leave i lock' hleave hleft =>
    have hlock := FifoLock.step_inv h.lock hleave
    cases hleave with
    | @leave rest i =>
      change left i = [] at hleft
      refine ⟨done ++ [begun], [], ⟨hlock, ?_, fun _ => rfl, ?_⟩, ?_⟩
      · rw [List.flatten_append, List.flatten_singleton, List.append_nil]
        exact h.state
      · have hjobs : jobs = done ++ (begun ++ left i) :: rest.map left := h.jobs
        rw [hleft, List.append_nil] at hjobs
        change jobs ++ [] = done ++ [begun] ++ ofLine [] left rest
        rw [List.append_nil, List.append_assoc, hjobs]
        cases rest with
        | nil => rfl
        | cons j rest => rfl
      · rw [List.length_append]
        rfl

theorem filterMap_one {β γ : Type*} (f : β → Option γ) (e : β) : [e].filterMap f = (f e).toList := by
  cases hf : f e with
  | none => exact List.filterMap_cons_none hf
  | some b => exact List.filterMap_cons_some hf

/-- Nobody in line. -/
def start (left : ι → List α) (s₀ : σ) : Serialized ι α σ := ⟨.unlocked, left, s₀⟩

/-- **The jobs are done one after the other, in the order in which they came.** -/
theorem state_eq {left : ι → List α} {tr : List (Event ι α)} (h : Runs (Step put) (start left s₀) tr s) :
    ∃ done begun, Inv put s₀ (tr.filterMap Event.job) done begun s ∧
      done.length = (tr.filterMap Event.left).length := by
  induction h with
  | nil => exact ⟨[], [], ⟨FifoLock.unlocked_inv, rfl, fun _ => rfl, rfl⟩, rfl⟩
  | @snoc tr s t e _ hstep ih =>
    obtain ⟨done, begun, hinv, hlen⟩ := ih
    obtain ⟨done', begun', hinv', hlen'⟩ := step_inv hinv hstep
    refine ⟨done', begun', ?_, ?_⟩
    · rw [List.filterMap_append, filterMap_one]
      exact hinv'
    · rw [List.filterMap_append, List.length_append, filterMap_one, hlen', hlen]

end Serialized

end Rtv.Lib
