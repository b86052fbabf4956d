import Mathlib.Data.Fintype.Card
import Mathlib.Data.List.Nodup
import Rtv.Lib.FifoLock
import Rtv.Utils.Spinlock

/-!
# CPUs at a ticket lock

`n` CPUs run `spin_lock`, `spin_trylock` and `spin_unlock` on one lock, in any interleaving of
their atomic steps. One read of `owner` is one step, which enters or reads again.

## What is proved

As long as no `spin_trylock` takes the lock, the machine simulates the lock served in order of
arrival (`LockMachine.Serves`): the tickets out are consecutive numbers from the owner's on, taken
modulo 2 ^ 16, and since fewer than 2 ^ 16 CPUs are in line the one in front is the only one that
reads its own ticket in `owner`.

- `ticket_lock`: with `spin_lock` and `spin_unlock` alone, one CPU at a time is inside, the CPUs
  enter in the order of their tickets, and while somebody waits either somebody is inside or
  exactly one CPU's next read lets it in.
- `spinTrylock_correct_iff`: a run with `spin_trylock` in it is right exactly if no
  `spin_trylock` comes to its compare-exchange with the lock free at the ticket it has read. When
  one does, it moves `owner` where it should move `next`.
- `spinTrylock_breaks_exclusion`: after that, with three CPUs, two of them are inside.
-/

namespace Rtv.Smp

open Rtv.Lib Rtv.Utils

/-! ## The machine -/

/-- Where a CPU is: outside, in the loop of `spin_lock` with its ticket, inside, or between the two
steps of `spin_trylock` with the `next` it has read. -/
inductive LockPc where
  | idle
  | spinning (me : BitVec 16)
  | holding
  | trying (me : BitVec 16)
deriving DecidableEq, Repr

/-- The atomic steps. `spin` and `enter` are the read of `owner` that fails and the one that
succeeds; `readNext` and `cmpXchg` are the two steps of `spin_trylock`. -/
inductive LockAct (n : Nat) where
  | fetchAdd (i : Fin n)
  | spin (i : Fin n)
  | enter (i : Fin n)
  | unlock (i : Fin n)
  | readNext (i : Fin n)
  | cmpXchg (i : Fin n)
deriving DecidableEq, Repr

/-- A step of `spin_lock` or `spin_unlock`. -/
def LockAct.locking {n : Nat} : LockAct n → Bool
  | .fetchAdd _ | .spin _ | .enter _ | .unlock _ => true
  | .readNext _ | .cmpXchg _ => false

/-- The lock and the CPUs. -/
structure LockMachine (n : Nat) where
  lock : Spinlock
  pc : Fin n → LockPc

namespace LockMachine

variable {n : Nat}

/-- The unlocked lock and nobody near it. -/
def init (n : Nat) : LockMachine n := ⟨.unlocked, fun _ => .idle⟩

/-- CPU `i` moves on to `p`, with the lock left at `lock`. -/
def goto (s : LockMachine n) (i : Fin n) (p : LockPc) (lock : Spinlock) : LockMachine n :=
  ⟨lock, Function.update s.pc i p⟩

@[simp] theorem goto_lock (s : LockMachine n) (i : Fin n) (p : LockPc) (lock : Spinlock) :
    (s.goto i p lock).lock = lock := rfl

@[simp] theorem goto_self (s : LockMachine n) (i : Fin n) (p : LockPc) (lock : Spinlock) :
    (s.goto i p lock).pc i = p :=
  Function.update_self _ _ _

theorem goto_of_ne (s : LockMachine n) {i j : Fin n} (h : j ≠ i) (p : LockPc) (lock : Spinlock) :
    (s.goto i p lock).pc j = s.pc j :=
  Function.update_of_ne h _ _

/-- One step, where the CPU is at the place the step starts from. -/
def next (s : LockMachine n) : LockAct n → Option (LockMachine n)
  | .fetchAdd i =>
    match s.pc i with
    | .idle =>
      let (me, lock) := s.lock.fetchAddNext
      some (s.goto i (.spinning me) lock)
    | _ => none
  | .spin i =>
    match s.pc i with
    | .spinning me => if me ≠ s.lock.owner then some s else none
    | _ => none
  | .enter i =>
    match s.pc i with
    | .spinning me => if me = s.lock.owner then some (s.goto i .holding s.lock) else none
    | _ => none
  | .unlock i =>
    match s.pc i with
    | .holding => some (s.goto i .idle s.lock.spinUnlock)
    | _ => none
  | .readNext i =>
    match s.pc i with
    | .idle => some (s.goto i (.trying s.lock.next) s.lock)
    | _ => none
  | .cmpXchg i =>
    match s.pc i with
    | .trying me =>
      let (taken, lock) :=
        s.lock.cmpXchg (Spinlock.trylockExpected me) (Spinlock.trylockDesired me)
      some (s.goto i (if taken then .holding else .idle) lock)
    | _ => none

/-- One step of the machine. -/
def Step (s : LockMachine n) (a : LockAct n) (t : LockMachine n) : Prop := s.next a = some t

/-- The `spin_trylock` of CPU `i` finds the lock free, with no ticket taken since it read
`next`. -/
def TryFree (s : LockMachine n) (i : Fin n) : Prop :=
  s.pc i = .trying s.lock.next ∧ s.lock.owner = s.lock.next

instance (s : LockMachine n) (i : Fin n) : Decidable (s.TryFree i) :=
  inferInstanceAs (Decidable (_ ∧ _))

/-- No two CPUs are inside. -/
def Exclusive (s : LockMachine n) : Prop :=
  ∀ i j, s.pc i = .holding → s.pc j = .holding → i = j

instance (s : LockMachine n) : Decidable s.Exclusive :=
  inferInstanceAs (Decidable (∀ _ _, _ → _ → _))

/-- What a step does: the place it starts from, and what it leaves. -/
theorem step_cases {s t : LockMachine n} {a : LockAct n} (h : s.Step a t) :
    (∃ i, a = .fetchAdd i ∧ s.pc i = .idle ∧
      t = s.goto i (.spinning s.lock.next) { s.lock with next := s.lock.next + 1 }) ∨
    (∃ i me, a = .spin i ∧ s.pc i = .spinning me ∧ me ≠ s.lock.owner ∧ t = s) ∨
    (∃ i, a = .enter i ∧ s.pc i = .spinning s.lock.owner ∧ t = s.goto i .holding s.lock) ∨
    (∃ i, a = .unlock i ∧ s.pc i = .holding ∧ t = s.goto i .idle s.lock.spinUnlock) ∨
    (∃ i, a = .readNext i ∧ s.pc i = .idle ∧ t = s.goto i (.trying s.lock.next) s.lock) ∨
    ∃ i me, a = .cmpXchg i ∧ s.pc i = .trying me ∧
      (s.TryFree i ∧ t = s.goto i .holding { s.lock with owner := me + 1 } ∨
        ¬ s.TryFree i ∧ t = s.goto i .idle s.lock) := by
  cases a with
  | fetchAdd i =>
    rw [Step, next] at h
    split at h
    · next hp => exact Or.inl ⟨i, rfl, hp, (Option.some.inj h).symm⟩
    · cases h
  | spin i =>
    rw [Step, next] at h
    split at h
    · next me hp =>
      rw [Option.ite_none_right_eq_some] at h
      exact Or.inr (Or.inl ⟨i, me, rfl, hp, h.1, (Option.some.inj h.2).symm⟩)
    · cases h
  | enter i =>
    rw [Step, next] at h
    split at h
    · next me hp =>
      rw [Option.ite_none_right_eq_some] at h
      obtain ⟨rfl, ht⟩ := h
      exact Or.inr (Or.inr (Or.inl ⟨i, rfl, hp, (Option.some.inj ht).symm⟩))
    · cases h
  | unlock i =>
    rw [Step, next] at h
    split at h
    · next hp => exact Or.inr (Or.inr (Or.inr (Or.inl ⟨i, rfl, hp, (Option.some.inj h).symm⟩)))
    · cases h
  | readNext i =>
    rw [Step, next] at h
    split at h
    · next hp =>
      exact Or.inr (Or.inr (Or.inr (Or.inr (Or.inl ⟨i, rfl, hp, (Option.some.inj h).symm⟩))))
    · cases h
  | cmpXchg i =>
    rw [Step, next] at h
    split at h
    · next me hp =>
      have hfree : s.TryFree i ↔ s.lock.next = me ∧ s.lock.owner = me := by
        rw [TryFree, hp, LockPc.trying.injEq, eq_comm]
        exact and_congr_right fun hn => by rw [hn]
      rw [Spinlock.cmpXchg_trylock] at h
      refine Or.inr (Or.inr (Or.inr (Or.inr (Or.inr ⟨i, me, rfl, hp, ?_⟩))))
      by_cases hf : s.lock.next = me ∧ s.lock.owner = me
      · rw [if_pos hf] at h
        exact Or.inl ⟨hfree.mpr hf, (Option.some.inj h).symm⟩
      · rw [if_neg hf] at h
        exact Or.inr ⟨mt hfree.mp hf, (Option.some.inj h).symm⟩
    · cases h

/-! ## The line -/

/-- The event of the lock served in order of arrival that a step stands for. -/
def event : LockAct n → Option (FifoLock.Event (Fin n))
  | .fetchAdd i => some (.arrive i)
  | .enter i => some (.enter i)
  | .unlock i => some (.leave i)
  | .spin _ | .readNext _ | .cmpXchg _ => none

/-- The machine serves the line of `a`, whose first client has the ticket `o`. The tickets count on
from there, and both fields are what 16 bits keep of the numbers. -/
structure Serves (o : Nat) (s : LockMachine n) (a : FifoLock (Fin n)) : Prop where
  nodup : a.line.Nodup
  owner : s.lock.owner = BitVec.ofNat 16 o
  next : s.lock.next = BitVec.ofNat 16 (o + a.line.length)
  place : ∀ k i, a.line[k]? = some i →
    s.pc i = if k = 0 ∧ a.inside = true then .holding else .spinning (BitVec.ofNat 16 (o + k))
  away : ∀ i, i ∉ a.line → s.pc i = .idle ∨ ∃ me, s.pc i = .trying me
  inside : a.inside = true → a.line ≠ []

namespace Serves

variable {s t : LockMachine n} {a : FifoLock (Fin n)} {o : Nat} {i : Fin n} {me : BitVec 16}

theorem start (n : Nat) : Serves 0 (LockMachine.init n) FifoLock.unlocked where
  nodup := List.nodup_nil
  owner := rfl
  next := rfl
  place _ _ h := by cases h
  away _ _ := Or.inl rfl
  inside := nofun

/-- A CPU that is neither outside nor trying is in line. -/
theorem mem (h : Serves o s a) (hidle : s.pc i ≠ .idle) (htry : ∀ me, s.pc i ≠ .trying me) :
    i ∈ a.line := by
  by_contra hnot
  rcases h.away i hnot with hp | ⟨me, hp⟩
  · exact hidle hp
  · exact htry me hp

/-- A CPU that spins is in line, not inside, and its ticket is its place. -/
theorem of_spinning (h : Serves o s a) (hp : s.pc i = .spinning me) :
    ∃ k, a.line[k]? = some i ∧ ¬ (k = 0 ∧ a.inside = true) ∧ me = BitVec.ofNat 16 (o + k) := by
  have hmem : i ∈ a.line := h.mem (by simp [hp]) (by simp [hp])
  obtain ⟨k, hk⟩ := List.mem_iff_getElem?.mp hmem
  have hplace := h.place k i hk
  by_cases hfront : k = 0 ∧ a.inside = true
  · rw [if_pos hfront, hp] at hplace
    cases hplace
  · rw [if_neg hfront, hp] at hplace
    exact ⟨k, hk, hfront, LockPc.spinning.inj hplace⟩

/-- A CPU that is inside is first in line. -/
theorem of_holding (h : Serves o s a) (hp : s.pc i = .holding) :
    a.line[0]? = some i ∧ a.inside = true := by
  have hmem : i ∈ a.line := h.mem (by simp [hp]) (by simp [hp])
  obtain ⟨k, hk⟩ := List.mem_iff_getElem?.mp hmem
  have hplace := h.place k i hk
  by_cases hfront : k = 0 ∧ a.inside = true
  · rw [hfront.1] at hk
    exact ⟨hk, hfront.2⟩
  · rw [if_neg hfront, hp] at hplace
    cases hplace

/-- A CPU in neither place is not in line. -/
theorem notMem (h : Serves o s a) (hspin : ∀ me, s.pc i ≠ .spinning me) (hhold : s.pc i ≠ .holding) :
    i ∉ a.line := by
  intro hmem
  obtain ⟨k, hk⟩ := List.mem_iff_getElem?.mp hmem
  have hplace := h.place k i hk
  split at hplace
  · exact hhold hplace
  · exact hspin _ hplace

/-- No more CPUs are in line than there are. -/
theorem length_le (h : Serves o s a) : a.line.length ≤ n := by
  have hcard := h.nodup.length_le_card
  rwa [Fintype.card_fin] at hcard

/-- With fewer than 2 ^ 16 CPUs, the ticket that `owner` shows is the one in front. -/
theorem front_of_owner (h : Serves o s a) (hn : n < 65536) {k : Nat} (hk : k < a.line.length)
    (heq : BitVec.ofNat 16 (o + k) = s.lock.owner) : k = 0 := by
  have hle := h.length_le
  rw [h.owner] at heq
  have hnat := congrArg BitVec.toNat heq
  rw [BitVec.toNat_ofNat, BitVec.toNat_ofNat] at hnat
  omega

/-- A step outside the line changes nothing of it. -/
theorem outside (h : Serves o s a) (hi : i ∉ a.line) {p : LockPc}
    (hp : p = .idle ∨ ∃ me, p = .trying me) : Serves o (s.goto i p s.lock) a where
  nodup := h.nodup
  owner := h.owner
  next := h.next
  place k j hk := by
    have hne : j ≠ i := by
      rintro rfl
      exact hi (List.mem_of_getElem? hk)
    exact (s.goto_of_ne hne _ _).trans (h.place k j hk)
  away j hj := by
    by_cases hji : j = i
    · rw [hji, goto_self]
      exact hp
    · rw [goto_of_ne s hji]
      exact h.away j hj
  inside := h.inside

/-- Taking a ticket is arriving. -/
theorem fetchAdd (h : Serves o s a) (hp : s.pc i = .idle) :
    ∃ b, FifoLock.Step a (.arrive i) b ∧
      Serves o (s.goto i (.spinning s.lock.next) { s.lock with next := s.lock.next + 1 }) b := by
  have hi : i ∉ a.line := h.notMem (by simp [hp]) (by simp [hp])
  obtain ⟨line, inside⟩ := a
  refine ⟨⟨line ++ [i], inside⟩, .arrive hi, ?_⟩
  constructor
  · exact h.nodup.append (List.nodup_singleton i) (List.disjoint_singleton.mpr hi)
  · exact h.owner
  · change s.lock.next + 1 = _
    rw [h.next, List.length_append, List.length_singleton, ← Nat.add_assoc]
    exact (BitVec.ofNat_add (o + line.length) 1).symm
  · intro k j hk
    rcases Nat.lt_or_ge k line.length with hlt | hge
    · rw [List.getElem?_append_left hlt] at hk
      have hne : j ≠ i := by
        rintro rfl
        exact hi (List.mem_of_getElem? hk)
      exact (s.goto_of_ne hne _ _).trans (h.place k j hk)
    · rw [List.getElem?_append_right hge] at hk
      obtain ⟨hlt, hj⟩ := List.getElem?_eq_some_iff.mp hk
      rw [List.length_singleton] at hlt
      have hk : k = line.length := by omega
      have hj : j = i := by rw [← hj, List.getElem_singleton]
      have hfront : ¬ (k = 0 ∧ inside = true) := by
        rintro ⟨hzero, hinside⟩
        exact h.inside hinside (List.length_eq_zero_iff.mp (hk.symm.trans hzero))
      rw [if_neg hfront, hj, goto_self, h.next, hk]
  · intro j hj
    rw [List.mem_append, List.mem_singleton, not_or] at hj
    rw [goto_of_ne s hj.2]
    exact h.away j hj.1
  · exact fun _ => List.append_ne_nil_of_right_ne_nil _ (List.cons_ne_nil _ _)

/-- Reading the own ticket in `owner` is entering. -/
theorem enter (h : Serves o s a) (hn : n < 65536) (hp : s.pc i = .spinning s.lock.owner) :
    ∃ b, FifoLock.Step a (.enter i) b ∧ Serves o (s.goto i .holding s.lock) b := by
  obtain ⟨k, hk, hfront, heq⟩ := h.of_spinning hp
  have hzero := h.front_of_owner hn (List.getElem?_eq_some_iff.mp hk).1 heq.symm
  rw [hzero] at hk hfront
  obtain ⟨line, inside⟩ := a
  cases line with
  | nil => cases hk
  | cons j rest =>
    have hj : j = i := Option.some.inj hk
    have hout : inside = false := by
      cases inside with
      | false => rfl
      | true => exact absurd ⟨rfl, rfl⟩ hfront
    rw [hj, hout] at h ⊢
    refine ⟨⟨i :: rest, true⟩, .enter, ?_⟩
    constructor
    · exact h.nodup
    · exact h.owner
    · exact h.next
    · intro m l hm
      cases m with
      | zero =>
        have hl : i = l := Option.some.inj hm
        rw [if_pos ⟨rfl, rfl⟩, ← hl, goto_self]
      | succ m =>
        have hne : l ≠ i := by
          rintro rfl
          exact (List.nodup_cons.mp h.nodup).1 (List.mem_of_getElem? hm)
        have hplace := h.place (m + 1) l hm
        rw [if_neg (by simp)] at hplace
        rw [if_neg (by simp), goto_of_ne s hne]
        exact hplace
    · intro l hl
      have hne : l ≠ i := List.ne_of_not_mem_cons hl
      rw [goto_of_ne s hne]
      exact h.away l hl
    · exact fun _ => List.cons_ne_nil _ _

/-- Unlocking is leaving, and the next in line is in front. -/
theorem unlock (h : Serves o s a) (hp : s.pc i = .holding) :
    ∃ b, FifoLock.Step a (.leave i) b ∧ Serves (o + 1) (s.goto i .idle s.lock.spinUnlock) b := by
  obtain ⟨hk, hinside⟩ := h.of_holding hp
  obtain ⟨line, inside⟩ := a
  cases line with
  | nil => cases hk
  | cons j rest =>
    have hj : j = i := Option.some.inj hk
    rw [hj, show inside = true from hinside] at h ⊢
    have hnodup := List.nodup_cons.mp h.nodup
    refine ⟨⟨rest, false⟩, .leave, ?_⟩
    constructor
    · exact hnodup.2
    · change s.lock.owner + 1 = _
      rw [h.owner]
      exact (BitVec.ofNat_add o 1).symm
    · change s.lock.next = _
      rw [h.next, List.length_cons, Nat.add_assoc, Nat.add_comm 1]
    · intro m l hm
      have hne : l ≠ i := by
        rintro rfl
        exact hnodup.1 (List.mem_of_getElem? hm)
      have hplace := h.place (m + 1) l hm
      rw [if_neg (by simp)] at hplace
      rw [if_neg (by simp), goto_of_ne s hne, Nat.add_assoc, Nat.add_comm 1]
      exact hplace
    · intro l hl
      by_cases hli : l = i
      · rw [hli, goto_self]
        exact Or.inl rfl
      · rw [goto_of_ne s hli]
        exact h.away l (List.not_mem_cons_of_ne_of_not_mem hli hl)
    · nofun

/-- One CPU at a time is inside. -/
theorem exclusive (h : Serves o s a) : s.Exclusive := by
  intro i j hi hj
  have heq := (h.of_holding hi).1.symm.trans (h.of_holding hj).1
  exact Option.some.inj heq

/-- While somebody waits, somebody is inside or exactly one read of `owner` succeeds. -/
theorem progress (h : Serves o s a) (hn : n < 65536) (hp : s.pc i = .spinning me) :
    (∃ j, s.pc j = .holding) ∨ ∃! j, s.pc j = .spinning s.lock.owner := by
  obtain ⟨k, hk, -, -⟩ := h.of_spinning hp
  have hne : a.line ≠ [] := List.ne_nil_of_mem (List.mem_of_getElem? hk)
  obtain ⟨front, rest, hline⟩ := List.exists_cons_of_ne_nil hne
  have hfront : a.line[0]? = some front := by rw [hline]; rfl
  have hplace := h.place 0 front hfront
  by_cases hinside : a.inside = true
  · rw [if_pos ⟨rfl, hinside⟩] at hplace
    exact Or.inl ⟨front, hplace⟩
  · rw [if_neg (fun hc => hinside hc.2), Nat.add_zero, ← h.owner] at hplace
    refine Or.inr ⟨front, hplace, ?_⟩
    intro j hj
    obtain ⟨m, hm, -, heq⟩ := h.of_spinning hj
    have hzero := h.front_of_owner hn (List.getElem?_eq_some_iff.mp hm).1 heq.symm
    rw [hzero, hfront] at hm
    exact (Option.some.inj hm).symm

end Serves

/-- The steps at which no `spin_trylock` takes the lock. -/
def Untried (s : LockMachine n) (a : LockAct n) : Prop :=
  ∀ i, a = .cmpXchg i → ¬ s.TryFree i

/-- **Simulation.** As long as no `spin_trylock` takes the lock, a run is a run of the lock served
in order of arrival. -/
theorem simulates {s : LockMachine n} {tr : List (LockAct n)} (hn : n < 65536)
    (hrun : Runs (fun a e b => Untried a e ∧ Step a e b) (LockMachine.init n) tr s) :
    ∃ a, Runs FifoLock.Step FifoLock.unlocked (tr.filterMap event) a ∧ ∃ o, Serves o s a := by
  refine hrun.simulate (R := fun s a => ∃ o, Serves o s a) ?_ ?_ ⟨0, Serves.start n⟩
  · rintro s e t a ⟨o, h⟩ ⟨huntried, hstep⟩ hevent
    rcases step_cases hstep with ⟨i, rfl, -⟩ | ⟨i, me, rfl, hp, hne, rfl⟩ | ⟨i, rfl, -⟩ |
      ⟨i, rfl, -⟩ | ⟨i, rfl, hp, rfl⟩ | ⟨i, me, rfl, hp, ⟨hfree, -⟩ | ⟨-, rfl⟩⟩
    · cases hevent
    · exact ⟨o, h⟩
    · cases hevent
    · cases hevent
    · exact ⟨o, h.outside (h.notMem (by simp [hp]) (by simp [hp])) (Or.inr ⟨_, rfl⟩)⟩
    · exact absurd hfree (huntried i rfl)
    · exact ⟨o, h.outside (h.notMem (by simp [hp]) (by simp [hp])) (Or.inl rfl)⟩
  · rintro s e t a event' ⟨o, h⟩ ⟨-, hstep⟩ hevent
    rcases step_cases hstep with ⟨i, rfl, hp, rfl⟩ | ⟨i, me, rfl, -⟩ | ⟨i, rfl, hp, rfl⟩ |
      ⟨i, rfl, hp, rfl⟩ | ⟨i, rfl, -⟩ | ⟨i, me, rfl, -⟩
    · cases hevent
      obtain ⟨b, hb, hserves⟩ := h.fetchAdd hp
      exact ⟨b, hb, o, hserves⟩
    · cases hevent
    · cases hevent
      obtain ⟨b, hb, hserves⟩ := h.enter hn hp
      exact ⟨b, hb, o, hserves⟩
    · cases hevent
      obtain ⟨b, hb, hserves⟩ := h.unlock hp
      exact ⟨b, hb, o + 1, hserves⟩
    · cases hevent
    · cases hevent

/-! ## `spin_lock` and `spin_unlock` alone -/

/-- The CPUs that take a ticket, in the order they take it. -/
def tickets (tr : List (LockAct n)) : List (Fin n) :=
  tr.filterMap fun
    | .fetchAdd i => some i
    | _ => none

/-- The CPUs that enter, in the order they do. -/
def entries (tr : List (LockAct n)) : List (Fin n) :=
  tr.filterMap fun
    | .enter i => some i
    | _ => none

theorem tickets_eq (tr : List (LockAct n)) :
    tickets tr = (tr.filterMap event).filterMap FifoLock.Event.arrival := by
  rw [List.filterMap_filterMap, tickets]
  congr 1
  funext a
  cases a <;> rfl

theorem entries_eq (tr : List (LockAct n)) :
    entries tr = (tr.filterMap event).filterMap FifoLock.Event.entry := by
  rw [List.filterMap_filterMap, entries]
  congr 1
  funext a
  cases a <;> rfl

end LockMachine

/-- **The ticket lock.** With fewer than 2 ^ 16 CPUs, in every interleaving of `spin_lock` and
`spin_unlock`: one CPU at a time is inside, the CPUs enter in the order of their tickets, and while
one waits, one is inside or the next read of exactly one succeeds. -/
theorem ticket_lock (n : Nat) (hn : n < 65536) (tr : List (LockAct n)) (s : LockMachine n)
    (hlock : ∀ a ∈ tr, a.locking = true) (hrun : Runs LockMachine.Step (LockMachine.init n) tr s) :
    s.Exclusive ∧
      LockMachine.entries tr <+: LockMachine.tickets tr ∧
      ((∃ i me, s.pc i = .spinning me) →
        (∃ i, s.pc i = .holding) ∨ ∃! i, s.pc i = .spinning s.lock.owner) := by
  have huntried : Runs (fun a e b => LockMachine.Untried a e ∧ LockMachine.Step a e b)
      (LockMachine.init n) tr s := by
    apply hrun.restrict
    rintro before e u hpre - i rfl
    have hmem : .cmpXchg i ∈ tr := hpre.subset (List.mem_append_right _ (List.mem_singleton_self _))
    cases hlock _ hmem
  obtain ⟨a, hfifo, o, hserves⟩ := LockMachine.simulates hn huntried
  refine ⟨hserves.exclusive, ?_, ?_⟩
  · rw [LockMachine.tickets_eq, LockMachine.entries_eq, FifoLock.arrived_eq hfifo]
    exact List.prefix_append _ _
  · rintro ⟨i, me, hp⟩
    exact hserves.progress hn hp

/-- Three CPUs take tickets, CPU 0 goes in and out, and CPU 1 is next. -/
theorem ticket_lock_three_cpus : ∃ s, Runs LockMachine.Step (LockMachine.init 3)
    [.fetchAdd 0, .fetchAdd 1, .enter 0, .fetchAdd 2, .unlock 0] s ∧ s.Exclusive ∧
      [0] <+: ([0, 1, 2] : List (Fin 3)) ∧
      ((∃ i, s.pc i = .holding) ∨ ∃! i, s.pc i = .spinning s.lock.owner) := by
  have hsome : (follow LockMachine.next (LockMachine.init 3)
      [.fetchAdd 0, .fetchAdd 1, .enter 0, .fetchAdd 2, .unlock 0]).any
      (fun t => decide (t.pc 2 = .spinning 2)) = true := by decide
  obtain ⟨t, ht, hp⟩ := Option.any_eq_true _ _ |>.mp hsome
  have hrun := runs_of_follow ht
  obtain ⟨hexcl, horder, hprogress⟩ := ticket_lock 3 (by decide) _ t (by decide) hrun
  exact ⟨t, hrun, hexcl, horder, hprogress ⟨2, 2, of_decide_eq_true hp⟩⟩

/-! ## `spin_trylock` -/

/-- What a run with `spin_trylock` in it should be like: no state of it has two CPUs inside, and a
`spin_trylock` that takes the lock leaves it as `spin_lock` leaves the free lock, with `next` one
ahead and `owner` as it was. -/
def LockMachine.Correct {n : Nat} (tr : List (LockAct n)) : Prop :=
  ∀ before s, before <+: tr → Runs LockMachine.Step (LockMachine.init n) before s →
    s.Exclusive ∧ ∀ i t, before ++ [.cmpXchg i] <+: tr → s.Step (.cmpXchg i) t →
      t.pc i = .holding → t.lock = { s.lock with next := s.lock.next + 1 }

/-- **`spin_trylock` and the ticket lock.** A run is right exactly if no `spin_trylock` in it comes
to its compare-exchange while the lock is free and `next` is what it has read. -/
theorem spinTrylock_correct_iff (n : Nat) (hn : n < 65536) (tr : List (LockAct n)) :
    LockMachine.Correct tr ↔ ∀ before i s, before ++ [.cmpXchg i] <+: tr →
      Runs LockMachine.Step (LockMachine.init n) before s → ¬ s.TryFree i := by
  constructor
  · -- one `spin_trylock` that takes the lock already leaves the wrong word
    intro hcorrect before i u hpre hbefore hfree
    have hstep : u.Step (.cmpXchg i) (u.goto i .holding { u.lock with owner := u.lock.next + 1 }) := by
      rw [LockMachine.Step, LockMachine.next, hfree.1]
      simp only [Spinlock.cmpXchg_trylock, hfree.2, and_self, if_true]
    have hpre' : before <+: tr := (List.prefix_append _ _).trans hpre
    have hword := (hcorrect before u hpre' hbefore).2 i _ hpre hstep (u.goto_self i _ _)
    have howner : u.lock.next = u.lock.next + 1 := congrArg Spinlock.next hword
    exact absurd howner (by bv_omega)
  · intro huntried before u hpre hbefore
    refine ⟨?_, ?_⟩
    · have hrestrict : Runs (fun a e b => LockMachine.Untried a e ∧ LockMachine.Step a e b)
          (LockMachine.init n) before u := by
        apply hbefore.restrict
        rintro first e v hfirst hv i rfl
        exact huntried first i v (hfirst.trans hpre) hv
      obtain ⟨a, -, o, hserves⟩ := LockMachine.simulates hn hrestrict
      exact hserves.exclusive
    · intro i t hcas hstep hhold
      rcases LockMachine.step_cases hstep with ⟨_, h, -⟩ | ⟨_, _, h, -⟩ | ⟨_, h, -⟩ | ⟨_, h, -⟩ |
        ⟨_, h, -⟩ | ⟨j, me, h, -, ⟨hfree, -⟩ | ⟨-, rfl⟩⟩
      · cases h
      · cases h
      · cases h
      · cases h
      · cases h
      · cases h
        exact absurd hfree (huntried before i u hcas hbefore)
      · cases h
        rw [LockMachine.goto_self] at hhold
        cases hhold

/-- A CPU alone that takes the free lock with `spin_trylock` leaves the wrong word. -/
theorem spinTrylock_wrong_alone :
    ¬ LockMachine.Correct ([.readNext 0, .cmpXchg 0] : List (LockAct 1)) := by
  rw [spinTrylock_correct_iff 1 (by decide)]
  intro h
  have hsome : (follow LockMachine.next (LockMachine.init 1) [.readNext 0]).any
      (fun t => decide (t.TryFree 0)) = true := by decide
  obtain ⟨t, ht, hfree⟩ := Option.any_eq_true _ _ |>.mp hsome
  exact h [.readNext 0] 0 t (List.prefix_refl _) (runs_of_follow ht) (of_decide_eq_true hfree)

/-- **`spin_trylock` breaks the lock.** CPU 0 takes the free lock with `spin_trylock`, which moves
`owner` to 1. CPU 1 takes ticket 0 and waits; CPU 2 takes ticket 1 and walks in. -/
theorem spinTrylock_breaks_exclusion : ¬ ∀ n, n < 65536 → ∀ (tr : List (LockAct n)) s,
    Runs LockMachine.Step (LockMachine.init n) tr s → LockMachine.Correct tr := by
  intro h
  have hsome : (follow LockMachine.next (LockMachine.init 3)
      [.readNext 0, .cmpXchg 0, .fetchAdd 1, .fetchAdd 2, .enter 2]).any
      (fun t => decide (t.pc 0 = .holding ∧ t.pc 2 = .holding)) = true := by decide
  obtain ⟨t, ht, hp⟩ := Option.any_eq_true _ _ |>.mp hsome
  have hrun := runs_of_follow ht
  obtain ⟨h0, h2⟩ := of_decide_eq_true hp
  have hexcl := (h 3 (by decide) _ t hrun _ t (List.prefix_refl _) hrun).1
  exact absurd (hexcl 0 2 h0 h2) (by decide)

end Rtv.Smp
