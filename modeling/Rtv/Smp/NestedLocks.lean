import Mathlib.Algebra.Order.BigOperators.Group.Finset
import Mathlib.Data.Fintype.Basic
import Rtv.Lib.LockOrder
import Rtv.Smp.TicketLock

/-!
# Several ticket locks

`n` CPUs follow their paths through code that takes and gives back locks, and each lock is a ticket lock.
A CPU that comes to a lock takes a ticket, reads `owner` until it is its own, and goes on.

The machine simulates the clients of `Rtv.Lib.LockOrder` (`Takes.step`), where any client may take a lock
that is free; a ticket lock lets in the next one in line. In return, what goes on there goes on here: if a
client there can take a lock, somebody here takes a ticket for it or reads its own (`Takes.progress`).
To read `owner` in vain changes nothing, and is not to go on.
-/

namespace Rtv.Smp

open Rtv.Lib

/-! ## The steps of one lock -/

namespace LockMachine

variable {n : Nat} {s t : LockMachine n} {i : Fin n}

theorem of_fetchAdd (h : s.Step (.fetchAdd i) t) :
    s.pc i = .idle ∧ t = s.goto i (.spinning s.lock.next) { s.lock with next := s.lock.next + 1 } := by
  rcases step_cases h with ⟨_, hact, hp, rfl⟩ | ⟨_, _, hact, -⟩ | ⟨_, hact, -⟩ | ⟨_, hact, -⟩ |
    ⟨_, hact, -⟩ | ⟨_, _, hact, -⟩ <;> cases hact
  exact ⟨hp, rfl⟩

theorem of_spin (h : s.Step (.spin i) t) : t = s := by
  rcases step_cases h with ⟨_, hact, -⟩ | ⟨_, _, hact, -, -, rfl⟩ | ⟨_, hact, -⟩ | ⟨_, hact, -⟩ |
    ⟨_, hact, -⟩ | ⟨_, _, hact, -⟩ <;> cases hact
  rfl

theorem of_enter (h : s.Step (.enter i) t) :
    s.pc i = .spinning s.lock.owner ∧ t = s.goto i .holding s.lock := by
  rcases step_cases h with ⟨_, hact, -⟩ | ⟨_, _, hact, -⟩ | ⟨_, hact, hp, rfl⟩ | ⟨_, hact, -⟩ |
    ⟨_, hact, -⟩ | ⟨_, _, hact, -⟩ <;> cases hact
  exact ⟨hp, rfl⟩

theorem of_unlock (h : s.Step (.unlock i) t) :
    s.pc i = .holding ∧ t = s.goto i .idle s.lock.spinUnlock := by
  rcases step_cases h with ⟨_, hact, -⟩ | ⟨_, _, hact, -⟩ | ⟨_, hact, -⟩ | ⟨_, hact, hp, rfl⟩ |
    ⟨_, hact, -⟩ | ⟨_, _, hact, -⟩ <;> cases hact
  exact ⟨hp, rfl⟩

end LockMachine

/-! ## The machine -/

/-- What is left of the path of each CPU, and the locks. -/
structure TicketLocks (n : Nat) (L : Type*) where
  left : Fin n → List (LockEvent L)
  locks : L → LockMachine n

namespace TicketLocks

variable {n : Nat} {L : Type*}

section Machine

variable [DecidableEq L]

/-- One step of a CPU at the lock that is next on its path. -/
inductive Step : TicketLocks n L → LockAct n → TicketLocks n L → Prop
  | fetchAdd {s : TicketLocks n L} {i : Fin n} {l : L} {es : List (LockEvent L)} {lock : LockMachine n}
      (hleft : s.left i = .acquire l :: es) (h : (s.locks l).Step (.fetchAdd i) lock) :
      Step s (.fetchAdd i) { s with locks := Function.update s.locks l lock }
  | spin {s : TicketLocks n L} {i : Fin n} {l : L} {es : List (LockEvent L)} {lock : LockMachine n}
      (hleft : s.left i = .acquire l :: es) (h : (s.locks l).Step (.spin i) lock) :
      Step s (.spin i) { s with locks := Function.update s.locks l lock }
  | enter {s : TicketLocks n L} {i : Fin n} {l : L} {es : List (LockEvent L)} {lock : LockMachine n}
      (hleft : s.left i = .acquire l :: es) (h : (s.locks l).Step (.enter i) lock) :
      Step s (.enter i) ⟨Function.update s.left i es, Function.update s.locks l lock⟩
  | unlock {s : TicketLocks n L} {i : Fin n} {l : L} {es : List (LockEvent L)} {lock : LockMachine n}
      (hleft : s.left i = .release l :: es) (h : (s.locks l).Step (.unlock i) lock) :
      Step s (.unlock i) ⟨Function.update s.left i es, Function.update s.locks l lock⟩

end Machine

/-- The locks are free, and each CPU is at the begin of its path. -/
def start (paths : Fin n → List (LockEvent L)) : TicketLocks n L := ⟨paths, fun _ => .init n⟩

/-- The CPU has halted. -/
def Halted (s : TicketLocks n L) (i : Fin n) : Prop := ∃ es, s.left i = .halt :: es

/-- The CPU is inside the lock. -/
def Holds (s : TicketLocks n L) (i : Fin n) (l : L) : Prop := (s.locks l).pc i = .holding

/-! ## The simulation -/

/-- What a step is to the clients: entering is taking, and unlocking is giving back. -/
def event : LockAct n → Option (Fin n)
  | .enter i => some i
  | .unlock i => some i
  | _ => none

/-- The locks are in the hands of those who hold them in `a`, and a CPU spins only where it is. -/
structure Takes (s : TicketLocks n L) (a : LockSystem (Fin n) L) : Prop where
  left : a.left = s.left
  serves : ∀ l, ∃ o b, LockMachine.Serves o (s.locks l) b
  holds : ∀ l i, s.Holds i l ↔ l ∈ a.held i
  waits : ∀ l i me, (s.locks l).pc i = .spinning me → ∃ es, s.left i = .acquire l :: es
  locking : ∀ l i me, (s.locks l).pc i ≠ .trying me

section Simulation

variable {s t : TicketLocks n L} {a : LockSystem (Fin n) L} {i : Fin n} {l : L}
  {es : List (LockEvent L)} {e : LockAct n} {lock : LockMachine n} {rank : L → Nat}
  {mayHalt : List L → Bool}

theorem Takes.start (paths : Fin n → List (LockEvent L)) :
    Takes (TicketLocks.start paths) (.start paths) where
  left := rfl
  serves _ := ⟨0, _, .start n⟩
  holds l i := by
    refine ⟨fun h => ?_, fun h => absurd h List.not_mem_nil⟩
    cases (show LockPc.idle = .holding from h)
  waits l i me h := by cases (show LockPc.idle = .spinning me from h)
  locking l i me h := by cases (show LockPc.idle = .trying me from h)

/-- Where a CPU spins is where it is. -/
theorem Takes.spins_here (h : Takes s a) {e : LockEvent L} (hleft : s.left i = e :: es)
    (he : e = .acquire l ∨ e = .release l) {l' : L} (hl : l' ≠ l) (me : BitVec 16) :
    (s.locks l').pc i ≠ .spinning me := by
  intro hp
  obtain ⟨fs, hthere⟩ := h.waits l' i me hp
  rw [hleft] at hthere
  rcases he with rfl | rfl
  · cases hthere
    exact hl rfl
  · cases hthere

/-- A lock whose next ticket is read is free. -/
theorem Takes.free_of_owner (h : Takes s a) (hn : n < 65536)
    (hp : (s.locks l).pc i = .spinning (s.locks l).lock.owner) (j : Fin n) : l ∉ a.held j := by
  intro hj
  obtain ⟨o, b, hserves⟩ := h.serves l
  obtain ⟨-, hinside⟩ := hserves.of_holding ((h.holds l j).mpr hj)
  obtain ⟨c, hfifo, -⟩ := hserves.enter hn hp
  cases hfifo
  cases hinside

variable [DecidableEq L]

/-- A CPU goes on at one lock. -/
theorem Takes.move (h : Takes s a) {p : LockPc} {word : Rtv.Utils.Spinlock} {held : List L}
    (hserves : ∃ o b, LockMachine.Serves o ((s.locks l).goto i p word) b)
    (helse : ∀ l' ≠ l, ∀ me, (s.locks l').pc i ≠ .spinning me)
    (hspin : ∀ me, p = .spinning me → ∃ fs, es = .acquire l :: fs) (htry : ∀ me, p ≠ .trying me)
    (hheld : p = .holding ↔ l ∈ held) (hsame : ∀ l' ≠ l, l' ∈ held ↔ l' ∈ a.held i) :
    Takes ⟨Function.update s.left i es, Function.update s.locks l ((s.locks l).goto i p word)⟩
      ⟨Function.update a.left i es, Function.update a.held i held⟩ := by
  constructor
  · exact congrArg (fun left => Function.update left i es) h.left
  · intro l'
    by_cases hl : l' = l
    · subst hl
      simpa only [Function.update_self] using hserves
    · simpa only [Function.update_of_ne hl] using h.serves l'
  · intro l' j
    have hbefore := h.holds l' j
    unfold Holds at *
    by_cases hl : l' = l
    · subst hl
      by_cases hj : j = i
      · subst hj
        simpa only [Function.update_self, LockMachine.goto_self] using hheld
      · simpa only [Function.update_self, Function.update_of_ne hj, LockMachine.goto_of_ne _ hj] using
          hbefore
    · by_cases hj : j = i
      · subst hj
        simp only [Function.update_self, Function.update_of_ne hl]
        exact hbefore.trans (hsame l' hl).symm
      · simpa only [Function.update_of_ne hl, Function.update_of_ne hj] using hbefore
  · intro l' j me hp
    by_cases hj : j = i
    · subst hj
      by_cases hl : l' = l
      · subst hl
        simp only [Function.update_self, LockMachine.goto_self] at hp ⊢
        exact hspin me hp
      · simp only [Function.update_of_ne hl] at hp
        exact absurd hp (helse l' hl me)
    · simp only [Function.update_of_ne hj]
      by_cases hl : l' = l
      · subst hl
        simp only [Function.update_self, LockMachine.goto_of_ne _ hj] at hp
        exact h.waits l' j me hp
      · simp only [Function.update_of_ne hl] at hp
        exact h.waits l' j me hp
  · intro l' j me
    by_cases hl : l' = l
    · subst hl
      by_cases hj : j = i
      · subst hj
        simpa only [Function.update_self, LockMachine.goto_self] using htry me
      · simpa only [Function.update_self, LockMachine.goto_of_ne _ hj] using h.locking l' j me
    · simpa only [Function.update_of_ne hl] using h.locking l' j me

/-- **A step follows the clients.** -/
theorem Takes.step (hn : n < 65536) (h : Takes s a) (ha : a.Inv rank mayHalt) (hstep : Step s e t) :
    match event e with
    | none => Takes t a
    | some i => ∃ b, LockSystem.Step a i b ∧ Takes t b := by
  cases hstep with
  | @fetchAdd i l es lock hleft hlock =>
    obtain ⟨hp, rfl⟩ := LockMachine.of_fetchAdd hlock
    obtain ⟨o, b, hserves⟩ := h.serves l
    obtain ⟨c, -, hnext⟩ := hserves.fetchAdd hp
    have hout : l ∉ a.held i := by
      rw [← h.holds l i, Holds, hp]
      nofun
    have hheld : LockPc.spinning (s.locks l).lock.next = .holding ↔ l ∈ a.held i :=
      ⟨nofun, fun hin => absurd hin hout⟩
    have hmove := h.move ⟨o, c, hnext⟩ (fun _ hl me => h.spins_here hleft (.inl rfl) hl me)
      (fun _ _ => ⟨es, hleft⟩) nofun hheld (fun _ _ => Iff.rfl)
    have hleft' : Function.update a.left i (s.left i) = a.left := by
      rw [← h.left, Function.update_eq_self]
    rw [Function.update_eq_self, hleft', Function.update_eq_self] at hmove
    exact hmove
  | @spin i l es lock hleft hlock =>
    obtain rfl := LockMachine.of_spin hlock
    rw [Function.update_eq_self]
    exact h
  | @enter i l es lock hleft hlock =>
    obtain ⟨hp, rfl⟩ := LockMachine.of_enter hlock
    obtain ⟨o, b, hserves⟩ := h.serves l
    obtain ⟨c, -, hnext⟩ := hserves.enter hn hp
    refine ⟨_, .acquire ((congrFun h.left i).trans hleft) (h.free_of_owner hn hp), ?_⟩
    refine h.move ⟨o, c, hnext⟩ (fun _ hl me => h.spins_here hleft (.inl rfl) hl me) nofun nofun ?_ ?_
    · exact ⟨fun _ => List.mem_cons_self, fun _ => rfl⟩
    · intro l' hl
      rw [List.mem_cons, or_iff_right hl]
  | @unlock i l es lock hleft hlock =>
    obtain ⟨hp, rfl⟩ := LockMachine.of_unlock hlock
    obtain ⟨o, b, hserves⟩ := h.serves l
    obtain ⟨c, -, hnext⟩ := hserves.unlock hp
    refine ⟨_, .release ((congrFun h.left i).trans hleft), ?_⟩
    refine h.move ⟨o + 1, c, hnext⟩ (fun _ hl me => h.spins_here hleft (.inr rfl) hl me) nofun nofun ?_ ?_
    · exact ⟨nofun, fun hin => absurd hin (ha.nodup i).not_mem_erase⟩
    · intro l' hl
      exact List.mem_erase_of_ne hl

/-- The CPUs follow some clients that keep the order. -/
def Ordered (rank : L → Nat) (mayHalt : List L → Bool) (s : TicketLocks n L) : Prop :=
  ∃ a : LockSystem (Fin n) L, a.Inv rank mayHalt ∧ Takes s a

theorem Ordered.step (hn : n < 65536) (h : s.Ordered rank mayHalt) (hstep : Step s e t) :
    t.Ordered rank mayHalt := by
  obtain ⟨a, ha, htakes⟩ := h
  have hone := htakes.step hn ha hstep
  split at hone
  · exact ⟨a, ha, hone⟩
  · obtain ⟨b, hb, hnext⟩ := hone
    exact ⟨b, LockSystem.step_inv ha hb, hnext⟩

/-- **Every run keeps the order.** -/
theorem runs_ordered {code : Fin n → LockCode L} {paths : Fin n → List (LockEvent L)} {out : Fin n → Bool}
    {tr : List (LockAct n)} (hn : n < 65536) (hpath : ∀ i, (code i).Path (paths i) (out i))
    (hcheck : ∀ i, (code i).Balanced rank mayHalt)
    (hrun : Runs Step (TicketLocks.start paths) tr s) : s.Ordered rank mayHalt :=
  hrun.invariant (fun _ _ _ h hstep => h.step hn hstep)
    ⟨_, LockSystem.start_inv hpath hcheck, .start paths⟩

end Simulation

/-! ## Going on -/

section Progress

variable [DecidableEq L] {s t : TicketLocks n L} {a b : LockSystem (Fin n) L} {i : Fin n} {l : L}
  {es : List (LockEvent L)} {e : LockAct n} {rank : L → Nat} {mayHalt : List L → Bool}

/-- A read of `owner` in vain. -/
def spins : LockAct n → Bool
  | .spin _ => true
  | _ => false

/-- Somebody can take a step that is not a read of `owner` in vain. -/
def GoesOn (s : TicketLocks n L) : Prop := ∃ e t, spins e = false ∧ Step s e t

/-- What a client can do is done here by the CPU, or by the one whose turn it is at the lock. -/
theorem Takes.progress (hn : n < 65536) (h : Takes s a) (ha : a.Inv rank mayHalt)
    (hstep : LockSystem.Step a i b) : s.GoesOn := by
  cases hstep with
  | @release l es hleft =>
    have hp : (s.locks l).pc i = .holding := (h.holds l i).mpr (ha.mem_of_release hleft)
    have hlock : (s.locks l).Step (.unlock i) ((s.locks l).goto i .idle (s.locks l).lock.spinUnlock) := by
      rw [LockMachine.Step, LockMachine.next, hp]
    rw [h.left] at hleft
    exact ⟨_, _, rfl, .unlock hleft hlock⟩
  | @acquire l es hleft hfree =>
    rw [h.left] at hleft
    cases hp : (s.locks l).pc i with
    | idle =>
      have hlock : ∃ lock, (s.locks l).Step (.fetchAdd i) lock := by
        simp only [LockMachine.Step, LockMachine.next, hp, Option.some.injEq, exists_eq']
      obtain ⟨lock, hlock⟩ := hlock
      exact ⟨_, _, rfl, .fetchAdd hleft hlock⟩
    | holding => exact absurd ((h.holds l i).mp hp) (hfree i)
    | trying me => exact absurd hp (h.locking l i me)
    | spinning me =>
      obtain ⟨o, c, hserves⟩ := h.serves l
      rcases hserves.progress hn hp with ⟨j, hj⟩ | ⟨j, hj, -⟩
      · exact absurd ((h.holds l j).mp hj) (hfree j)
      · obtain ⟨fs, hthere⟩ := h.waits l j _ hj
        have hlock : (s.locks l).Step (.enter j) ((s.locks l).goto j .holding (s.locks l).lock) := by
          rw [LockMachine.Step, LockMachine.next, hj]
          exact if_pos rfl
        exact ⟨_, _, rfl, .enter hthere hlock⟩

/-- Somebody waits for a lock: unless one that has halted holds this lock or a higher one, somebody
goes on. -/
theorem Ordered.goesOn_of_waiting {bound : Nat} (hbound : ∀ l, rank l < bound) (hn : n < 65536)
    (h : s.Ordered rank mayHalt) (hleft : s.left i = .acquire l :: es)
    (hhalted : ∀ j l', s.Halted j → s.Holds j l' → rank l' < rank l) : s.GoesOn := by
  obtain ⟨a, ha, htakes⟩ := h
  have hleft' : a.left i = .acquire l :: es := by rw [htakes.left, hleft]
  obtain ⟨j, b, hstep⟩ := ha.step_of_waiting hbound hleft' fun j l' hj hl' => by
    obtain ⟨fs, hj⟩ := hj
    rw [htakes.left] at hj
    exact hhalted j l' ⟨fs, hj⟩ ((htakes.holds l' j).mpr hl')
  exact htakes.progress hn ha hstep

/-- Somebody is on his way, and nobody who has halted holds a lock: somebody goes on. -/
theorem Ordered.goesOn {bound : Nat} (hbound : ∀ l, rank l < bound) (hn : n < 65536)
    (h : s.Ordered rank mayHalt) (hleft : s.left i ≠ []) (hi : ¬ s.Halted i)
    (hhalted : ∀ j l, s.Halted j → ¬ s.Holds j l) : s.GoesOn := by
  obtain ⟨a, ha, htakes⟩ := h
  have hstopped : ∀ {j}, a.Stopped j ↔ s.Halted j := by
    intro j
    rw [LockSystem.Stopped, Halted, htakes.left]
  have hstep := ha.progress hbound (by rwa [htakes.left]) (mt hstopped.mp hi) fun j l hj hl =>
    hhalted j l (hstopped.mp hj) ((htakes.holds l j).mpr hl)
  obtain ⟨j, b, hstep⟩ := hstep
  exact htakes.progress hn ha hstep

/-- At its end a CPU is at no lock. -/
theorem Ordered.idle_of_end (h : s.Ordered rank mayHalt) (hleft : s.left i = []) (l : L) :
    (s.locks l).pc i = .idle := by
  obtain ⟨a, ha, htakes⟩ := h
  cases hp : (s.locks l).pc i with
  | idle => rfl
  | trying me => exact absurd hp (htakes.locking l i me)
  | spinning me =>
    obtain ⟨es, hthere⟩ := htakes.waits l i me hp
    rw [hleft] at hthere
    cases hthere
  | holding =>
    have hheld : a.held i = [] := ha.held_of_end (by rw [htakes.left, hleft])
    have hl := (htakes.holds l i).mp hp
    rw [hheld] at hl
    cases hl

/-- What a CPU holds that has halted is what it may. -/
theorem Ordered.halted (h : s.Ordered rank mayHalt) (hi : s.Halted i) :
    ∃ held, mayHalt held = true ∧ ∀ l, s.Holds i l ↔ l ∈ held := by
  obtain ⟨a, ha, htakes⟩ := h
  obtain ⟨es, hleft⟩ := hi
  exact ⟨a.held i, ha.mayHalt_of_stopped ⟨es, by rw [htakes.left, hleft]⟩, fun l => htakes.holds l i⟩

/-- One CPU at a time is inside a lock. -/
theorem Ordered.exclusive (h : s.Ordered rank mayHalt) (l : L) : (s.locks l).Exclusive := by
  obtain ⟨a, -, htakes⟩ := h
  obtain ⟨o, b, hserves⟩ := htakes.serves l
  exact hserves.exclusive

end Progress

/-! ## To the end -/

section Rest

variable [DecidableEq L] {s t : TicketLocks n L} {e : LockAct n} {rank : L → Nat} {mayHalt : List L → Bool}

/-- Nobody can go on any more: all are at their end or have halted, or one that has halted holds a
lock. -/
def Rest (s : TicketLocks n L) : Prop :=
  (∀ i, s.left i = [] ∨ s.Halted i) ∨ ∃ i l, s.Halted i ∧ s.Holds i l

/-- The steps that a CPU has still to take, reads of `owner` in vain apart. -/
def pending (s : TicketLocks n L) (i : Fin n) : Nat :=
  match s.left i with
  | .acquire l :: es => 2 * es.length + 2 + if (s.locks l).pc i = .idle then 1 else 0
  | es => 2 * es.length

omit [DecidableEq L] in
theorem pending_le (s : TicketLocks n L) {i : Fin n} {es : List (LockEvent L)} (hleft : s.left i = es) :
    s.pending i ≤ 2 * es.length + 1 := by
  unfold pending
  rw [hleft]
  split
  · rw [List.length_cons]
    split <;> omega
  · omega

omit [DecidableEq L] in
theorem le_pending (s : TicketLocks n L) {i : Fin n} {e : LockEvent L} {es : List (LockEvent L)}
    (hleft : s.left i = e :: es) : 2 * es.length + 2 ≤ s.pending i := by
  unfold pending
  rw [hleft]
  split
  · next h =>
    cases h
    exact Nat.le_add_right _ _
  · rw [List.length_cons]
    exact le_of_eq (Nat.mul_succ 2 _).symm

omit [DecidableEq L] in
/-- A CPU that has passed a point of its path has less to do. -/
theorem pending_lt {i : Fin n} {e : LockEvent L} {es : List (LockEvent L)} (hafter : t.left i = es)
    (hbefore : s.left i = e :: es) : t.pending i < s.pending i :=
  Nat.lt_of_le_of_lt (t.pending_le hafter) (s.le_pending hbefore)

omit [DecidableEq L] in
theorem pending_congr {i : Fin n} (hleft : t.left i = s.left i)
    (hpc : ∀ l, (t.locks l).pc i = (s.locks l).pc i) : t.pending i = s.pending i := by
  unfold pending
  rw [hleft]
  simp only [hpc]

/-- The other CPUs stay where they are. -/
theorem update_goto_pc (locks : L → LockMachine n) {i j : Fin n} (hj : j ≠ i) (l : L) (p : LockPc)
    (word : Rtv.Utils.Spinlock) (l' : L) :
    (Function.update locks l ((locks l).goto i p word) l').pc j = (locks l').pc j := by
  by_cases hl : l' = l
  · subst hl
    rw [Function.update_self, LockMachine.goto_of_ne _ hj]
  · rw [Function.update_of_ne hl]

/-- Going on is a step less. -/
theorem step_pending (hstep : Step s e t) (he : spins e = false) :
    ∑ j, t.pending j < ∑ j, s.pending j := by
  obtain ⟨i, hlt, hsame⟩ : ∃ i, t.pending i < s.pending i ∧ ∀ j, j ≠ i → t.pending j = s.pending j := by
    cases hstep with
    | @spin i l es lock hleft hlock => cases he
    | @fetchAdd i l es lock hleft hlock =>
      obtain ⟨hp, rfl⟩ := LockMachine.of_fetchAdd hlock
      refine ⟨i, ?_, fun j hj => pending_congr rfl (update_goto_pc s.locks hj l _ _)⟩
      simp only [pending, hleft, Function.update_self, LockMachine.goto_self, hp]
      simp
    | @enter i l es lock hleft hlock =>
      obtain ⟨-, rfl⟩ := LockMachine.of_enter hlock
      refine ⟨i, pending_lt (Function.update_self i es s.left) hleft, fun j hj => ?_⟩
      exact pending_congr (Function.update_of_ne hj _ _) (update_goto_pc s.locks hj l _ _)
    | @unlock i l es lock hleft hlock =>
      obtain ⟨-, rfl⟩ := LockMachine.of_unlock hlock
      refine ⟨i, pending_lt (Function.update_self i es s.left) hleft, fun j hj => ?_⟩
      exact pending_congr (Function.update_of_ne hj _ _) (update_goto_pc s.locks hj l _ _)
  apply Finset.sum_lt_sum
  · intro j _
    by_cases hj : j = i
    · subst hj
      exact hlt.le
    · exact (hsame j hj).le
  · exact ⟨i, Finset.mem_univ i, hlt⟩

/-- **Every state leads to rest.** -/
theorem Ordered.runs_to_rest {bound : Nat} (hbound : ∀ l, rank l < bound) (hn : n < 65536)
    (h : s.Ordered rank mayHalt) :
    ∃ tr t, Runs Step s tr t ∧ t.Ordered rank mayHalt ∧ t.Rest := by
  refine runs_to_stuck (fun s => ∑ j, s.pending j) ?_ s h
  intro s hs
  by_cases hrest : s.Rest
  · exact .inl hrest
  · simp only [Rest, not_or, not_forall, not_exists, not_and] at hrest
    obtain ⟨⟨i, hleft, hi⟩, hhalted⟩ := hrest
    obtain ⟨e, t, he, hstep⟩ := hs.goesOn hbound hn hleft hi hhalted
    exact .inr ⟨e, t, hstep, hs.step hn hstep, step_pending hstep he⟩

end Rest

end TicketLocks

end Rtv.Smp
