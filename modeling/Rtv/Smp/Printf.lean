import Rtv.Lib.Serialized
import Rtv.Smp.TicketLock
import Rtv.Utils.Console
import Rtv.Utils.Screen

/-!
# Printing from several CPUs

`utils/screen.c: printf` takes `scr_lock`, lets `vprintf` put out its characters through `_putchar` one
by one, and gives the lock back. `n` CPUs do this on one screen, in any interleaving of the steps of the
ticket lock and of the single characters.

What `vprintf` puts out is computed from its format and arguments when the CPU comes to `spin_lock`; the
steps in which it does so touch nothing shared. A call that runs past its format has no meaning here.

**The law** (`printf_in_order`): the messages appear one after the other, none mixed with another, in the
order in which the CPUs took their tickets, and what is on the last 24 lines is on the screen.
-/

namespace Rtv.Smp

open Rtv.Lib Rtv.Utils

/-! ## The machine -/

/-- `scr_lock` with the CPUs at it, what each of them has still to put out, and the screen. -/
structure PrintMachine (n : Nat) where
  locks : LockMachine n
  out : Fin n → List UInt8
  screen : Screen

/-- The steps of `printf`: those of `spin_lock`, one character, and `spin_unlock`. -/
inductive PrintAct (n : Nat) where
  | call (i : Fin n) (fmt : CString) (args : VaList)
  | spin (i : Fin n)
  | enter (i : Fin n)
  | putc (i : Fin n)
  | unlock (i : Fin n)

namespace PrintMachine

variable {n : Nat}

/-- One step. -/
inductive Step (frameBuf : Nat) : PrintMachine n → PrintAct n → PrintMachine n → Prop
  | call {s : PrintMachine n} {i : Fin n} {fmt : CString} {args : VaList} {locks : LockMachine n}
      {text : List UInt8} (h : s.locks.Step (.fetchAdd i) locks) (hout : vprintf fmt args = .ok text) :
      Step frameBuf s (.call i fmt args) { s with locks, out := Function.update s.out i text }
  | spin {s : PrintMachine n} {i : Fin n} {locks : LockMachine n}
      (h : s.locks.Step (.spin i) locks) : Step frameBuf s (.spin i) { s with locks }
  | enter {s : PrintMachine n} {i : Fin n} {locks : LockMachine n}
      (h : s.locks.Step (.enter i) locks) : Step frameBuf s (.enter i) { s with locks }
  | putc {s : PrintMachine n} {i : Fin n} {c : UInt8} {rest : List UInt8}
      (h : s.locks.pc i = .holding) (hout : s.out i = c :: rest) :
      Step frameBuf s (.putc i)
        { s with out := Function.update s.out i rest, screen := s.screen.putchar frameBuf c }
  | unlock {s : PrintMachine n} {i : Fin n} {locks : LockMachine n}
      (h : s.locks.Step (.unlock i) locks) (hout : s.out i = []) :
      Step frameBuf s (.unlock i) { s with locks }

/-- Nobody prints. -/
def start (n : Nat) (screen : Screen) : PrintMachine n := ⟨.init n, fun _ => [], screen⟩

/-! ## The simulation -/

/-- What a step is to the jobs behind a lock: the text of a call is its job. -/
def event : PrintAct n → Option (Serialized.Event (Fin n) UInt8)
  | .call i fmt args =>
    match vprintf fmt args with
    | .ok text => some (.arrive i text)
    | .error _ => none
  | .spin _ => none
  | .enter i => some (.enter i)
  | .putc i => some (.work i)
  | .unlock i => some (.leave i)

/-- The machine works off the jobs of `a`. -/
structure Works (s : PrintMachine n) (a : Serialized (Fin n) UInt8 Screen) : Prop where
  locks : ∃ o, LockMachine.Serves o s.locks a.lock
  left : a.left = s.out
  state : a.state = s.screen

/-- A step of the ticket lock is one of the lock served in order of arrival, or none. -/
theorem locks_step {s t : LockMachine n} {a : FifoLock (Fin n)} {e : LockAct n} (hn : n < 65536)
    (h : ∃ o, LockMachine.Serves o s a) (hlocking : e.locking = true) (hstep : s.Step e t) :
    match LockMachine.event e with
    | none => ∃ o, LockMachine.Serves o t a
    | some e' => ∃ b, FifoLock.Step a e' b ∧ ∃ o, LockMachine.Serves o t b := by
  obtain ⟨o, h⟩ := h
  rcases LockMachine.step_cases hstep with ⟨i, rfl, hp, rfl⟩ | ⟨i, me, rfl, hp, -, rfl⟩ |
    ⟨i, rfl, hp, rfl⟩ | ⟨i, rfl, hp, rfl⟩ | ⟨i, rfl, -⟩ | ⟨i, me, rfl, -⟩
  · obtain ⟨b, hb, hserves⟩ := h.fetchAdd hp
    exact ⟨b, hb, o, hserves⟩
  · exact ⟨o, h⟩
  · obtain ⟨b, hb, hserves⟩ := h.enter hn hp
    exact ⟨b, hb, o, hserves⟩
  · obtain ⟨b, hb, hserves⟩ := h.unlock hp
    exact ⟨b, hb, o + 1, hserves⟩
  · cases hlocking
  · cases hlocking

section Simulation

variable {frameBuf : Nat} {screen : Screen} {s t : PrintMachine n} {e : PrintAct n}
  {a : Serialized (Fin n) UInt8 Screen} {tr : List (PrintAct n)}

theorem works_step (hn : n < 65536) (h : Works s a) (hstep : Step frameBuf s e t) :
    match event e with
    | none => Works t a
    | some e' => ∃ b, Serialized.Step (Screen.putchar frameBuf) a e' b ∧ Works t b := by
  cases hstep with
  | @call i fmt args locks text hlock hout =>
    obtain ⟨lock, hfifo, hserves⟩ := locks_step hn h.locks rfl hlock
    simp only [event, hout]
    refine ⟨_, .arrive hfifo, ⟨hserves, ?_, h.state⟩⟩
    exact congrArg (fun left => Function.update left i text) h.left
  | spin hlock => exact ⟨locks_step hn h.locks rfl hlock, h.left, h.state⟩
  | enter hlock =>
    obtain ⟨lock, hfifo, hserves⟩ := locks_step hn h.locks rfl hlock
    exact ⟨_, .enter hfifo, ⟨hserves, h.left, h.state⟩⟩
  | @putc i c rest hp hout =>
    obtain ⟨o, hserves⟩ := h.locks
    obtain ⟨hfront, hinside⟩ := hserves.of_holding hp
    obtain ⟨⟨line, inside⟩, left, state⟩ := a
    cases line with
    | nil => cases hfront
    | cons j others =>
      cases Option.some.inj hfront
      cases (show inside = true from hinside)
      have hleft : left i = c :: rest := (congrFun h.left i).trans hout
      refine ⟨_, .work rfl hleft, ⟨⟨o, hserves⟩, ?_, ?_⟩⟩
      · exact congrArg (fun left => Function.update left i rest) h.left
      · exact congrArg (fun state => Screen.putchar frameBuf state c) h.state
  | @unlock i locks hlock hout =>
    obtain ⟨lock, hfifo, hserves⟩ := locks_step hn h.locks rfl hlock
    exact ⟨_, .leave hfifo ((congrFun h.left i).trans hout), ⟨hserves, h.left, h.state⟩⟩

theorem simulates (hn : n < 65536) (hrun : Runs (Step frameBuf) (start n screen) tr s) :
    ∃ a, Runs (Serialized.Step (Screen.putchar frameBuf)) (Serialized.start (fun _ => []) screen)
      (tr.filterMap event) a ∧ Works s a := by
  have hstart : Works (start n screen) (Serialized.start (fun _ => []) screen) :=
    ⟨⟨0, .start n⟩, rfl, rfl⟩
  refine hrun.simulate ?_ ?_ hstart
  · intro s e t a h hstep hevent
    have hone := works_step hn h hstep
    rw [hevent] at hone
    exact hone
  · intro s e t a e' h hstep hevent
    have hone := works_step hn h hstep
    rw [hevent] at hone
    exact hone

end Simulation

/-! ## The law -/

/-- The texts of the calls, in the order of their tickets. -/
def texts (tr : List (PrintAct n)) : List (List UInt8) :=
  tr.filterMap fun
    | .call _ fmt args => (vprintf fmt args).toOption
    | _ => none

/-- How many calls have given the lock back. -/
def finished (tr : List (PrintAct n)) : Nat :=
  tr.countP fun
    | .unlock _ => true
    | _ => false

theorem texts_eq (tr : List (PrintAct n)) :
    texts tr = (tr.filterMap event).filterMap Serialized.Event.job := by
  rw [List.filterMap_filterMap, texts]
  congr 1
  funext e
  cases e with
  | call i fmt args =>
    cases hout : vprintf fmt args with
    | error _ => simp [event, hout, Except.toOption]
    | ok text => simp [event, hout, Except.toOption, Serialized.Event.job]
  | spin _ => rfl
  | enter _ => rfl
  | putc _ => rfl
  | unlock _ => rfl

theorem finished_eq (tr : List (PrintAct n)) :
    finished tr = ((tr.filterMap event).filterMap Serialized.Event.left).length := by
  rw [List.filterMap_filterMap, List.length_filterMap_eq_countP, finished]
  congr 1
  funext e
  cases e with
  | call i fmt args =>
    cases hout : vprintf fmt args with
    | error _ => simp [event, hout]
    | ok text => simp [event, hout, Serialized.Event.left]
  | spin _ => rfl
  | enter _ => rfl
  | putc _ => rfl
  | unlock _ => rfl

end PrintMachine

open PrintMachine in
/-- **Printing is in order.** Whatever the screen shows at first: at every point of every run, the texts
of the calls that are over have been put out one after the other in the order of their tickets, then a
part of the next one, and nothing else. When no CPU is at the lock, all of them have. -/
theorem printf_in_order {n frameBuf : Nat} (hn : n < 65536) {screen : Screen} {p : Place}
    {ink : List (Place × UInt8)} (hshows : Shows frameBuf p ink screen) {tr : List (PrintAct n)}
    {s : PrintMachine n} (hrun : Runs (Step frameBuf) (start n screen) tr s) :
    ∃ done begun rest, texts tr = done ++ rest ∧ done.length = finished tr ∧
      begun <+: rest.headD [] ∧ ((∀ i, s.locks.pc i = .idle) → rest = []) ∧ s.locks.Exclusive ∧
      Shows frameBuf (p.after (done.flatten ++ begun)) (ink ++ p.typed (done.flatten ++ begun)) s.screen ∧
      ∀ a, ¬ OnScreen frameBuf a → s.screen.mem a = screen.mem a := by
  obtain ⟨a, hjobs, hworks⟩ := simulates hn hrun
  obtain ⟨done, begun, hinv, hlen⟩ := Serialized.state_eq hjobs
  obtain ⟨o, hserves⟩ := hworks.locks
  have hscreen : s.screen = screen.puts frameBuf (done.flatten ++ begun) :=
    hworks.state.symm.trans hinv.state
  refine ⟨done, begun, Serialized.ofLine begun a.left a.lock.line, ?_, ?_, ?_, ?_,
    hserves.exclusive, ?_, ?_⟩
  · rw [texts_eq]
    exact hinv.jobs
  · rw [finished_eq]
    exact hlen
  · cases hline : a.lock.line with
    | nil =>
      have hout : a.lock.inside = false := by
        cases hinside : a.lock.inside with
        | false => rfl
        | true => exact absurd hline (hinv.lock.inside hinside)
      rw [hinv.outside hout]
      exact List.nil_prefix
    | cons i others => exact List.prefix_append begun (a.left i)
  · intro hidle
    cases hline : a.lock.line with
    | nil => rfl
    | cons i others =>
      have hplace := hserves.place 0 i (by rw [hline]; rfl)
      rw [hidle i] at hplace
      split at hplace
      · cases hplace
      · cases hplace
  · rw [hscreen]
    exact hshows.puts _
  · intro a ha
    rw [hscreen]
    exact hshows.puts_outside _ ha

/-- A screen that is blank. -/
def blankScreen : Screen := ⟨0, 0, ⟨fun _ => 0⟩⟩

/-- A text of one character that is no `%`. -/
def letter (c : UInt8) (h : c ≠ 0) : CString := ⟨[c], by simpa using h.symm⟩

/-- A call without arguments. -/
def noArgs : VaList := ⟨fun _ => 0, fun _ => letter 65 (by decide)⟩

/-- CPU 1 takes its ticket while CPU 0 has not yet begun. -/
theorem printf_in_order_two_cpus :
    ∃ s done begun rest, Runs (PrintMachine.Step 0xB8000) (.start 2 blankScreen)
      [.call 0 (letter 65 (by decide)) noArgs, .call 1 (letter 66 (by decide)) noArgs, .enter 0, .putc 0,
        .unlock 0, .enter 1] s ∧
      ([[65], [66]] : List (List UInt8)) = done ++ rest ∧ done.length = 1 ∧ begun <+: rest.headD [] ∧
      ∀ a, ¬ OnScreen 0xB8000 a → s.screen.mem a = 0 := by
  have hblank : Shows 0xB8000 ⟨0, 0⟩ [] blankScreen := ⟨⟨rfl, rfl, nofun, nofun⟩, by decide⟩
  have hfirst : vprintf (letter 65 (by decide)) noArgs = .ok [65] := rfl
  have hsecond : vprintf (letter 66 (by decide)) noArgs = .ok [66] := rfl
  have hrun : Runs (PrintMachine.Step 0xB8000) (.start 2 blankScreen)
      [.call 0 (letter 65 (by decide)) noArgs, .call 1 (letter 66 (by decide)) noArgs, .enter 0, .putc 0,
        .unlock 0, .enter 1] _ :=
    .cons (.call rfl hfirst) <| .cons (.call rfl hsecond) <| .cons (.enter rfl) <|
      .cons (.putc rfl rfl) <| .cons (.unlock rfl rfl) <| .single (.enter rfl)
  obtain ⟨done, begun, rest, htexts, hdone, hbegun, -, -, -, houtside⟩ :=
    printf_in_order (by decide) hblank hrun
  exact ⟨_, done, begun, rest, hrun, htexts, hdone, hbegun, houtside⟩

end Rtv.Smp
