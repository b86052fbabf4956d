import Rtv.Interrupt.Isr

/-!
# Interrupts are invisible

A program of the kernel runs with the table that `idt_init` has filled, and interrupts come between
any two of its steps. The program is a parameter: it does not touch the table, leaves room on its
stack, and does not depend on what is below its stack pointer (the kernel is compiled without a red
zone) or on the data of the handlers.

**The laws.** `interrupts_invisible`: what it does with interrupts it does without them, and every
external interrupt is handled to its end if `isr_handler` returns. `exception_reports`: when an
exception comes after any such run, `exp_handler` finds the registers of the program as it would be
without interrupts, in the right fields exactly if the exception pushes an error code.
-/

namespace Rtv.Interrupt

open Rtv.Lib Rtv.Lib.StackMachine

/-! ## The system -/

/-- The addresses of the stubs, `int_table`, and the code that the linker has put there. -/
structure Text where
  intTable : Nat → BitVec 64
  code : BitVec 64 → Code
  linked : ∀ n, n < idtEntryNr → code (intTable n) = isr n

/-- An interrupt or an exception. -/
structure Raised where
  vector : BitVec 8
  error : Option (BitVec 64)
  /-- From 0x15 on they come from outside, and so without an error code. -/
  outside : 0x15 ≤ vector.toNat → error = none

/-- The vectors of faults. The other exceptions are traps, as the debug exception is taken to be, or
aborts. -/
def faultVectors : List Nat := [0, 5, 6, 7, 10, 11, 12, 13, 14, 16, 17, 19, 20]

/-- The interrupted processor as it is pushed. -/
def Raised.pushed (v : Raised) (c : Cpu Reg) : Cpu Reg :=
  if v.vector.toNat ∈ faultVectors then c.faulted else c

/-- A gate that is entered on the stack of the interrupted code, with interrupts off. -/
def Gate.Entered (g : Gate) : Prop := g.p = true ∧ g.type = 0xE ∧ g.ist = 0

section System

variable (t : Text) (callee : Handler → Cpu Reg → Cpu Reg → Prop) (idtr : IdtDesc)

/-- The processor delivers an interrupt and runs its stub to the end. -/
def Handled (c : Cpu Reg) (v : Raised) (d : Cpu Reg) : Prop :=
  ∃ gate : Gate, idtr.gateAt c.mem v.vector.toNat = some gate ∧ gate.Entered ∧
    Runs (Exec callee) ((v.pushed c).deliver gate.offset gate.selector v.error) (t.code gate.offset) d

/-- The processor delivers an interrupt and runs its stub up to the entry of `exp_handler`. -/
def ReachesExp (c : Cpu Reg) (v : Raised) (d : Cpu Reg) : Prop :=
  ∃ gate : Gate, idtr.gateAt c.mem v.vector.toNat = some gate ∧ gate.Entered ∧
    ∃ before rest mid ret, t.code gate.offset = before ++ .call .expHandler :: rest ∧
      Runs (Exec callee) ((v.pushed c).deliver gate.offset gate.selector v.error) before mid ∧
        d = mid.push ret

end System

/-- The program with interrupts at any points. -/
abbrev Interrupted {ε : Type*} (t : Text) (callee : Handler → Cpu Reg → Cpu Reg → Prop)
    (idtr : IdtDesc) (p : Program Reg ε) : Cpu Reg → ε ⊕ Raised → Cpu Reg → Prop :=
  Interleaved p (Handled t callee idtr)

/-- The program can be interrupted. -/
structure Hosts {ε : Type*} (t : Text) (callee : Handler → Cpu Reg → Cpu Reg → Prop) (area : Area)
    (need idt : Nat) (m₀ : Bytes) (p : Program Reg ε) : Prop where
  abi : Abi callee area need
  tolerates : p.Tolerates area
  room : ∀ c, p.Inv c → area.low + need + 192 ≤ c.rsp.toNat ∧ c.rsp.toNat ≤ area.high
  fits : idt + 4096 ≤ 2 ^ 64
  table : ∀ c, p.Inv c → ∀ a, idt ≤ a → a < idt + 4096 → c.mem a = (idtInit t.intTable idt m₀).1 a

/-- What `idt_init` loads into the processor. -/
def loadedIdtr (t : Text) (idt : Nat) (m₀ : Bytes) : IdtDesc := (idtInit t.intTable idt m₀).2

/-! ## One interrupt -/

section Interrupt

variable {ε : Type*} {t : Text} {callee : Handler → Cpu Reg → Cpu Reg → Prop} {area : Area}
  {need idt : Nat} {m₀ : Bytes} {p : Program Reg ε} {c d : Cpu Reg} {v : Raised}

@[simp] theorem Raised.pushed_rsp : (v.pushed c).rsp = c.rsp := by
  unfold Raised.pushed
  split <;> rfl

/-- What comes from outside is no fault. -/
theorem Raised.pushed_outside (hv : 0x15 ≤ v.vector.toNat) : v.pushed c = c := by
  have hnone : ∀ n ∈ faultVectors, n < 0x15 := by decide
  exact if_neg fun hmem => absurd (hnone _ hmem) (by omega)

theorem Hosts.gateAt (h : Hosts t callee area need idt m₀ p) (hc : p.Inv c) (vector : BitVec 8) :
    (loadedIdtr t idt m₀).gateAt c.mem vector.toNat = some (gateTo (t.intTable vector.toNat)) :=
  gateAt_idtInit h.fits (h.table c hc) vector

/-- The code of a stub is at its gate. -/
theorem code_gate (t : Text) (vector : BitVec 8) :
    t.code (gateTo (t.intTable vector.toNat)).offset = isr vector.toNat :=
  t.linked _ vector.isLt

/-- An interrupt that is handled to the end. -/
theorem Hosts.same (h : Hosts t callee area need idt m₀ p) (hc : p.Inv c)
    (hrun : Handled t callee (loadedIdtr t idt m₀) c v d) : SameBut area c d := by
  obtain ⟨gate, hgate, _, hrun⟩ := hrun
  obtain ⟨hlow, hhigh⟩ := h.room c hc
  cases (h.gateAt hc v.vector).symm.trans hgate
  rw [code_gate, isr] at hrun
  by_cases hexp : v.vector.toNat ≤ 0x14
  · rw [if_pos hexp] at hrun
    exact absurd hrun (exp_stops h.abi)
  · rw [if_neg hexp, v.outside (by omega), v.pushed_outside (by omega), int_eq] at hrun
    exact interrupt_same (int_brackets h.abi) (by omega) hhigh (by omega) hrun

/-- An external interrupt is handled to the end. -/
theorem Hosts.completes (h : Hosts t callee area need idt m₀ p) (hc : p.Inv c)
    (hv : 0x15 ≤ v.vector.toNat) (hreturns : ∀ c, ∃ d, callee .isrHandler c d) :
    ∃ d, Handled t callee (loadedIdtr t idt m₀) c v d := by
  have hexp : ¬ v.vector.toNat ≤ 0x14 := by omega
  obtain ⟨c₁, hrun₁⟩ : ∃ c₁, Runs (Exec callee)
      (c.deliver (gateTo (t.intTable v.vector.toNat)).offset 0x8 v.error)
      (regSave ++ [.movImm (BitVec.ofNat 64 v.vector.toNat) .rdi]) c₁ := exists_runs _ rfl
  obtain ⟨c₂, hcall⟩ := hreturns (c₁.push 0)
  obtain ⟨d, hrun₂⟩ : ∃ d, Runs (Exec callee) c₂ (regRestore ++ [.iretq]) d := exists_runs _ rfl
  refine ⟨d, _, h.gateAt hc v.vector, ⟨rfl, rfl, rfl⟩, ?_⟩
  rw [code_gate, isr, if_neg hexp, v.pushed_outside hv]
  exact (hrun₁.snoc (.call 0 hcall)).trans hrun₂

/-- `exp_handler` is entered by the stubs of exceptions alone, right after they have saved the
registers. -/
theorem Hosts.entersExp (h : Hosts t callee area need idt m₀ p) (hc : p.Inv c)
    (hreach : ReachesExp t callee (loadedIdtr t idt m₀) c v d) :
    EntersExp callee (v.pushed c) (gateTo (t.intTable v.vector.toNat)) v.vector.toNat v.error d := by
  obtain ⟨gate, hgate, _, before, rest, mid, ret, hcode, hrun, hd⟩ := hreach
  cases (h.gateAt hc v.vector).symm.trans hgate
  rw [code_gate, isr] at hcode
  by_cases hexp : v.vector.toNat ≤ 0x14
  · rw [if_pos hexp] at hcode
    have hshape : before ++ .call .expHandler :: rest =
        expEntry v.vector.toNat ++ .call .expHandler :: (regRestore ++ [.iretq]) := by
      rw [← hcode, exp]
      simp only [List.append_assoc, List.cons_append, List.nil_append]
    have hfirst : (.call .expHandler : Instr Reg Handler) ∉ expEntry v.vector.toNat := by
      simp [expEntry, regSave]
    have hlast : (.call .expHandler : Instr Reg Handler) ∉ regRestore ++ [.iretq] := by decide
    obtain ⟨hbefore, _, _⟩ := (List.append_cons_inj_of_notMem hfirst hlast).mp hshape.symm
    rw [← hbefore] at hrun
    exact ⟨mid, ret, hrun, hd⟩
  · rw [if_neg hexp] at hcode
    have hmem : (.call .expHandler : Instr Reg Handler) ∈ int v.vector.toNat := by
      rw [hcode]
      simp
    simp [int, regSave, regRestore] at hmem

end Interrupt

/-! ## A program that counts -/

/-- A stack below 0x8000, and a byte of the screen. -/
def screenArea : Area where
  low := 0x4000
  high := 0x8000
  data a := a = 0xB8000
  apart := by
    rintro a rfl
    exact .inr (by decide)

/-- The stubs at consecutive addresses. -/
def denseText : Text where
  intTable n := BitVec.ofNat 64 (0x200000 + n)
  code a := isr (a.toNat - 0x200000)
  linked := by
    intro n hn
    have hn' : n < 256 := hn
    have hmod : (BitVec.ofNat 64 (0x200000 + n)).toNat = 0x200000 + n :=
      (BitVec.toNat_ofNat _ _).trans (Nat.mod_eq_of_lt (by omega))
    rw [hmod, Nat.add_sub_cancel_left]

/-- `exp_handler` never returns, and `isr_handler` changes the byte of the screen. -/
def blink : Handler → Cpu Reg → Cpu Reg → Prop
  | .expHandler, _, _ => False
  | .isrHandler, c, d =>
    d = { c with rsp := c.rsp + 8, mem := c.mem.setByte 0xB8000 (c.mem 0xB8000 + 1) }

/-- The table that `idt_init` writes into cleared memory. -/
def clearedTable : Bytes := (idtInit denseText.intTable 0x10000 ⟨fun _ => 0⟩).1

/-- Count in `rax`. -/
def counter : Program Reg Unit where
  step c _ d := d = { c with reg := Function.update c.reg .rax (c.reg .rax + 1) }
  Inv c := c.rsp = 0x8000#64 ∧ ∀ a, 0x10000 ≤ a → a < 0x11000 → c.mem a = clearedTable a
  live _ a := 0x8000 ≤ a ∧ a ≠ 0xB8000

theorem counter_tolerates : counter.Tolerates screenArea where
  keeps := by
    rintro c e d hc rfl
    exact hc
  respects := by
    rintro c x e d _ hagrees rfl
    refine ⟨_, rfl, ?_, hagrees.rsp, hagrees.rip, hagrees.cs, hagrees.ss, hagrees.rflags, hagrees.mem⟩
    exact congrArg (fun reg => Function.update reg Reg.rax (reg .rax + 1)) hagrees.reg
  stable := by
    rintro c d ⟨hsp, htable⟩ hsame
    refine ⟨⟨hsame.rsp.trans hsp, ?_⟩, fun _ ha => ha⟩
    intro a hlo hhi
    rw [← htable a hlo hhi]
    apply hsame.mem
    rw [hsp]
    rintro (hdata | ⟨_, hbelow⟩)
    · change a = 0xB8000 at hdata
      omega
    · change a < 0x8000 at hbelow
      omega
  live := by
    rintro c a ⟨hsp, _⟩ ⟨hlo, hdata⟩ hprivate
    rw [hsp] at hprivate
    rcases hprivate with hprivate | ⟨_, hbelow⟩
    · exact hdata hprivate
    · exact absurd hlo (not_le.mpr hbelow)

theorem counter_hosts : Hosts denseText blink screenArea 0x100 0x10000 ⟨fun _ => 0⟩ counter where
  abi := by
    constructor
    · exact fun _ _ h => h
    · rintro c d _ _ _ rfl
      refine ⟨rfl, fun a ha => Bytes.setByte_ne _ _ ?_⟩
      exact fun hdata => ha (.inl hdata)
  tolerates := counter_tolerates
  room := by
    rintro c ⟨hsp, _⟩
    rw [hsp]
    decide
  fits := by decide
  table := by
    rintro c ⟨_, htable⟩ a hlo hhi
    exact htable a hlo hhi

/-- A state of the program, with interrupts on. -/
def counterStart : Cpu Reg where
  reg _ := 0
  rsp := 0x8000
  rip := 0x100000
  cs := 0x8
  ss := 0x10
  rflags := 0x202
  mem := clearedTable

theorem counterStart_inv : counter.Inv counterStart := ⟨rfl, fun _ _ _ => rfl⟩

/-- The timer. -/
def timerRaised : Raised := ⟨0x20, none, fun _ => rfl⟩

/-- A page fault of a write. -/
def pageFault : Raised := ⟨14, some 2, fun h => absurd h (by decide)⟩

/-- The program is interrupted by the timer after a step. -/
theorem counter_runs : ∃ d, Runs
    (Interrupted denseText blink (loadedIdtr denseText 0x10000 ⟨fun _ => 0⟩) counter) counterStart
    [.inl (), .inr timerRaised, .inl ()] d := by
  obtain ⟨c, hc⟩ : ∃ c, Handled denseText blink (loadedIdtr denseText 0x10000 ⟨fun _ => 0⟩)
      { counterStart with reg := Function.update counterStart.reg .rax (counterStart.reg .rax + 1) }
      timerRaised c :=
    counter_hosts.completes counterStart_inv (by decide) fun c => ⟨_, rfl⟩
  exact ⟨_, .cons (.program rfl) (.cons (.interrupt hc) (.single (.program rfl)))⟩

/-! ## The laws -/

section Laws

variable {ε : Type*} {t : Text} {callee : Handler → Cpu Reg → Cpu Reg → Prop} {area : Area}
  {need idt : Nat} {m₀ : Bytes} {p : Program Reg ε} {c d : Cpu Reg} {tr : List (ε ⊕ Raised)}

theorem Hosts.invisible (h : Hosts t callee area need idt m₀ p) (hc : p.Inv c)
    (hrun : Runs (Interrupted t callee (loadedIdtr t idt m₀) p) c tr d) :
    p.Inv d ∧ ∃ x, Runs p.step c (tr.filterMap Sum.getLeft?) x ∧ Agrees p.live d x :=
  StackMachine.invisible h.tolerates (fun _ _ _ hc hrun => h.same hc hrun) hc hrun

/-- **Interrupts are invisible.** -/
theorem interrupts_invisible (h : Hosts t callee area need idt m₀ p) (hc : p.Inv c)
    (hrun : Runs (Interrupted t callee (loadedIdtr t idt m₀) p) c tr d) :
    (p.Inv d ∧ ∃ x, Runs p.step c (tr.filterMap Sum.getLeft?) x ∧ Agrees p.live d x) ∧
    ∀ v : Raised, 0x15 ≤ v.vector.toNat → (∀ c, ∃ d, callee .isrHandler c d) →
      ∃ d', Handled t callee (loadedIdtr t idt m₀) d v d' := by
  obtain ⟨hd, hx⟩ := h.invisible hc hrun
  exact ⟨⟨hd, hx⟩, fun v hv hreturns => h.completes hd hv hreturns⟩

/-- The counting program, interrupted by the timer. -/
theorem interrupts_invisible_counter : ∃ d,
    Runs (Interrupted denseText blink (loadedIdtr denseText 0x10000 ⟨fun _ => 0⟩) counter) counterStart
      [.inl (), .inr timerRaised, .inl ()] d ∧
    ∃ x, Runs counter.step counterStart [(), ()] x ∧ Agrees counter.live d x := by
  obtain ⟨d, hrun⟩ := counter_runs
  obtain ⟨⟨_, hx⟩, _⟩ := interrupts_invisible counter_hosts counterStart_inv hrun
  exact ⟨d, hrun, hx⟩

/-- What is pushed agrees, up to the memory. -/
theorem Raised.pushed_agrees {live : Cpu Reg → Nat → Prop} {x : Cpu Reg} (v : Raised) (h : Agrees live c x) :
    Agrees (fun _ _ => False) (v.pushed c) (v.pushed x) := by
  unfold Raised.pushed
  split
  · exact ⟨h.reg, h.rsp, h.rip, h.cs, h.ss, congrArg (· ||| Cpu.resumeFlag) h.rflags, nofun⟩
  · exact ⟨h.reg, h.rsp, h.rip, h.cs, h.ss, h.rflags, nofun⟩

theorem report_congr {live : Cpu Reg → Nat → Prop} {x : Cpu Reg} (h : Agrees live c x)
    (error : BitVec 64) : report c error = report x error := by
  simp only [report, h.reg, h.rip, h.cs, h.rflags, h.rsp, h.ss]

/-- **An exception reports the registers of the program as if there had been no interrupts**, as the
processor pushes them for the vector, in the right fields if there is an error code, and else each
field of the frame in the one before. -/
theorem exception_reports (h : Hosts t callee area need idt m₀ p) (hc : p.Inv c)
    (hrun : Runs (Interrupted t callee (loadedIdtr t idt m₀) p) c tr d) (v : Raised) (e : Cpu Reg)
    (hreach : ReachesExp t callee (loadedIdtr t idt m₀) d v e) :
    e.reg .rdi = v.vector.setWidth 64 ∧
    ∃ x, Runs p.step c (tr.filterMap Sum.getLeft?) x ∧
      match v.error with
      | some error => HwRegs.load e.mem (e.reg .rsi).toNat = report (v.pushed x) error
      | none =>
        { HwRegs.load e.mem (e.reg .rsi).toNat with ss := 0 } =
          { reportShifted (v.pushed x) with ss := 0 } := by
  obtain ⟨hd, x, hx, hagrees⟩ := h.invisible hc hrun
  obtain ⟨hlow, _⟩ := h.room d hd
  have henters := h.entersExp hd hreach
  have hlen : v.error.toList.length ≤ 1 := by
    cases v.error with
    | none => exact Nat.zero_le 1
    | some _ => exact Nat.le_refl 1
  have hroom : expDepth v.error + 8 ≤ (v.pushed d).rsp.toNat / 16 * 16 := by
    rw [expDepth, v.pushed_rsp]
    omega
  have hirq : e.reg .rdi = v.vector.setWidth 64 := by
    rw [(atEntry hroom henters).irq, BitVec.ofNat_toNat]
  have hregs := hwRegs_entry hroom henters
  have hpushed := v.pushed_agrees hagrees
  refine ⟨hirq, x, hx, ?_⟩
  generalize v.error = error at hregs
  cases error with
  | some error => exact hregs.trans (report_congr hpushed error)
  | none =>
    have hshifted : HwRegs.load e.mem (e.reg .rsi).toNat = reportShifted (v.pushed d) := hregs
    simp only [hshifted, reportShifted, report_congr hpushed, hpushed.cs, hpushed.rflags,
      hpushed.rsp, hpushed.ss, hpushed.rip]

/-- A page fault of the counting program after an interrupt. -/
theorem exception_reports_counter : ∃ d e x,
    Runs (Interrupted denseText blink (loadedIdtr denseText 0x10000 ⟨fun _ => 0⟩) counter) counterStart
      [.inl (), .inr timerRaised, .inl ()] d ∧
    ReachesExp denseText blink (loadedIdtr denseText 0x10000 ⟨fun _ => 0⟩) d pageFault e ∧
    Runs counter.step counterStart [(), ()] x ∧
    HwRegs.load e.mem (e.reg .rsi).toNat = report x.faulted 2 := by
  obtain ⟨d, hrun⟩ := counter_runs
  have hd : counter.Inv d := (counter_hosts.invisible counterStart_inv hrun).1
  obtain ⟨mid, hmid⟩ : ∃ mid, Runs (Exec blink)
      ((pageFault.pushed d).deliver (gateTo (denseText.intTable 14)).offset 0x8 (some 2)) (expEntry 14) mid :=
    exists_runs _ rfl
  have hcode : denseText.code (gateTo (denseText.intTable 14)).offset =
      expEntry 14 ++ .call .expHandler :: (regRestore ++ [.iretq]) :=
    (code_gate denseText 14).trans rfl
  have hreach : ReachesExp denseText blink (loadedIdtr denseText 0x10000 ⟨fun _ => 0⟩) d pageFault
      (mid.push 0) :=
    ⟨_, counter_hosts.gateAt hd pageFault.vector, ⟨rfl, rfl, rfl⟩, expEntry 14, _,
      mid, 0, hcode, hmid, rfl⟩
  obtain ⟨_, x, hx, hreport⟩ :=
    exception_reports counter_hosts counterStart_inv hrun pageFault _ hreach
  exact ⟨d, _, x, hrun, hreach, hx, hreport⟩

end Laws

end Rtv.Interrupt
