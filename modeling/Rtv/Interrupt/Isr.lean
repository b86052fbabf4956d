import Rtv.Interrupt.Idt
import Rtv.Lib.StackMachine

/-!
# Interrupt stubs

`isr.S` has a stub for each of the 256 vectors. It saves all registers on the stack it was entered
with, calls `exp_handler` up to vector 0x14 and `isr_handler` from there on, restores the registers
and returns. `exp_handler` is given the saved registers as an `hw_regs_t` and never returns.

The stubs run here on `Rtv.Lib.StackMachine`, entered through the table that `idt_init` has left in
memory. Of the two C functions only what a compiler owes its callers is assumed (`Abi`): the stack
pointer comes back, and of the memory above it only the data of the handlers changes. That the stubs
call them with the alignment they are owed is proved, for vectors without an error code.

What `exp_handler` reads is right exactly for the exceptions that push an error code: the others push
none, and no stub pushes one for them, so that every field from `error_code` on holds the next one
(`hwRegs_entry`).

**The laws** (in `Rtv.Interrupt.Invisible`): interrupts at any points of a program do not change what
it does, and an exception after them reports the registers that the program would have had without.
-/

namespace Rtv.Interrupt

open Rtv.Lib Rtv.Lib.StackMachine

/-! ## The code -/

/-- The registers that are saved. -/
inductive Reg where
  | rax | rbx | rcx | rdx | rbp | rsi | rdi | r8 | r9 | r10 | r11 | r12 | r13 | r14 | r15
deriving DecidableEq, Repr

/-- The functions that stubs call. -/
inductive Handler where
  | expHandler
  | isrHandler
deriving DecidableEq, Repr

/-- The code of stubs. -/
abbrev Code := List (Instr Reg Handler)

/-- `REG_SAVE`. -/
def regSave : Code :=
  [.pushq .rax, .pushq .rbx, .pushq .rcx, .pushq .rdx, .pushq .rbp, .pushq .rsi, .pushq .rdi,
    .pushq .r8, .pushq .r9, .pushq .r10, .pushq .r11, .pushq .r12, .pushq .r13, .pushq .r14,
    .pushq .r15]

/-- `REG_RESTORE`. -/
def regRestore : Code :=
  [.popq .r15, .popq .r14, .popq .r13, .popq .r12, .popq .r11, .popq .r10, .popq .r9, .popq .r8,
    .popq .rdi, .popq .rsi, .popq .rbp, .popq .rdx, .popq .rcx, .popq .rbx, .popq .rax]

/-- `EXP(n)` up to its call. -/
def expEntry (n : Nat) : Code := regSave ++ [.movRsp .rsi, .movImm (BitVec.ofNat 64 n) .rdi]

/-- `EXP(n)`. -/
def exp (n : Nat) : Code := expEntry n ++ [.call .expHandler] ++ regRestore ++ [.iretq]

/-- `INT(n)`. -/
def int (n : Nat) : Code :=
  regSave ++ [.movImm (BitVec.ofNat 64 n) .rdi, .call .isrHandler] ++ regRestore ++ [.iretq]

/-- The stub of a vector. -/
def isr (n : Nat) : Code := if n ≤ 0x14 then exp n else int n

/-- `hw_regs_t`. -/
structure HwRegs where
  r15 : BitVec 64
  r14 : BitVec 64
  r13 : BitVec 64
  r12 : BitVec 64
  r11 : BitVec 64
  r10 : BitVec 64
  r9 : BitVec 64
  r8 : BitVec 64
  rdi : BitVec 64
  rsi : BitVec 64
  rbp : BitVec 64
  rdx : BitVec 64
  rcx : BitVec 64
  rbx : BitVec 64
  rax : BitVec 64
  errorCode : BitVec 64
  rip : BitVec 64
  cs : BitVec 64
  rflags : BitVec 64
  rsp : BitVec 64
  ss : BitVec 64
deriving DecidableEq, Repr

/-- `*(hw_regs_t *) p`. -/
def HwRegs.load (m : Bytes) (p : Nat) : HwRegs where
  r15 := m.quad p
  r14 := m.quad (p + 8)
  r13 := m.quad (p + 16)
  r12 := m.quad (p + 24)
  r11 := m.quad (p + 32)
  r10 := m.quad (p + 40)
  r9 := m.quad (p + 48)
  r8 := m.quad (p + 56)
  rdi := m.quad (p + 64)
  rsi := m.quad (p + 72)
  rbp := m.quad (p + 80)
  rdx := m.quad (p + 88)
  rcx := m.quad (p + 96)
  rbx := m.quad (p + 104)
  rax := m.quad (p + 112)
  errorCode := m.quad (p + 120)
  rip := m.quad (p + 128)
  cs := m.quad (p + 136)
  rflags := m.quad (p + 144)
  rsp := m.quad (p + 152)
  ss := m.quad (p + 160)

/-! ## The stubs bracket -/

/-- The saved registers in the order in which they are saved. -/
def savedRegs : List Reg :=
  [.rax, .rbx, .rcx, .rdx, .rbp, .rsi, .rdi, .r8, .r9, .r10, .r11, .r12, .r13, .r14, .r15]

/-- No register is forgotten. -/
theorem mem_savedRegs (r : Reg) : r ∈ savedRegs := by
  cases r <;> decide

/-- What a stub restores is what it saved, in the reverse order. -/
theorem int_eq (n : Nat) :
    int n = saved savedRegs [.movImm (BitVec.ofNat 64 n) .rdi, .call .isrHandler] ++ [.iretq] := rfl

/-- What a compiler owes the callers of the two functions, with `need` bytes of stack: one never
returns, and the other returns with the stack pointer above its return address and without having
changed any memory but its stack and its data. It may rely on the alignment at its entry. -/
structure Abi (callee : Handler → Cpu Reg → Cpu Reg → Prop) (area : Area) (need : Nat) : Prop where
  stops : ∀ c d, ¬ callee .expHandler c d
  returns : ∀ c d, area.low + need ≤ c.rsp.toNat → c.rsp.toNat + 8 ≤ area.high →
    (c.rsp.toNat + 8) % 16 = 0 → callee .isrHandler c d →
    d.rsp = c.rsp + 8 ∧ ∀ a, ¬ area.Private (c.rsp.toNat + 8) a → d.mem a = c.mem a

section Stub

variable {callee : Handler → Cpu Reg → Cpu Reg → Prop} {area : Area} {need n : Nat}

/-- The call of `isr_handler`. -/
theorem call_brackets (h : Abi callee area need) :
    Brackets callee area (fun sp => area.low + need + 8 ≤ sp ∧ sp % 16 = 0) (fun _ => False)
      [.movImm (BitVec.ofNat 64 n) .rdi, .call .isrHandler] := by
  rintro c d ⟨hlow, halign⟩ hhigh hrun
  obtain ⟨c₁, hmov, hrest⟩ := hrun.of_cons
  obtain ⟨c₂, hcall, hnil⟩ := hrest.of_cons
  cases hnil.of_nil
  cases exec_plain hmov rfl
  cases hcall with
  | plain hno => cases hno
  | call ret hcall =>
    have hsp : (c.push ret).rsp.toNat = c.rsp.toNat - 8 := push_rsp (by omega)
    obtain ⟨hrsp, hmem⟩ := h.returns _ d (hsp.symm ▸ (by omega)) (hsp.symm ▸ (by omega))
      (hsp.symm ▸ (by omega)) hcall
    refine ⟨hrsp.trans (BitVec.sub_add_cancel c.rsp 8), nofun, ?_⟩
    intro a ha
    have hback : (c.push ret).rsp.toNat + 8 = c.rsp.toNat := by omega
    have hout : a < c.rsp.toNat - 8 ∨ c.rsp.toNat ≤ a := by
      by_contra hin
      exact ha (.inr (by omega))
    have hpush : (c.push ret).mem a = c.mem a := push_mem (by omega) hout
    refine (hmem a ?_).trans hpush
    intro hprivate
    exact ha (hback ▸ hprivate)

/-- A stub without its return. -/
theorem int_brackets (h : Abi callee area need) :
    Brackets callee area (fun sp => area.low + need + 128 ≤ sp ∧ (sp - 120) % 16 = 0) (fun _ => True)
      (saved savedRegs [.movImm (BitVec.ofNat 64 n) .rdi, .call .isrHandler]) := by
  apply ((call_brackets h).wrapAll savedRegs).mono
  · rintro sp ⟨hlow, halign⟩
    change area.low + 120 ≤ sp ∧ area.low + need + 8 ≤ sp - 120 ∧ (sp - 120) % 16 = 0
    omega
  · intro r _
    exact .inl (mem_savedRegs r)

/-- No stub of an exception returns. -/
theorem exp_stops (h : Abi callee area need) {c d : Cpu Reg} : ¬ Runs (Exec callee) c (exp n) d := by
  intro hrun
  rw [exp, List.append_assoc, List.append_assoc] at hrun
  obtain ⟨c₁, _, hrest⟩ := hrun.of_append
  obtain ⟨c₂, hcall, _⟩ := hrest.of_cons
  cases hcall with
  | plain hno => cases hno
  | call ret hcall => exact h.stops _ _ hcall

end Stub

/-! ## What an exception reports -/

/-- What `exp_handler` should be given for an exception with an error code. -/
def report (c : Cpu Reg) (error : BitVec 64) : HwRegs where
  r15 := c.reg .r15
  r14 := c.reg .r14
  r13 := c.reg .r13
  r12 := c.reg .r12
  r11 := c.reg .r11
  r10 := c.reg .r10
  r9 := c.reg .r9
  r8 := c.reg .r8
  rdi := c.reg .rdi
  rsi := c.reg .rsi
  rbp := c.reg .rbp
  rdx := c.reg .rdx
  rcx := c.reg .rcx
  rbx := c.reg .rbx
  rax := c.reg .rax
  errorCode := error
  rip := c.rip
  cs := c.cs.setWidth 64
  rflags := c.rflags
  rsp := c.rsp
  ss := c.ss.setWidth 64

/-- What it is given where there is none: each field of the frame has the next one, and the last has
the word that the stack is aligned to. -/
def reportShifted (c : Cpu Reg) : HwRegs :=
  { report c c.rip with
    rip := c.cs.setWidth 64
    cs := c.rflags
    rflags := c.rsp
    rsp := c.ss.setWidth 64
    ss := c.mem.quad (c.rsp.toNat / 16 * 16) }

/-- What it is given. -/
def reported (c : Cpu Reg) : Option (BitVec 64) → HwRegs
  | some error => report c error
  | none => reportShifted c

/-- The bytes of stack from the alignment down to the saved registers. -/
def expDepth (error : Option (BitVec 64)) : Nat := 8 * (5 + error.toList.length) + 120

/-- `exp_handler` is entered in the state `d` for an exception in the state `c`. -/
def EntersExp (callee : Handler → Cpu Reg → Cpu Reg → Prop) (c : Cpu Reg) (gate : Gate) (n : Nat)
    (error : Option (BitVec 64)) (d : Cpu Reg) : Prop :=
  ∃ before ret, Runs (Exec callee) (c.deliver gate.offset gate.selector error) (expEntry n) before ∧
    d = before.push ret

section Report

variable {callee : Handler → Cpu Reg → Cpu Reg → Prop} {c d : Cpu Reg} {gate : Gate} {n : Nat}
  {error : Option (BitVec 64)}

/-- The state at the entry. -/
structure AtEntry (c : Cpu Reg) (n : Nat) (error : Option (BitVec 64)) (d : Cpu Reg) : Prop where
  irq : d.reg .rdi = BitVec.ofNat 64 n
  regs : (d.reg .rsi).toNat = c.rsp.toNat / 16 * 16 - expDepth error
  saved : ∀ {i : Nat} {v : BitVec 64}, (savedRegs.map c.reg)[i]? = some v →
    d.mem.quad ((d.reg .rsi).toNat + 8 * (14 - i)) = v
  frame : ∀ {i : Nat} {v : BitVec 64}, (c.frame ++ error.toList)[i]? = some v →
    d.mem.quad (c.rsp.toNat / 16 * 16 - 8 * (i + 1)) = v
  above : ∀ a, c.rsp.toNat / 16 * 16 ≤ a → d.mem a = c.mem a

theorem atEntry (hroom : expDepth error + 8 ≤ c.rsp.toNat / 16 * 16)
    (h : EntersExp callee c gate n error d) : AtEntry c n error d := by
  obtain ⟨before, ret, hrun, hd⟩ := h
  rw [expDepth] at hroom
  obtain ⟨c₁, hsave, hrest⟩ := hrun.of_append
  obtain ⟨c₂, hstep, hrest⟩ := hrest.of_cons
  obtain ⟨c₃, hstep', hnil⟩ := hrest.of_cons
  cases hnil.of_nil
  have hc₁ : c₁ = (c.deliver gate.offset gate.selector error).pushAll (savedRegs.map c.reg) := by
    have hpushes : Runs (Exec callee) _ (savedRegs.map .pushq) c₁ := hsave
    rw [runs_pushes hpushes, deliver_reg]
  have hc₂ : c₂ = { c₁ with reg := Function.update c₁.reg .rsi c₁.rsp } := exec_plain hstep rfl
  have hbefore : before =
      { c₂ with reg := Function.update c₂.reg .rdi (BitVec.ofNat 64 n) } := exec_plain hstep' rfl
  have hbeforeRsp : before.rsp = c₁.rsp := by rw [hbefore, hc₂]
  have hbeforeMem : before.mem = c₁.mem := by rw [hbefore, hc₂]
  -- where the stack pointer is
  have hframe : 8 * (5 + error.toList.length) ≤ c.rsp.toNat / 16 * 16 := by omega
  have hin : (c.deliver gate.offset gate.selector error).rsp.toNat =
      c.rsp.toNat / 16 * 16 - 8 * (5 + error.toList.length) := deliver_rsp hframe
  have hlen : 8 * (savedRegs.map c.reg).length = 120 := rfl
  have hfits : 8 * (savedRegs.map c.reg).length ≤
      (c.deliver gate.offset gate.selector error).rsp.toNat := by omega
  have hsp : c₁.rsp.toNat =
      (c.deliver gate.offset gate.selector error).rsp.toNat - 120 := by
    rw [hc₁, pushAll_rsp hfits, hlen]
  have hrsi : d.reg .rsi = c₁.rsp := by
    rw [hd, hbefore, hc₂]
    rfl
  -- the return address is below the saved registers, and they are below the frame
  have hlast : ∀ a, c₁.rsp.toNat ≤ a → d.mem a = c₁.mem a := by
    intro a ha
    rw [hd, push_mem (by rw [hbeforeRsp]; omega) (.inr (by rw [hbeforeRsp]; exact ha)), hbeforeMem]
  have hover : ∀ a, (c.deliver gate.offset gate.selector error).rsp.toNat ≤ a →
      d.mem a = (c.deliver gate.offset gate.selector error).mem a := by
    intro a ha
    rw [hlast a (by omega), hc₁]
    exact pushAll_mem hfits (.inr ha)
  constructor
  · rw [hd, hbefore]
    rfl
  · rw [hrsi, hsp, hin, expDepth]
    omega
  · intro i v hi
    have hi' : i < 15 := (List.getElem?_eq_some_iff.mp hi).1
    have hat : (d.reg .rsi).toNat + 8 * (14 - i) =
        (c.deliver gate.offset gate.selector error).rsp.toNat - 8 * (i + 1) := by
      rw [hrsi, hsp]
      omega
    have hkeep : d.mem.quad ((d.reg .rsi).toNat + 8 * (14 - i)) =
        c₁.mem.quad ((d.reg .rsi).toNat + 8 * (14 - i)) := by
      apply Bytes.quad_congr
      intro x hlo _
      rw [hrsi] at hlo
      exact hlast x (by omega)
    rw [hkeep, hat, hc₁]
    exact pushAll_quad hfits hi
  · intro i v hi
    have hi' : i < 5 + error.toList.length := by
      rw [← frame_length (c := c)]
      exact (List.getElem?_eq_some_iff.mp hi).1
    have hkeep : d.mem.quad (c.rsp.toNat / 16 * 16 - 8 * (i + 1)) =
        (c.deliver gate.offset gate.selector error).mem.quad (c.rsp.toNat / 16 * 16 - 8 * (i + 1)) := by
      apply Bytes.quad_congr
      intro x hlo _
      exact hover x (by omega)
    rw [hkeep]
    exact deliver_quad hframe hi
  · intro a ha
    rw [hover a (by omega)]
    exact deliver_mem hframe (.inr ha)

/-- The saved registers are right in any case. -/
theorem AtEntry.load (h : AtEntry c n error d) :
    HwRegs.load d.mem (d.reg .rsi).toNat =
      let p := (d.reg .rsi).toNat
      { report c (d.mem.quad (p + 120)) with
        rip := d.mem.quad (p + 128)
        cs := d.mem.quad (p + 136)
        rflags := d.mem.quad (p + 144)
        rsp := d.mem.quad (p + 152)
        ss := d.mem.quad (p + 160) } := by
  simp only [HwRegs.load, report, HwRegs.mk.injEq, and_true]
  exact ⟨h.saved (i := 14) rfl, h.saved (i := 13) rfl, h.saved (i := 12) rfl, h.saved (i := 11) rfl,
    h.saved (i := 10) rfl, h.saved (i := 9) rfl, h.saved (i := 8) rfl, h.saved (i := 7) rfl,
    h.saved (i := 6) rfl, h.saved (i := 5) rfl, h.saved (i := 4) rfl, h.saved (i := 3) rfl,
    h.saved (i := 2) rfl, h.saved (i := 1) rfl, h.saved (i := 0) rfl⟩

/-- **What `exp_handler` is given.** -/
theorem hwRegs_entry (hroom : expDepth error + 8 ≤ c.rsp.toNat / 16 * 16)
    (h : EntersExp callee c gate n error d) :
    HwRegs.load d.mem (d.reg .rsi).toNat = reported c error := by
  have hentry : AtEntry c n error d := atEntry hroom h
  have hat := hentry.regs
  rw [expDepth] at hroom hat
  -- the words of the frame, from its end
  have hframe : ∀ (j : Nat) {v : BitVec 64}, j < 5 + error.toList.length →
      (c.frame ++ error.toList)[4 + error.toList.length - j]? = some v →
      d.mem.quad ((d.reg .rsi).toNat + (120 + 8 * j)) = v := by
    intro j v hj hv
    have hback : (d.reg .rsi).toNat + (120 + 8 * j) =
        c.rsp.toNat / 16 * 16 - 8 * (4 + error.toList.length - j + 1) := by omega
    rw [hback]
    exact hentry.frame hv
  rw [hentry.load]
  cases error with
  | none =>
    have hlast : d.mem.quad ((d.reg .rsi).toNat + 160) = c.mem.quad (c.rsp.toNat / 16 * 16) := by
      have hback : (d.reg .rsi).toNat + 160 = c.rsp.toNat / 16 * 16 := by
        change (d.reg .rsi).toNat = c.rsp.toNat / 16 * 16 - 160 at hat
        change 160 + 8 ≤ c.rsp.toNat / 16 * 16 at hroom
        omega
      rw [hback]
      apply Bytes.quad_congr
      intro x hlo _
      exact hentry.above x hlo
    simp only [report, reported, reportShifted, HwRegs.mk.injEq, true_and]
    exact ⟨hframe 0 (by decide) rfl, hframe 1 (by decide) rfl, hframe 2 (by decide) rfl,
      hframe 3 (by decide) rfl, hframe 4 (by decide) rfl, hlast⟩
  | some e =>
    have hlen : ∀ j, j < 6 → j < 5 + (some e).toList.length := fun _ hj => hj
    simp only [report, reported, HwRegs.mk.injEq, true_and]
    exact ⟨hframe 0 (hlen 0 (by decide)) rfl, hframe 1 (hlen 1 (by decide)) rfl,
      hframe 2 (hlen 2 (by decide)) rfl, hframe 3 (hlen 3 (by decide)) rfl,
      hframe 4 (hlen 4 (by decide)) rfl, hframe 5 (hlen 5 (by decide)) rfl⟩

end Report

end Rtv.Interrupt
