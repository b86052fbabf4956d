import Mathlib.Logic.Function.Basic
import Rtv.Lib.Bytes
import Rtv.Lib.Runs

/-!
# A machine with a stack in memory

A 64-bit processor with some registers, a stack that grows down in byte memory, interrupts that push
a frame and a return from them that pops it. The registers and the names of the functions it calls
are parameters.

`Brackets` says of straight-line code that it leaves the stack pointer, some registers and the memory
of others alone. Saving a register in front of such code and restoring it behind adds it to the
registers that are left alone (`Brackets.wrap`), and so for a list of them (`Brackets.wrapAll`).

**The law** (`invisible`): if every handler brackets all registers, then whatever a program does with
interrupts at any points it also does without them, as far as it can tell.
-/

namespace Rtv.Lib

/-! ## Words of memory -/

/-- The 8 bytes at an address. -/
def Bytes.quad (m : Bytes) (a : Nat) : BitVec 64 := BitVec.ofNat 64 (m.loadLE a 8)

namespace Bytes

variable {m m' : Bytes} {a b : Nat} {v : BitVec 64}

theorem quad_congr (h : ∀ x, a ≤ x → x < a + 8 → m' x = m x) : m'.quad a = m.quad a :=
  congrArg (BitVec.ofNat 64) (loadLE_congr h)

theorem quad_store : (m.storeLE a 8 v.toNat).quad a = v := by
  rw [quad, loadLE_storeLE_same, Nat.mod_eq_of_lt v.isLt, BitVec.ofNat_toNat, BitVec.setWidth_eq]

end Bytes

namespace StackMachine

/-! ## The machine -/

/-- A processor with its memory. -/
structure Cpu (ρ : Type*) where
  reg : ρ → BitVec 64
  rsp : BitVec 64
  rip : BitVec 64
  cs : BitVec 16
  ss : BitVec 16
  rflags : BitVec 64
  mem : Bytes

/-- The instructions of a handler; a source operand is first. -/
inductive Instr (ρ κ : Type*) where
  | pushq (r : ρ)
  | popq (r : ρ)
  | movRsp (r : ρ)
  | movImm (n : BitVec 64) (r : ρ)
  | call (f : κ)
  | iretq
deriving DecidableEq, Repr

variable {ρ κ : Type*}

def Instr.isCall : Instr ρ κ → Bool
  | .call _ => true
  | _ => false

namespace Cpu

variable (c : Cpu ρ)

def push (v : BitVec 64) : Cpu ρ :=
  let rsp := c.rsp - 8
  { c with rsp, mem := c.mem.storeLE rsp.toNat 8 v.toNat }

/-- The words pushed one after the other. -/
def pushAll : List (BitVec 64) → Cpu ρ := List.foldl push c

/-- The word on top of the stack. -/
def top : BitVec 64 := c.mem.quad c.rsp.toNat

def iret : Cpu ρ :=
  let sp := c.rsp.toNat
  { c with
    rip := c.mem.quad sp
    cs := (c.mem.quad (sp + 8)).setWidth 16
    rflags := c.mem.quad (sp + 16)
    rsp := c.mem.quad (sp + 24)
    ss := (c.mem.quad (sp + 32)).setWidth 16 }

/-- The interrupt flag, the trap flag, nested task and resume. -/
def maskedFlags : BitVec 64 := 0x14300#64

def resumeFlag : BitVec 64 := 0x10000#64

/-- The processor as a fault pushes it: with the resume flag, so that the instruction can be tried
again in spite of a breakpoint on it. -/
def faulted : Cpu ρ := { c with rflags := c.rflags ||| resumeFlag }

/-- What an interrupt pushes, the last on top. -/
def frame : List (BitVec 64) :=
  [c.ss.setWidth 64, c.rsp, c.rflags, c.cs.setWidth 64, c.rip]

/-- The delivery of an interrupt through a gate, without a change of privilege: the stack pointer is
aligned, and some exceptions push an error code last. A fault is delivered to `c.faulted`. -/
def deliver (offset : BitVec 64) (selector : BitVec 16) (error : Option (BitVec 64)) : Cpu ρ :=
  let aligned := { c with rsp := c.rsp &&& 0xFFFFFFFFFFFFFFF0#64 }
  { aligned.pushAll (c.frame ++ error.toList) with
    rip := offset
    cs := selector
    rflags := c.rflags &&& ~~~maskedFlags }

/-- An instruction other than a call. The instruction pointer of straight-line code is its place in
the list. -/
def exec [DecidableEq ρ] : Instr ρ κ → Cpu ρ
  | .pushq r => c.push (c.reg r)
  | .popq r => { c with reg := Function.update c.reg r c.top, rsp := c.rsp + 8 }
  | .movRsp r => { c with reg := Function.update c.reg r c.rsp }
  | .movImm n r => { c with reg := Function.update c.reg r n }
  | .call _ => c
  | .iretq => c.iret

end Cpu

/-- The steps, for what the functions do between their entry and their return. -/
inductive Exec [DecidableEq ρ] (callee : κ → Cpu ρ → Cpu ρ → Prop) : Cpu ρ → Instr ρ κ → Cpu ρ → Prop
  | plain {c : Cpu ρ} {i : Instr ρ κ} (h : i.isCall = false) : Exec callee c i (c.exec i)
  | call {c d : Cpu ρ} {f : κ} (ret : BitVec 64) (h : callee f (c.push ret) d) :
      Exec callee c (.call f) d

/-! ## Pushing -/

section Push

variable {c : Cpu ρ} {v : BitVec 64} {vs : List (BitVec 64)}

theorem push_rsp (h : 8 ≤ c.rsp.toNat) : (c.push v).rsp.toNat = c.rsp.toNat - 8 := by
  have hle : 8#64 ≤ c.rsp := h
  exact BitVec.toNat_sub_of_le hle

theorem push_top : (c.push v).top = v := Bytes.quad_store

theorem push_mem (h : 8 ≤ c.rsp.toNat) {a : Nat} (ha : a < c.rsp.toNat - 8 ∨ c.rsp.toNat ≤ a) :
    (c.push v).mem a = c.mem a := by
  have hsp : (c.rsp - 8).toNat = c.rsp.toNat - 8 := push_rsp (v := v) h
  apply Bytes.storeLE_outside
  rw [hsp]
  omega

@[simp] theorem pushAll_nil : c.pushAll [] = c := rfl

@[simp] theorem pushAll_cons : c.pushAll (v :: vs) = (c.push v).pushAll vs := rfl

@[simp] theorem pushAll_reg : (c.pushAll vs).reg = c.reg := by
  induction vs generalizing c with
  | nil => rfl
  | cons v vs ih => exact ih

theorem pushAll_rsp (h : 8 * vs.length ≤ c.rsp.toNat) :
    (c.pushAll vs).rsp.toNat = c.rsp.toNat - 8 * vs.length := by
  induction vs generalizing c with
  | nil => rfl
  | cons v vs ih =>
    rw [List.length_cons] at h ⊢
    have hsp : (c.push v).rsp.toNat = c.rsp.toNat - 8 := push_rsp (by omega)
    rw [pushAll_cons, ih (by omega), hsp]
    omega

theorem pushAll_mem (h : 8 * vs.length ≤ c.rsp.toNat) {a : Nat}
    (ha : a < c.rsp.toNat - 8 * vs.length ∨ c.rsp.toNat ≤ a) : (c.pushAll vs).mem a = c.mem a := by
  induction vs generalizing c with
  | nil => rfl
  | cons v vs ih =>
    rw [List.length_cons] at h ha
    have hsp : (c.push v).rsp.toNat = c.rsp.toNat - 8 := push_rsp (by omega)
    rw [pushAll_cons, ih (by omega) (by omega), push_mem (by omega) (by omega)]

/-- A word that was pushed. -/
theorem pushAll_quad (h : 8 * vs.length ≤ c.rsp.toNat) {i : Nat} (hi : vs[i]? = some v) :
    (c.pushAll vs).mem.quad (c.rsp.toNat - 8 * (i + 1)) = v := by
  induction vs generalizing c i with
  | nil => cases hi
  | cons w vs ih =>
    rw [List.length_cons] at h
    have hsp : (c.push w).rsp.toNat = c.rsp.toNat - 8 := push_rsp (by omega)
    cases i with
    | zero =>
      cases hi
      have hquad : ((c.push v).pushAll vs).mem.quad (c.rsp.toNat - 8) =
          (c.push v).mem.quad (c.rsp.toNat - 8) := by
        apply Bytes.quad_congr
        intro x hlo hhi
        exact pushAll_mem (by omega) (by omega)
      rw [pushAll_cons, Nat.zero_add, Nat.mul_one, hquad, ← hsp]
      exact push_top
    | succ i =>
      have hat : c.rsp.toNat - 8 * (i + 1 + 1) = (c.push w).rsp.toNat - 8 * (i + 1) := by omega
      rw [pushAll_cons, hat]
      exact ih (by omega) hi

end Push

/-! ## Delivery -/

theorem toNat_aligned (x : BitVec 64) :
    (x &&& 0xFFFFFFFFFFFFFFF0#64).toNat = x.toNat / 16 * 16 := by
  have hmask : 0xFFFFFFFFFFFFFFF0#64 = BitVec.allOnes 64 <<< 4 := rfl
  have hshift : x &&& 0xFFFFFFFFFFFFFFF0#64 = (x >>> 4) <<< 4 := by
    refine BitVec.eq_of_getLsbD_eq fun j hj => ?_
    rw [hmask, BitVec.getLsbD_and, BitVec.getLsbD_shiftLeft, BitVec.getLsbD_shiftLeft,
      BitVec.getLsbD_allOnes, BitVec.getLsbD_ushiftRight]
    by_cases hlow : j < 4
    · simp only [hlow, decide_true, Bool.not_true, Bool.and_false, Bool.false_and]
    · have hback : 4 + (j - 4) = j := by omega
      have hin : j - 4 < 64 := by omega
      simp only [hj, hlow, hin, hback, decide_true, decide_false, Bool.not_false, Bool.true_and,
        Bool.and_true]
  have hlt := x.isLt
  rw [hshift, BitVec.toNat_shiftLeft, BitVec.toNat_ushiftRight, Nat.shiftRight_eq_div_pow,
    Nat.shiftLeft_eq]
  omega

section Deliver

variable {c : Cpu ρ} {offset : BitVec 64} {selector : BitVec 16} {error : Option (BitVec 64)}

theorem frame_length : (c.frame ++ error.toList).length = 5 + error.toList.length :=
  List.length_append

section Room

variable (h : 8 * (5 + error.toList.length) ≤ c.rsp.toNat / 16 * 16)

include h

theorem frame_fits : 8 * (c.frame ++ error.toList).length ≤
    (c.rsp &&& 0xFFFFFFFFFFFFFFF0#64).toNat := by
  rw [frame_length, toNat_aligned]
  exact h

/-- The stack pointer of a handler. -/
theorem deliver_rsp : (c.deliver offset selector error).rsp.toNat =
    c.rsp.toNat / 16 * 16 - 8 * (5 + error.toList.length) := by
  rw [← toNat_aligned, ← frame_length]
  exact pushAll_rsp (frame_fits h)

theorem deliver_mem {a : Nat}
    (ha : a < c.rsp.toNat / 16 * 16 - 8 * (5 + error.toList.length) ∨ c.rsp.toNat / 16 * 16 ≤ a) :
    (c.deliver offset selector error).mem a = c.mem a := by
  apply pushAll_mem (frame_fits h)
  rw [frame_length, toNat_aligned]
  exact ha

/-- A word of the frame. -/
theorem deliver_quad {i : Nat} {v : BitVec 64} (hi : (c.frame ++ error.toList)[i]? = some v) :
    (c.deliver offset selector error).mem.quad (c.rsp.toNat / 16 * 16 - 8 * (i + 1)) = v := by
  rw [← toNat_aligned]
  exact pushAll_quad (frame_fits h) hi

end Room

theorem deliver_reg : (c.deliver offset selector error).reg = c.reg := pushAll_reg

end Deliver

/-! ## Code that brackets -/

/-- A stack, from `low` to `high`, and data of the handlers elsewhere. -/
structure Area where
  low : Nat
  high : Nat
  data : Nat → Prop
  apart : ∀ a, data a → a < low ∨ high ≤ a

/-- The memory of a handler that starts with the stack pointer `sp`. -/
def Area.Private (s : Area) (sp a : Nat) : Prop := s.data a ∨ (s.low ≤ a ∧ a < sp)

/-- Code between saving the registers and restoring them in the reverse order. -/
def saved (rs : List ρ) (code : List (Instr ρ κ)) : List (Instr ρ κ) :=
  rs.map .pushq ++ (code ++ rs.reverse.map .popq)

theorem saved_cons (r : ρ) (rs : List ρ) (code : List (Instr ρ κ)) :
    saved (r :: rs) code = .pushq r :: (saved rs code ++ [.popq r]) := by
  simp only [saved, List.map_cons, List.reverse_cons, List.map_append, List.map_nil,
    List.cons_append, List.append_assoc]

section Bracket

variable [DecidableEq ρ] {callee : κ → Cpu ρ → Cpu ρ → Prop} {area : Area}

/-- From a stack pointer with `P`, the code returns with the stack pointer, the registers with `S`
and the memory that is not private as they were. -/
def Brackets (callee : κ → Cpu ρ → Cpu ρ → Prop) (area : Area) (P : Nat → Prop) (S : ρ → Prop)
    (code : List (Instr ρ κ)) : Prop :=
  ∀ c d, P c.rsp.toNat → c.rsp.toNat ≤ area.high → Runs (Exec callee) c code d →
    d.rsp = c.rsp ∧ (∀ r, S r → d.reg r = c.reg r) ∧
      ∀ a, ¬ area.Private c.rsp.toNat a → d.mem a = c.mem a

/-- What an instruction that is no call does. -/
theorem exec_plain {c d : Cpu ρ} {i : Instr ρ κ} (h : Exec callee c i d) (hi : i.isCall = false) :
    d = c.exec i := by
  cases h with
  | plain _ => rfl
  | call _ _ => cases hi

/-- Code without calls runs. -/
theorem exists_runs (c : Cpu ρ) {code : List (Instr ρ κ)} (h : code.any Instr.isCall = false) :
    ∃ d, Runs (Exec callee) c code d := by
  induction code generalizing c with
  | nil => exact ⟨c, .nil⟩
  | cons i code ih =>
    rw [List.any_cons, Bool.or_eq_false_iff] at h
    obtain ⟨d, hrun⟩ := ih (c.exec i) h.2
    exact ⟨d, .cons (.plain h.1) hrun⟩

/-- Pushes of registers. -/
theorem runs_pushes {rs : List ρ} {c d : Cpu ρ} (h : Runs (Exec callee) c (rs.map .pushq) d) :
    d = c.pushAll (rs.map c.reg) := by
  induction rs generalizing c with
  | nil => exact h.of_nil.symm
  | cons r rs ih =>
    obtain ⟨c₁, hpush, hrest⟩ := h.of_cons
    cases exec_plain hpush rfl
    exact ih hrest

variable {P : Nat → Prop} {S : ρ → Prop} {code : List (Instr ρ κ)}

/-- Saving a register in front of the code and restoring it behind. -/
theorem Brackets.wrap (h : Brackets callee area P S code) (r : ρ) :
    Brackets callee area (fun sp => area.low + 8 ≤ sp ∧ P (sp - 8)) (fun x => x = r ∨ S x)
      (.pushq r :: (code ++ [.popq r])) := by
  rintro c d ⟨hlow, hP⟩ hhigh hrun
  obtain ⟨c₁, hpush, hrest⟩ := hrun.of_cons
  obtain ⟨c₂, hcode, hlast⟩ := hrest.of_append
  obtain ⟨c₃, hpop, hnil⟩ := hlast.of_cons
  cases hnil.of_nil
  cases exec_plain hpush rfl
  cases exec_plain hpop rfl
  have hsp : (c.push (c.reg r)).rsp.toNat = c.rsp.toNat - 8 := push_rsp (by omega)
  have hin : P (c.push (c.reg r)).rsp.toNat := hsp.symm ▸ hP
  obtain ⟨hrsp, hreg, hmem⟩ := h _ c₂ hin (by omega) hcode
  -- the word that was pushed is above the stack pointer of the code
  have htop : c₂.top = c.reg r := by
    have hkeep : c₂.mem.quad (c.push (c.reg r)).rsp.toNat =
        (c.push (c.reg r)).mem.quad (c.push (c.reg r)).rsp.toNat := by
      apply Bytes.quad_congr
      intro x hlo hhi
      apply hmem
      rintro (hdata | ⟨_, hbelow⟩)
      · rcases area.apart x hdata with hx | hx <;> omega
      · exact absurd hlo (not_le.mpr hbelow)
    rw [Cpu.top, hrsp]
    exact hkeep.trans push_top
  refine ⟨?_, ?_, ?_⟩
  · rw [Cpu.exec, hrsp]
    exact BitVec.sub_add_cancel c.rsp 8
  · rintro x (rfl | hx)
    · exact (Function.update_self x _ _).trans htop
    · by_cases hxr : x = r
      · subst hxr
        exact (Function.update_self x _ _).trans htop
      · exact (Function.update_of_ne hxr _ _).trans (hreg x hx)
  · intro a ha
    have hinner : ¬ area.Private (c.push (c.reg r)).rsp.toNat a := by
      rintro (hdata | ⟨hlo, hhi⟩)
      · exact ha (.inl hdata)
      · exact ha (.inr ⟨hlo, by omega⟩)
    have hout : a < c.rsp.toNat - 8 ∨ c.rsp.toNat ≤ a := by
      by_contra hin
      exact ha (.inr (by omega))
    exact (hmem a hinner).trans (push_mem (by omega) hout)

theorem Brackets.mono {P' : Nat → Prop} {S' : ρ → Prop} (h : Brackets callee area P S code)
    (hP : ∀ sp, P' sp → P sp) (hS : ∀ r, S' r → S r) : Brackets callee area P' S' code := by
  intro c d hpre hhigh hrun
  obtain ⟨hrsp, hreg, hmem⟩ := h c d (hP _ hpre) hhigh hrun
  exact ⟨hrsp, fun r hr => hreg r (hS r hr), hmem⟩

/-- Saving registers in front of the code and restoring them behind. -/
theorem Brackets.wrapAll (h : Brackets callee area P S code) (rs : List ρ) :
    Brackets callee area (fun sp => area.low + 8 * rs.length ≤ sp ∧ P (sp - 8 * rs.length))
      (fun x => x ∈ rs ∨ S x) (saved rs code) := by
  induction rs with
  | nil =>
    have hcode : saved [] code = code := List.append_nil code
    rw [hcode]
    apply h.mono
    · rintro sp ⟨_, hP⟩
      exact hP
    · rintro r (hr | hr)
      · cases hr
      · exact hr
  | cons r rs ih =>
    rw [saved_cons]
    apply (ih.wrap r).mono
    · rintro sp ⟨hlow, hP⟩
      rw [List.length_cons] at hlow hP
      have hsub : sp - 8 - 8 * rs.length = sp - 8 * (rs.length + 1) := by omega
      exact ⟨by omega, by omega, hsub ▸ hP⟩
    · rintro x (hx | hx)
      · rcases List.mem_cons.mp hx with hhead | htail
        · exact .inl hhead
        · exact .inr (.inl htail)
      · exact .inr (.inr hx)

end Bracket

/-! ## An interrupt -/

/-- The states differ in nothing but private memory. -/
structure SameBut (area : Area) (c d : Cpu ρ) : Prop where
  reg : d.reg = c.reg
  rsp : d.rsp = c.rsp
  rip : d.rip = c.rip
  cs : d.cs = c.cs
  ss : d.ss = c.ss
  rflags : d.rflags = c.rflags
  mem : ∀ a, ¬ area.Private c.rsp.toNat a → d.mem a = c.mem a

section Interrupt

variable [DecidableEq ρ] {callee : κ → Cpu ρ → Cpu ρ → Prop} {area : Area} {P : Nat → Prop}
  {code : List (Instr ρ κ)} {c d : Cpu ρ} {offset : BitVec 64} {selector : BitVec 16}

/-- **A handler that brackets all registers returns to where it was called from.** -/
theorem interrupt_same (h : Brackets callee area P (fun _ => True) code)
    (hlow : area.low + 40 ≤ c.rsp.toNat / 16 * 16) (hhigh : c.rsp.toNat ≤ area.high)
    (hP : P (c.rsp.toNat / 16 * 16 - 40))
    (hrun : Runs (Exec callee) (c.deliver offset selector none) (code ++ [.iretq]) d) :
    SameBut area c d := by
  obtain ⟨c₁, hcode, hlast⟩ := hrun.of_append
  obtain ⟨c₂, hiret, hnil⟩ := hlast.of_cons
  cases hnil.of_nil
  cases exec_plain hiret rfl
  have hroom : 8 * (5 + (none : Option (BitVec 64)).toList.length) ≤ c.rsp.toNat / 16 * 16 := by
    change 8 * (5 + 0) ≤ _
    omega
  have hsp : (c.deliver offset selector none).rsp.toNat = c.rsp.toNat / 16 * 16 - 40 :=
    deliver_rsp hroom
  obtain ⟨hrsp, hreg, hmem⟩ := h _ c₁ (hsp.symm ▸ hP) (by omega) hcode
  -- the frame is above the stack pointer of the handler
  have hquad : ∀ {i : Nat} {v : BitVec 64}, i < 5 → c.frame[i]? = some v →
      c₁.mem.quad (c₁.rsp.toNat + (32 - 8 * i)) = v := by
    intro i v hi hv
    have hv' : (c.frame ++ (none : Option (BitVec 64)).toList)[i]? = some v := by
      rw [Option.toList_none, List.append_nil]
      exact hv
    have hat : c₁.rsp.toNat + (32 - 8 * i) = c.rsp.toNat / 16 * 16 - 8 * (i + 1) := by
      rw [hrsp, hsp]
      omega
    have hkeep : c₁.mem.quad (c₁.rsp.toNat + (32 - 8 * i)) =
        (c.deliver offset selector none).mem.quad (c₁.rsp.toNat + (32 - 8 * i)) := by
      apply Bytes.quad_congr
      intro x hlo hhi
      apply hmem
      rintro (hdata | ⟨_, hbelow⟩)
      · rcases area.apart x hdata with hx | hx <;> omega
      · rw [hrsp] at hlo
        omega
    rw [hkeep, hat]
    exact deliver_quad hroom hv'
  refine ⟨?_, ?_, ?_, ?_, ?_, ?_, ?_⟩
  · funext r
    exact (hreg r trivial).trans (congrFun deliver_reg r)
  · exact hquad (i := 1) (by decide) rfl
  · exact hquad (i := 4) (by decide) rfl
  · have hcs : c₁.mem.quad (c₁.rsp.toNat + 8) = c.cs.setWidth 64 := hquad (i := 3) (by decide) rfl
    change (c₁.mem.quad (c₁.rsp.toNat + 8)).setWidth 16 = c.cs
    rw [hcs, BitVec.setWidth_setWidth_of_le _ (by decide), BitVec.setWidth_eq]
  · have hss : c₁.mem.quad (c₁.rsp.toNat + 32) = c.ss.setWidth 64 := hquad (i := 0) (by decide) rfl
    change (c₁.mem.quad (c₁.rsp.toNat + 32)).setWidth 16 = c.ss
    rw [hss, BitVec.setWidth_setWidth_of_le _ (by decide), BitVec.setWidth_eq]
  · exact hquad (i := 2) (by decide) rfl
  · intro a ha
    have hinner : ¬ area.Private (c.deliver offset selector none).rsp.toNat a := by
      rintro (hdata | ⟨hlo, hhi⟩)
      · exact ha (.inl hdata)
      · exact ha (.inr ⟨hlo, by omega⟩)
    have hout : a < c.rsp.toNat / 16 * 16 - 40 ∨ c.rsp.toNat / 16 * 16 ≤ a := by
      by_contra hin
      exact ha (.inr (by omega))
    exact (hmem a hinner).trans (deliver_mem hroom hout)

end Interrupt

/-! ## Interrupts at any points -/

/-- The registers agree, and the memory that is live in the first state. -/
structure Agrees (live : Cpu ρ → Nat → Prop) (c x : Cpu ρ) : Prop where
  reg : c.reg = x.reg
  rsp : c.rsp = x.rsp
  rip : c.rip = x.rip
  cs : c.cs = x.cs
  ss : c.ss = x.ss
  rflags : c.rflags = x.rflags
  mem : ∀ a, live c a → c.mem a = x.mem a

/-- A program, the states it is run in, and the memory whose contents it still depends on. -/
structure Program (ρ ε : Type*) where
  step : Cpu ρ → ε → Cpu ρ → Prop
  Inv : Cpu ρ → Prop
  live : Cpu ρ → Nat → Prop

/-- The program depends neither on what is below its stack pointer nor on the data of the handlers. -/
structure Program.Tolerates {ε : Type*} (p : Program ρ ε) (area : Area) : Prop where
  keeps : ∀ c e d, p.Inv c → p.step c e d → p.Inv d
  respects : ∀ c x e d, p.Inv c → Agrees p.live c x → p.step c e d →
    ∃ y, p.step x e y ∧ Agrees p.live d y
  stable : ∀ c d, p.Inv c → SameBut area c d → p.Inv d ∧ ∀ a, p.live d a → p.live c a
  live : ∀ c a, p.Inv c → p.live c a → ¬ area.Private c.rsp.toNat a

/-- The program, with interrupts at any points. -/
inductive Interleaved {ε ν : Type*} (p : Program ρ ε) (handle : Cpu ρ → ν → Cpu ρ → Prop) :
    Cpu ρ → ε ⊕ ν → Cpu ρ → Prop
  | program {c d : Cpu ρ} {e : ε} (h : p.step c e d) : Interleaved p handle c (.inl e) d
  | interrupt {c d : Cpu ρ} {n : ν} (h : handle c n d) : Interleaved p handle c (.inr n) d

/-- **Interrupts are invisible.** What a program does with interrupts that leave all but private
memory alone, it also does without them. -/
theorem invisible {ε ν : Type*} {p : Program ρ ε} {handle : Cpu ρ → ν → Cpu ρ → Prop} {area : Area}
    (hp : p.Tolerates area) (hh : ∀ c n d, p.Inv c → handle c n d → SameBut area c d)
    {c d : Cpu ρ} {tr : List (ε ⊕ ν)} (hc : p.Inv c) (hrun : Runs (Interleaved p handle) c tr d) :
    p.Inv d ∧ ∃ x, Runs p.step c (tr.filterMap Sum.getLeft?) x ∧ Agrees p.live d x := by
  have silent : ∀ a e b x, p.Inv a ∧ Agrees p.live a x → Interleaved p handle a e b →
      e.getLeft? = none → p.Inv b ∧ Agrees p.live b x := by
    rintro a e b x ⟨ha, hax⟩ hstep hevent
    cases hstep with
    | program _ => cases hevent
    | interrupt h =>
      have hsame : SameBut area a b := hh a _ b ha h
      obtain ⟨hb, hlive⟩ := hp.stable a b ha hsame
      refine ⟨hb, hsame.reg.trans hax.reg, hsame.rsp.trans hax.rsp, hsame.rip.trans hax.rip,
        hsame.cs.trans hax.cs, hsame.ss.trans hax.ss, hsame.rflags.trans hax.rflags, ?_⟩
      intro y hy
      exact (hsame.mem y (hp.live a y ha (hlive y hy))).trans (hax.mem y (hlive y hy))
  have answer : ∀ a e b x e', p.Inv a ∧ Agrees p.live a x → Interleaved p handle a e b →
      e.getLeft? = some e' → ∃ y, p.step x e' y ∧ p.Inv b ∧ Agrees p.live b y := by
    rintro a e b x e' ⟨ha, hax⟩ hstep hevent
    cases hstep with
    | program h =>
      cases hevent
      obtain ⟨y, hy, hby⟩ := hp.respects a x e' b ha hax h
      exact ⟨y, hy, hp.keeps a e' b ha h, hby⟩
    | interrupt _ => cases hevent
  obtain ⟨x, hx, hd, hagrees⟩ := hrun.simulate silent answer
    ⟨hc, rfl, rfl, rfl, rfl, rfl, rfl, fun _ _ => rfl⟩
  exact ⟨hd, x, hx, hagrees⟩

end StackMachine

end Rtv.Lib
