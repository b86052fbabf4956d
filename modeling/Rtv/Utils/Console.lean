import Rtv.Lib.Bytes

/-!
# The text screen

`utils/screen.c: _putchar` writes a character and its attribute to the video memory and moves on; at
the end of a line it goes to the next one, and from the last line back to the first. Nothing is ever
cleared.

What it is for is a roll of paper with lines without number, of which the screen shows the last 24:
whatever is put out, every character on the last 24 lines of the paper is in its cell (`Shows.puts`),
and no byte outside the screen is written (`Shows.puts_outside`). What several CPUs print at a time is
in `Rtv.Smp.Printf`.
-/

namespace Rtv.Utils

open Rtv.Lib

/-! ## The code -/

/-- `COLUMNS`. -/
def columns : Nat := 80

/-- `LINES`. -/
def lines : Nat := 24

/-- `ATTRIBUTE`. -/
def charAttribute : UInt8 := 7

/-- The cursor, and the memory that holds the characters. -/
structure Screen where
  xpos : Nat
  ypos : Nat
  mem : Bytes

namespace Screen

/-- From the label `newline` on. -/
def newline (s : Screen) : Screen :=
  let ypos := s.ypos + 1
  { s with xpos := 0, ypos := if ypos ≥ lines then 0 else ypos }

/-- `_putchar`. -/
def putchar (frameBuf : Nat) (s : Screen) (c : UInt8) : Screen :=
  if c = 10 ∨ c = 13 then s.newline
  else
    let cell := frameBuf + (s.xpos + s.ypos * columns) * 2
    let mem := (s.mem.setByte cell c).setByte (cell + 1) charAttribute
    let xpos := s.xpos + 1
    if xpos ≥ columns then { s with xpos, mem }.newline else { s with xpos, mem }

/-- The characters one after the other. -/
def puts (frameBuf : Nat) (s : Screen) (text : List UInt8) : Screen := text.foldl (putchar frameBuf) s

end Screen

/-! ## The paper -/

/-- A place on the paper. -/
structure Place where
  line : Nat
  col : Nat
deriving DecidableEq, Repr

/-- One place is before another. -/
def Place.Before (p q : Place) : Prop := p.line < q.line ∨ p.line = q.line ∧ p.col < q.col

namespace Place

/-- Where the next character goes after `c`. -/
def next (p : Place) (c : UInt8) : Place :=
  if c = 10 ∨ c = 13 ∨ columns ≤ p.col + 1 then ⟨p.line + 1, 0⟩ else ⟨p.line, p.col + 1⟩

/-- Where the next character goes after a text. -/
def after (p : Place) (text : List UInt8) : Place := text.foldl next p

/-- The characters that a text puts on the paper, with their places. -/
def typed : Place → List UInt8 → List (Place × UInt8)
  | _, [] => []
  | p, c :: text => (if c = 10 ∨ c = 13 then [] else [(p, c)]) ++ typed (p.next c) text

/-- The cell of the screen that shows a place. -/
def cell (frameBuf : Nat) (p : Place) : Nat := frameBuf + (p.col + p.line % lines * columns) * 2

end Place

/-- The screen shows the last 24 lines of the paper with the characters `ink` before `p`. -/
structure Inked (frameBuf : Nat) (p : Place) (ink : List (Place × UInt8)) (s : Screen) : Prop where
  ypos : s.ypos = p.line % lines
  xpos : s.xpos = p.col
  before : ∀ q c, (q, c) ∈ ink → q.Before p ∧ q.col < columns
  shown : ∀ q c, (q, c) ∈ ink → p.line < q.line + lines →
    s.mem (q.cell frameBuf) = c ∧ s.mem (q.cell frameBuf + 1) = charAttribute

/-- And the next character goes to `p`. -/
structure Shows (frameBuf : Nat) (p : Place) (ink : List (Place × UInt8)) (s : Screen) : Prop
    extends Inked frameBuf p ink s where
  col : p.col < columns

namespace Shows

variable {frameBuf : Nat} {p q : Place} {ink : List (Place × UInt8)} {s : Screen} {c : UInt8}

/-- Two places that are shown at once are in different cells. -/
theorem cell_apart (hq : q.Before p) (hqcol : q.col < columns) (hcol : p.col < columns)
    (hnear : p.line < q.line + lines) :
    q.cell frameBuf + 2 ≤ p.cell frameBuf ∨ p.cell frameBuf + 2 ≤ q.cell frameBuf := by
  rw [Place.cell, Place.cell]
  unfold lines columns at *
  rcases hq with hline | ⟨hline, hbefore⟩
  · have hmod : q.line % 24 ≠ p.line % 24 := by omega
    omega
  · rw [hline]
    omega

/-- The cursor goes to the begin of the next line. -/
theorem newline (h : Inked frameBuf p ink s) : Shows frameBuf ⟨p.line + 1, 0⟩ ink s.newline := by
  have hypos := h.ypos
  refine ⟨⟨?_, rfl, ?_, ?_⟩, Nat.zero_lt_succ 79⟩
  · change (if s.ypos + 1 ≥ lines then 0 else s.ypos + 1) = (p.line + 1) % lines
    unfold lines at *
    split
    · omega
    · omega
  · intro q c hq
    obtain ⟨hbefore, hcol⟩ := h.before q c hq
    refine ⟨.inl ?_, hcol⟩
    rcases hbefore with hline | ⟨hline, _⟩
    · exact Nat.lt_succ_of_lt hline
    · exact hline ▸ Nat.lt_succ_self q.line
  · intro q c hq hnear
    exact h.shown q c hq (Nat.lt_of_succ_lt hnear)

/-- The character at the cursor is on the paper, and what was shown still is. -/
theorem write (h : Shows frameBuf p ink s) {d : UInt8} (hq : (q, d) ∈ ink ++ [(p, c)])
    (hnear : p.line < q.line + lines) :
    let mem := (s.mem.setByte (p.cell frameBuf) c).setByte (p.cell frameBuf + 1) charAttribute
    mem (q.cell frameBuf) = d ∧ mem (q.cell frameBuf + 1) = charAttribute := by
  intro mem
  rcases List.mem_append.mp hq with hold | hnew
  · obtain ⟨hbefore, hcol⟩ := h.before q d hold
    obtain ⟨hchar, hattr⟩ := h.shown q d hold hnear
    have happart : q.cell frameBuf + 2 ≤ p.cell frameBuf ∨ p.cell frameBuf + 2 ≤ q.cell frameBuf :=
      cell_apart hbefore hcol h.col hnear
    constructor
    · rw [← hchar]
      exact (Bytes.setByte_ne _ _ (by omega)).trans (Bytes.setByte_ne _ _ (by omega))
    · rw [← hattr]
      exact (Bytes.setByte_ne _ _ (by omega)).trans (Bytes.setByte_ne _ _ (by omega))
  · cases List.mem_singleton.mp hnew
    constructor
    · exact (Bytes.setByte_ne _ _ (by omega)).trans (Bytes.setByte_self _ _ _)
    · exact Bytes.setByte_self _ _ _

/-- One character. -/
theorem putchar (h : Shows frameBuf p ink s) (c : UInt8) :
    Shows frameBuf (p.next c) (ink ++ p.typed [c]) (s.putchar frameBuf c) := by
  rw [Place.typed, Place.typed, List.append_nil, Place.next, Screen.putchar]
  by_cases hbreak : c = 10 ∨ c = 13
  · rw [if_pos hbreak, if_pos hbreak, List.append_nil, if_pos (hbreak.imp_right Or.inl)]
    exact newline h.toInked
  · have hcell : frameBuf + (s.xpos + s.ypos * columns) * 2 = p.cell frameBuf := by
      rw [h.xpos, h.ypos, Place.cell]
    rw [if_neg hbreak, if_neg hbreak, hcell, h.xpos]
    -- the cursor on the same line, also where the line is now full
    have hinked : Inked frameBuf ⟨p.line, p.col + 1⟩ (ink ++ [(p, c)])
        { s with
          xpos := p.col + 1
          mem := (s.mem.setByte (p.cell frameBuf) c).setByte (p.cell frameBuf + 1) charAttribute } := by
      refine ⟨h.ypos, rfl, ?_, fun q d hq hnear => h.write hq hnear⟩
      intro q d hq
      rcases List.mem_append.mp hq with hold | hnew
      · obtain ⟨hbefore, hcol⟩ := h.before q d hold
        exact ⟨hbefore.imp_right fun hsame => ⟨hsame.1, Nat.lt_succ_of_lt hsame.2⟩, hcol⟩
      · cases List.mem_singleton.mp hnew
        exact ⟨.inr ⟨rfl, Nat.lt_succ_self _⟩, h.col⟩
    by_cases hfull : columns ≤ p.col + 1
    · have hbegin := newline hinked
      rw [if_pos hfull, if_pos (.inr (.inr hfull))]
      exact hbegin
    · have hstay : ¬ (c = 10 ∨ c = 13 ∨ columns ≤ p.col + 1) := by
        rintro (hc | hc | hc)
        · exact hbreak (.inl hc)
        · exact hbreak (.inr hc)
        · exact hfull hc
      rw [if_neg hfull, if_neg hstay]
      exact ⟨hinked, not_le.mp hfull⟩

theorem typed_cons (p : Place) (c : UInt8) (text : List UInt8) :
    p.typed (c :: text) = p.typed [c] ++ (p.next c).typed text := by
  rw [Place.typed, Place.typed, Place.typed, List.append_nil]

/-- **The last lines are on the screen.** -/
theorem puts (h : Shows frameBuf p ink s) (text : List UInt8) :
    Shows frameBuf (p.after text) (ink ++ p.typed text) (s.puts frameBuf text) := by
  induction text generalizing p ink s with
  | nil =>
    rw [Place.typed, List.append_nil]
    exact h
  | cons c text ih =>
    rw [typed_cons, ← List.append_assoc]
    exact ih (h.putchar c)

end Shows

/-! ## Where it writes -/

/-- The bytes of the screen. -/
def OnScreen (frameBuf a : Nat) : Prop := frameBuf ≤ a ∧ a < frameBuf + columns * lines * 2

section Outside

variable {frameBuf a : Nat} {p : Place} {ink : List (Place × UInt8)} {s : Screen}

theorem Shows.putchar_outside (h : Shows frameBuf p ink s) (c : UInt8) (ha : ¬ OnScreen frameBuf a) :
    (s.putchar frameBuf c).mem a = s.mem a := by
  have hcell : p.cell frameBuf + 2 ≤ frameBuf + columns * lines * 2 ∧ frameBuf ≤ p.cell frameBuf := by
    have hcol := h.col
    rw [Place.cell]
    unfold lines columns at *
    omega
  have hwrite : ((s.mem.setByte (p.cell frameBuf) c).setByte (p.cell frameBuf + 1) charAttribute) a =
      s.mem a := by
    rw [OnScreen] at ha
    exact (Bytes.setByte_ne _ _ (by omega)).trans (Bytes.setByte_ne _ _ (by omega))
  have hat : frameBuf + (s.xpos + s.ypos * columns) * 2 = p.cell frameBuf := by
    rw [h.xpos, h.ypos, Place.cell]
  rw [Screen.putchar, hat]
  split
  · rfl
  · by_cases hfull : s.xpos + 1 ≥ columns
    · rw [if_pos hfull]
      exact hwrite
    · rw [if_neg hfull]
      exact hwrite

theorem Shows.puts_outside (h : Shows frameBuf p ink s) (text : List UInt8)
    (ha : ¬ OnScreen frameBuf a) : (s.puts frameBuf text).mem a = s.mem a := by
  induction text generalizing p ink s with
  | nil => rfl
  | cons c text ih => exact (ih (h.putchar c)).trans (h.putchar_outside c ha)

end Outside

end Rtv.Utils
