import Rtv.Lib.BitField
import Rtv.Lib.Bytes

/-!
# The interrupt table

`interrupt.c: idt_init` fills the 256 entries of the table with gates to the stubs of `int_table` and
tells the processor where it is. The entries are written here as the bit-fields of `idt_entry` and
read as the processor reads them: an address in three parts, which it puts together.

Whatever the addresses of the stubs and wherever the table is, every vector leads through a present
interrupt gate of the kernel's code segment to its stub as long as nobody writes to the table
(`gateAt_idtInit`).
-/

namespace Rtv.Interrupt

open Rtv.Lib

/-! ## The code -/

/-- `interrupt.h: INTERRUPT_GATE_TYPE`. -/
def interruptGateType : BitVec 8 := 0xE

/-- `cpu.h: IDT_ENTRY_NR`. -/
def idtEntryNr : Nat := 256

/-- `idt_entry`. -/
structure IdtEntry where
  offset0 : BitVec 16
  selector : BitVec 16
  ist : BitVec 3
  zero0 : BitVec 5
  type : BitVec 4
  zero1 : Bool
  dpl : BitVec 2
  p : Bool
  offset1 : BitVec 16
  offset2 : BitVec 32
  reserved : BitVec 32
deriving DecidableEq, Repr

/-- An `idt_entry` as it lies in memory. -/
def IdtEntry.bits (e : IdtEntry) : BitVec 128 :=
  let w := setField (0#128) 0 e.offset0
  let w := setField w 16 e.selector
  let w := setField w 32 e.ist
  let w := setField w 35 e.zero0
  let w := setField w 40 e.type
  let w := setField w 44 (BitVec.ofBool e.zero1)
  let w := setField w 45 e.dpl
  let w := setField w 47 (BitVec.ofBool e.p)
  let w := setField w 48 e.offset1
  let w := setField w 64 e.offset2
  setField w 96 e.reserved

/-- `idt_desc`. -/
structure IdtDesc where
  limit : BitVec 16
  base : BitVec 64
deriving DecidableEq, Repr

/-- `idt_set_entry`: the assignments cover all of the entry. -/
def idtSetEntry (index : Nat) (type : BitVec 8) (handler : BitVec 64) (idt : Nat) (m : Bytes) : Bytes :=
  let base := handler
  let entry : IdtEntry := {
    offset0 := base.setWidth 16
    selector := 0x8
    ist := 0
    zero0 := 0
    type := type.setWidth 4
    zero1 := false
    dpl := 0
    p := true
    offset1 := (base >>> 16).setWidth 16
    offset2 := (base >>> 32).setWidth 32
    reserved := 0 }
  m.storeLE (idt + 16 * index) 16 entry.bits.toNat

/-- The loop of `idt_init` over the first `n` vectors. -/
def idtFill (intTable : Nat → BitVec 64) (idt n : Nat) (m : Bytes) : Bytes :=
  (List.range n).foldl (fun m i => idtSetEntry i interruptGateType (intTable i) idt m) m

/-- `idt_init`: the memory it leaves, and what it loads into the processor. -/
def idtInit (intTable : Nat → BitVec 64) (idt : Nat) (m : Bytes) : Bytes × IdtDesc :=
  (idtFill intTable idt idtEntryNr m,
    { limit := BitVec.ofNat 16 (idtEntryNr * 16 - 1), base := BitVec.ofNat 64 idt })

/-! ## The processor -/

/-- A gate as the processor uses it. -/
structure Gate where
  offset : BitVec 64
  selector : BitVec 16
  ist : BitVec 3
  type : BitVec 4
  dpl : BitVec 2
  p : Bool
deriving DecidableEq, Repr

/-- The gate in 16 bytes: the address is in bits 15:0, 63:48 and 95:64. -/
def Gate.decode (w : BitVec 128) : Gate where
  offset := (getField w 64 32).setWidth 64 <<< 32 |||
    (getField w 48 16).setWidth 64 <<< 16 ||| (getField w 0 16).setWidth 64
  selector := getField w 16 16
  ist := getField w 32 3
  type := getField w 40 4
  dpl := getField w 45 2
  p := w.getLsbD 47

/-- The gate of a vector, if it is within the limit. -/
def IdtDesc.gateAt (d : IdtDesc) (m : Bytes) (vector : Nat) : Option Gate :=
  if 16 * vector + 15 ≤ d.limit.toNat then
    some (.decode (BitVec.ofNat 128 (m.loadLE (d.base.toNat + 16 * vector) 16)))
  else none

/-! ## One entry -/

/-- The gate to a handler. -/
def gateTo (handler : BitVec 64) : Gate where
  offset := handler
  selector := 0x8
  ist := 0
  type := 0xE
  dpl := 0
  p := true

/-- An address put together from its parts. -/
theorem parts_eq (x : BitVec 64) : ((x >>> 32).setWidth 32).setWidth 64 <<< 32 |||
    ((x >>> 16).setWidth 16).setWidth 64 <<< 16 ||| (x.setWidth 16).setWidth 64 = x := by
  refine BitVec.eq_of_getLsbD_eq fun j hj => ?_
  simp only [BitVec.getLsbD_or, BitVec.getLsbD_shiftLeft, BitVec.getLsbD_setWidth,
    BitVec.getLsbD_ushiftRight, hj, decide_true, Bool.true_and]
  by_cases hlow : j < 16
  · have hmid : j < 32 := by omega
    simp only [hlow, hmid, decide_true, Bool.not_true, Bool.false_and, Bool.true_and, Bool.false_or]
  · by_cases hmid : j < 32
    · have hback : 16 + (j - 16) = j := by omega
      have hin : j - 16 < 16 := by omega
      have hin' : j - 16 < 64 := by omega
      simp only [hlow, hmid, hback, hin, hin', decide_true, decide_false, Bool.not_true, Bool.not_false,
        Bool.false_and, Bool.true_and, Bool.false_or, Bool.or_false]
    · have hback : 32 + (j - 32) = j := by omega
      have hin : j - 32 < 32 := by omega
      have hin' : j - 32 < 64 := by omega
      have hout : ¬ j - 16 < 16 := by omega
      simp only [hlow, hmid, hback, hin, hin', hout, decide_true, decide_false, Bool.not_false,
        Bool.false_and, Bool.and_false, Bool.true_and, Bool.or_false]

section Entry

variable {m : Bytes} {idt index k : Nat} {handler : BitVec 64}

theorem decode_entry :
    Gate.decode (BitVec.ofNat 128
      ((idtSetEntry index interruptGateType handler idt m).loadLE (idt + 16 * index) 16)) =
      gateTo handler := by
  rw [idtSetEntry, Bytes.loadLE_storeLE_same, Nat.mod_eq_of_lt (BitVec.isLt _), BitVec.ofNat_toNat,
    BitVec.setWidth_eq]
  simp (disch := omega) only [Gate.decode, IdtEntry.bits, getField_setField, getField_setField_apart,
    getLsbD_setField_flag, getLsbD_setField_apart, parts_eq]
  rfl

/-- An entry is all that is written. -/
theorem idtSetEntry_outside {type : BitVec 8} {a : Nat}
    (h : a < idt + 16 * index ∨ idt + 16 * index + 16 ≤ a) :
    idtSetEntry index type handler idt m a = m a :=
  Bytes.storeLE_outside h

end Entry

/-! ## The table -/

section Table

variable {intTable : Nat → BitVec 64} {idt : Nat} {m m' : Bytes}

/-- The first `k` entries are written. -/
structure Filled (intTable : Nat → BitVec 64) (idt k : Nat) (m m' : Bytes) : Prop where
  gate : ∀ v, v < k → Gate.decode (BitVec.ofNat 128 (m'.loadLE (idt + 16 * v) 16)) =
    gateTo (intTable v)
  outside : ∀ a, a < idt ∨ idt + 16 * k ≤ a → m' a = m a

theorem Filled.set {k : Nat} (h : Filled intTable idt k m m') :
    Filled intTable idt (k + 1) m (idtSetEntry k interruptGateType (intTable k) idt m') := by
  constructor
  · intro v hv
    by_cases hlast : v = k
    · rw [hlast]
      exact decode_entry
    · have hkeep : (idtSetEntry k interruptGateType (intTable k) idt m').loadLE (idt + 16 * v) 16 =
          m'.loadLE (idt + 16 * v) 16 := by
        apply Bytes.loadLE_congr
        intro x hlo hhi
        exact idtSetEntry_outside (by omega)
      rw [hkeep]
      exact h.gate v (by omega)
  · intro a ha
    rw [idtSetEntry_outside (by omega)]
    exact h.outside a (by omega)

theorem filled_idtFill (intTable : Nat → BitVec 64) (idt : Nat) (m : Bytes) (k : Nat) :
    Filled intTable idt k m (idtFill intTable idt k m) := by
  induction k with
  | zero => exact ⟨nofun, fun _ _ => rfl⟩
  | succ k ih =>
    rw [idtFill, List.range_succ, List.foldl_append]
    exact ih.set

/-- The gate of a vector depends on the bytes of the table alone. -/
theorem gateAt_congr {d : IdtDesc} {vector : Nat}
    (h : ∀ a, d.base.toNat ≤ a → a ≤ d.base.toNat + d.limit.toNat → m' a = m a) :
    d.gateAt m' vector = d.gateAt m vector := by
  unfold IdtDesc.gateAt
  split
  · next hlimit =>
    have hload : m'.loadLE (d.base.toNat + 16 * vector) 16 =
        m.loadLE (d.base.toNat + 16 * vector) 16 := by
      apply Bytes.loadLE_congr
      intro x hlo hhi
      exact h x (by omega) (by omega)
    rw [hload]
  · rfl

theorem idtInit_fst (intTable : Nat → BitVec 64) (idt : Nat) (m : Bytes) :
    (idtInit intTable idt m).1 = idtFill intTable idt idtEntryNr m := by
  rw [idtInit]

theorem filled_idtInit (intTable : Nat → BitVec 64) (idt : Nat) (m : Bytes) :
    Filled intTable idt 256 m (idtInit intTable idt m).1 := by
  rw [idtInit_fst]
  exact filled_idtFill intTable idt m 256

/-- Every vector leads to its stub. -/
theorem gateAt_idtInit (hidt : idt + 4096 ≤ 2 ^ 64)
    (hkept : ∀ a, idt ≤ a → a < idt + 4096 → m' a = (idtInit intTable idt m).1 a) (vector : BitVec 8) :
    (idtInit intTable idt m).2.gateAt m' vector.toNat = some (gateTo (intTable vector.toNat)) := by
  have hvector := vector.isLt
  have hbase : (idtInit intTable idt m).2.base.toNat = idt :=
    (BitVec.toNat_ofNat _ _).trans (Nat.mod_eq_of_lt (by omega))
  have hlimit : (idtInit intTable idt m).2.limit.toNat = 4095 := rfl
  rw [gateAt_congr (m := (idtInit intTable idt m).1)]
  · rw [IdtDesc.gateAt, hlimit, if_pos (by omega), hbase]
    exact congrArg some ((filled_idtInit intTable idt m).gate _ hvector)
  · intro a hlo hhi
    exact hkept a (by omega) (by omega)

end Table

end Rtv.Interrupt
