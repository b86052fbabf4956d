import Rtv.Lib.BitField
import Rtv.Lib.Exec
import Rtv.Smp.Gdt

/-!
# TSS descriptors

`cpu/mmu.c: alloc_tss_desc` writes a 16-byte `tss_desc` over two 8-byte `seg_desc` of the GDT, whose
base is split between them, and then the present bit of the second one through the other type.
`get_gdt_tss_base` reads the base back.

The descriptors of `Rtv.Smp.Gdt` are laid out here bit by bit, and the store through the wider type is
a store to both. `allocTssDesc_eq`: what it leaves is `writeTss`.

**The law** (`tss_descriptors_decode`): after any run of calls from any GDT, every selector returned
decodes to its pointer, present descriptors are left alone, and a table without two adjacent free
slots is refused by a panic that leaves it as it is.
-/

namespace Rtv.Smp

open Rtv.Lib

/-! ## Layouts -/

/-- A `seg_desc` as it lies in memory. -/
def SegDesc.bits (d : SegDesc) : BitVec 64 :=
  let w := setField (0#64) 0 d.limit0
  let w := setField w 16 d.base0
  let w := setField w 40 d.type
  let w := setField w 44 (BitVec.ofBool d.s)
  let w := setField w 45 d.dpl
  let w := setField w 47 (BitVec.ofBool d.p)
  let w := setField w 48 d.limit1
  let w := setField w 52 (BitVec.ofBool d.avl)
  let w := setField w 53 (BitVec.ofBool d.l)
  let w := setField w 54 (BitVec.ofBool d.db)
  let w := setField w 55 (BitVec.ofBool d.g)
  setField w 56 d.base1

/-- The `seg_desc` that lies in 8 bytes. -/
def SegDesc.ofBits (w : BitVec 64) : SegDesc where
  limit0 := getField w 0 16
  base0 := getField w 16 24
  type := getField w 40 4
  s := w.getLsbD 44
  dpl := getField w 45 2
  p := w.getLsbD 47
  limit1 := getField w 48 4
  avl := w.getLsbD 52
  l := w.getLsbD 53
  db := w.getLsbD 54
  g := w.getLsbD 55
  base1 := getField w 56 8

/-- `tss_desc`. -/
structure TssDesc where
  limit0 : BitVec 16
  base0 : BitVec 24
  type : BitVec 4
  zero0 : Bool
  dpl : BitVec 2
  p : Bool
  limit1 : BitVec 4
  avl : Bool
  zero1 : BitVec 2
  g : Bool
  base1 : BitVec 40
  reserved0 : BitVec 32
deriving DecidableEq, Repr

/-- A `tss_desc` as it lies in memory. -/
def TssDesc.bits (d : TssDesc) : BitVec 128 :=
  let w := setField (0#128) 0 d.limit0
  let w := setField w 16 d.base0
  let w := setField w 40 d.type
  let w := setField w 44 (BitVec.ofBool d.zero0)
  let w := setField w 45 d.dpl
  let w := setField w 47 (BitVec.ofBool d.p)
  let w := setField w 48 d.limit1
  let w := setField w 52 (BitVec.ofBool d.avl)
  let w := setField w 53 d.zero1
  let w := setField w 55 (BitVec.ofBool d.g)
  let w := setField w 56 d.base1
  setField w 96 d.reserved0

/-- The `tss_desc` that lies in 16 bytes. -/
def TssDesc.ofBits (w : BitVec 128) : TssDesc where
  limit0 := getField w 0 16
  base0 := getField w 16 24
  type := getField w 40 4
  zero0 := w.getLsbD 44
  dpl := getField w 45 2
  p := w.getLsbD 47
  limit1 := getField w 48 4
  avl := w.getLsbD 52
  zero1 := getField w 53 2
  g := w.getLsbD 55
  base1 := getField w 56 40
  reserved0 := getField w 96 32

/-- `*(tss_desc *) &gdt_ptr[i]`. -/
def loadTssDesc (gdt : Gdt) (i : Nat) : TssDesc := .ofBits ((gdt (i + 1)).bits ++ (gdt i).bits)

/-- A store to `*(tss_desc *) &gdt_ptr[i]`. -/
def storeTssDesc (gdt : Gdt) (i : Nat) (d : TssDesc) : Gdt :=
  Function.update (Function.update gdt i (.ofBits (getField d.bits 0 64))) (i + 1)
    (.ofBits (getField d.bits 64 64))

/-! ## The code -/

/-- `alloc_tss_desc`, with the GDT it leaves. -/
def allocTssDesc (gdt : Gdt) (tssP : BitVec 64) : Exec (BitVec 16) × Gdt :=
  let limit := tssLimit
  match tssScan gdt with
  | some i =>
    let entry := loadTssDesc gdt i
    let entry := { entry with
      limit0 := (limit &&& 0xFFFF).setWidth 16
      limit1 := ((limit >>> 16) &&& 0xF).setWidth 4
      base0 := (tssP &&& 0xFFFFFF).setWidth 24
      base1 := (tssP >>> 24).setWidth 40
      p := true
      type := 9
      zero0 := false
      dpl := 0
      avl := false
      zero1 := 0
      g := false
      reserved0 := 0 }
    let gdt := storeTssDesc gdt i entry
    -- mark the second 8 bytes used
    let gdt := Function.update gdt (i + 1) { gdt (i + 1) with p := true }
    (.ok (BitVec.ofNat 16 (i <<< 3)), gdt)
  | none => (.error (.panic "alloc_tss_desc" "out of GDT entries"), gdt)

/-- `get_gdt_tss_base`. -/
def getGdtTssBase (gdt : Gdt) (sel : BitVec 16) : BitVec 64 :=
  let entry := loadTssDesc gdt (sel >>> 3).toNat
  let base := entry.base1.setWidth 64
  (base <<< 24) ||| entry.base0.setWidth 64

/-- What `percpu_init` does to the GDT, with the descriptor it has written. -/
def percpuInitDesc (gdt : Gdt) (limit : BitVec 64) : Exec Nat × Gdt :=
  match percpuScan gdt with
  | some i => (.ok i, Function.update gdt i (percpuDesc (gdt i) limit))
  | none => (.error (.panic "percpu_init" "out of GDT entries"), gdt)

/-! ## Reading layouts -/

theorem SegDesc.ofBits_bits (d : SegDesc) : SegDesc.ofBits d.bits = d := by
  simp (disch := omega) only [SegDesc.ofBits, SegDesc.bits, getField_setField, getField_setField_apart,
    getLsbD_setField_flag, getLsbD_setField_apart]

theorem TssDesc.ofBits_bits (d : TssDesc) : TssDesc.ofBits d.bits = d := by
  simp (disch := omega) only [TssDesc.ofBits, TssDesc.bits, getField_setField, getField_setField_apart,
    getLsbD_setField_flag, getLsbD_setField_apart]

/-! ## What is written -/

section Written

variable (gdt : Gdt) (tssP : BitVec 64)

/-- The descriptor that `alloc_tss_desc` writes. -/
def tssEntry : TssDesc where
  limit0 := (tssLimit &&& 0xFFFF).setWidth 16
  base0 := (tssP &&& 0xFFFFFF).setWidth 24
  type := 9
  zero0 := false
  dpl := 0
  p := true
  limit1 := ((tssLimit >>> 16) &&& 0xF).setWidth 4
  avl := false
  zero1 := 0
  g := false
  base1 := (tssP >>> 24).setWidth 40
  reserved0 := 0

/-- A part of the upper base. -/
theorem extract_base1 {off len : Nat} (h : off + len ≤ 40) :
    ((tssP >>> 24).setWidth 40).extractLsb' off len = (tssP >>> (24 + off)).setWidth len := by
  refine BitVec.eq_of_getLsbD_eq fun j hj => ?_
  have hin : off + j < 40 := by omega
  simp [hj, hin, Nat.add_assoc]

/-- Its first 8 bytes. -/
theorem tssEntry_low : SegDesc.ofBits (getField (tssEntry tssP).bits 0 64) = tssDescLow tssP := by
  have hbase0 : (tssP &&& 0xFFFFFF).setWidth 24 = tssP.setWidth 24 := by
    rw [BitVec.setWidth_and]
    exact BitVec.and_allOnes
  simp (disch := omega) only [SegDesc.ofBits, TssDesc.bits, tssEntry, getField_getField,
    getField_setField, getField_setField_apart, getField_setField_inside, getLsbD_getField,
    getLsbD_setField_apart, getLsbD_setField_inside, hbase0, extract_base1]
  rfl

/-- The bits 63:48 of the base lie in the base of the second entry. -/
theorem tssEntry_base0 : getField (tssEntry tssP).bits (64 + 16) 24 = (tssP >>> 48).setWidth 24 := by
  refine BitVec.eq_of_getLsbD_eq fun j hj => ?_
  rw [getLsbD_getField, TssDesc.bits, tssEntry]
  by_cases hbase : j < 16
  · have hin : 64 + 16 + j - 56 < 40 := by omega
    have hsub : 24 + (64 + 16 + j - 56) = 48 + j := by omega
    simp (disch := omega) only [getLsbD_setField_apart, getLsbD_setField_inside]
    simp [hj, hin, hsub]
  · have hout : 64 ≤ 48 + j := by omega
    simp (disch := omega) only [getLsbD_setField_inside]
    simp [hj, hout]

/-- Its second 8 bytes, marked used. -/
theorem tssEntry_high :
    { SegDesc.ofBits (getField (tssEntry tssP).bits 64 64) with p := true } = tssDescHigh tssP := by
  unfold SegDesc.ofBits
  simp (disch := omega) only [getField_getField, tssEntry_base0]
  simp (disch := omega) only [TssDesc.bits, tssEntry, getField_setField_inside,
    getField_setField_apart, getLsbD_getField, getLsbD_setField_inside, extract_base1]
  rfl

/-- **`alloc_tss_desc`** writes the two descriptors of `writeTss`, or nothing. -/
theorem allocTssDesc_eq : allocTssDesc gdt tssP = match tssScan gdt with
    | some i => (.ok (BitVec.ofNat 16 (i <<< 3)), writeTss gdt i tssP)
    | none => (.error (.panic "alloc_tss_desc" "out of GDT entries"), gdt) := by
  rw [allocTssDesc]
  cases tssScan gdt with
  | none => rfl
  | some i =>
    change (_, Function.update (storeTssDesc gdt i (tssEntry tssP)) (i + 1)
      { storeTssDesc gdt i (tssEntry tssP) (i + 1) with p := true }) = _
    rw [storeTssDesc, Function.update_self, Function.update_idem, tssEntry_low, tssEntry_high]
    rfl

end Written

/-! ## What is read -/

section Read

variable {gdt : Gdt} {i : Nat} {tssP : BitVec 64}

/-- Slot `i` and the one behind it hold the descriptor of a TSS. -/
structure HoldsTss (gdt : Gdt) (i : Nat) (tssP : BitVec 64) : Prop where
  inside : i + 1 < gdtEntryNr
  low : gdt i = tssDescLow tssP
  high : gdt (i + 1) = tssDescHigh tssP

theorem holdsTss_writeTss (gdt : Gdt) (tssP : BitVec 64) (hlast : i + 1 < gdtEntryNr) :
    HoldsTss (writeTss gdt i tssP) i tssP := by
  have hne : i ≠ i + 1 := Nat.ne_of_lt (Nat.lt_succ_self i)
  refine ⟨hlast, ?_, ?_⟩
  · rw [writeTss, Function.update_of_ne hne, Function.update_self]
  · rw [writeTss, Function.update_self]

theorem HoldsTss.base0 (h : HoldsTss gdt i tssP) : (loadTssDesc gdt i).base0 = tssP.setWidth 24 := by
  have hbase0 : getField (tssDescLow tssP).bits 16 24 = tssP.setWidth 24 :=
    congrArg SegDesc.base0 (tssDescLow tssP).ofBits_bits
  change getField ((gdt (i + 1)).bits ++ (gdt i).bits) 16 24 = _
  rw [getField_append_low _ _ (by omega), h.low, hbase0]

/-- A bit of a part of a word. -/
theorem getLsbD_part (w : BitVec 64) {k m i j : Nat} (hi : i < m) (hj : k + i = j) :
    ((w >>> k).setWidth m).getLsbD i = w.getLsbD j := by
  rw [← hj]
  simp [hi]

theorem HoldsTss.base1 (h : HoldsTss gdt i tssP) :
    (loadTssDesc gdt i).base1 = (tssP >>> 24).setWidth 40 := by
  change getField ((gdt (i + 1)).bits ++ (gdt i).bits) 56 40 = _
  refine BitVec.eq_of_getLsbD_eq fun j hj => ?_
  rw [getLsbD_getField, h.low, h.high, BitVec.getLsbD_append, decide_eq_true hj, Bool.true_and,
    getLsbD_part tssP hj rfl]
  by_cases hlow : j < 8
  · rw [if_pos (by omega)]
    simp (disch := omega) only [SegDesc.bits, tssDescLow, getLsbD_setField_inside]
    exact getLsbD_part tssP (by omega) (by omega)
  rw [if_neg (by omega)]
  by_cases hmid : j < 24
  · simp (disch := omega) only [SegDesc.bits, tssDescHigh, getLsbD_setField_inside,
      getLsbD_setField_apart]
    exact getLsbD_part tssP (by omega) (by omega)
  · simp (disch := omega) only [SegDesc.bits, tssDescHigh, getLsbD_setField_inside,
      getLsbD_setField_apart]
    exact getLsbD_part tssP (by omega) (by omega)

/-- The base is read back. -/
theorem HoldsTss.getGdtTssBase (h : HoldsTss gdt i tssP) :
    getGdtTssBase gdt (BitVec.ofNat 16 (i <<< 3)) = tssP := by
  have hlt := h.inside
  rw [gdtEntryNr] at hlt
  have hsel : (BitVec.ofNat 16 (i <<< 3) >>> 3).toNat = i := by
    rw [BitVec.toNat_ushiftRight, BitVec.toNat_ofNat, Nat.shiftLeft_eq, Nat.shiftRight_eq_div_pow]
    omega
  rw [Smp.getGdtTssBase, hsel, h.base1, h.base0]
  refine BitVec.eq_of_getLsbD_eq fun j hj => ?_
  by_cases hlow : j < 24
  · simp [hj, hlow]
  · have hsub : 24 + (j - 24) = j := by omega
    simp [hj, hlow, hsub]
    omega

end Read

/-! ## Runs -/

/-- A call, made after the one before has returned. -/
inductive TssAct where
  | allocTssDesc (tssP : BitVec 64)
  | percpuInit (limit : BitVec 64)
deriving DecidableEq, Repr

/-- The GDT, and the selectors returned with what they were allocated for. -/
structure TssMachine where
  gdt : Gdt
  returned : List (BitVec 16 × BitVec 64)

namespace TssMachine

/-- Before the first call. -/
def init (gdt : Gdt) : TssMachine := ⟨gdt, []⟩

/-- One call. After a panic there is none. -/
def next (s : TssMachine) : TssAct → Option TssMachine
  | .allocTssDesc tssP =>
    match Smp.allocTssDesc s.gdt tssP with
    | (.ok sel, gdt) => some ⟨gdt, s.returned ++ [(sel, tssP)]⟩
    | (.error _, _) => none
  | .percpuInit limit =>
    match percpuInitDesc s.gdt limit with
    | (.ok _, gdt) => some ⟨gdt, s.returned⟩
    | (.error _, _) => none

/-- One call of the machine. -/
def Step (s : TssMachine) (a : TssAct) (t : TssMachine) : Prop := s.next a = some t

/-- From `s` to `t`, every present descriptor is left as it was. -/
def Keeps (s t : TssMachine) : Prop := ∀ i, (s.gdt i).p = true → t.gdt i = s.gdt i

section Steps

variable {s t : TssMachine} {a : TssAct}

/-- What a call does: the slots it finds, and what it leaves. -/
theorem step_cases (h : s.Step a t) :
    (∃ tssP i, tssScan s.gdt = some i ∧
      t = ⟨writeTss s.gdt i tssP, s.returned ++ [(BitVec.ofNat 16 (i <<< 3), tssP)]⟩) ∨
    ∃ limit i, percpuScan s.gdt = some i ∧
      t = ⟨Function.update s.gdt i (percpuDesc (s.gdt i) limit), s.returned⟩ := by
  cases a with
  | allocTssDesc tssP =>
    rw [Step, next, allocTssDesc_eq] at h
    cases hscan : tssScan s.gdt with
    | none =>
      rw [hscan] at h
      cases h
    | some i =>
      rw [hscan] at h
      exact Or.inl ⟨tssP, i, rfl, (Option.some.inj h).symm⟩
  | percpuInit limit =>
    rw [Step, next, percpuInitDesc] at h
    cases hscan : percpuScan s.gdt with
    | none =>
      rw [hscan] at h
      cases h
    | some i =>
      rw [hscan] at h
      exact Or.inr ⟨limit, i, rfl, (Option.some.inj h).symm⟩

/-- A call leaves the present descriptors alone. -/
theorem step_keeps (h : s.Step a t) : s.Keeps t := by
  intro j hj
  rcases step_cases h with ⟨tssP, i, hscan, rfl⟩ | ⟨limit, i, hscan, rfl⟩
  · exact writeTss_of_present hscan tssP hj
  · apply Function.update_of_ne
    rintro rfl
    rw [(percpuScan_spec hscan).1] at hj
    cases hj

/-- Every selector returned is that of two slots which hold the descriptor. -/
def Inv (s : TssMachine) : Prop :=
  ∀ c ∈ s.returned, ∃ i, c.1 = BitVec.ofNat 16 (i <<< 3) ∧ HoldsTss s.gdt i c.2

theorem step_inv (hs : s.Inv) (h : s.Step a t) : t.Inv := by
  have hkeep : ∀ {i tssP}, HoldsTss s.gdt i tssP → HoldsTss t.gdt i tssP := by
    intro i tssP hold
    refine ⟨hold.inside, ?_, ?_⟩
    · rw [step_keeps h i (hold.low ▸ rfl), hold.low]
    · rw [step_keeps h (i + 1) (hold.high ▸ rfl), hold.high]
  intro c hc
  rcases step_cases h with ⟨tssP, i, hscan, ht⟩ | ⟨limit, i, hscan, ht⟩
  · rw [ht] at hc
    rcases List.mem_append.mp hc with hold | hnew
    · obtain ⟨j, hsel, hj⟩ := hs c hold
      exact ⟨j, hsel, hkeep hj⟩
    · obtain rfl := List.mem_singleton.mp hnew
      obtain ⟨-, -, -, hlast⟩ := tssScan_spec hscan
      rw [ht]
      exact ⟨i, rfl, holdsTss_writeTss s.gdt tssP hlast⟩
  · rw [ht] at hc
    obtain ⟨j, hsel, hj⟩ := hs c hc
    exact ⟨j, hsel, hkeep hj⟩

end Steps

end TssMachine

/-- Two adjacent free slots from `GDT_START` on. -/
def FreePair (gdt : Gdt) (i : Nat) : Prop :=
  gdtStart ≤ i ∧ i + 1 < gdtEntryNr ∧ (gdt i).p = false ∧ (gdt (i + 1)).p = false

/-- Every selector decodes to its pointer, the next call leaves the present descriptors alone, and
`alloc_tss_desc` without a free pair panics and leaves the GDT alone. -/
structure TssMachine.Decodes (s : TssMachine) : Prop where
  base : ∀ c ∈ s.returned, getGdtTssBase s.gdt c.1 = c.2
  keeps : ∀ a t, s.Step a t → s.Keeps t
  full : (∀ i, ¬FreePair s.gdt i) → ∀ tssP,
    allocTssDesc s.gdt tssP = (.error (.panic "alloc_tss_desc" "out of GDT entries"), s.gdt)

/-- **TSS descriptors** decode to the pointer they were allocated for, after any run of calls from
any GDT. -/
theorem tss_descriptors_decode (gdt : Gdt) (tr : List TssAct) (s : TssMachine)
    (hrun : Runs TssMachine.Step (.init gdt) tr s) : s.Decodes := by
  have hinv : s.Inv := hrun.invariant (fun _ _ _ => TssMachine.step_inv) nofun
  constructor
  · intro c hc
    obtain ⟨i, hsel, hold⟩ := hinv c hc
    rw [hsel]
    exact hold.getGdtTssBase
  · exact fun _ _ => TssMachine.step_keeps
  · intro hnone tssP
    have hscan : tssScan s.gdt = none := by
      apply tssScan_eq_none
      intro i hlo hhi
      by_contra hfree
      rw [not_or, Bool.not_eq_true, Bool.not_eq_true] at hfree
      exact hnone i ⟨hlo, hhi, hfree.1, hfree.2⟩
    rw [allocTssDesc_eq, hscan]

/-- Two TSSs around a descriptor of `percpu_init`. -/
theorem tss_descriptors_decode_two : ∃ s, Runs TssMachine.Step (.init emptyGdt)
    [.allocTssDesc 0xffff80000000f00d, .percpuInit 0xfff, .allocTssDesc 0x123456789abcdef0] s ∧
      s.returned = [(0x18, 0xffff80000000f00d), (0x30, 0x123456789abcdef0)] ∧ s.Decodes := by
  have hsome : (follow TssMachine.next (.init emptyGdt)
      [.allocTssDesc 0xffff80000000f00d, .percpuInit 0xfff, .allocTssDesc 0x123456789abcdef0]).any
      (fun t => decide (t.returned = [(0x18, 0xffff80000000f00d), (0x30, 0x123456789abcdef0)])) =
        true := by decide
  obtain ⟨t, ht, hp⟩ := Option.any_eq_true _ _ |>.mp hsome
  exact ⟨t, runs_of_follow ht, of_decide_eq_true hp,
    tss_descriptors_decode emptyGdt _ t (runs_of_follow ht)⟩

end Rtv.Smp
