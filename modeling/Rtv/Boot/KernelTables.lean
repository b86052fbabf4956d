import Mathlib.Tactic.IntervalCases
import Rtv.Lib.Bytes
import Rtv.Lib.Exec
import Rtv.Mm.Paging
import Rtv.Smp.Gdt

/-!
# The first page tables

`arch/x86_64/boot/boot.S: _start`, from where it sets up the identity mapping of the first 2MB to
the recursive entry. It runs with 32-bit registers and no paging. Three chained loops fill
`kernel_page_tables`, each round with two `stosl`: the low half of an entry comes from `%eax`, which
is kept in `%ebx` while the high half is written, and which goes on from one loop to the next.

**The law** (`start_maps`): for all page counts, entry `k` maps page `k` of the kernel image, and is
present and writable as its section asks.

## What is proved

The high half that is meant to disable execution, `0x10000000`, sets bit 60 of the entry. The bit
the processor reads is 63, `PGT_XD` of `vm.h`. So no page of the image is execute-disabled, and the
protection fails for all page counts (`start_protected_never`).
-/

namespace Rtv.Boot

open Rtv.Lib

/-! ## The machine -/

/-- The registers that the code uses, and memory. The direction flag is clear. -/
structure Cpu where
  eax : BitVec 32
  ebx : BitVec 32
  ecx : BitVec 32
  edi : BitVec 32
  mem : Bytes

namespace Cpu

/-- `movl %eax, addr`. -/
def movl (c : Cpu) (addr : BitVec 32) : Cpu :=
  { c with mem := c.mem.storeLE addr.toNat 4 c.eax.toNat }

/-- `stosl`. -/
def stosl (c : Cpu) : Cpu :=
  { c with mem := c.mem.storeLE c.edi.toNat 4 c.eax.toNat, edi := c.edi + 4#32 }

/-- `loop` back to the start of `body`: `%ecx` is decremented after a round, and the next one
follows unless it is 0. -/
def loop (body : Cpu → Cpu) : Nat → Cpu → Exec Cpu
  | 0, _ => .error .hang
  | fuel + 1, c =>
    let c := body c
    let c := { c with ecx := c.ecx - 1#32 }
    if c.ecx = 0#32 then return c
    else loop body fuel c

end Cpu

/-! ## The code -/

/-- The addresses of `boot.o` and the symbols of `link.ld` that `_start` uses. -/
structure Symbols where
  pml4t : BitVec 32
  gdt64 : BitVec 32
  kernelStartPa : BitVec 32
  kernelCodePages : BitVec 32
  kernelRoPages : BitVec 32
  kernelRwPages : BitVec 32

namespace Symbols

/-- `pdpt`, the page after `pml4t`. -/
def pdpt (y : Symbols) : BitVec 32 := y.pml4t + 0x1000#32

/-- `pdt`. -/
def pdt (y : Symbols) : BitVec 32 := y.pdpt + 0x1000#32

/-- `kernel_page_tables`, two pages. -/
def kernelPageTables (y : Symbols) : BitVec 32 := y.pdt + 0x1000#32

/-- `idt64`, after the entries of `gdt64`. -/
def idt64 (y : Symbols) : BitVec 32 := y.gdt64 + BitVec.ofNat 32 (8 * Smp.gdtEntryNr)

/-- The pages of the kernel image. -/
def pages (y : Symbols) : Nat :=
  y.kernelCodePages.toNat + y.kernelRoPages.toNat + y.kernelRwPages.toNat

/-- What the link makes sure of: the boot pages lie below the kernel image and that below 2MB, each
part of the image has a page, and there is an entry for every page, the GDT and the IDT. -/
structure Linked (y : Symbols) : Prop where
  start : y.kernelStartPa.toNat % 0x1000 = 0
  start_le : y.kernelStartPa.toNat ≤ 0x200000
  tables : y.pml4t.toNat + 0x5000 ≤ y.kernelStartPa.toNat
  gdt : y.gdt64.toNat % 0x1000 = 0
  gdt_le : y.gdt64.toNat + 0x2000 ≤ y.kernelStartPa.toNat
  code : 1 ≤ y.kernelCodePages.toNat
  ro : 1 ≤ y.kernelRoPages.toNat
  rw : 1 ≤ y.kernelRwPages.toNat
  fit : y.pages + 2 ≤ 1024

end Symbols

/-- The body of the three loops; `high` is the high half of the entries. -/
def fillRound (high : BitVec 32) (c : Cpu) : Cpu :=
  let c := c.stosl
  let c := { c with eax := c.eax + 0x1000#32 }
  let c := { c with ebx := c.eax }
  let c := { c with eax := high }
  let c := c.stosl
  { c with eax := c.ebx }

/-- The high half with the comment "execute disable". -/
def executeDisable : BitVec 32 := 0x10000000#32

/-- The entry for a descriptor table. -/
def mapTable (table : BitVec 32) (c : Cpu) : Cpu :=
  let c := { c with eax := table + 3#32 }
  let c := c.stosl
  let c := { c with eax := executeDisable }
  c.stosl

/-- The tables above `kernel_page_tables`: the identity mapping of the first 2MB and the two tables
of the kernel mapping. -/
def startUpper (y : Symbols) (c : Cpu) : Cpu :=
  let c := { c with eax := y.pdpt + 3#32 }
  let c := c.movl y.pml4t
  let c := { c with eax := y.pdt + 3#32 }
  let c := c.movl y.pdpt
  let c := { c with eax := 0x83#32 }
  let c := c.movl y.pdt
  let c := { c with eax := y.kernelPageTables + 3#32 }
  let c := c.movl (y.pdt + 8#32)
  let c := { c with eax := c.eax + 0x1000#32 }
  c.movl (y.pdt + 16#32)

/-- The recursive mapping in the last entry. -/
def startRecursive (y : Symbols) (c : Cpu) : Cpu :=
  let c := { c with eax := y.pml4t + 3#32 }
  let c := c.movl (y.pml4t + 4088#32)
  let c := { c with eax := executeDisable }
  c.movl (y.pml4t + 4092#32)

/-- `_start`, the page tables. -/
def start (y : Symbols) (c : Cpu) : Exec Cpu := do
  let c := startUpper y c
  let c := { c with edi := y.kernelPageTables }
  -- code
  let c := { c with eax := y.kernelStartPa + 1#32 }
  let c := { c with ecx := y.kernelCodePages }
  let c ← Cpu.loop (fillRound 0#32) loopFuel c
  -- ro data
  let c := { c with ecx := y.kernelRoPages }
  let c ← Cpu.loop (fillRound executeDisable) loopFuel c
  -- rw data
  let c := { c with eax := c.eax ||| 3#32 }
  let c := { c with ecx := y.kernelRwPages }
  let c ← Cpu.loop (fillRound executeDisable) loopFuel c
  let c := mapTable y.gdt64 c
  let c := mapTable y.idt64 c
  return startRecursive y c

/-! ## What the tables should be -/

/-- Entry `k` of `kernel_page_tables`. -/
def Symbols.entry (y : Symbols) (m : Bytes) (k : Nat) : BitVec 64 :=
  BitVec.ofNat 64 (m.loadLE (y.kernelPageTables.toNat + 8 * k) 8)

/-- What the processor lets a present page be used for. -/
structure Rights where
  present : Bool
  writable : Bool
  executable : Bool
deriving DecidableEq, Repr

/-- The rights an entry gives, by its bits `PGT_P`, `PGT_RW` and `PGT_XD`. -/
def rights (e : BitVec 64) : Rights where
  present := e &&& Mm.pgtP != 0#64
  writable := e &&& Mm.pgtRw != 0#64
  executable := e &&& Mm.pgtXd == 0#64

/-- The kernel mapping as it is meant: page after page of the image, and none of them writable and
executable. -/
structure Symbols.Protected (y : Symbols) (m : Bytes) : Prop where
  frames : ∀ k < y.pages,
    Mm.entryFrame (y.entry m k) * 0x1000 = y.kernelStartPa.toNat + k * 0x1000
  code : ∀ k < y.kernelCodePages.toNat, rights (y.entry m k) = ⟨true, false, true⟩
  ro : ∀ k, y.kernelCodePages.toNat ≤ k → k < y.kernelCodePages.toNat + y.kernelRoPages.toNat →
    rights (y.entry m k) = ⟨true, false, false⟩
  rw : ∀ k, y.kernelCodePages.toNat + y.kernelRoPages.toNat ≤ k → k < y.pages + 2 →
    rights (y.entry m k) = ⟨true, true, false⟩

/-! ## Filling -/

namespace Symbols

/-- The low half of the entry for page `k`, with its flags. -/
def pageWord (y : Symbols) (flags : BitVec 32) (k : Nat) : BitVec 32 :=
  y.kernelStartPa + flags + BitVec.ofNat 32 (0x1000 * k)

/-- Entry `k` as `_start` writes it. -/
def emitted (y : Symbols) (k : Nat) : BitVec 64 :=
  if k < y.kernelCodePages.toNat then 0#32 ++ y.pageWord 1#32 k
  else if k < y.kernelCodePages.toNat + y.kernelRoPages.toNat then executeDisable ++ y.pageWord 1#32 k
  else if k < y.pages then executeDisable ++ y.pageWord 3#32 k
  else if k = y.pages then executeDisable ++ (y.gdt64 + 3#32)
  else executeDisable ++ (y.idt64 + 3#32)

variable {y : Symbols} {k : Nat}

theorem Linked.kernelPageTables (h : y.Linked) :
    y.kernelPageTables.toNat = y.pml4t.toNat + 0x3000 := by
  have hlow := h.tables
  have hstart := h.start_le
  simp only [Symbols.kernelPageTables, pdt, pdpt, BitVec.toNat_add, BitVec.toNat_ofNat]
  omega

theorem Linked.pageWord_toNat (h : y.Linked) {flags : BitVec 32} (hflags : flags.toNat ≤ 3)
    (hk : k < y.pages) :
    (y.pageWord flags k).toNat = y.kernelStartPa.toNat + flags.toNat + 0x1000 * k := by
  have hstart := h.start_le
  have hfit := h.fit
  simp only [pageWord, BitVec.toNat_add, BitVec.toNat_ofNat]
  omega

end Symbols

section Filling

variable {y : Symbols} {c c' : Cpu} {k : Nat} {low high : BitVec 32}

/-- The first `k` entries are written, and the next one comes after them. -/
structure Emitted (y : Symbols) (k : Nat) (c : Cpu) : Prop where
  edi : c.edi.toNat = y.kernelPageTables.toNat + 8 * k
  entries : ∀ j < k, y.entry c.mem j = y.emitted j

/-- An entry is read back from its two halves. -/
theorem entry_storeLE {m : Bytes} {a : Nat} (ha : a = y.kernelPageTables.toNat + 8 * k) :
    y.entry ((m.storeLE a 4 low.toNat).storeLE (a + 4) 4 high.toNat) k = high ++ low := by
  have hlow := low.isLt
  have hhigh := high.isLt
  apply BitVec.eq_of_toNat_eq
  rw [Symbols.entry, ← ha, Bytes.loadLE_add _ a 4 4, Bytes.loadLE_storeLE_same,
    Bytes.loadLE_storeLE_apart (Or.inl le_rfl), Bytes.loadLE_storeLE_same, BitVec.toNat_ofNat,
    BitVec.toNat_append, ← Nat.shiftLeft_add_eq_or_of_lt low.isLt, Nat.shiftLeft_eq]
  omega

/-- Two `stosl` write the next entry. -/
theorem Emitted.store (h : Emitted y k c) (hl : y.Linked) (hk : k < 1024)
    (hedi : c'.edi = c.edi + 4#32 + 4#32)
    (hmem : c'.mem = (c.mem.storeLE c.edi.toNat 4 low.toNat).storeLE (c.edi + 4#32).toNat 4 high.toNat)
    (hword : y.emitted k = high ++ low) : Emitted y (k + 1) c' := by
  have htables := hl.kernelPageTables
  have hbelow := hl.tables
  have hstart := hl.start_le
  have hat := h.edi
  have hnext : (c.edi + 4#32).toNat = c.edi.toNat + 4 := by
    rw [BitVec.toNat_add, BitVec.toNat_ofNat]
    omega
  constructor
  · rw [hedi, BitVec.toNat_add, hnext, BitVec.toNat_ofNat]
    omega
  · intro j hj
    rw [hmem, hnext]
    rcases Nat.lt_succ_iff_lt_or_eq.mp hj with hlt | rfl
    · rw [← h.entries j hlt, Symbols.entry, Symbols.entry, Bytes.loadLE_storeLE_apart (by omega),
        Bytes.loadLE_storeLE_apart (by omega)]
    · rw [entry_storeLE h.edi, hword]

/-- A round of a loop. -/
theorem Emitted.round (h : Emitted y k c) (hl : y.Linked) (hk : k < 1024)
    (hword : y.emitted k = high ++ c.eax) : Emitted y (k + 1) (fillRound high c) :=
  h.store hl hk rfl rfl hword

@[simp] theorem fillRound_ecx : (fillRound high c).ecx = c.ecx := by
  rw [fillRound]
  rfl

@[simp] theorem fillRound_eax : (fillRound high c).eax = c.eax + 0x1000#32 := by
  rw [fillRound]
  rfl

/-- **A loop fills as many entries as it counts.** The address goes up by a page for each. -/
theorem Emitted.loop {n fuel : Nat} (h : Emitted y k c) (hl : y.Linked) (hfit : k + n ≤ 1024)
    (hn : 1 ≤ n) (hecx : c.ecx.toNat = n) (hfuel : n ≤ fuel)
    (hwords : ∀ i < n, y.emitted (k + i) = high ++ (c.eax + BitVec.ofNat 32 (0x1000 * i))) :
    ∃ c', Cpu.loop (fillRound high) fuel c = .ok c' ∧ Emitted y (k + n) c' ∧
      c'.eax = c.eax + BitVec.ofNat 32 (0x1000 * n) := by
  induction n generalizing k c fuel with
  | zero => exact absurd hn (Nat.not_succ_le_zero 0)
  | succ n ih =>
    obtain ⟨fuel, rfl⟩ := Nat.exists_eq_succ_of_ne_zero (Nat.ne_zero_of_lt hfuel)
    have hround : Emitted y (k + 1) (fillRound high c) := by
      apply h.round hl (by omega)
      have hword := hwords 0 (Nat.succ_pos n)
      rwa [Nat.mul_zero, BitVec.add_zero, Nat.add_zero] at hword
    have hcount : (c.ecx - 1#32).toNat = n := by
      have hlt := c.ecx.isLt
      rw [BitVec.toNat_sub, BitVec.toNat_ofNat]
      omega
    simp only [Cpu.loop, fillRound_ecx]
    by_cases hlast : c.ecx - 1#32 = 0#32
    · obtain rfl : n = 0 := by rw [← hcount, hlast]; rfl
      rw [if_pos hlast, Nat.zero_add, Nat.mul_one]
      refine ⟨_, rfl, ⟨hround.edi, hround.entries⟩, ?_⟩
      simp only [fillRound_eax]
    · have hpos : 1 ≤ n := by
        rw [← hcount]
        exact Nat.pos_of_ne_zero fun hzero => hlast (BitVec.eq_of_toNat_eq hzero)
      have hstep : ∀ i, c.eax + 0x1000#32 + BitVec.ofNat 32 (0x1000 * i) =
          c.eax + BitVec.ofNat 32 (0x1000 * (i + 1)) := by
        intro i
        apply BitVec.eq_of_toNat_eq
        simp only [BitVec.toNat_add, BitVec.toNat_ofNat]
        omega
      obtain ⟨c', hrun, hdone, heax⟩ := ih (k := k + 1)
        (c := { fillRound high c with ecx := c.ecx - 1#32 }) ⟨hround.edi, hround.entries⟩
        (by omega) hpos hcount (Nat.le_of_succ_le_succ hfuel) (fun i hi => by
          rw [Nat.add_right_comm, Nat.add_assoc, hwords (i + 1) (by omega)]
          exact congrArg (high ++ ·) (hstep i).symm)
      rw [fillRound_eax, hstep] at heax
      rw [Nat.add_right_comm, Nat.add_assoc] at hdone
      rw [if_neg hlast]
      exact ⟨c', hrun, hdone, heax⟩

/-- The entry of a descriptor table. -/
theorem Emitted.mapTable {table : BitVec 32} (h : Emitted y k c) (hl : y.Linked) (hk : k < 1024)
    (hword : y.emitted k = executeDisable ++ (table + 3#32)) :
    Emitted y (k + 1) (mapTable table c) :=
  h.store hl hk rfl rfl hword

/-- The recursive mapping leaves the kernel's tables as they are. -/
theorem Emitted.recursive (h : Emitted y k c) (hl : y.Linked) {j : Nat} (hj : j < k) :
    y.entry (startRecursive y c).mem j = y.emitted j := by
  have htables := hl.kernelPageTables
  have hbelow := hl.tables
  have hstart := hl.start_le
  have h₀ : (y.pml4t + 4088#32).toNat = y.pml4t.toNat + 4088 := by
    rw [BitVec.toNat_add, BitVec.toNat_ofNat]
    omega
  have h₁ : (y.pml4t + 4092#32).toNat = y.pml4t.toNat + 4092 := by
    rw [BitVec.toNat_add, BitVec.toNat_ofNat]
    omega
  rw [← h.entries j hj]
  simp only [startRecursive, Cpu.movl, Symbols.entry, h₀, h₁]
  rw [Bytes.loadLE_storeLE_apart (by omega), Bytes.loadLE_storeLE_apart (by omega)]

/-- Setting the low two bits of a number with remainder 1. -/
theorem or_three {x : BitVec 32} (h : x.toNat % 4 = 1) : x ||| 3#32 = x + 2#32 := by
  have hx := x.isLt
  have hdiv := Nat.or_div_two_pow (a := x.toNat) (b := 3) (n := 2)
  have hmod := Nat.or_mod_two_pow (a := x.toNat) (b := 3) (n := 2)
  have hone : x.toNat % 2 ^ 2 = 1 := h
  rw [hone] at hmod
  have hzero : x.toNat / 2 ^ 2 ||| 3 / 2 ^ 2 = x.toNat / 2 ^ 2 := Nat.or_zero _
  rw [hzero] at hdiv
  have hlast : 1 ||| 3 % 2 ^ 2 = 3 := rfl
  rw [hlast] at hmod
  have hthree : (3#32).toNat = 3 := rfl
  apply BitVec.eq_of_toNat_eq
  rw [BitVec.toNat_or, hthree, BitVec.toNat_add, BitVec.toNat_ofNat]
  omega

end Filling

/-- A page further. -/
theorem Symbols.pageWord_add (y : Symbols) (flags : BitVec 32) (k i : Nat) :
    y.pageWord flags k + BitVec.ofNat 32 (0x1000 * i) = y.pageWord flags (k + i) := by
  rw [pageWord, pageWord, BitVec.add_assoc, ← BitVec.ofNat_add, Nat.mul_add]

/-- The loop for the rw data starts where the one for the ro data ended, with the flag for writes. -/
theorem Symbols.Linked.pageWord_or {y : Symbols} (h : y.Linked) {k : Nat} (hk : k < y.pages) :
    y.pageWord 1#32 k ||| 3#32 = y.pageWord 3#32 k := by
  have haligned := h.start
  have hone : (1#32).toNat = 1 := rfl
  have hthree : (3#32).toNat = 3 := rfl
  have htwo : (2#32).toNat = 2 := rfl
  have hread : (y.pageWord 1#32 k).toNat = _ := h.pageWord_toNat (by decide) hk
  have hwrite : (y.pageWord 3#32 k).toNat = _ := h.pageWord_toNat (by decide) hk
  have hlt := (y.pageWord 3#32 k).isLt
  apply BitVec.eq_of_toNat_eq
  rw [or_three (by omega), BitVec.toNat_add]
  omega

/-- A count in a register is no more than a loop can make. -/
theorem toNat_le_loopFuel (b : BitVec 32) : b.toNat ≤ loopFuel :=
  (Nat.le_of_lt b.isLt).trans (Nat.pow_le_pow_right (by decide) (by decide))

/-- A change of the other registers. -/
theorem Emitted.regs {y : Symbols} {k : Nat} {c : Cpu} (h : Emitted y k c) (eax ecx : BitVec 32) :
    Emitted y k { c with eax, ecx } :=
  ⟨h.edi, h.entries⟩

/-- **What `_start` writes.** It returns, and the entries for the image, the GDT and the IDT are
filled one after the other, whatever the page counts are. -/
theorem start_entries (y : Symbols) (h : y.Linked) (c : Cpu) : ∃ c', start y c = .ok c' ∧
    ∀ k < y.pages + 2, y.entry c'.mem k = y.emitted k := by
  have hpages : y.pages =
    y.kernelCodePages.toNat + y.kernelRoPages.toNat + y.kernelRwPages.toNat := rfl
  have hfit := h.fit
  have hro := h.ro
  have hrw := h.rw
  -- code
  have hstart : Emitted y 0 { startUpper y c with
      edi := y.kernelPageTables, eax := y.kernelStartPa + 1#32, ecx := y.kernelCodePages } := by
    constructor
    · exact (Nat.add_zero _).symm
    · exact fun j hj => absurd hj (Nat.not_lt_zero j)
  have hfirst : y.kernelStartPa + 1#32 = y.pageWord 1#32 0 := (BitVec.add_zero _).symm
  have hcode : ∀ i < y.kernelCodePages.toNat, y.emitted (0 + i) =
      0#32 ++ (y.kernelStartPa + 1#32 + BitVec.ofNat 32 (0x1000 * i)) := by
    intro i hi
    rw [hfirst, y.pageWord_add, Nat.zero_add, Symbols.emitted, if_pos hi]
  obtain ⟨c₁, hrun₁, hc₁, heax₁⟩ := hstart.loop h (by omega) h.code rfl (toNat_le_loopFuel _) hcode
  simp only [hfirst, y.pageWord_add, Nat.zero_add] at hc₁ heax₁
  -- ro data
  have hroWords : ∀ i < y.kernelRoPages.toNat, y.emitted (y.kernelCodePages.toNat + i) =
      executeDisable ++ (c₁.eax + BitVec.ofNat 32 (0x1000 * i)) := by
    intro i hi
    rw [heax₁, y.pageWord_add, Symbols.emitted, if_neg (by omega), if_pos (by omega)]
  obtain ⟨c₂, hrun₂, hc₂, heax₂⟩ := (hc₁.regs c₁.eax y.kernelRoPages).loop h (by omega) hro rfl
    (toNat_le_loopFuel _) hroWords
  simp only [heax₁, y.pageWord_add] at heax₂
  -- rw data
  have hor : c₂.eax ||| 3#32 =
      y.pageWord 3#32 (y.kernelCodePages.toNat + y.kernelRoPages.toNat) := by
    rw [heax₂]
    exact h.pageWord_or (by omega)
  have hrwWords : ∀ i < y.kernelRwPages.toNat,
      y.emitted (y.kernelCodePages.toNat + y.kernelRoPages.toNat + i) =
        executeDisable ++ ((c₂.eax ||| 3#32) + BitVec.ofNat 32 (0x1000 * i)) := by
    intro i hi
    rw [hor, y.pageWord_add, Symbols.emitted, if_neg (by omega), if_neg (by omega), if_pos (by omega)]
  obtain ⟨c₃, hrun₃, hc₃, -⟩ := (hc₂.regs (c₂.eax ||| 3#32) y.kernelRwPages).loop h (by omega) hrw
    rfl (toNat_le_loopFuel _) hrwWords
  rw [← hpages] at hc₃
  -- GDT and IDT
  have hgdt : Emitted y (y.pages + 1) (mapTable y.gdt64 c₃) := by
    apply hc₃.mapTable h (by omega)
    rw [Symbols.emitted, if_neg (by omega), if_neg (by omega), if_neg (by omega), if_pos rfl]
  have hidt : Emitted y (y.pages + 2) (mapTable y.idt64 (mapTable y.gdt64 c₃)) := by
    apply hgdt.mapTable h (by omega)
    rw [Symbols.emitted, if_neg (by omega), if_neg (by omega), if_neg (by omega),
      if_neg (by omega)]
  refine ⟨startRecursive y (mapTable y.idt64 (mapTable y.gdt64 c₃)), ?_, ?_⟩
  · simp only [start]
    rw [hrun₁, Exec.ok_bind, hrun₂, Exec.ok_bind, hrun₃]
    rfl
  · intro k hk
    exact hidt.recursive h hk

/-! ## What the processor makes of it -/

section Meaning

variable {y : Symbols} {k : Nat}

/-- The rights of an entry, bit by bit. -/
theorem rights_eq (e : BitVec 64) : rights e = ⟨e.getLsbD 0, e.getLsbD 1, !e.getLsbD 63⟩ := by
  have hp : (e &&& Mm.pgtP != 0#64) = e.getLsbD 0 :=
    Utils.and_one_shiftLeft_ne_zero e 0 (by decide)
  have hrw : (e &&& Mm.pgtRw != 0#64) = e.getLsbD 1 :=
    Utils.and_one_shiftLeft_ne_zero e 1 (by decide)
  have hxd : (e &&& Mm.pgtXd != 0#64) = e.getLsbD 63 :=
    Utils.and_one_shiftLeft_ne_zero e 63 (by decide)
  rw [rights, hp, hrw, ← hxd, bne, Bool.not_not]

/-- The rights of an entry in its two halves. -/
theorem rights_append (high low : BitVec 32) :
    rights (high ++ low) = ⟨low.getLsbD 0, low.getLsbD 1, !high.getLsbD 31⟩ := by
  rw [rights_eq, BitVec.getLsbD_append, BitVec.getLsbD_append, BitVec.getLsbD_append,
    if_pos (by decide), if_pos (by decide), if_neg (by decide)]

/-- The flags of a page's entry are the low bits of its address. -/
theorem Symbols.Linked.flags_pageWord (h : y.Linked) {flags : BitVec 32} (hflags : flags.toNat ≤ 3)
    (hk : k < y.pages) {i : Nat} (hi : i ≤ 1) :
    (y.pageWord flags k).getLsbD i = flags.getLsbD i := by
  have haligned := h.start
  rw [← BitVec.testBit_toNat, ← BitVec.testBit_toNat, h.pageWord_toNat hflags hk,
    Nat.testBit_eq_decide_div_mod_eq, Nat.testBit_eq_decide_div_mod_eq, decide_eq_decide]
  interval_cases i <;> omega

/-- The flags of a descriptor table's entry. -/
theorem flags_table {table : BitVec 32} (h : table.toNat % 0x1000 = 0) {i : Nat} (hi : i ≤ 1) :
    (table + 3#32).getLsbD i = true := by
  rw [← BitVec.testBit_toNat, Nat.testBit_eq_decide_div_mod_eq, decide_eq_true_iff,
    BitVec.toNat_add, BitVec.toNat_ofNat]
  interval_cases i <;> omega

/-- Every entry is present, and all of them allow execution. -/
theorem Symbols.Linked.rights_emitted (h : y.Linked) (hk : k < y.pages + 2) :
    rights (y.emitted k) =
      ⟨true, decide (y.kernelCodePages.toNat + y.kernelRoPages.toNat ≤ k), true⟩ := by
  have hpages : y.pages =
    y.kernelCodePages.toNat + y.kernelRoPages.toNat + y.kernelRwPages.toNat := rfl
  have hgdt := h.gdt
  have hidt : y.idt64.toNat % 0x1000 = 0 := by
    rw [Symbols.idt64, Smp.gdtEntryNr, BitVec.toNat_add, BitVec.toNat_ofNat]
    omega
  have hone : (1#32).toNat ≤ 3 := by decide
  have hthree : (3#32).toNat ≤ 3 := by decide
  rw [Symbols.emitted]
  split_ifs with hcode hro hrw hlast
  · rw [rights_append, h.flags_pageWord hone (by omega) (by decide),
      h.flags_pageWord hone (by omega) le_rfl, decide_eq_false (by omega)]
    rfl
  · rw [rights_append, h.flags_pageWord hone (by omega) (by decide),
      h.flags_pageWord hone (by omega) le_rfl, decide_eq_false (by omega)]
    rfl
  · rw [rights_append, h.flags_pageWord hthree hrw (by decide),
      h.flags_pageWord hthree hrw le_rfl, decide_eq_true (by omega)]
    rfl
  · rw [rights_append, flags_table hgdt (by decide), flags_table hgdt le_rfl,
      decide_eq_true (by omega)]
    rfl
  · rw [rights_append, flags_table hidt (by decide), flags_table hidt le_rfl,
      decide_eq_true (by omega)]
    rfl

/-- The frame of an entry whose high half has only ignored bits. -/
theorem entryFrame_append {high low : BitVec 32} (hhigh : high.toNat % 2 ^ 20 = 0) :
    Mm.entryFrame (high ++ low) = low.toNat / 2 ^ 12 := by
  have hlow := low.isLt
  rw [Mm.entryFrame, BitVec.toNat_append, ← Nat.shiftLeft_add_eq_or_of_lt low.isLt,
    Nat.shiftLeft_eq]
  omega

/-- Entry `k` maps page `k` of the image. -/
theorem Symbols.Linked.entryFrame_emitted (h : y.Linked) (hk : k < y.pages) :
    Mm.entryFrame (y.emitted k) * 0x1000 = y.kernelStartPa.toNat + k * 0x1000 := by
  have haligned := h.start
  have hone : (1#32).toNat = 1 := rfl
  have hthree : (3#32).toNat = 3 := rfl
  have hframe : ∀ {f : BitVec 32}, f.toNat ≤ 3 →
      (y.pageWord f k).toNat / 2 ^ 12 * 0x1000 = y.kernelStartPa.toNat + k * 0x1000 := by
    intro f hf
    rw [h.pageWord_toNat hf hk]
    omega
  rw [Symbols.emitted]
  split_ifs with hcode hro
  · rw [entryFrame_append (by decide), hframe (by decide)]
  · rw [entryFrame_append (by decide), hframe (by decide)]
  · rw [entryFrame_append (by decide), hframe (by decide)]

end Meaning

/-- **Every page of the image is executable.** Entry `k` maps page `k`, and the entries are writable
from the first read-write page on, but no page is execute-disabled. -/
theorem start_maps (y : Symbols) (h : y.Linked) (c : Cpu) : ∃ c', start y c = .ok c' ∧
    (∀ k < y.pages,
      Mm.entryFrame (y.entry c'.mem k) * 0x1000 = y.kernelStartPa.toNat + k * 0x1000) ∧
    ∀ k < y.pages + 2, rights (y.entry c'.mem k) =
      ⟨true, decide (y.kernelCodePages.toNat + y.kernelRoPages.toNat ≤ k), true⟩ := by
  obtain ⟨c', hrun, hentries⟩ := start_entries y h c
  refine ⟨c', hrun, ?_, ?_⟩
  · intro k hk
    rw [hentries k (by omega)]
    exact h.entryFrame_emitted hk
  · intro k hk
    rw [hentries k hk]
    exact h.rights_emitted hk

/-- A page that is executable is no protected data page. -/
theorem Symbols.Linked.not_protected {y : Symbols} (h : y.Linked) {m : Bytes}
    (hrights : ∀ k < y.pages + 2, (rights (y.entry m k)).executable = true) : ¬ y.Protected m := by
  intro hprot
  have hro := h.ro
  have hdata := hprot.ro y.kernelCodePages.toNat le_rfl (by omega)
  have hexec := hrights y.kernelCodePages.toNat (by rw [Symbols.pages]; omega)
  rw [hdata] at hexec
  cases hexec

/-- **The protection is not there.** For all page counts `_start` fills the tables, and they are not
the ones that were meant. -/
theorem start_protected_never (y : Symbols) (h : y.Linked) (c : Cpu) :
    ∃ c', start y c = .ok c' ∧ ¬ y.Protected c'.mem := by
  obtain ⟨c', hrun, -, hrights⟩ := start_maps y h c
  refine ⟨c', hrun, h.not_protected ?_⟩
  intro k hk
  rw [hrights k hk]

/-- A kernel of three pages, linked at `0x110000`. -/
def threePages : Symbols := ⟨0x103000#32, 0x101000#32, 0x110000#32, 1#32, 1#32, 1#32⟩

theorem threePages_linked : threePages.Linked := by
  constructor <;> decide

/-- The tables of three pages. -/
theorem start_protected_never_three :
    ∃ c', start threePages ⟨0#32, 0#32, 0#32, 0#32, ⟨fun _ => 0⟩⟩ = .ok c' ∧
      ¬ threePages.Protected c'.mem :=
  start_protected_never threePages threePages_linked _

/-- **An executable data page.** Page 1 of the image is read-only data. -/
theorem start_unprotected : ¬ ∀ y c, y.Linked →
    ∃ c', start y c = .ok c' ∧ Symbols.Protected y c'.mem := by
  intro hall
  obtain ⟨c', hrun, hprot⟩ := hall threePages ⟨0#32, 0#32, 0#32, 0#32, ⟨fun _ => 0⟩⟩ threePages_linked
  obtain ⟨d, hrun', -, hrights⟩ :=
    start_maps threePages threePages_linked ⟨0#32, 0#32, 0#32, 0#32, ⟨fun _ => 0⟩⟩
  obtain rfl : c' = d := Except.ok.inj (hrun.symm.trans hrun')
  apply threePages_linked.not_protected _ hprot
  intro k hk
  rw [hrights k hk]

end Rtv.Boot
