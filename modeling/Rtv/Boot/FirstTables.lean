import Rtv.Boot.KernelTables
import Rtv.Mm.KernelSpace

/-!
# The first tables as the processor reads them

`_start` of `boot.S` writes its entries by halves, into pages that the loader has cleared. Here its
memory is read as page tables: what every entry of the five tables is (`start_firstTables`), that
they are a tree with a recursive entry (`FirstTables.tree`), and where each address goes
(`FirstTables.translate`).
-/

namespace Rtv.Boot

open Rtv.Lib Rtv.Lib.PageTree Rtv.Mm

/-! ## Words of memory -/

/-- The 8 bytes at an address, as an entry. -/
def word (m : Bytes) (a : Nat) : BitVec 64 := BitVec.ofNat 64 (m.loadLE a 8)

/-- Memory by frames and words. -/
def frames (m : Bytes) : Memory := fun f i => word m (f * 0x1000 + 8 * i)

section Words

variable {m m' : Bytes} {a b v : Nat}

theorem word_congr (h : ∀ x, a ≤ x → x < a + 8 → m' x = m x) : word m' a = word m a :=
  congrArg (BitVec.ofNat 64) (Bytes.loadLE_congr h)

/-- A store of another word. -/
theorem word_store_apart (h : b + 4 ≤ a ∨ a + 8 ≤ b) : word (m.storeLE b 4 v) a = word m a :=
  congrArg (BitVec.ofNat 64) (Bytes.loadLE_storeLE_apart h.symm)

/-- Bytes that are 0. -/
theorem loadLE_zero {n : Nat} (h : ∀ x, a ≤ x → x < a + n → m x = 0) : m.loadLE a n = 0 := by
  induction n generalizing a with
  | zero => rfl
  | succ n ih =>
    have hhead : m a = 0 := h a le_rfl (by omega)
    have htail : m.loadLE (a + 1) n = 0 := ih fun x hlo hhi => h x (by omega) (by omega)
    rw [Bytes.loadLE, hhead, htail]
    rfl

/-- A store of the low half of a word that was 0. -/
theorem word_store_low (h : ∀ x, a ≤ x → x < a + 8 → m x = 0) (hv : v < 2 ^ 32) :
    word (m.storeLE a 4 v) a = BitVec.ofNat 64 v := by
  have hhigh : m.loadLE (a + 4) 4 = 0 := loadLE_zero fun x hlo hhi => h x (by omega) (by omega)
  rw [word, Bytes.loadLE_add _ a 4 4, Bytes.loadLE_storeLE_same,
    Bytes.loadLE_storeLE_apart (Or.inr le_rfl), hhigh, Nat.mod_eq_of_lt hv]
  rfl

/-- Stores of both halves of a word. -/
theorem word_store_both (low high : BitVec 32) :
    word ((m.storeLE a 4 low.toNat).storeLE (a + 4) 4 high.toNat) a = high ++ low := by
  have hlow := low.isLt
  have hhigh := high.isLt
  apply BitVec.eq_of_toNat_eq
  rw [word, Bytes.loadLE_add _ a 4 4, Bytes.loadLE_storeLE_same,
    Bytes.loadLE_storeLE_apart (Or.inl le_rfl), Bytes.loadLE_storeLE_same, BitVec.toNat_ofNat,
    BitVec.toNat_append, ← Nat.shiftLeft_add_eq_or_of_lt low.isLt, Nat.shiftLeft_eq]
  omega

end Words

/-! ## The bytes that `_start` leaves alone -/

section Filling

variable {y : Symbols} {m : Bytes} {c c' : Cpu} {k : Nat} {low high : BitVec 32}

/-- The entries before the next one may have changed since `m`, and nothing else has. -/
structure Fills (y : Symbols) (m : Bytes) (k : Nat) (c : Cpu) : Prop where
  edi : c.edi.toNat = y.kernelPageTables.toNat + 8 * k
  rest : ∀ x, x < y.kernelPageTables.toNat ∨ y.kernelPageTables.toNat + 8 * k ≤ x →
    c.mem x = m x

/-- Two `stosl`. -/
theorem Fills.store (h : Fills y m k c) (hl : y.Linked) (hk : k < 1024)
    (hedi : c'.edi = c.edi + 4#32 + 4#32)
    (hmem : c'.mem = (c.mem.storeLE c.edi.toNat 4 low.toNat).storeLE (c.edi + 4#32).toNat 4 high.toNat) :
    Fills y m (k + 1) c' := by
  have htables := hl.kernelPageTables
  have hbelow := hl.tables
  have hstart := hl.start_le
  have hat := h.edi
  have hnext : (c.edi + 4#32).toNat = c.edi.toNat + 4 := by
    rw [BitVec.toNat_add, BitVec.toNat_ofNat]
    omega
  constructor
  · rw [hedi, BitVec.toNat_add, hnext, BitVec.toNat_ofNat]
    omega
  · intro x hx
    rw [hmem, hnext, Bytes.storeLE_outside (by omega), Bytes.storeLE_outside (by omega)]
    exact h.rest x (by omega)

/-- A loop. -/
theorem Fills.loop {n fuel : Nat} (h : Fills y m k c) (hl : y.Linked) (hfit : k + n ≤ 1024)
    (hn : 1 ≤ n) (hecx : c.ecx.toNat = n) (hrun : Cpu.loop (fillRound high) fuel c = .ok c') :
    Fills y m (k + n) c' := by
  induction n generalizing k c fuel with
  | zero => exact absurd hn (Nat.not_succ_le_zero 0)
  | succ n ih =>
    cases fuel with
    | zero => cases hrun
    | succ fuel =>
      have hround : Fills y m (k + 1) (fillRound high c) := h.store hl (by omega) rfl rfl
      have hcount : (c.ecx - 1#32).toNat = n := by
        have hlt := c.ecx.isLt
        rw [BitVec.toNat_sub, BitVec.toNat_ofNat]
        omega
      simp only [Cpu.loop, fillRound_ecx] at hrun
      split at hrun
      · next hlast =>
        obtain rfl : n = 0 := by rw [← hcount, hlast]; rfl
        obtain rfl := Except.ok.inj hrun
        exact ⟨hround.edi, hround.rest⟩
      · next hlast =>
        have hpos : 1 ≤ n := by
          rw [← hcount]
          exact Nat.pos_of_ne_zero fun hzero => hlast (BitVec.eq_of_toNat_eq hzero)
        rw [← Nat.add_assoc, Nat.add_right_comm]
        exact ih (c := { fillRound high c with ecx := c.ecx - 1#32 }) ⟨hround.edi, hround.rest⟩
          (by omega) hpos hcount hrun

/-- A change of the other registers. -/
theorem Fills.regs (h : Fills y m k c) (eax ecx : BitVec 32) : Fills y m k { c with eax, ecx } :=
  ⟨h.edi, h.rest⟩

/-- What `_start` has done before the recursive entry. -/
theorem start_fills (hl : y.Linked) (hrun : start y c = .ok c') :
    ∃ c₁, c' = startRecursive y c₁ ∧ Fills y (startUpper y c).mem (y.pages + 2) c₁ := by
  have hpages : y.pages =
    y.kernelCodePages.toNat + y.kernelRoPages.toNat + y.kernelRwPages.toNat := rfl
  have hfit := hl.fit
  have hcode := hl.code
  have hro := hl.ro
  have hrw := hl.rw
  have hstart : Fills y (startUpper y c).mem 0 { startUpper y c with
      edi := y.kernelPageTables, eax := y.kernelStartPa + 1#32, ecx := y.kernelCodePages } :=
    ⟨(Nat.add_zero _).symm, fun _ _ => rfl⟩
  simp only [start] at hrun
  obtain ⟨c₁, hrun₁, hrun⟩ := Exec.bind_eq_ok.mp hrun
  obtain ⟨c₂, hrun₂, hrun⟩ := Exec.bind_eq_ok.mp hrun
  obtain ⟨c₃, hrun₃, hrun⟩ := Exec.bind_eq_ok.mp hrun
  have h₁ := hstart.loop hl (by omega) hcode rfl hrun₁
  rw [Nat.zero_add] at h₁
  have h₂ := (h₁.regs c₁.eax y.kernelRoPages).loop hl (by omega) hro rfl hrun₂
  have h₃ := (h₂.regs (c₂.eax ||| 3#32) y.kernelRwPages).loop hl (by omega) hrw rfl hrun₃
  rw [← hpages] at h₃
  have hgdt : Fills y (startUpper y c).mem (y.pages + 1) (mapTable y.gdt64 c₃) :=
    h₃.store hl (by omega) rfl rfl
  have hidt : Fills y (startUpper y c).mem (y.pages + 2) (mapTable y.idt64 (mapTable y.gdt64 c₃)) :=
    hgdt.store hl (by omega) rfl rfl
  cases hrun
  exact ⟨_, rfl, hidt⟩

end Filling

/-! ## The five tables -/

/-- What the load makes sure of beside the link: the tables are pages, and `.bss` is clear. -/
structure Symbols.Loaded (y : Symbols) (c : Cpu) : Prop where
  linked : y.Linked
  aligned : y.pml4t.toNat % 0x1000 = 0
  clear : ∀ x, y.pml4t.toNat ≤ x → x < y.pml4t.toNat + 0x5000 → c.mem x = 0

/-- The frame of the top-level table; the other four tables follow it. -/
def Symbols.root (y : Symbols) : Nat := y.pml4t.toNat / 0x1000

/-- Every entry of the five tables. -/
structure FirstTables (y : Symbols) (m : Memory) : Prop where
  pml4t : ∀ i, m y.root i = if i = 0 then tableEntry (y.root + 1)
    else if i = 511 then executeDisable ++ (y.pml4t + 3#32) else 0#64
  pdpt : ∀ i, m (y.root + 1) i = if i = 0 then tableEntry (y.root + 2) else 0#64
  pdt : ∀ i, m (y.root + 2) i = if i = 0 then 0x83#64
    else if i = 1 then tableEntry (y.root + 3)
    else if i = 2 then tableEntry (y.root + 4) else 0#64
  pt : ∀ k < 1024, m (y.root + 3 + k / 512) (Fin.ofNat 512 k) =
    if k < y.pages + 2 then y.emitted k else 0#64

section Tables

variable {y : Symbols} {c c' : Cpu}

theorem Symbols.Loaded.root (h : y.Loaded c) : y.pml4t.toNat = y.root * 0x1000 ∧ y.root < 0x200 := by
  have haligned := h.aligned
  have htables := h.linked.tables
  have hstart := h.linked.start_le
  unfold Symbols.root
  omega

/-- The addresses of the tables, as numbers. -/
theorem Symbols.Loaded.addresses (h : y.Loaded c) :
    y.pdpt.toNat = y.pml4t.toNat + 0x1000 ∧ y.pdt.toNat = y.pml4t.toNat + 0x2000 ∧
      y.kernelPageTables.toNat = y.pml4t.toNat + 0x3000 := by
  have htables := h.linked.tables
  have hstart := h.linked.start_le
  simp only [Symbols.kernelPageTables, Symbols.pdt, Symbols.pdpt, BitVec.toNat_add,
    BitVec.toNat_ofNat]
  omega

/-- The stores of `startUpper`. -/
theorem Symbols.Loaded.upper_mem (h : y.Loaded c) : (startUpper y c).mem =
    ((((c.mem.storeLE y.pml4t.toNat 4 (y.pml4t.toNat + 0x1003)).storeLE
      (y.pml4t.toNat + 0x1000) 4 (y.pml4t.toNat + 0x2003)).storeLE
      (y.pml4t.toNat + 0x2000) 4 0x83).storeLE
      (y.pml4t.toNat + 0x2008) 4 (y.pml4t.toNat + 0x3003)).storeLE
      (y.pml4t.toNat + 0x2010) 4 (y.pml4t.toNat + 0x4003) := by
  have htables := h.linked.tables
  have hstart := h.linked.start_le
  obtain ⟨hpdpt, hpdt, hpt⟩ := h.addresses
  have hadd : ∀ {x n : BitVec 32}, x.toNat + n.toNat < 2 ^ 32 →
      (x + n).toNat = x.toNat + n.toNat := by
    intro x n hlt
    rw [BitVec.toNat_add, Nat.mod_eq_of_lt hlt]
  have hthree : (3#32).toNat = 3 := rfl
  have height : (8#32).toNat = 8 := rfl
  have hsixteen : (16#32).toNat = 16 := rfl
  have hpage : (0x1000#32).toNat = 0x1000 := rfl
  have hlarge : (0x83#32).toNat = 0x83 := rfl
  have hone : (y.pdt + 8#32).toNat = y.pml4t.toNat + 0x2008 := by
    rw [hadd (by omega)]
    omega
  have htwo : (y.pdt + 16#32).toNat = y.pml4t.toNat + 0x2010 := by
    rw [hadd (by omega)]
    omega
  have hv₁ : (y.pdpt + 3#32).toNat = y.pml4t.toNat + 0x1003 := by
    rw [hadd (by omega)]
    omega
  have hv₂ : (y.pdt + 3#32).toNat = y.pml4t.toNat + 0x2003 := by
    rw [hadd (by omega)]
    omega
  have hv₃ : (y.kernelPageTables + 3#32).toNat = y.pml4t.toNat + 0x3003 := by
    rw [hadd (by omega)]
    omega
  have hv₄ : (y.kernelPageTables + 3#32 + 0x1000#32).toNat = y.pml4t.toNat + 0x4003 := by
    rw [hadd (by omega)]
    omega
  simp only [startUpper, Cpu.movl, hpdpt, hpdt, hone, htwo, hv₁, hv₂, hv₃, hv₄, hlarge]

/-- It leaves the two lower tables alone. -/
theorem Symbols.Loaded.upper_outside (h : y.Loaded c) {x : Nat} (hx : y.pml4t.toNat + 0x3000 ≤ x) :
    (startUpper y c).mem x = c.mem x := by
  rw [h.upper_mem, Bytes.storeLE_outside (by omega), Bytes.storeLE_outside (by omega),
    Bytes.storeLE_outside (by omega), Bytes.storeLE_outside (by omega),
    Bytes.storeLE_outside (by omega)]

/-- What `startUpper` leaves in the upper three tables. -/
theorem Symbols.Loaded.upper_word (h : y.Loaded c) {a : Nat} (halign : a % 8 = 0)
    (hlo : y.pml4t.toNat ≤ a) (hhi : a < y.pml4t.toNat + 0x3000) :
    word (startUpper y c).mem a =
      if a = y.pml4t.toNat then BitVec.ofNat 64 (y.pml4t.toNat + 0x1003)
      else if a = y.pml4t.toNat + 0x1000 then BitVec.ofNat 64 (y.pml4t.toNat + 0x2003)
      else if a = y.pml4t.toNat + 0x2000 then 0x83#64
      else if a = y.pml4t.toNat + 0x2008 then BitVec.ofNat 64 (y.pml4t.toNat + 0x3003)
      else if a = y.pml4t.toNat + 0x2010 then BitVec.ofNat 64 (y.pml4t.toNat + 0x4003)
      else 0#64 := by
  have haligned := h.aligned
  have htables := h.linked.tables
  have hstart := h.linked.start_le
  have hclear := h.clear
  rw [h.upper_mem]
  -- the stores before the one of the word do not touch it, nor do the ones after
  have hzero : ∀ {m : Bytes} {b v : Nat}, (∀ x, a ≤ x → x < a + 8 → m x = 0) →
      (b + 4 ≤ a ∨ a + 8 ≤ b) → ∀ x, a ≤ x → x < a + 8 → m.storeLE b 4 v x = 0 := by
    intro m b v hm hb x hxlo hxhi
    rw [Bytes.storeLE_outside (by omega)]
    exact hm x hxlo hxhi
  have hbss : ∀ x, a ≤ x → x < a + 8 → c.mem x = 0 := fun x hxlo hxhi =>
    hclear x (by omega) (by omega)
  split_ifs with h₁ h₂ h₃ h₄ h₅
  · subst h₁
    rw [word_store_apart (by omega), word_store_apart (by omega), word_store_apart (by omega),
      word_store_apart (by omega), word_store_low hbss (by omega)]
  · subst h₂
    rw [word_store_apart (by omega), word_store_apart (by omega), word_store_apart (by omega),
      word_store_low (hzero hbss (by omega)) (by omega)]
  · subst h₃
    rw [word_store_apart (by omega), word_store_apart (by omega),
      word_store_low (hzero (hzero hbss (by omega)) (by omega)) (by omega)]
  · subst h₄
    rw [word_store_apart (by omega),
      word_store_low (hzero (hzero (hzero hbss (by omega)) (by omega)) (by omega)) (by omega)]
  · subst h₅
    rw [word_store_low (hzero (hzero (hzero (hzero hbss (by omega)) (by omega)) (by omega))
      (by omega)) (by omega)]
  · rw [word_store_apart (by omega), word_store_apart (by omega), word_store_apart (by omega),
      word_store_apart (by omega), word_store_apart (by omega), word, loadLE_zero hbss]

/-- What `startRecursive` leaves of a word: the recursive entry is written. -/
theorem Symbols.Loaded.recursive_word (h : y.Loaded c) (c₁ : Cpu) {a : Nat} (halign : a % 8 = 0) :
    word (startRecursive y c₁).mem a =
      if a = y.pml4t.toNat + 4088 then executeDisable ++ (y.pml4t + 3#32) else word c₁.mem a := by
  have haligned := h.aligned
  have htables := h.linked.tables
  have hstart := h.linked.start_le
  have h₀ : (y.pml4t + 4088#32).toNat = y.pml4t.toNat + 4088 := by
    rw [BitVec.toNat_add, BitVec.toNat_ofNat]
    omega
  have h₁ : (y.pml4t + 4092#32).toNat = y.pml4t.toNat + 4088 + 4 := by
    rw [BitVec.toNat_add, BitVec.toNat_ofNat]
    omega
  simp only [startRecursive, Cpu.movl, h₀, h₁]
  split_ifs with ha
  · subst ha
    exact word_store_both _ _
  · rw [word_store_apart (by omega), word_store_apart (by omega)]

/-- A word of the upper three tables. -/
theorem Symbols.Loaded.table_word (h : y.Loaded c) (hrun : start y c = .ok c') {a : Nat}
    (halign : a % 8 = 0) (hlo : y.pml4t.toNat ≤ a) (hhi : a < y.pml4t.toNat + 0x3000) :
    word c'.mem a = if a = y.pml4t.toNat + 4088 then executeDisable ++ (y.pml4t + 3#32)
      else word (startUpper y c).mem a := by
  have haligned := h.aligned
  obtain ⟨c₁, rfl, hfills⟩ := start_fills h.linked hrun
  rw [h.recursive_word c₁ halign]
  split_ifs
  · rfl
  · apply word_congr
    intro x _ hx
    have hpt := h.addresses.2.2
    exact hfills.rest x (by omega)

/-- An entry that points to a table, as a number. -/
theorem Symbols.Loaded.tableEntry_eq (h : y.Loaded c) {k : Nat} (hk : k ≤ 4) :
    BitVec.ofNat 64 (y.pml4t.toNat + (k * 0x1000 + 3)) = tableEntry (y.root + k) := by
  obtain ⟨hroot, hlt⟩ := h.root
  apply BitVec.eq_of_toNat_eq
  rw [tableEntry_toNat (by unfold mmTableMax; omega), BitVec.toNat_ofNat]
  omega

/-- **What `_start` makes of the five tables.** -/
theorem start_firstTables (h : y.Loaded c) (hrun : start y c = .ok c') :
    FirstTables y (Boot.frames c'.mem) := by
  obtain ⟨hroot, hlt⟩ := h.root
  have h₁ := h.tableEntry_eq (k := 1) (by decide)
  have h₂ := h.tableEntry_eq (k := 2) (by decide)
  have h₃ := h.tableEntry_eq (k := 3) (by decide)
  have h₄ := h.tableEntry_eq (k := 4) (by decide)
  constructor
  · intro i
    have hi := i.isLt
    rw [Boot.frames, h.table_word hrun (by omega) (by omega) (by omega),
      h.upper_word (by omega) (by omega) (by omega), ← h₁]
    simp only [Fin.ext_iff]
    change (if _ then _ else _) = if (i : Nat) = 0 then _ else if (i : Nat) = 511 then _ else _
    split_ifs <;> first | (exfalso; omega) | rfl
  · intro i
    have hi := i.isLt
    rw [Boot.frames, h.table_word hrun (by omega) (by omega) (by omega),
      h.upper_word (by omega) (by omega) (by omega), ← h₂]
    simp only [Fin.ext_iff]
    change (if _ then _ else _) = if (i : Nat) = 0 then _ else _
    split_ifs <;> first | (exfalso; omega) | rfl
  · intro i
    have hi := i.isLt
    rw [Boot.frames, h.table_word hrun (by omega) (by omega) (by omega),
      h.upper_word (by omega) (by omega) (by omega), ← h₃, ← h₄]
    simp only [Fin.ext_iff]
    change (if _ then _ else _) = if (i : Nat) = 0 then _ else if (i : Nat) = 1 then _
      else if (i : Nat) = 2 then _ else _
    split_ifs <;> first | (exfalso; omega) | rfl
  · intro k hk
    have hpt := h.addresses.2.2
    have hat : (y.root + 3 + k / 512) * 0x1000 + 8 * (Fin.ofNat 512 k : Nat) =
        y.kernelPageTables.toNat + 8 * k := by
      rw [Fin.val_ofNat, hpt, hroot]
      omega
    rw [Boot.frames, hat]
    split_ifs with hin
    · obtain ⟨c₂, hrun₂, hentries⟩ := start_entries y h.linked c
      rw [hrun] at hrun₂
      obtain rfl := Except.ok.inj hrun₂
      exact hentries k hin
    · obtain ⟨c₁, rfl, hfills⟩ := start_fills h.linked hrun
      rw [h.recursive_word c₁ (by omega), if_neg (by omega)]
      have hzero : ∀ x, y.kernelPageTables.toNat + 8 * k ≤ x →
          x < y.kernelPageTables.toNat + 8 * k + 8 → c₁.mem x = 0 := by
        intro x hxlo hxhi
        rw [hfills.rest x (by omega), h.upper_outside (by omega)]
        exact h.clear x (by omega) (by omega)
      rw [word, loadLE_zero hzero]

end Tables

/-! ## The tree -/

/-- An entry that points to one of the tables. -/
theorem decode_tableEntry {f level : Nat} (hf : f < 0x300) (hlevel : level ≠ 3) :
    decodeEntry level (tableEntry f) = .table f :=
  decodeEntry_tableEntry (by unfold mmTableMax; omega) hlevel

section Tree

variable {y : Symbols} {m : Memory} (h : FirstTables y m) (hroot : y.root < 0x200)

include h hroot

/-- An entry of the top-level table, outside the recursive one. -/
theorem FirstTables.decode_pml4t {i : Fin 512} (hi : i ≠ 511) : decodeEntry 0 (m y.root i) =
    if i = 0 then .table (y.root + 1) else .absent := by
  rw [h.pml4t]
  split_ifs
  · exact decode_tableEntry (by omega) (by decide)
  · exact decodeEntry_absent (by decide)

theorem FirstTables.decode_pdpt (i : Fin 512) : decodeEntry 1 (m (y.root + 1) i) =
    if i = 0 then .table (y.root + 2) else .absent := by
  rw [h.pdpt]
  split_ifs
  · exact decode_tableEntry (by omega) (by decide)
  · exact decodeEntry_absent (by decide)

theorem FirstTables.decode_pdt (i : Fin 512) : decodeEntry 2 (m (y.root + 2) i) =
    if i = 0 then .page else if i = 1 then .table (y.root + 3)
    else if i = 2 then .table (y.root + 4) else .absent := by
  rw [h.pdt]
  split_ifs
  · rfl
  · exact decode_tableEntry (by omega) (by decide)
  · exact decode_tableEntry (by omega) (by decide)
  · exact decodeEntry_absent (by decide)

/-- The tables of the walks: one at each level, and two at the last. -/
theorem FirstTables.table_cases {w : Nat → Fin 512} (hw : w 0 ≠ 511) {k t : Nat}
    (ht : tableAt decodeEntry m y.root w k = some t) :
    k = 0 ∧ t = y.root ∨ (k = 1 ∧ t = y.root + 1) ∧ w 0 = 0 ∨
      (k = 2 ∧ t = y.root + 2) ∧ w 0 = 0 ∧ w 1 = 0 ∨
      (k = 3 ∧ t = y.root + 3) ∧ w 0 = 0 ∧ w 1 = 0 ∧ w 2 = 1 ∨
      (k = 3 ∧ t = y.root + 4) ∧ w 0 = 0 ∧ w 1 = 0 ∧ w 2 = 2 := by
  induction k generalizing t with
  | zero =>
    cases ht
    exact Or.inl ⟨rfl, rfl⟩
  | succ k ih =>
    obtain ⟨t₀, ht₀, hentry⟩ := tableAt_succ.mp ht
    rcases ih ht₀ with ⟨rfl, rfl⟩ | ⟨⟨rfl, rfl⟩, h₀⟩ | ⟨⟨rfl, rfl⟩, h₀, h₁⟩ | ⟨⟨rfl, rfl⟩, -⟩ |
      ⟨⟨rfl, rfl⟩, -⟩
    · rw [h.decode_pml4t hroot hw] at hentry
      split_ifs at hentry with hzero
      cases hentry
      exact Or.inr (Or.inl ⟨⟨rfl, rfl⟩, hzero⟩)
    · rw [h.decode_pdpt hroot] at hentry
      split_ifs at hentry with hzero
      cases hentry
      exact Or.inr (Or.inr (Or.inl ⟨⟨rfl, rfl⟩, h₀, hzero⟩))
    · rw [h.decode_pdt hroot] at hentry
      split_ifs at hentry with hzero hone htwo
      · cases hentry
        exact Or.inr (Or.inr (Or.inr (Or.inl ⟨⟨rfl, rfl⟩, h₀, h₁, hone⟩)))
      · cases hentry
        exact Or.inr (Or.inr (Or.inr (Or.inr ⟨⟨rfl, rfl⟩, h₀, h₁, htwo⟩)))
    · exact absurd rfl (decodeEntry_table.mp hentry).1
    · exact absurd rfl (decodeEntry_table.mp hentry).1

/-- **The first tables are a tree** in which every table is reached in one way. -/
theorem FirstTables.own : OwnTables decodeEntry m y.root 511 := by
  intro v w k l t hv hw hk hl
  have hcases := h.table_cases hroot hv hk
  have hcases' := h.table_cases hroot hw hl
  rcases hcases with ⟨rfl, rfl⟩ | ⟨⟨rfl, rfl⟩, h₀⟩ | ⟨⟨rfl, rfl⟩, h₀, h₁⟩ |
      ⟨⟨rfl, rfl⟩, h₀, h₁, h₂⟩ | ⟨⟨rfl, rfl⟩, h₀, h₁, h₂⟩ <;>
    rcases hcases' with ⟨rfl, heq⟩ | ⟨⟨rfl, heq⟩, g₀⟩ | ⟨⟨rfl, heq⟩, g₀, g₁⟩ |
      ⟨⟨rfl, heq⟩, g₀, g₁, g₂⟩ | ⟨⟨rfl, heq⟩, g₀, g₁, g₂⟩ <;>
    first
      | (exfalso; omega)
      | (refine ⟨rfl, fun j hj => ?_⟩
         interval_cases j <;> simp only [*])

end Tree

section Translation

variable {y : Symbols} {c : Cpu} {m : Memory} {phys : Physical} (hy : y.Loaded c)
  (h : FirstTables y m)

include hy h

/-- The recursive entry: its high half does not touch the address. -/
theorem FirstTables.self : SelfMapped m y.root ∧ m y.root 511 &&& pdtPs = 0#64 := by
  obtain ⟨hroot, hlt⟩ := hy.root
  have hlow : (y.pml4t + 3#32).toNat = y.root * 0x1000 + 3 := by
    rw [BitVec.toNat_add, hroot, BitVec.toNat_ofNat]
    omega
  have hword : m y.root 511 = executeDisable ++ (y.pml4t + 3#32) := by
    rw [h.pml4t, if_neg (by decide), if_pos rfl]
  have hnat : (m y.root 511).toNat = 0x10000000 * 2 ^ 32 + (y.root * 0x1000 + 3) := by
    rw [hword, BitVec.toNat_append, ← Nat.shiftLeft_add_eq_or_of_lt (y.pml4t + 3#32).isLt,
      Nat.shiftLeft_eq, hlow]
    rfl
  have hps : m y.root 511 &&& pdtPs = 0#64 := by
    apply (flag_eq_zero _ (show 7 < 64 by decide)).mpr
    omega
  refine ⟨⟨?_, hps, ?_⟩, hps⟩
  · intro hp
    have hbit := (flag_eq_zero (m y.root 511) (show 0 < 64 by decide)).mp hp
    omega
  · rw [hword, entryFrame_append (by decide), hlow]
    omega

/-- **The first tables are a tree of tables**, if the allocator has been told that they are taken. -/
theorem FirstTables.tree (htaken : ∀ p, y.root ≤ p → p < y.root + 5 → ¬ phys.Free p)
    (hfits : phys.entryEnd ≤ mmTableMax) : TreeOk ⟨m, y.root, phys⟩ := by
  obtain ⟨-, hlt⟩ := hy.root
  obtain ⟨hself, hps⟩ := h.self hy
  refine ⟨hself, h.own hlt, ?_, ?_, hfits⟩
  · intro w k t hw hk
    have hcases := h.table_cases hlt hw hk
    exact htaken t (by omega) (by omega)
  · intro i hp
    dsimp only at hp ⊢
    by_cases hi : i = 511
    · rw [hi]
      exact hps
    · rw [h.pml4t, if_neg hi] at hp ⊢
      split_ifs at hp ⊢ with hzero
      · exact (tableEntry_bits (by unfold mmTableMax; omega)).2.1
      · exact absurd (by decide) hp

omit h in
/-- The table that holds the entry of an address of the image. -/
theorem Symbols.Loaded.idt64 : y.idt64.toNat = y.gdt64.toNat + 0x1000 := by
  have hgdt := hy.linked.gdt_le
  have hstart := hy.linked.start_le
  rw [Symbols.idt64, Smp.gdtEntryNr, BitVec.toNat_add, BitVec.toNat_ofNat]
  omega

omit h in
/-- The last two entries map the GDT and the IDT. -/
theorem Symbols.Loaded.entryFrame_last {k : Nat} (hk : k < y.pages + 2) (hlast : ¬ k < y.pages) :
    entryFrame (y.emitted k) * 0x1000 = y.gdt64.toNat + (k - y.pages) * 0x1000 := by
  have hgdt := hy.linked.gdt
  have hgdtLe := hy.linked.gdt_le
  have hstart := hy.linked.start_le
  have hidt := hy.idt64
  have hpages : y.pages =
    y.kernelCodePages.toNat + y.kernelRoPages.toNat + y.kernelRwPages.toNat := rfl
  have hthree : (3#32).toNat = 3 := rfl
  rw [Symbols.emitted, if_neg (by omega), if_neg (by omega), if_neg hlast]
  split_ifs with hfirst
  · rw [entryFrame_append (by decide), BitVec.toNat_add, hthree]
    omega
  · rw [entryFrame_append (by decide), BitVec.toNat_add, hthree, hidt]
    omega

end Translation

/-- What `_start` maps: the first 2MB to themselves, the kernel image from 2MB on, and after it the
GDT and the IDT. -/
def Symbols.regions (y : Symbols) : List Region :=
  [identity, ⟨0x200000, y.kernelStartPa.toNat, y.pages * 0x1000⟩,
    ⟨0x200000 + y.pages * 0x1000, y.gdt64.toNat, 0x1000⟩,
    ⟨0x200000 + (y.pages + 1) * 0x1000, y.gdt64.toNat + 0x1000, 0x1000⟩]

/-- The address space that `_start` sets up, without the recursive entry. -/
def Symbols.space (y : Symbols) : AddressSpace := AddressSpace.overlay (fun _ => none) y.regions

/-- Where an address above the identity mapping goes. -/
theorem Symbols.space_high (y : Symbols) {a : Nat} (ha : 0x200000 ≤ a) : y.space a =
    if a / 0x1000 - 512 < y.pages then some (y.kernelStartPa.toNat + (a - 0x200000))
    else if a / 0x1000 - 512 = y.pages then some (y.gdt64.toNat + a % 0x1000)
    else if a / 0x1000 - 512 = y.pages + 1 then some (y.gdt64.toNat + 0x1000 + a % 0x1000)
    else none := by
  have hid : ¬ identity.Has a := by
    rintro ⟨-, hlt⟩
    exact absurd hlt (not_lt.mpr ha)
  have himage : (⟨0x200000, y.kernelStartPa.toNat, y.pages * 0x1000⟩ : Region).Has a ↔
      a / 0x1000 - 512 < y.pages := by
    unfold Region.Has
    dsimp only
    omega
  have hgdt : (⟨0x200000 + y.pages * 0x1000, y.gdt64.toNat, 0x1000⟩ : Region).Has a ↔
      a / 0x1000 - 512 = y.pages := by
    unfold Region.Has
    dsimp only
    omega
  have hidt : (⟨0x200000 + (y.pages + 1) * 0x1000, y.gdt64.toNat + 0x1000, 0x1000⟩ : Region).Has a ↔
      a / 0x1000 - 512 = y.pages + 1 := by
    unfold Region.Has
    dsimp only
    omega
  refine (AddressSpace.map_of_not_has hid).trans ?_
  split_ifs with h₁ h₂ h₃
  · exact AddressSpace.map_has (himage.mpr h₁)
  · refine (AddressSpace.map_of_not_has (mt himage.mp h₁)).trans
      ((AddressSpace.map_has (hgdt.mpr h₂)).trans (congrArg some ?_))
    dsimp only
    omega
  · refine (AddressSpace.map_of_not_has (mt himage.mp h₁)).trans
      ((AddressSpace.map_of_not_has (mt hgdt.mp h₂)).trans
        ((AddressSpace.map_has (hidt.mpr h₃)).trans (congrArg some ?_)))
    dsimp only
    omega
  · exact (AddressSpace.map_of_not_has (mt himage.mp h₁)).trans
      ((AddressSpace.map_of_not_has (mt hgdt.mp h₂)).trans
        (AddressSpace.map_of_not_has (mt hidt.mp h₃)))

/-- Where an address of the identity mapping goes. -/
theorem Symbols.space_low (y : Symbols) {a : Nat} (ha : a < 0x200000) : y.space a = some a := by
  have hid : identity.Has a := ⟨Nat.zero_le a, by rw [identity]; omega⟩
  have hfirst : y.space a = some (0 + (a - 0)) := AddressSpace.map_has hid
  rw [hfirst, Nat.zero_add, Nat.sub_zero]

section Walks

variable {y : Symbols} {c : Cpu} {m : Memory} {va : BitVec 64} (hy : y.Loaded c)
  (h : FirstTables y m)

include hy h

/-- An address of the first 6MB has the table of the third level. -/
theorem FirstTables.hwTable_pdt (h₀ : hwIndex va 0 = 0) (h₁ : hwIndex va 1 = 0) :
    hwTable m y.root va 2 = some (y.root + 2) := by
  obtain ⟨-, hlt⟩ := hy.root
  have htop : hwTable m y.root va 1 = some (y.root + 1) := by
    refine tableAt_succ.mpr ⟨y.root, rfl, ?_⟩
    rw [h.decode_pml4t hlt (by rw [h₀]; decide), if_pos h₀]
  refine tableAt_succ.mpr ⟨y.root + 1, htop, ?_⟩
  rw [h.decode_pdpt hlt, if_pos h₁]

/-- An address from 2MB to 6MB is walked down to `kernel_page_tables`. -/
theorem FirstTables.translate_page (hcanon : Canonical va)
    (ht : hwTable m y.root va 2 = some (y.root + 2)) (hlow : va.toNat < 2 ^ 30)
    (hva : 0x200000 ≤ va.toNat) (hk : va.toNat / 0x1000 - 512 < 1024) :
    Mm.translate m y.root va = y.space va.toNat := by
  obtain ⟨-, hlt⟩ := hy.root
  have hlink := hy.linked
  obtain ⟨k, hkeq⟩ : ∃ k, k = va.toNat / 0x1000 - 512 := ⟨_, rfl⟩
  rw [← hkeq] at hk
  have htwo : (hwIndex va 2 : Nat) = k / 512 + 1 := by
    rw [hwIndex_val]
    omega
  have hthree : hwIndex va 3 = Fin.ofNat 512 k := by
    rw [Fin.ext_iff, hwIndex_val, Fin.val_ofNat]
    omega
  have htable : hwTable m y.root va 3 = some (y.root + 3 + k / 512) := by
    refine tableAt_succ.mpr ⟨y.root + 2, ht, ?_⟩
    rw [h.decode_pdt hlt]
    rcases (show k / 512 = 0 ∨ k / 512 = 1 by omega) with hpage | hpage <;> rw [hpage] at htwo ⊢
    · have hi : hwIndex va 2 = 1 := Fin.ext htwo
      rw [hi]
      rfl
    · have hi : hwIndex va 2 = 2 := Fin.ext htwo
      rw [hi]
      rfl
  have hword := h.pt k hk
  rw [← hthree] at hword
  rw [y.space_high hva, ← hkeq]
  by_cases hin : k < y.pages + 2
  · rw [if_pos hin] at hword
    have hpresent : y.emitted k &&& pgtP ≠ 0#64 := by
      have hrights := congrArg Rights.present (hlink.rights_emitted hin)
      exact bne_iff_ne.mp hrights
    have htrans : Translates decodeEntry m y.root (hwIndex va) 3 (y.emitted k) :=
      ⟨_, htable, hword, decodeEntry_three hpresent⟩
    have haddr : pageAddr va 3 (y.emitted k) =
        entryFrame (y.emitted k) * 0x1000 + va.toNat % 0x1000 := by
      have hbytes : pageBytes 3 = 0x1000 := rfl
      rw [pageAddr, hbytes]
      exact congrArg (· * 0x1000 + va.toNat % 0x1000) (Nat.mul_div_cancel _ (by decide))
    rw [translate_eq_some.mpr ⟨hcanon, 3, _, htrans, rfl⟩, haddr]
    by_cases himage : k < y.pages
    · have hstart := hlink.start
      rw [if_pos himage, hlink.entryFrame_emitted himage]
      exact congrArg some (by omega)
    · have hlast : entryFrame (y.emitted k) * 0x1000 =
          y.gdt64.toNat + (k - y.pages) * 0x1000 := by
        exact hy.entryFrame_last hin himage
      rw [if_neg himage, hlast]
      split_ifs <;> first | exact congrArg some (by omega) | (exfalso; omega)
  · rw [if_neg hin] at hword
    rw [translate_none htable (by rw [hword]; exact decodeEntry_absent (by decide)),
      if_neg (by omega), if_neg (by omega), if_neg (by omega)]

/-- **Where the processor sends an address** with the tables of `_start`. -/
theorem FirstTables.translate (hcanon : Canonical va) (hslot : hwIndex va 0 ≠ 511) :
    translate m y.root va = y.space va.toNat := by
  obtain ⟨-, hlt⟩ := hy.root
  have hlink := hy.linked
  have hpages := hlink.fit
  have hva := va.isLt
  have hindex : ∀ k, (hwIndex va k : Nat) = va.toNat / 2 ^ (39 - 9 * k) % 512 := hwIndex_val va
  have hcanon' := hcanon
  unfold Canonical at hcanon'
  have hzero : ∀ {k}, hwIndex va k = 0 ↔ va.toNat / 2 ^ (39 - 9 * k) % 512 = 0 := by
    intro k
    rw [Fin.ext_iff, hindex]
    rfl
  by_cases h₀ : hwIndex va 0 = 0
  · by_cases h₁ : hwIndex va 1 = 0
    · have ht := h.hwTable_pdt hy h₀ h₁
      have hdecode := h.decode_pdt hlt (hwIndex va 2)
      have hlow : va.toNat < 2 ^ 30 := by
        have h₀' := hzero.mp h₀
        have h₁' := hzero.mp h₁
        omega
      have htwo : (hwIndex va 2 : Nat) = va.toNat / 0x200000 := by
        rw [hindex]
        omega
      have hfin : ∀ {i : Fin 512}, hwIndex va 2 = i ↔ va.toNat / 0x200000 = i := by
        intro i
        rw [Fin.ext_iff, htwo]
      by_cases h₂ : va.toNat / 0x200000 = 0
      · -- the large page
        have hword : m (y.root + 2) (hwIndex va 2) = 0x83#64 := by
          rw [h.pdt, if_pos (hfin.mpr h₂)]
        have htrans : Translates decodeEntry m y.root (hwIndex va) 2 0x83#64 :=
          ⟨y.root + 2, ht, hword, rfl⟩
        have hframe : entryFrame 0x83#64 = 0 := rfl
        rw [translate_eq_some.mpr ⟨hcanon, 2, _, htrans, rfl⟩, y.space_low (by omega), pageAddr,
          hframe, Nat.zero_mul, Nat.zero_div, Nat.zero_mul, Nat.zero_add]
        exact congrArg some (Nat.mod_eq_of_lt (by rw [pageBytes]; omega))
      · by_cases hk : va.toNat / 0x1000 - 512 < 1024
        · exact h.translate_page hy hcanon ht hlow (by omega) hk
        · rw [translate_none ht ?_, y.space_high (by omega), if_neg (by omega), if_neg (by omega),
            if_neg (by omega)]
          rw [hdecode, if_neg (mt hfin.mp h₂),
            if_neg (mt hfin.mp (show ¬ va.toNat / 0x200000 = 1 by omega)),
            if_neg (mt hfin.mp (show ¬ va.toNat / 0x200000 = 2 by omega))]
    · have ht : hwTable m y.root va 1 = some (y.root + 1) := by
        refine tableAt_succ.mpr ⟨y.root, rfl, ?_⟩
        rw [h.decode_pml4t hlt hslot, if_pos h₀]
      rw [translate_none ht (by rw [h.decode_pdpt hlt, if_neg h₁])]
      have hhigh : 2 ^ 30 ≤ va.toNat := by
        rw [hzero] at h₁
        omega
      rw [y.space_high (by omega), if_neg (by omega), if_neg (by omega), if_neg (by omega)]
  · have ht : hwTable m y.root va 0 = some y.root := rfl
    rw [translate_none ht (by rw [h.decode_pml4t hlt hslot, if_neg h₀])]
    have hhigh : 2 ^ 39 ≤ va.toNat := by
      rw [hzero] at h₀
      omega
    rw [y.space_high (by omega), if_neg (by omega), if_neg (by omega), if_neg (by omega)]

end Walks

end Rtv.Boot
