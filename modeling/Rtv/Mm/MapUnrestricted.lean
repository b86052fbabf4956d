import Rtv.Mm.Ownership
import Rtv.Mm.Paging

/-!
# Mapping a page at a given address

`vm_map_page_unrestricted` and `vm_map_large_page_unrestricted` of `arch/x86_64/mm/vm.c`, on the
processor's page tables (`Rtv.Mm.Paging`). Both walk down the tables of the address through the
recursive window, make the tables that are missing from new frames, and write the last entry. Every
access goes through the window, as the processor translates it; a computation that stops leaves the
machine as it is then.

Two things can go wrong. A new frame becomes a table as it is, with whatever it holds. And an
entry with `PGT_P` set is taken for a table, also if it is a large page.

**The law** (`map_unrestricted_changes_only`): where no entry above the last one is a large page
and the new frames hold no entry with `PGT_P` set, the call changes the requested translation and no
other. If a table is missing and a frame is free, there are contents of the free frames for which it
does not. If the entry above the last one is a large page, it does only where the word of that page
in the place of the entry has its lowest bit set.
-/

namespace Rtv.Mm

open Rtv.Lib Rtv.Lib.PageTree

/-! ## The machine -/

/-- Physical memory, the frame of the top-level table and the frame allocator. -/
structure Machine where
  mem : Memory
  cr3 : Nat
  phys : Physical

/-- A computation on the machine. -/
abbrev MachineM := EStateM Stop Machine

/-- The physical address of `table[i]`. -/
def Machine.place (M : Machine) (table : BitVec 64) (i : Nat) : Option Nat :=
  translate M.mem M.cr3 (slot table i)

/-- Read `table[i]`. -/
def readEntry (table : BitVec 64) (i : Nat) : MachineM (BitVec 64) := fun M =>
  match M.place table i with
  | some pa => .ok (M.mem (pa / pgSize) (Fin.ofNat 512 (pa / 8))) M
  | none => .error .fault M

/-- Write `table[i]`. -/
def writeEntry (table : BitVec 64) (i : Nat) (e : BitVec 64) : MachineM Unit := fun M =>
  match M.place table i with
  | some pa => .ok () { M with mem := M.mem.set (pa / pgSize) (Fin.ofNat 512 (pa / 8)) e }
  | none => .error .fault M

/-- `get_paging_struct_vaddr`. -/
def pagingStruct (vaddr : BitVec 64) (level : Nat) : MachineM (BitVec 64) := fun M =>
  match getPagingStructVaddr vaddr level with
  | .ok table => .ok table M
  | .error e => .error e M

/-- `alloc_phys_frame`. -/
def newFrame : MachineM Nat := fun M =>
  match allocPhysFrame M.phys with
  | .ok (new, phys) => .ok new { M with phys }
  | .error e => .error e M

/-- The message when there is no frame for the table below an entry. -/
def noFrame : Nat → String
  | 0 => "page allocation for PDPT failed"
  | 1 => "page allocation for PDT failed"
  | _ => "page allocation for PT failed"

/-- One level on the way down: if the entry is not present, a new frame becomes its table. -/
def ensureTable (func : String) (vaddr : BitVec 64) (level : Nat) : MachineM Unit := do
  let table ← pagingStruct vaddr level
  let entry := pagingIndex vaddr level
  let e ← readEntry table entry
  if e &&& pgtP = 0#64 then
    let new ← newFrame
    if new = 0 then
      throw (.panic func (noFrame level))
    else
      writeEntry table entry (BitVec.ofNat 64 new ||| pgtP ||| pgtRw)
  else
    return ()

/-- The last level: writes the entry, which must not be present. -/
def installEntry (func : String) (vaddr : BitVec 64) (level : Nat) (e : BitVec 64) :
    MachineM Unit := do
  let table ← pagingStruct vaddr level
  let entry := pagingIndex vaddr level
  let old ← readEntry table entry
  if old &&& pgtP ≠ 0#64 then
    throw (.panic func "page table entry not available")
  else
    writeEntry table entry e

/-- `num` levels on the way down, from `level` on. -/
def ensureTables (func : String) (vaddr : BitVec 64) : Nat → Nat → MachineM Unit
  | 0, _ => return ()
  | num + 1, level => do
    ensureTable func vaddr level
    ensureTables func vaddr num (level + 1)

/-- `vm_map_page_unrestricted`. -/
def vmMapPageUnrestricted (frame flags vaddr : BitVec 64) : MachineM Unit := do
  ensureTables "vm_map_page_unrestricted" vaddr 3 0
  installEntry "vm_map_page_unrestricted" vaddr 3 (frame ||| flags)

/-- `vm_map_large_page_unrestricted`. -/
def vmMapLargePageUnrestricted (frame flags vaddr : BitVec 64) : MachineM Unit := do
  ensureTables "vm_map_large_page_unrestricted" vaddr 2 0
  installEntry "vm_map_large_page_unrestricted" vaddr 2 (frame ||| flags)

/-- The two functions. -/
inductive MapUnrestricted where
  | page
  | largePage
deriving DecidableEq, Repr

namespace MapUnrestricted

/-- The level of the entry that the function writes. -/
def level : MapUnrestricted → Nat
  | page => 3
  | largePage => 2

def name : MapUnrestricted → String
  | page => "vm_map_page_unrestricted"
  | largePage => "vm_map_large_page_unrestricted"

def run : MapUnrestricted → BitVec 64 → BitVec 64 → BitVec 64 → MachineM Unit
  | page => vmMapPageUnrestricted
  | largePage => vmMapLargePageUnrestricted

theorem level_le (f : MapUnrestricted) : f.level ≤ 3 := by
  cases f <;> decide

theorem run_eq (f : MapUnrestricted) (frame flags vaddr : BitVec 64) :
    f.run frame flags vaddr = (do
      ensureTables f.name vaddr f.level 0
      installEntry f.name vaddr f.level (frame ||| flags)) := by
  cases f <;> rfl

end MapUnrestricted

/-! ## What the window shows -/

/-- The frame that the window shows for a level. An entry that is present is taken for a table. -/
def shown (m : Memory) (cr3 : Nat) (va : BitVec 64) : Nat → Option Nat
  | 0 => some cr3
  | level + 1 => (hwTable m cr3 va level).bind fun t =>
    if m t (hwIndex va level) &&& pgtP = 0#64 then none
    else some (entryFrame (m t (hwIndex va level)))

section Access

variable {M : Machine} {vaddr : BitVec 64} {level t : Nat}

/-- The window shows the tables. -/
theorem shown_table (ht : hwTable M.mem M.cr3 vaddr level = some t) :
    shown M.mem M.cr3 vaddr level = some t := by
  cases level with
  | zero => exact ht
  | succ level =>
    obtain ⟨t₀, ht₀, hentry⟩ := tableAt_succ.mp ht
    obtain ⟨-, hp, -, rfl⟩ := decodeEntry_table.mp hentry
    rw [shown, hwTable, ht₀, Option.bind_some, if_neg hp]

theorem place_shown (hself : SelfMapped M.mem M.cr3) (hlevel : level ≤ 3)
    (ht : shown M.mem M.cr3 vaddr level = some t) :
    ∃ table, getPagingStructVaddr vaddr level = .ok table ∧
      M.place table (pagingIndex vaddr level) = some (t * pgSize + 8 * hwIndex vaddr level) := by
  obtain ⟨table, htable, haddr⟩ := getPagingStructVaddr_toNat vaddr hlevel
  have hi := (hwIndex vaddr level).isLt
  refine ⟨table, htable, ?_⟩
  rw [pagingIndex_eq vaddr hlevel]
  cases level with
  | zero =>
    cases ht
    exact translate_window_top hself hi (slot_toNat haddr hi)
  | succ level =>
    obtain ⟨t₀, ht₀, hentry⟩ := Option.bind_eq_some_iff.mp ht
    split at hentry
    next => cases hentry
    next hp =>
      cases hentry
      exact translate_window hself hlevel hi (slot_toNat haddr hi) ht₀ hp

/-- The word at a place. -/
theorem place_word (t : Nat) (i : Fin 512) :
    (t * pgSize + 8 * i) / pgSize = t ∧ Fin.ofNat 512 ((t * pgSize + 8 * i) / 8) = i := by
  have hi := i.isLt
  rw [pgSize]
  refine ⟨by omega, Fin.ext ?_⟩
  rw [Fin.val_ofNat]
  omega

/-- Reading and writing the entry of a level. -/
theorem access_shown (hself : SelfMapped M.mem M.cr3) (hlevel : level ≤ 3)
    (ht : shown M.mem M.cr3 vaddr level = some t) :
    ∃ table, pagingStruct vaddr level M = .ok table M ∧
      readEntry table (pagingIndex vaddr level) M = .ok (M.mem t (hwIndex vaddr level)) M ∧
      ∀ (e : BitVec 64) (phys : Physical),
        writeEntry table (pagingIndex vaddr level) e { M with phys } =
          .ok () { M with mem := M.mem.set t (hwIndex vaddr level) e, phys } := by
  obtain ⟨table, htable, hplace⟩ := place_shown hself hlevel ht
  obtain ⟨hframe, hword⟩ := place_word t (hwIndex vaddr level)
  refine ⟨table, ?_, ?_, ?_⟩
  · rw [pagingStruct, htable]
  · rw [readEntry, hplace]
    dsimp only
    rw [hframe, hword]
  · intro e phys
    have hplace' : Machine.place { M with phys } table (pagingIndex vaddr level) = _ := hplace
    rw [writeEntry, hplace']
    dsimp only
    rw [hframe, hword]

/-- What `ensureTable` does. -/
theorem ensureTable_eq (func : String) (hself : SelfMapped M.mem M.cr3) (hlevel : level ≤ 3)
    (ht : shown M.mem M.cr3 vaddr level = some t) :
    ensureTable func vaddr level M =
      if M.mem t (hwIndex vaddr level) &&& pgtP = 0#64 then
        match allocPhysFrame M.phys with
        | .error e => .error e M
        | .ok (new, phys) =>
          if new = 0 then .error (.panic func (noFrame level)) { M with phys }
          else .ok () { M with
            mem := M.mem.set t (hwIndex vaddr level) (BitVec.ofNat 64 new ||| pgtP ||| pgtRw)
            phys }
      else .ok () M := by
  obtain ⟨table, hstruct, hread, hwrite⟩ := access_shown hself hlevel ht
  unfold ensureTable
  simp only [bind, EStateM.bind, hstruct, hread]
  split
  · cases halloc : allocPhysFrame M.phys with
    | error e =>
      have hnew : newFrame M = .error e M := by rw [newFrame, halloc]
      simp only [EStateM.bind, hnew]
    | ok r =>
      obtain ⟨new, phys⟩ := r
      have hnew : newFrame M = .ok new { M with phys } := by rw [newFrame, halloc]
      simp only [EStateM.bind, hnew]
      split
      · rfl
      · exact hwrite _ phys
  · rfl

/-- What `installEntry` does. -/
theorem installEntry_eq (func : String) (hself : SelfMapped M.mem M.cr3) (hlevel : level ≤ 3)
    (ht : shown M.mem M.cr3 vaddr level = some t) (e : BitVec 64) :
    installEntry func vaddr level e M =
      if M.mem t (hwIndex vaddr level) &&& pgtP ≠ 0#64 then
        .error (.panic func "page table entry not available") M
      else .ok () { M with mem := M.mem.set t (hwIndex vaddr level) e } := by
  obtain ⟨table, hstruct, hread, hwrite⟩ := access_shown hself hlevel ht
  unfold installEntry
  simp only [bind, EStateM.bind, hstruct, hread]
  split
  · rfl
  · exact hwrite e M.phys

/-- With all its tables present, the way down changes nothing. -/
theorem ensureTables_pass (func : String) (hself : SelfMapped M.mem M.cr3) {num : Nat} (hnum : level + num ≤ 4)
    (h : ∀ k, level ≤ k → k < level + num → ∃ t, shown M.mem M.cr3 vaddr k = some t ∧
      M.mem t (hwIndex vaddr k) &&& pgtP ≠ 0#64) :
    ensureTables func vaddr num level M = .ok () M := by
  induction num generalizing level with
  | zero => rfl
  | succ num ih =>
    obtain ⟨t, ht, hp⟩ := h level le_rfl (by omega)
    have hhead := ensureTable_eq func hself (by omega) ht
    rw [if_neg hp] at hhead
    have htail : ensureTables func vaddr num (level + 1) M = .ok () M :=
      ih (by omega) fun k hlo hhi => h k (by omega) (by omega)
    rw [ensureTables]
    simp only [bind, EStateM.bind, hhead, htail]

end Access

/-! ## Trees of tables -/

/-- A tree of page tables with the recursive entry. Every table is reached in one way and none is a
free frame; in the top-level table bit 7, which the processor reserves, is clear. -/
structure TreeOk (M : Machine) : Prop where
  self : SelfMapped M.mem M.cr3
  own : OwnTables decodeEntry M.mem M.cr3 511
  taken : ∀ (w : Nat → Fin 512) k t, w 0 ≠ 511 →
    tableAt decodeEntry M.mem M.cr3 w k = some t → ¬ M.phys.Free t
  top : ∀ i, M.mem M.cr3 i &&& pgtP ≠ 0#64 → M.mem M.cr3 i &&& pdtPs = 0#64
  fits : M.phys.entryEnd ≤ mmTableMax

/-- The next `n` frames that the allocator gives out hold no entry with `PGT_P` set. -/
def BlankFrames (m : Memory) : Nat → Physical → Prop
  | 0, _ => True
  | n + 1, s => ∀ new s', allocPhysFrame s = .ok (new, s') → new ≠ 0 →
    (∀ i, m (new / pgSize) i &&& pgtP = 0#64) ∧ BlankFrames m n s'

/-- The entry for a new table. -/
def tableEntry (f : Nat) : BitVec 64 := BitVec.ofNat 64 (f <<< pgBits) ||| pgtP ||| pgtRw

theorem tableEntry_toNat {f : Nat} (hf : f < 64 * mmTableMax) :
    (tableEntry f).toNat = f * 2 ^ 12 + 3 := by
  rw [mmTableMax] at hf
  have hlow : pgtP ||| pgtRw = 3#64 := by decide
  have hlt : f <<< pgBits < 2 ^ 64 := by
    rw [Nat.shiftLeft_eq, pgBits]
    omega
  have hthree : (3#64 : BitVec 64).toNat < 2 ^ pgBits := by decide
  rw [tableEntry, BitVec.or_assoc, hlow, BitVec.toNat_or, BitVec.toNat_ofNat, Nat.mod_eq_of_lt hlt,
    ← Nat.shiftLeft_add_eq_or_of_lt hthree, Nat.shiftLeft_eq]
  rfl

/-- A flag of an entry, as a number. -/
theorem flag_eq_zero (e : BitVec 64) {k : Nat} (hk : k < 64) :
    e &&& (1#64 <<< k) = 0#64 ↔ e.toNat / 2 ^ k % 2 = 0 := by
  have hbit : (e &&& (1#64 <<< k) != 0#64) = e.getLsbD k := Utils.and_one_shiftLeft_ne_zero e k hk
  rw [BitVec.getLsbD, Nat.testBit_eq_decide_div_mod_eq] at hbit
  have hiff : e &&& (1#64 <<< k) ≠ 0#64 ↔ e.toNat / 2 ^ k % 2 = 1 := by
    rw [← bne_iff_ne, hbit, decide_eq_true_iff]
  rw [← not_iff_not, ← ne_eq, hiff]
  omega

theorem tableEntry_bits {f : Nat} (hf : f < 64 * mmTableMax) :
    tableEntry f &&& pgtP ≠ 0#64 ∧ tableEntry f &&& pdtPs = 0#64 ∧ entryFrame (tableEntry f) = f := by
  have hval := tableEntry_toNat hf
  rw [mmTableMax] at hf
  refine ⟨?_, ?_, ?_⟩
  · intro hp
    have hbit := (flag_eq_zero (tableEntry f) (show 0 < 64 by decide)).mp hp
    omega
  · apply (flag_eq_zero (tableEntry f) (show 7 < 64 by decide)).mpr
    omega
  · rw [entryFrame, hval]
    omega

theorem decodeEntry_tableEntry {f level : Nat} (hf : f < 64 * mmTableMax) (hlevel : level ≠ 3) :
    decodeEntry level (tableEntry f) = .table f := by
  obtain ⟨hp, hps, hframe⟩ := tableEntry_bits hf
  exact decodeEntry_table.mpr ⟨hlevel, hp, hps, hframe⟩

/-- An entry that is not present is nothing at any level. -/
theorem decodeEntry_absent {level : Nat} {e : BitVec 64} (h : e &&& pgtP = 0#64) :
    decodeEntry level e = .absent := by
  rw [decodeEntry, if_pos h]

section Trees

variable {M : Machine} {vaddr : BitVec 64} {level leaf t : Nat} {func : String}

/-- In a tree, nothing is what is not present. -/
theorem TreeOk.absent_iff (hM : TreeOk M) {w : Nat → Fin 512}
    (ht : tableAt decodeEntry M.mem M.cr3 w level = some t) (i : Fin 512) :
    decodeEntry level (M.mem t i) = .absent ↔ M.mem t i &&& pgtP = 0#64 := by
  constructor
  · intro habs
    by_contra hp
    rw [decodeEntry, if_neg hp] at habs
    split_ifs at habs with hthree hps htop
    subst htop
    cases ht
    exact hps (hM.top i hp)
  · exact decodeEntry_absent

/-- No page is free where `alloc_phys_frame` looks for one. -/
def Exhausted (s : Physical) : Prop := ∀ p, 256 ≤ p → p < 64 * s.entryEnd → ¬ s.Free p

/-- The allocator is exhausted and returns 0, or it returns the address of a frame that was free. -/
theorem newFrame_cases {s : Physical} (hs : s.entryEnd ≤ mmTableMax) :
    (Exhausted s ∧ allocPhysFrame s = .ok (0, s)) ∨
      ∃ f s', f <<< pgBits ≠ 0 ∧ f <<< pgBits / pgSize = f ∧ s.Free f ∧
        allocPhysFrame s = .ok (f <<< pgBits, s') ∧ Marked s s' f 1 false := by
  obtain ⟨⟨new, s'⟩, halloc⟩ : ∃ r, allocPhysFrame s = .ok r :=
    allocFrameScan_ok hs (by decide) (by
      have hfuel : scanFuel = 64 * mmTableMax + 1 := rfl
      omega)
  rcases allocFrameScan_spec halloc with ⟨hr, hnone⟩ | ⟨f, hnew, hlo, -, hfree, -, hmark⟩
  · cases hr
    exact Or.inl ⟨hnone, halloc⟩
  · cases hnew
    refine Or.inr ⟨f, s', ?_, ?_, hfree, halloc, hmark⟩
    · rw [Nat.shiftLeft_eq, pgBits]
      omega
    · rw [Nat.shiftLeft_eq, pgBits, pgSize]
      omega

/-- A frame that the allocator returned was free. -/
theorem newFrame_of_ne {s s' : Physical} {new : Nat} (hs : s.entryEnd ≤ mmTableMax)
    (halloc : allocPhysFrame s = .ok (new, s')) (hne : new ≠ 0) :
    s.Free (new / pgSize) ∧ Marked s s' (new / pgSize) 1 false := by
  rcases newFrame_cases hs with ⟨-, h₀⟩ | ⟨f, s₀, -, hdiv, hfree, h₀, hmark⟩
  · rw [halloc] at h₀
    cases h₀
    exact absurd rfl hne
  · rw [halloc] at h₀
    cases h₀
    rw [hdiv]
    exact ⟨hfree, hmark⟩

theorem BlankFrames.of_free {m : Memory} {n : Nat} {s : Physical} (hs : s.entryEnd ≤ mmTableMax)
    (h : ∀ f, s.Free f → ∀ i, m f i &&& pgtP = 0#64) : BlankFrames m n s := by
  induction n generalizing s with
  | zero => trivial
  | succ n ih =>
    intro new s' halloc hne
    obtain ⟨hfree, hmark⟩ := newFrame_of_ne hs halloc hne
    refine ⟨h _ hfree, ih (by rw [hmark.entryEnd]; exact hs) ?_⟩
    intro g hg
    exact h g ((hmark.taken_iff g).mp hg).1

/-- The frames to come are as before if no free frame changes. -/
theorem BlankFrames.congr {m m' : Memory} {n : Nat} {s : Physical} (hs : s.entryEnd ≤ mmTableMax)
    (hmem : ∀ f, s.Free f → m' f = m f) (h : BlankFrames m n s) : BlankFrames m' n s := by
  induction n generalizing s with
  | zero => trivial
  | succ n ih =>
    intro new s' halloc hne
    obtain ⟨hfree, hmark⟩ := newFrame_of_ne hs halloc hne
    obtain ⟨hblank, hrest⟩ := h _ _ halloc hne
    rw [hmem _ hfree]
    refine ⟨hblank, ih (by rw [hmark.entryEnd]; exact hs) ?_ hrest⟩
    intro g hg
    exact hmem g ((hmark.taken_iff g).mp hg).1

/-- The machine with the free frame `f` as the table below the entry of `vaddr` at `level`. -/
def Machine.extend (M : Machine) (vaddr : BitVec 64) (level t f : Nat) (phys : Physical) : Machine :=
  { M with mem := M.mem.set t (hwIndex vaddr level) (tableEntry f), phys }

/-- One level on the way down, where the entry is not a large page. -/
theorem ensureTable_cases (func : String) (hM : TreeOk M) (hlevel : level < 3)
    (ht : hwTable M.mem M.cr3 vaddr level = some t)
    (hpage : decodeEntry level (M.mem t (hwIndex vaddr level)) ≠ .page) :
    (∃ t', hwTable M.mem M.cr3 vaddr (level + 1) = some t' ∧
      ensureTable func vaddr level M = .ok () M) ∨
    M.mem t (hwIndex vaddr level) &&& pgtP = 0#64 ∧
      ((∃ M', ensureTable func vaddr level M = .error (.panic func (noFrame level)) M' ∧
          Exhausted M'.phys) ∨
        ∃ f phys, f <<< pgBits ≠ 0 ∧ f <<< pgBits / pgSize = f ∧ M.phys.Free f ∧
          allocPhysFrame M.phys = .ok (f <<< pgBits, phys) ∧ Marked M.phys phys f 1 false ∧
          ensureTable func vaddr level M = .ok () (M.extend vaddr level t f phys)) := by
  have hrun := ensureTable_eq func hM.self (Nat.le_of_lt hlevel) (shown_table ht)
  by_cases hp : M.mem t (hwIndex vaddr level) &&& pgtP = 0#64
  · right
    refine ⟨hp, ?_⟩
    rw [if_pos hp] at hrun
    rcases newFrame_cases hM.fits with ⟨hnone, halloc⟩ | ⟨f, s', hne, hdiv, hfree, halloc, hmark⟩
    · rw [halloc] at hrun
      exact Or.inl ⟨_, hrun, hnone⟩
    · rw [halloc] at hrun
      dsimp only at hrun
      rw [if_neg hne] at hrun
      exact Or.inr ⟨f, s', hne, hdiv, hfree, halloc, hmark, hrun⟩
  · left
    rw [if_neg hp] at hrun
    cases hentry : decodeEntry level (M.mem t (hwIndex vaddr level)) with
    | absent => exact absurd ((hM.absent_iff ht _).mp hentry) hp
    | page => exact absurd hentry hpage
    | table t' => exact ⟨t', tableAt_succ.mpr ⟨t, ht, hentry⟩, hrun⟩

section Extending

variable {f : Nat} {phys : Physical} (hM : TreeOk M) (hlevel : level < 3)
  (ht : hwTable M.mem M.cr3 vaddr level = some t)
  (hp : M.mem t (hwIndex vaddr level) &&& pgtP = 0#64) (hfree : M.phys.Free f)

include hM hlevel ht hp hfree

theorem installs_extend :
    Installs decodeEntry M.mem M.cr3 511 (hwIndex vaddr) level t f (tableEntry f) where
  table := ht
  absent := decodeEntry_absent hp
  entry := decodeEntry_tableEntry hfree.lt (Nat.ne_of_lt hlevel)
  fresh := by
    intro w k hw hk
    exact hM.taken w k f hw hk hfree

variable (hslot : hwIndex vaddr 0 ≠ 511) (hblank : ∀ i, M.mem f i &&& pgtP = 0#64)
  (hmark : Marked M.phys phys f 1 false)

include hslot

omit hlevel hp hfree in
/-- The entry written is not the recursive one. -/
theorem selfMapped_extend : SelfMapped (M.extend vaddr level t f phys).mem M.cr3 := by
  have hloop : M.mem.set t (hwIndex vaddr level) (tableEntry f) M.cr3 511 = M.mem M.cr3 511 := by
    apply set_of_ne
    by_contra hsame
    rw [not_or, not_not, not_not] at hsame
    obtain ⟨hroot, hindex⟩ := hsame
    have hzero : level = 0 := (hM.own (hwIndex vaddr) (hwIndex vaddr) level 0 t hslot hslot ht
      (by rw [← hroot]; rfl)).1
    subst hzero
    exact hslot hindex.symm
  unfold SelfMapped Machine.extend
  dsimp only
  rw [hloop]
  exact hM.self

section Installed

variable (hnew : ∀ i, (decodeEntry (level + 1) (M.mem f i)).next = none)
  (hmark : Marked M.phys phys f 1 false)

include hnew hmark

/-- A new table with no table in it keeps the tree. -/
theorem TreeOk.extend_of : TreeOk (M.extend vaddr level t f phys) := by
  have hi := installs_extend hM hlevel ht hp hfree
  obtain ⟨-, hps, -⟩ := tableEntry_bits hfree.lt
  constructor
  · exact selfMapped_extend hM ht hslot
  · exact hi.own hM.own hslot hnew
  · intro w k t' hw hk hfree'
    obtain ⟨hold, hne⟩ := (hmark.taken_iff t').mp hfree'
    rcases hi.tableAt_cases hM.own hslot hnew hw hk with ⟨-, hk⟩ | ⟨rfl, -, -⟩
    · exact hM.taken w k t' hw hk hold
    · exact hne ⟨le_rfl, Nat.lt_succ_self t'⟩
  · intro i hpi
    unfold Machine.extend at hpi ⊢
    dsimp only at hpi ⊢
    by_cases hword : M.cr3 = t ∧ i = hwIndex vaddr level
    · obtain ⟨rfl, rfl⟩ := hword
      rw [set_self]
      exact hps
    · rw [set_of_ne _ _ (by tauto)] at hpi ⊢
      exact hM.top i hpi
  · change phys.entryEnd ≤ mmTableMax
    rw [hmark.entryEnd]
    exact hM.fits

end Installed

include hblank

/-- A new table with nothing in it changes no page. -/
theorem translates_extend {w : Nat → Fin 512} (hw : w 0 ≠ 511) {k : Nat} {e : BitVec 64} :
    Translates decodeEntry (M.extend vaddr level t f phys).mem M.cr3 w k e ↔
      Translates decodeEntry M.mem M.cr3 w k e :=
  (installs_extend hM hlevel ht hp hfree).translates hM.own hslot
    (fun i => decodeEntry_absent (hblank i)) hw

include hmark

/-- A new table with nothing in it keeps the tree. -/
theorem TreeOk.extend : TreeOk (M.extend vaddr level t f phys) := by
  refine hM.extend_of hlevel ht hp hfree hslot hmark ?_
  intro i
  rw [decodeEntry_absent (hblank i)]
  rfl

end Extending

theorem ensureTables_ok {num : Nat} {M' : Machine}
    (h : ensureTable func vaddr level M = .ok () M') :
    ensureTables func vaddr (num + 1) level M = ensureTables func vaddr num (level + 1) M' := by
  rw [ensureTables]
  simp only [bind, EStateM.bind, h]

theorem ensureTables_error {num : Nat} {M' : Machine} {e : Stop}
    (h : ensureTable func vaddr level M = .error e M') :
    ensureTables func vaddr (num + 1) level M = .error e M' := by
  rw [ensureTables]
  simp only [bind, EStateM.bind, h]

theorem ensureTables_add {num num' : Nat} {M' : Machine}
    (h : ensureTables func vaddr num level M = .ok () M') :
    ensureTables func vaddr (num + num') level M = ensureTables func vaddr num' (level + num) M' := by
  induction num generalizing M level with
  | zero =>
    cases h
    rw [Nat.zero_add]
    rfl
  | succ num ih =>
    have hsum : num + 1 + num' = num + num' + 1 := by omega
    have hlevel : level + (num + 1) = level + 1 + num := by omega
    rw [hsum, hlevel]
    cases hhead : ensureTable func vaddr level M with
    | error e M₁ =>
      rw [ensureTables_error hhead] at h
      cases h
    | ok _ M₁ =>
      rw [ensureTables_ok hhead] at h ⊢
      exact ih h

/-- No entry of `vaddr` from `level` to above `leaf` is a large page. -/
def NoLargePage (M : Machine) (vaddr : BitVec 64) (level leaf : Nat) : Prop :=
  ∀ k t, level ≤ k → k < leaf → hwTable M.mem M.cr3 vaddr k = some t →
    decodeEntry k (M.mem t (hwIndex vaddr k)) ≠ .page

/-- Where a table from `level` to above `leaf` has none below it, the frames for the tables below
are blank. -/
def NewTablesBlank (M : Machine) (vaddr : BitVec 64) (level leaf : Nat) : Prop :=
  ∀ k t, level ≤ k → k < leaf → hwTable M.mem M.cr3 vaddr k = some t →
    M.mem t (hwIndex vaddr k) &&& pgtP = 0#64 → BlankFrames M.mem (leaf - k) M.phys

/-- The entry of `vaddr` at `leaf`, if there is a table for it, is not present. -/
def EntryFree (M : Machine) (vaddr : BitVec 64) (leaf : Nat) : Prop :=
  ∀ t, hwTable M.mem M.cr3 vaddr leaf = some t → M.mem t (hwIndex vaddr leaf) &&& pgtP = 0#64

section Below

variable {f : Nat} {phys : Physical} (hM : TreeOk M) (hlevel : level < 3)
  (ht : hwTable M.mem M.cr3 vaddr level = some t)
  (hp : M.mem t (hwIndex vaddr level) &&& pgtP = 0#64) (hfree : M.phys.Free f)
  (hslot : hwIndex vaddr 0 ≠ 511) (hblank : ∀ i, M.mem f i &&& pgtP = 0#64)

include hM hlevel ht hp hfree hslot hblank

/-- From the new table on, the tables of `vaddr` are the new one alone, and it is blank. -/
theorem extend_tables {k t' : Nat} (hk : level < k)
    (ht' : hwTable (M.extend vaddr level t f phys).mem M.cr3 vaddr k = some t') :
    k = level + 1 ∧ t' = f ∧ ∀ i, (M.extend vaddr level t f phys).mem t' i &&& pgtP = 0#64 := by
  have hi := installs_extend hM hlevel ht hp hfree
  have hword : ∀ i, (M.extend vaddr level t f phys).mem f i = M.mem f i := by
    intro i
    exact set_of_ne _ _ (Or.inl (hi.ne hslot))
  have hnew := hi.tableAt_new hM.own hslot hslot fun _ _ => rfl
  rcases Nat.lt_or_eq_of_le (Nat.succ_le_of_lt hk) with hlt | rfl
  · have habs : decodeEntry (level + 1) ((M.extend vaddr level t f phys).mem f
        (hwIndex vaddr (level + 1))) = .absent := by
      rw [hword]
      exact decodeEntry_absent (hblank _)
    have hnone := tableAt_below hnew (by rw [Machine.extend] at habs; rw [habs]; rfl) hlt
    rw [hwTable, Machine.extend] at ht'
    rw [ht'] at hnone
    cases hnone
  · rw [hwTable, Machine.extend, hnew] at ht'
    cases ht'
    refine ⟨rfl, rfl, ?_⟩
    intro i
    rw [hword]
    exact hblank i

end Below

/-- **The way down.** Where no entry is a large page and the new tables are blank, it ends for lack
of frames or at a table for the last entry, which is not present if it was not before; the tree and
all translations are kept. -/
theorem ensureTables_spec (func : String) (hslot : hwIndex vaddr 0 ≠ 511) {num : Nat} (hM : TreeOk M)
    (hnum : level + num = leaf) (hleaf : leaf ≤ 3) (ht : hwTable M.mem M.cr3 vaddr level = some t)
    (hlarge : NoLargePage M vaddr level leaf) (hblank : NewTablesBlank M vaddr level leaf) :
    (∃ k < leaf, ∃ M', ensureTables func vaddr num level M = .error (.panic func (noFrame k)) M' ∧
        Exhausted M'.phys) ∨
      ∃ M' t', ensureTables func vaddr num level M = .ok () M' ∧ TreeOk M' ∧
        hwTable M'.mem M'.cr3 vaddr leaf = some t' ∧
        (∀ (w : Nat → Fin 512) k e, w 0 ≠ 511 → (Translates decodeEntry M'.mem M'.cr3 w k e ↔
          Translates decodeEntry M.mem M.cr3 w k e)) ∧
        (EntryFree M vaddr leaf → M'.mem t' (hwIndex vaddr leaf) &&& pgtP = 0#64) := by
  induction num generalizing M level t with
  | zero =>
    cases hnum
    exact Or.inr ⟨M, t, rfl, hM, ht, fun _ _ _ _ => Iff.rfl, fun hentry => hentry t ht⟩
  | succ num ih =>
    have hlt : level < leaf := by omega
    have hlevel : level < 3 := lt_of_lt_of_le hlt hleaf
    have hnext : level + 1 + num = leaf := by omega
    rcases ensureTable_cases func hM hlevel ht (hlarge level t le_rfl hlt ht) with
      ⟨t', ht', hrun⟩ | ⟨hp, ⟨M', hrun, hnone⟩ | ⟨f, phys, hne, hdiv, hfree, halloc, hmark, hrun⟩⟩
    · rw [ensureTables_ok hrun]
      exact ih hM hnext ht' (fun k t hk => hlarge k t (Nat.le_of_succ_le hk))
        fun k t hk => hblank k t (Nat.le_of_succ_le hk)
    · exact Or.inl ⟨level, hlt, M', ensureTables_error hrun, hnone⟩
    · have hframes := hblank level t le_rfl hlt ht hp
      have hleft : leaf - level = (leaf - (level + 1)) + 1 := by omega
      rw [hleft] at hframes
      obtain ⟨hempty, hrest⟩ := hframes _ _ halloc hne
      rw [hdiv] at hempty
      have hM₁ := hM.extend hlevel ht hp hfree hslot hempty hmark
      have hnew : hwTable (M.extend vaddr level t f phys).mem M.cr3 vaddr (level + 1) = some f :=
        (installs_extend hM hlevel ht hp hfree).tableAt_new hM.own hslot hslot fun _ _ => rfl
      rw [ensureTables_ok hrun]
      have hlarge₁ : NoLargePage (M.extend vaddr level t f phys) vaddr (level + 1) leaf := by
        intro k t' hk _ ht' hpage
        have hword := (extend_tables hM hlevel ht hp hfree hslot hempty hk ht').2.2 (hwIndex vaddr k)
        rw [decodeEntry_absent hword] at hpage
        cases hpage
      have hblank₁ : NewTablesBlank (M.extend vaddr level t f phys) vaddr (level + 1) leaf := by
        intro k t' hk _ ht' _
        obtain ⟨rfl, -, -⟩ := extend_tables hM hlevel ht hp hfree hslot hempty hk ht'
        refine BlankFrames.congr hM₁.fits ?_ hrest
        intro g hg
        have hgt : g ≠ t := by
          rintro rfl
          exact hM.taken (hwIndex vaddr) level g hslot ht ((hmark.taken_iff g).mp hg).1
        funext i
        exact set_of_ne _ _ (Or.inl hgt)
      rcases ih hM₁ hnext hnew hlarge₁ hblank₁ with herror | ⟨M', t', hok, hM', ht', htrans, hentry⟩
      · exact Or.inl herror
      · refine Or.inr ⟨M', t', hok, hM', ht', ?_, ?_⟩
        · intro w k e hw
          exact (htrans w k e hw).trans (translates_extend hM hlevel ht hp hfree hslot hempty hw)
        · intro _
          apply hentry
          intro t'' ht''
          exact (extend_tables hM hlevel ht hp hfree hslot hempty hlt ht'').2.2 _

end Trees

/-! ## Translations -/

/-- The walk of `va` ends at a page, with the entry `e` at a level. -/
def Machine.Leaf (M : Machine) (va : BitVec 64) (level : Nat) (e : BitVec 64) : Prop :=
  Translates decodeEntry M.mem M.cr3 (hwIndex va) level e

/-- `va'` lies in the page of `va` that an entry of a level maps. -/
def SamePage (level : Nat) (va va' : BitVec 64) : Prop := ∀ j ≤ level, hwIndex va' j = hwIndex va j

/-- The page of `va`, or a part of it, is translated. -/
def Machine.Maps (M : Machine) (level : Nat) (va : BitVec 64) : Prop :=
  ∃ va' k e, SamePage level va va' ∧ M.Leaf va' k e

/-- A table that the entry of `va` at a level points to has a page in it. -/
def Filled (M : Machine) (va : BitVec 64) (level : Nat) : Prop :=
  ∀ t t', hwTable M.mem M.cr3 va level = some t →
    decodeEntry level (M.mem t (hwIndex va level)) = .table t' → M.Maps level va

/-- What a call may do to the translations outside the recursive entry. If the page is translated
already, it panics and changes none. If not, it panics when the allocator has no frame left, or it maps
the page and changes no other. -/
def ChangesOnly (M : Machine) (func : String) (level : Nat) (vaddr e : BitVec 64)
    (r : EStateM.Result Stop Machine Unit) : Prop :=
  (M.Maps level vaddr → ∃ msg M', r = .error (.panic func msg) M' ∧
    ∀ va k e', hwIndex va 0 ≠ 511 → (M'.Leaf va k e' ↔ M.Leaf va k e')) ∧
  (¬ M.Maps level vaddr →
    (∃ k < level, ∃ M', r = .error (.panic func (noFrame k)) M' ∧ Exhausted M'.phys) ∨
    ∃ M', r = .ok () M' ∧ (∀ va, SamePage level vaddr va → M'.Leaf va level e) ∧
      ∀ va k e', hwIndex va 0 ≠ 511 → ¬ SamePage level vaddr va →
        (M'.Leaf va k e' ↔ M.Leaf va k e'))

section Law

variable {M : Machine} {vaddr : BitVec 64} {leaf t : Nat}

/-- Without large pages above, a page that is translated has a present entry. -/
theorem Machine.Maps.entry (h : M.Maps leaf vaddr) (hlarge : NoLargePage M vaddr 0 leaf) :
    ∃ t, hwTable M.mem M.cr3 vaddr leaf = some t ∧
      M.mem t (hwIndex vaddr leaf) &&& pgtP ≠ 0#64 := by
  obtain ⟨va, k, e, hsame, t', ht', rfl, hpage⟩ := h
  have hleaf : leaf ≤ k := by
    by_contra hk
    rw [not_le] at hk
    have htv : hwTable M.mem M.cr3 vaddr k = some t' := by
      rw [← ht']
      exact tableAt_congr fun j hj => (hsame j (le_trans (Nat.le_of_lt hj) (Nat.le_of_lt hk))).symm
    rw [hsame k (Nat.le_of_lt hk)] at hpage
    exact hlarge k t' (Nat.zero_le k) hk htv hpage
  obtain ⟨t, ht⟩ := exists_tableAt ht' hleaf
  have htv : hwTable M.mem M.cr3 vaddr leaf = some t := by
    rw [← ht]
    exact tableAt_congr fun j hj => (hsame j (Nat.le_of_lt hj)).symm
  refine ⟨t, htv, ?_⟩
  intro hp
  rw [← hsame leaf le_rfl] at hp
  have habs := @decodeEntry_absent leaf _ hp
  rcases Nat.lt_or_eq_of_le hleaf with hlt | rfl
  · rw [tableAt_below ht (by rw [habs]; rfl) hlt] at ht'
    cases ht'
  · rw [ht] at ht'
    cases ht'
    rw [habs] at hpage
    cases hpage

/-- A page that is not translated has no present entry, unless that is a table with nothing in
it. -/
theorem TreeOk.entryFree (hM : TreeOk M) (hnot : ¬ M.Maps leaf vaddr)
    (hfilled : Filled M vaddr leaf) :
    EntryFree M vaddr leaf := by
  intro t ht
  by_contra hp
  cases hentry : decodeEntry leaf (M.mem t (hwIndex vaddr leaf)) with
  | absent => exact hp ((hM.absent_iff ht _).mp hentry)
  | page => exact hnot ⟨vaddr, leaf, _, fun _ _ => rfl, t, ht, rfl, hentry⟩
  | table t' => exact hnot (hfilled t t' ht hentry)

/-- Writing a page at an entry that is not present maps it and changes nothing else. -/
theorem TreeOk.install (hM : TreeOk M) (hslot : hwIndex vaddr 0 ≠ 511)
    (ht : hwTable M.mem M.cr3 vaddr leaf = some t) {e : BitVec 64}
    (hpage : decodeEntry leaf e = .page) :
    (∀ va, SamePage leaf vaddr va →
      Machine.Leaf { M with mem := M.mem.set t (hwIndex vaddr leaf) e } va leaf e) ∧
    ∀ va k e', hwIndex va 0 ≠ 511 → ¬ SamePage leaf vaddr va →
      (Machine.Leaf { M with mem := M.mem.set t (hwIndex vaddr leaf) e } va k e' ↔
        M.Leaf va k e') := by
  constructor
  · intro va hsame
    have hva : hwIndex va 0 ≠ 511 := by
      rw [hsame 0 (Nat.zero_le leaf)]
      exact hslot
    exact translates_page hM.own hslot hva ht hsame hpage
  · intro va k e' hva hother
    exact translates_set hM.own hslot hva ht hother

/-- All the tables above `leaf` are there. -/
theorem shown_present (ht : hwTable M.mem M.cr3 vaddr leaf = some t) {k : Nat} (hk : k < leaf) :
    ∃ t, shown M.mem M.cr3 vaddr k = some t ∧ M.mem t (hwIndex vaddr k) &&& pgtP ≠ 0#64 := by
  obtain ⟨u, hu⟩ := exists_tableAt ht hk
  obtain ⟨t₀, ht₀, hentry⟩ := tableAt_succ.mp hu
  exact ⟨t₀, shown_table ht₀, (decodeEntry_table.mp hentry).2.1⟩

namespace MapUnrestricted

variable (f : MapUnrestricted) {frame flags : BitVec 64}

/-- The call after the way down. -/
theorem run_ok (frame flags : BitVec 64) {M' : Machine} (h : ensureTables f.name vaddr f.level 0 M = .ok () M') :
    f.run frame flags vaddr M = installEntry f.name vaddr f.level (frame ||| flags) M' := by
  rw [run_eq]
  simp only [bind, EStateM.bind, h]

theorem run_error (frame flags : BitVec 64) {M' : Machine} {e : Stop}
    (h : ensureTables f.name vaddr f.level 0 M = .error e M') :
    f.run frame flags vaddr M = .error e M' := by
  rw [run_eq]
  simp only [bind, EStateM.bind, h]

/-- **Enough for the call to be right**: no large page on the way, and blank frames for the tables
that are missing. -/
theorem changesOnly (hM : TreeOk M) (hslot : hwIndex vaddr 0 ≠ 511)
    (hpage : decodeEntry f.level (frame ||| flags) = .page)
    (hlarge : NoLargePage M vaddr 0 f.level) (hfilled : Filled M vaddr f.level)
    (hblank : NewTablesBlank M vaddr 0 f.level) :
    ChangesOnly M f.name f.level vaddr (frame ||| flags) (f.run frame flags vaddr M) := by
  constructor
  · intro hmaps
    obtain ⟨t, ht, hp⟩ := hmaps.entry hlarge
    have hdown : ensureTables f.name vaddr f.level 0 M = .ok () M := by
      apply ensureTables_pass f.name hM.self
      · have := f.level_le
        omega
      · intro k _ hk
        exact shown_present ht (by omega)
    have hinstall := installEntry_eq f.name hM.self f.level_le (shown_table ht)
      (frame ||| flags)
    rw [if_pos hp] at hinstall
    refine ⟨"page table entry not available", M, ?_, fun _ _ _ _ => Iff.rfl⟩
    rw [f.run_ok frame flags hdown, hinstall]
  · intro hnot
    rcases ensureTables_spec f.name hslot hM (Nat.zero_add f.level) f.level_le rfl hlarge
      hblank with ⟨k, hk, M', herror, hnone⟩ | ⟨M', t', hok, hM', ht', htrans, hentry⟩
    · exact Or.inl ⟨k, hk, M', f.run_error frame flags herror, hnone⟩
    · right
      have hinstall := installEntry_eq f.name hM'.self f.level_le (shown_table ht')
        (frame ||| flags)
      rw [if_neg (not_not.mpr (hentry (hM.entryFree hnot hfilled)))] at hinstall
      obtain ⟨hin, hout⟩ := hM'.install hslot ht' hpage
      refine ⟨_, ?_, hin, ?_⟩
      · rw [f.run_ok frame flags hok, hinstall]
      · intro va k e' hva hother
        exact (hout va k e' hva hother).trans (htrans (hwIndex va) k e' hva)

end MapUnrestricted

/-! ## Contents of free frames -/

/-- Without a table for the last entry, the way down meets an entry that is not present. -/
theorem TreeOk.missing (hM : TreeOk M) (hlarge : NoLargePage M vaddr 0 leaf)
    (hnone : hwTable M.mem M.cr3 vaddr leaf = none) :
    ∃ k < leaf, ∃ t, hwTable M.mem M.cr3 vaddr k = some t ∧
      M.mem t (hwIndex vaddr k) &&& pgtP = 0#64 := by
  induction leaf with
  | zero => cases hnone
  | succ leaf ih =>
    cases ht : hwTable M.mem M.cr3 vaddr leaf with
    | none =>
      obtain ⟨k, hk, hrest⟩ := ih (fun k t hlo hhi => hlarge k t hlo (Nat.lt_succ_of_lt hhi)) ht
      exact ⟨k, Nat.lt_succ_of_lt hk, hrest⟩
    | some t =>
      refine ⟨leaf, Nat.lt_succ_self leaf, t, ht, ?_⟩
      cases hentry : decodeEntry leaf (M.mem t (hwIndex vaddr leaf)) with
      | absent => exact (hM.absent_iff ht _).mp hentry
      | page => exact absurd hentry (hlarge leaf t (Nat.zero_le leaf) (Nat.lt_succ_self leaf) ht)
      | table t' =>
        have hsome := tableAt_succ.mpr ⟨t, ht, hentry⟩
        rw [hwTable, hsome] at hnone
        cases hnone

section Refill

variable {mem : Memory} (hM : TreeOk M) (hmem : ∀ f, ¬ M.phys.Free f → mem f = M.mem f)

include hM hmem

/-- The tables do not depend on the contents of free frames. -/
theorem tableAt_refill {w : Nat → Fin 512} (hw : w 0 ≠ 511) (k : Nat) :
    tableAt decodeEntry mem M.cr3 w k = tableAt decodeEntry M.mem M.cr3 w k := by
  induction k with
  | zero => rfl
  | succ k ih =>
    rw [tableAt, tableAt, ih]
    cases hk : tableAt decodeEntry M.mem M.cr3 w k with
    | none => rfl
    | some t => rw [Option.bind_some, Option.bind_some, hmem t (hM.taken w k t hw hk)]

theorem TreeOk.refill : TreeOk { M with mem } := by
  have hroot : mem M.cr3 = M.mem M.cr3 := hmem M.cr3 (hM.taken (fun _ => 0) 0 M.cr3 (by decide) rfl)
  constructor
  · unfold SelfMapped
    dsimp only
    rw [hroot]
    exact hM.self
  · intro v w k l t hv hw hk hl
    rw [tableAt_refill hM hmem hv] at hk
    rw [tableAt_refill hM hmem hw] at hl
    exact hM.own v w k l t hv hw hk hl
  · intro w k t hw hk
    rw [tableAt_refill hM hmem hw] at hk
    exact hM.taken w k t hw hk
  · intro i
    dsimp only
    rw [hroot]
    exact hM.top i
  · exact hM.fits

theorem leaf_refill {va : BitVec 64} (hva : hwIndex va 0 ≠ 511) (k : Nat) (e : BitVec 64) :
    Machine.Leaf { M with mem } va k e ↔ M.Leaf va k e := by
  unfold Machine.Leaf Translates
  rw [tableAt_refill hM hmem hva]
  apply exists_congr
  intro t
  apply and_congr_right
  intro hk
  dsimp only
  rw [hmem t (hM.taken (hwIndex va) k t hva hk)]

theorem maps_refill (hslot : hwIndex vaddr 0 ≠ 511) :
    Machine.Maps { M with mem } leaf vaddr ↔ M.Maps leaf vaddr := by
  have hva : ∀ {va}, SamePage leaf vaddr va → hwIndex va 0 ≠ 511 := by
    intro va hsame
    rw [hsame 0 (Nat.zero_le leaf)]
    exact hslot
  constructor
  · rintro ⟨va, k, e, hsame, hleaf⟩
    exact ⟨va, k, e, hsame, (leaf_refill hM hmem (hva hsame) k e).mp hleaf⟩
  · rintro ⟨va, k, e, hsame, hleaf⟩
    exact ⟨va, k, e, hsame, (leaf_refill hM hmem (hva hsame) k e).mpr hleaf⟩

theorem noLargePage_refill (hslot : hwIndex vaddr 0 ≠ 511) (hlarge : NoLargePage M vaddr 0 leaf) :
    NoLargePage { M with mem } vaddr 0 leaf := by
  intro k t hlo hhi ht
  rw [hwTable, tableAt_refill hM hmem hslot] at ht
  dsimp only
  rw [hmem t (hM.taken (hwIndex vaddr) k t hslot ht)]
  exact hlarge k t hlo hhi ht

end Refill

theorem noFrame_ne (k : Nat) : noFrame k ≠ "page table entry not available" := by
  unfold noFrame
  split <;> decide

namespace MapUnrestricted

variable (f : MapUnrestricted) {frame flags : BitVec 64}

/-- A new table full of entries that point to itself: the call comes to the last level and finds the
entry taken. -/
theorem stale_panics (frame flags : BitVec 64) (hM : TreeOk M) (hslot : hwIndex vaddr 0 ≠ 511)
    (hlarge : NoLargePage M vaddr 0 f.level) (hnone : hwTable M.mem M.cr3 vaddr f.level = none)
    {new : Nat} {phys : Physical} (hne : new <<< pgBits ≠ 0) (hfree : M.phys.Free new)
    (halloc : allocPhysFrame M.phys = .ok (new <<< pgBits, phys))
    (hstale : ∀ i, M.mem new i = tableEntry new) :
    ∃ M', f.run frame flags vaddr M =
      .error (.panic f.name "page table entry not available") M' := by
  obtain ⟨k, hk, t, ht, hp⟩ := hM.missing hlarge hnone
  have hleaf := f.level_le
  have hthree : k < 3 := lt_of_lt_of_le hk hleaf
  have hi := installs_extend hM hthree ht hp hfree
  have hself : SelfMapped (M.extend vaddr k t new phys).mem M.cr3 := selfMapped_extend hM ht hslot
  have hword : ∀ i, (M.extend vaddr k t new phys).mem new i = tableEntry new := by
    intro i
    rw [← hstale i]
    exact set_of_ne _ _ (Or.inl (hi.ne hslot))
  have hpresent := (tableEntry_bits hfree.lt).1
  -- the new table is its own table at every level below
  have htables : ∀ j, k < j → j ≤ f.level →
      hwTable (M.extend vaddr k t new phys).mem (M.extend vaddr k t new phys).cr3 vaddr j =
        some new := by
    intro j hlo hhi
    induction j with
    | zero => cases hlo
    | succ j ih =>
      rcases Nat.lt_or_eq_of_le (Nat.le_of_lt_succ hlo) with hlt | rfl
      · refine tableAt_succ.mpr ⟨new, ih hlt (Nat.le_of_succ_le hhi), ?_⟩
        rw [hword]
        exact decodeEntry_tableEntry hfree.lt (by omega)
      · exact hi.tableAt_new hM.own hslot hslot fun _ _ => rfl
  have habove : ensureTables f.name vaddr k 0 M = .ok () M := by
    apply ensureTables_pass f.name hM.self (by omega)
    intro j _ hj
    exact shown_present ht (by omega)
  have hstep : ensureTable f.name vaddr k M = .ok () (M.extend vaddr k t new phys) := by
    have heq := ensureTable_eq f.name hM.self (Nat.le_of_lt hthree) (shown_table ht)
    rw [if_pos hp, halloc] at heq
    dsimp only at heq
    rw [if_neg hne] at heq
    exact heq
  have hbelow : ensureTables f.name vaddr (f.level - (k + 1)) (k + 1) (M.extend vaddr k t new phys) =
      .ok () (M.extend vaddr k t new phys) := by
    apply ensureTables_pass f.name hself (by omega)
    intro j hlo hhi
    refine ⟨new, shown_table (htables j (by omega) (by omega)), ?_⟩
    rw [hword]
    exact hpresent
  have hdown : ensureTables f.name vaddr f.level 0 M = .ok () (M.extend vaddr k t new phys) := by
    have hsplit : f.level = k + (f.level - (k + 1) + 1) := by omega
    rw [hsplit, ensureTables_add habove, Nat.zero_add, ensureTables_ok hstep]
    exact hbelow
  have hinstall := installEntry_eq f.name hself hleaf
    (shown_table (htables f.level hk le_rfl)) (frame ||| flags)
  rw [hword, if_pos hpresent] at hinstall
  exact ⟨_, (f.run_ok frame flags hdown).trans hinstall⟩

/-- **Exactly when the contents of free frames do not matter**: all tables are there, or no frame is
free. -/
theorem changesOnly_refill_iff (hM : TreeOk M) (hslot : hwIndex vaddr 0 ≠ 511)
    (hpage : decodeEntry f.level (frame ||| flags) = .page)
    (hlarge : NoLargePage M vaddr 0 f.level) (hfilled : Filled M vaddr f.level) :
    (∀ mem : Memory, (∀ g, ¬ M.phys.Free g → mem g = M.mem g) →
      ChangesOnly { M with mem } f.name f.level vaddr (frame ||| flags)
        (f.run frame flags vaddr { M with mem })) ↔
    (∃ t, hwTable M.mem M.cr3 vaddr f.level = some t) ∨
      ∃ phys, allocPhysFrame M.phys = .ok (0, phys) := by
  constructor
  · intro hall
    rw [or_iff_not_imp_left]
    intro hnone
    rw [not_exists, ← Option.eq_none_iff_forall_ne_some] at hnone
    rcases newFrame_cases hM.fits with ⟨-, hzero⟩ | ⟨new, phys, hne, -, hfree, halloc, -⟩
    · exact ⟨_, hzero⟩
    · exfalso
      have hmem : ∀ g, ¬ M.phys.Free g →
          Function.update M.mem new (fun _ => tableEntry new) g = M.mem g := by
        intro g hg
        apply Function.update_of_ne
        rintro rfl
        exact hg hfree
      have hM' := hM.refill hmem
      have hlarge' := noLargePage_refill hM hmem hslot hlarge
      have hnone' : hwTable (Function.update M.mem new fun _ => tableEntry new) M.cr3 vaddr
          f.level = none := by
        rw [hwTable, tableAt_refill hM hmem hslot]
        exact hnone
      obtain ⟨M', hrun⟩ := f.stale_panics frame flags hM' hslot hlarge' hnone'
        hne hfree halloc fun i => congrFun (Function.update_self new _ M.mem) i
      have hnot : ¬ Machine.Maps { M with mem := Function.update M.mem new fun _ => tableEntry new }
          f.level vaddr := by
        intro hmaps
        obtain ⟨t, ht, -⟩ := hmaps.entry hlarge'
        rw [hnone'] at ht
        cases ht
      rcases (hall _ hmem).2 hnot with ⟨k, -, M'', herror, -⟩ | ⟨M'', hok, -⟩
      · rw [hrun] at herror
        have hmsg := noFrame_ne k
        simp only [EStateM.Result.error.injEq, Stop.panic.injEq] at herror
        exact hmsg herror.1.2.symm
      · rw [hrun] at hok
        cases hok
  · intro hready mem hmem
    apply f.changesOnly (hM.refill hmem) hslot hpage (noLargePage_refill hM hmem hslot hlarge)
    · intro t t' ht hentry
      rw [hwTable, tableAt_refill hM hmem hslot] at ht
      dsimp only at hentry
      rw [hmem t (hM.taken (hwIndex vaddr) f.level t hslot ht)] at hentry
      exact (maps_refill hM hmem hslot).mpr (hfilled t t' ht hentry)
    · intro k t _ hk ht hp
      rw [hwTable, tableAt_refill hM hmem hslot] at ht
      dsimp only at hp
      rw [hmem t (hM.taken (hwIndex vaddr) k t hslot ht)] at hp
      rcases hready with ⟨u, hu⟩ | ⟨s, hs⟩
      · obtain ⟨t₀, ht₀, hp₀⟩ := shown_present hu hk
        rw [shown_table ht] at ht₀
        cases ht₀
        exact absurd hp hp₀
      · have hleft : f.level - k = f.level - k - 1 + 1 := by omega
        rw [hleft]
        intro new s' halloc hne
        rw [hs] at halloc
        cases halloc
        exact absurd rfl hne

/-- **Exactly when the call is right under a large page**: the word of the large page in the place
of the last entry has its lowest bit set. Otherwise the call overwrites this word and returns. -/
theorem changesOnly_large_iff (hM : TreeOk M) {k : Nat} (hk : k + 1 = f.level)
    (ht : hwTable M.mem M.cr3 vaddr k = some t)
    (hlarge : decodeEntry k (M.mem t (hwIndex vaddr k)) = .page) :
    ChangesOnly M f.name f.level vaddr (frame ||| flags) (f.run frame flags vaddr M) ↔
      M.mem (entryFrame (M.mem t (hwIndex vaddr k))) (hwIndex vaddr f.level) &&& pgtP ≠ 0#64 := by
  have hp : M.mem t (hwIndex vaddr k) &&& pgtP ≠ 0#64 := by
    intro hp
    rw [decodeEntry_absent hp] at hlarge
    cases hlarge
  have hmaps : M.Maps f.level vaddr := ⟨vaddr, k, _, fun _ _ => rfl, t, ht, rfl, hlarge⟩
  have hleaf := f.level_le
  have hdown : ensureTables f.name vaddr f.level 0 M = .ok () M := by
    apply ensureTables_pass f.name hM.self (by omega)
    intro j _ hj
    rcases Nat.lt_or_eq_of_le (show j ≤ k by omega) with hlt | rfl
    · exact shown_present ht hlt
    · exact ⟨t, shown_table ht, hp⟩
  have hshown : shown M.mem M.cr3 vaddr f.level =
      some (entryFrame (M.mem t (hwIndex vaddr k))) := by
    rw [← hk, shown, ht, Option.bind_some, if_neg hp]
  have hinstall := installEntry_eq f.name hM.self hleaf hshown (frame ||| flags)
  have hrun := (f.run_ok frame flags hdown).trans hinstall
  constructor
  · intro h hword
    rw [if_neg (not_not.mpr hword)] at hrun
    obtain ⟨msg, M', herror, -⟩ := h.1 hmaps
    rw [hrun] at herror
    cases herror
  · intro hword
    rw [if_pos hword] at hrun
    refine ⟨fun _ => ⟨_, M, hrun, fun _ _ _ _ => Iff.rfl⟩, fun hnot => absurd hmaps hnot⟩

end MapUnrestricted

end Law

/-- A call that is right and returns, in terms of the processor: the addresses of the page go where
the entry says, all others outside the recursive entry go where they went before. -/
theorem ChangesOnly.translate {M M' : Machine} {func : String} {level : Nat} {vaddr e : BitVec 64}
    (h : ChangesOnly M func level vaddr e (.ok () M')) :
    (∀ va, SamePage level vaddr va → Canonical va →
      translate M'.mem M'.cr3 va = some (pageAddr va level e)) ∧
    ∀ va, hwIndex va 0 ≠ 511 → ¬ SamePage level vaddr va →
      translate M'.mem M'.cr3 va = translate M.mem M.cr3 va := by
  have hnot : ¬ M.Maps level vaddr := by
    intro hmaps
    obtain ⟨msg, M'', herror, -⟩ := h.1 hmaps
    cases herror
  rcases h.2 hnot with ⟨k, -, M'', herror, -⟩ | ⟨M'', hok, hin, hout⟩
  · cases herror
  · cases hok
    constructor
    · intro va hsame hcanon
      exact translate_eq_some.mpr ⟨hcanon, level, e, hin va hsame, rfl⟩
    · intro va hva hother
      exact translate_congr fun k e' => hout va k e' hva hother

/-- **The two functions change only the requested translation, and when they do not.** In a tree of
page tables, for an address outside the recursive entry:

- if no entry above the last one is a large page (and the last one no table without a page), the
  call is right as long as the new tables are blank, and it is right whatever the free frames hold
  exactly if all tables are there or no frame is free;
- if the entry above the last one is a large page, it is right exactly if the word of that page in
  the place of the last entry has its lowest bit set. -/
theorem map_unrestricted_changes_only (f : MapUnrestricted) {M : Machine} (hM : TreeOk M)
    {frame flags vaddr : BitVec 64} (hslot : hwIndex vaddr 0 ≠ 511)
    (hpage : decodeEntry f.level (frame ||| flags) = .page) :
    (NoLargePage M vaddr 0 f.level → Filled M vaddr f.level →
      (NewTablesBlank M vaddr 0 f.level →
        ChangesOnly M f.name f.level vaddr (frame ||| flags) (f.run frame flags vaddr M)) ∧
      ((∀ mem : Memory, (∀ g, ¬ M.phys.Free g → mem g = M.mem g) →
          ChangesOnly { M with mem } f.name f.level vaddr (frame ||| flags)
            (f.run frame flags vaddr { M with mem })) ↔
        (∃ t, hwTable M.mem M.cr3 vaddr f.level = some t) ∨
          ∃ phys, allocPhysFrame M.phys = .ok (0, phys))) ∧
    ∀ k t, k + 1 = f.level → hwTable M.mem M.cr3 vaddr k = some t →
      decodeEntry k (M.mem t (hwIndex vaddr k)) = .page →
      (ChangesOnly M f.name f.level vaddr (frame ||| flags) (f.run frame flags vaddr M) ↔
        M.mem (entryFrame (M.mem t (hwIndex vaddr k))) (hwIndex vaddr f.level) &&& pgtP ≠ 0#64) := by
  refine ⟨fun hlarge hfilled => ⟨?_, ?_⟩, ?_⟩
  · exact f.changesOnly hM hslot hpage hlarge hfilled
  · exact f.changesOnly_refill_iff hM hslot hpage hlarge hfilled
  · intro k t hk ht hentry
    exact f.changesOnly_large_iff hM hk ht hentry

/-- A top-level table with the recursive entry alone in frame 1, and the word `e` everywhere else. -/
def rootAlone (e : BitVec 64) : Memory := fun f i =>
  if f = 1 then if i = 511 then 0x1003#64 else 0#64 else e

theorem rootAlone_tables (e : BitVec 64) {w : Nat → Fin 512} (hw : w 0 ≠ 511) (k : Nat) :
    tableAt decodeEntry (rootAlone e) 1 w (k + 1) = none := by
  have habs : decodeEntry 0 (rootAlone e 1 (w 0)) = .absent := by
    apply decodeEntry_absent
    rw [rootAlone, if_pos rfl, if_neg hw]
    rfl
  have hroot : tableAt decodeEntry (rootAlone e) 1 w 0 = some 1 := rfl
  exact tableAt_below hroot (by rw [habs]; rfl) (Nat.succ_pos k)

theorem rootAlone_ok (e : BitVec 64) {phys : Physical} (hroot : ¬ phys.Free 1)
    (hfits : phys.entryEnd ≤ mmTableMax) : TreeOk ⟨rootAlone e, 1, phys⟩ := by
  constructor
  · have hself : rootAlone e 1 511 = 0x1003#64 := rfl
    unfold SelfMapped
    dsimp only
    rw [hself]
    decide
  · intro v w k l t hv hw hk hl
    cases k with
    | zero =>
      cases l with
      | zero => exact ⟨rfl, nofun⟩
      | succ l =>
        rw [rootAlone_tables e hw] at hl
        cases hl
    | succ k =>
      rw [rootAlone_tables e hv] at hk
      cases hk
  · intro w k t hw hk
    cases k with
    | zero =>
      cases hk
      exact hroot
    | succ k =>
      rw [rootAlone_tables e hw] at hk
      cases hk
  · intro i
    dsimp only [rootAlone]
    split
    · split <;> decide
    · next h => exact absurd rfl h
  · exact hfits

/-- Three frames from 1MB on are free. -/
def threeFrames : Physical := ⟨⟨fun i => if i.val = 4 then 7#64 else 0#64⟩, 259, 5, by decide⟩

/-- Three blank tables for the page at `0x40000000`. -/
theorem map_unrestricted_blank_tables :
    ChangesOnly ⟨rootAlone 0#64, 1, threeFrames⟩ "vm_map_page_unrestricted" 3 0x40000000#64
      0x200003#64
      (vmMapPageUnrestricted 0x200000#64 0x3#64 0x40000000#64 ⟨rootAlone 0#64, 1, threeFrames⟩) := by
  have hroot : ¬ threeFrames.Free 1 := by decide
  have hnone : ∀ {k t}, hwTable (rootAlone 0#64) 1 0x40000000#64 k = some t → k = 0 := by
    intro k t ht
    cases k with
    | zero => rfl
    | succ k =>
      rw [hwTable, rootAlone_tables _ (by decide)] at ht
      cases ht
  refine ((map_unrestricted_changes_only .page (rootAlone_ok 0#64 hroot (by decide)) (by decide)
    (by decide)).1 ?_ ?_).1 ?_
  · intro k t _ _ ht
    obtain rfl := hnone ht
    cases ht
    decide
  · intro t t' ht
    cases hnone ht
  · intro k t _ _ _ _
    apply BlankFrames.of_free (by decide)
    intro g hg i
    have hg : g ≠ 1 := by
      rintro rfl
      exact hroot hg
    change rootAlone 0#64 g i &&& pgtP = 0#64
    rw [rootAlone, if_neg hg]
    decide

/-- A free frame at 1MB full of entries that point to itself, and a page that is not translated: the
call panics, and not for lack of frames. -/
theorem map_unrestricted_stale_table :
    TreeOk ⟨rootAlone (tableEntry 256), 1, oneFrame⟩ ∧
      ¬ ChangesOnly ⟨rootAlone (tableEntry 256), 1, oneFrame⟩ "vm_map_page_unrestricted" 3
        0x40000000#64 0x200003#64 (vmMapPageUnrestricted 0x200000#64 0x3#64 0x40000000#64
          ⟨rootAlone (tableEntry 256), 1, oneFrame⟩) := by
  have hM : TreeOk ⟨rootAlone (tableEntry 256), 1, oneFrame⟩ :=
    rootAlone_ok _ (by decide) (by decide)
  have hnone : ∀ k, hwTable (rootAlone (tableEntry 256)) 1 0x40000000#64 (k + 1) = none :=
    rootAlone_tables _ (by decide)
  have hlarge : NoLargePage ⟨rootAlone (tableEntry 256), 1, oneFrame⟩ 0x40000000#64 0 3 := by
    intro k t _ _ ht
    cases k with
    | zero =>
      cases ht
      decide
    | succ k =>
      rw [hnone] at ht
      cases ht
  obtain ⟨s, halloc⟩ := oneFrame_alloc
  obtain ⟨M', hrun⟩ := MapUnrestricted.stale_panics .page 0x200000#64 0x3#64 hM (by decide) hlarge
    (hnone 2) (show 256 <<< pgBits ≠ 0 by decide) (by decide) halloc fun _ => rfl
  refine ⟨hM, fun h => ?_⟩
  have hnot : ¬ Machine.Maps ⟨rootAlone (tableEntry 256), 1, oneFrame⟩ 3 0x40000000#64 := by
    intro hmaps
    obtain ⟨t, ht, -⟩ := hmaps.entry hlarge
    rw [hnone] at ht
    cases ht
  change vmMapPageUnrestricted _ _ _ _ = _ at hrun
  rw [hrun] at h
  rcases h.2 hnot with ⟨k, -, M'', herror, -⟩ | ⟨M'', hok, -⟩
  · simp only [EStateM.Result.error.injEq, Stop.panic.injEq] at herror
    exact noFrame_ne k herror.1.2.symm
  · cases hok

end Rtv.Mm
