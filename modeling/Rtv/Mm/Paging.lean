import Mathlib.Tactic.IntervalCases
import Rtv.Lib.PageTree
import Rtv.Mm.Vm
import Rtv.Utils.Math

/-!
# The processor's page tables

The tables of 4-level paging in physical memory, as the processor walks them from `cr3`, and the
recursive window of `vm.c` onto them. Physical memory is a tree of tables (`Rtv.Lib.PageTree`):
tables are frames, their words are the entries.

**The law** (`window_shows_tables`): with entry 511 of the top-level table pointing back to it, the
address that `get_paging_struct_vaddr` gives for a level, plus the entry's offset, is translated by
the processor to where the entry itself lies.
-/

namespace Rtv.Mm

open Rtv.Lib Rtv.Lib.PageTree

/-! ## The walk of the processor -/

/-- Physical memory: word `i` of frame `f`. -/
abbrev Memory := Tables (Fin 512) (BitVec 64)

/-- The frame of an entry, its bits 51 to 12. -/
def entryFrame (e : BitVec 64) : Nat := e.toNat / 2 ^ 12 % 2 ^ 40

/-- How the processor reads an entry of the levels 0 to 3. Bit 7 makes a page of an entry of level 1
or 2, is an attribute of the page in level 3 and must not be set in level 0. -/
def decodeEntry (level : Nat) (e : BitVec 64) : PageEntry :=
  if e &&& pgtP = 0#64 then .absent
  else if level = 3 then .page
  else if e &&& pdtPs = 0#64 then .table (entryFrame e)
  else if level = 0 then .absent
  else .page

/-- A table has entries. -/
instance tableEntries_neZero : NeZero 512 := ⟨by decide⟩

/-- The index into the table of a level. -/
def hwIndex (va : BitVec 64) (level : Nat) : Fin 512 :=
  Fin.ofNat 512 (va.toNat / 2 ^ (39 - 9 * level))

theorem hwIndex_val (va : BitVec 64) (level : Nat) :
    (hwIndex va level : Nat) = va.toNat / 2 ^ (39 - 9 * level) % 512 := rfl

/-- The bytes that an entry of a level translates. -/
def pageBytes (level : Nat) : Nat := 2 ^ (39 - 9 * level)

/-- The rest of a walk: `n` levels from `level` on, from the table in frame `table`. -/
def hwWalk (m : Memory) (va : BitVec 64) : Nat → Nat → Nat → Option Nat
  | 0, _, _ => none
  | n + 1, level, table =>
    let e := m table (hwIndex va level)
    match decodeEntry level e with
    | .absent => none
    | .page =>
      some (entryFrame e * 2 ^ 12 / pageBytes level * pageBytes level +
        va.toNat % pageBytes level)
    | .table t => hwWalk m va n (level + 1) t

/-- Bits 63 to 47 are the same. -/
def Canonical (va : BitVec 64) : Prop := va.toNat / 2 ^ 47 = 0 ∨ va.toNat / 2 ^ 47 = 2 ^ 17 - 1

instance (va : BitVec 64) : Decidable (Canonical va) := inferInstanceAs (Decidable (_ ∨ _))

/-- The physical address of a virtual one, with the top-level table in frame `cr3`. -/
def translate (m : Memory) (cr3 : Nat) (va : BitVec 64) : Option Nat :=
  if Canonical va then hwWalk m va 4 0 cr3 else none

/-- The frame of the table that the processor consults at a level when it walks `va`. -/
def hwTable (m : Memory) (cr3 : Nat) (va : BitVec 64) (level : Nat) : Option Nat :=
  tableAt decodeEntry m cr3 (hwIndex va) level

/-- Entry 511 of the top-level table points to it, and is not a large page. -/
def SelfMapped (m : Memory) (cr3 : Nat) : Prop :=
  m cr3 511 &&& pgtP ≠ 0#64 ∧ m cr3 511 &&& pdtPs = 0#64 ∧ entryFrame (m cr3 511) = cr3

instance (m : Memory) (cr3 : Nat) : Decidable (SelfMapped m cr3) :=
  inferInstanceAs (Decidable (_ ∧ _ ∧ _))

/-- The index of an entry as the functions of `vm.c` compute it. -/
def pagingIndex (vaddr : BitVec 64) : Nat → Nat
  | 0 => ((vaddr &&& 0xFF8000000000#64) >>> 39).toNat
  | 1 => ((vaddr &&& 0x7FC0000000#64) >>> 30).toNat
  | 2 => ((vaddr &&& 0x3FE00000#64) >>> 21).toNat
  | _ => ((vaddr &&& 0x1FF000#64) >>> 12).toNat

section Entries

variable {level k t : Nat} {e : BitVec 64}

theorem decodeEntry_table : decodeEntry level e = .table t ↔
    level ≠ 3 ∧ e &&& pgtP ≠ 0#64 ∧ e &&& pdtPs = 0#64 ∧ entryFrame e = t := by
  unfold decodeEntry
  split_ifs <;> simp_all

/-- A word that points to a table does so at every level but the last. -/
theorem decodeEntry_table_of (h : decodeEntry level e = .table t) (hk : k ≠ 3) :
    decodeEntry k e = .table t := by
  obtain ⟨-, hp, hps, ht⟩ := decodeEntry_table.mp h
  exact decodeEntry_table.mpr ⟨hk, hp, hps, ht⟩

theorem decodeEntry_three (h : e &&& pgtP ≠ 0#64) : decodeEntry 3 e = .page := by
  rw [decodeEntry, if_neg h, if_pos rfl]

end Entries

/-! ## Walks and pages -/

section Pages

variable {m : Memory} {cr3 level pa t : Nat} {va : BitVec 64}

/-- The physical address of `va` in the page of an entry. -/
def pageAddr (va : BitVec 64) (level : Nat) (e : BitVec 64) : Nat :=
  entryFrame e * 2 ^ 12 / pageBytes level * pageBytes level + va.toNat % pageBytes level

/-- The rest of a walk ends at the page that the whole walk ends at. -/
theorem hwWalk_iff {n : Nat} (hn : level + n = 4) (ht : hwTable m cr3 va level = some t) :
    hwWalk m va n level t = some pa ↔
      ∃ k e, Translates decodeEntry m cr3 (hwIndex va) k e ∧ level ≤ k ∧ pa = pageAddr va k e := by
  induction n generalizing level t with
  | zero =>
    obtain rfl : level = 4 := hn
    obtain ⟨t₀, -, hentry⟩ := tableAt_succ.mp ht
    exact absurd rfl (decodeEntry_table.mp hentry).1
  | succ n ih =>
    rw [hwWalk]
    cases hentry : decodeEntry level (m t (hwIndex va level)) with
    | table t' =>
      have ht' := tableAt_succ.mpr ⟨t, ht, hentry⟩
      dsimp only
      rw [ih (by omega) ht']
      apply exists_congr
      intro k
      apply exists_congr
      intro e
      apply and_congr_right
      intro htrans
      -- the walk does not end here
      have hne : level ≠ k := by
        rintro rfl
        obtain ⟨t₀, ht₀, rfl, hpage⟩ := htrans
        rw [hwTable, ht₀] at ht
        cases ht
        rw [hentry] at hpage
        cases hpage
      rw [Nat.succ_le_iff, Nat.lt_iff_le_and_ne]
      tauto
    | absent =>
      refine ⟨nofun, ?_⟩
      rintro ⟨k, e, ⟨t₀, ht₀, rfl, hpage⟩, hk, -⟩
      rcases Nat.lt_or_eq_of_le hk with hlt | rfl
      · rw [tableAt_below ht (by rw [hentry]; rfl) hlt] at ht₀
        cases ht₀
      · rw [hwTable, ht₀] at ht
        cases ht
        rw [hentry] at hpage
        cases hpage
    | page =>
      have htrans : Translates decodeEntry m cr3 (hwIndex va) level (m t (hwIndex va level)) :=
        ⟨t, ht, rfl, hentry⟩
      dsimp only
      rw [Option.some_inj]
      constructor
      · intro hpa
        exact ⟨level, _, htrans, le_rfl, hpa.symm⟩
      · rintro ⟨k, e, htrans', -, rfl⟩
        obtain ⟨rfl, rfl⟩ := htrans.unique htrans'
        rfl

/-- The processor translates a canonical address if its walk ends at a page, and to its place in
that page. -/
theorem translate_eq_some : translate m cr3 va = some pa ↔
    Canonical va ∧ ∃ k e, Translates decodeEntry m cr3 (hwIndex va) k e ∧ pa = pageAddr va k e := by
  rw [translate]
  split
  · next hcanon =>
    rw [hwWalk_iff (by rfl) rfl]
    simp [hcanon]
  · next hcanon => simp [hcanon]

/-- Addresses whose walks end in the same way are translated in the same way. -/
theorem translate_congr {m' : Memory} {cr3' : Nat}
    (h : ∀ k e, Translates decodeEntry m' cr3' (hwIndex va) k e ↔
      Translates decodeEntry m cr3 (hwIndex va) k e) :
    translate m' cr3' va = translate m cr3 va := by
  apply Option.ext
  intro pa
  rw [translate_eq_some, translate_eq_some]
  simp only [h]

end Pages

/-! ## The recursive window -/

/-- The functions of `vm.c` and the processor agree on the index. -/
theorem pagingIndex_eq (va : BitVec 64) {level : Nat} (h : level ≤ 3) :
    pagingIndex va level = hwIndex va level := by
  have hva := va.isLt
  have hmask : ∀ {k : Nat} {c : BitVec 64}, c.toNat = (2 ^ 9 - 1) * 2 ^ k → k + 9 ≤ 64 →
      ((va &&& c) >>> k).toNat = va.toNat / 2 ^ k % 512 := by
    intro k c hc hk
    rw [BitVec.toNat_ushiftRight, BitVec.toNat_and, hc, Nat.shiftRight_eq_div_pow]
    apply Nat.eq_of_testBit_eq
    intro i
    rw [Nat.testBit_div_two_pow, Nat.testBit_and, Nat.testBit_mul_two_pow,
      Nat.testBit_two_pow_sub_one, show 512 = 2 ^ 9 from rfl, Nat.testBit_mod_two_pow,
      Nat.testBit_div_two_pow, Nat.add_sub_cancel]
    simp [Bool.and_comm]
  interval_cases level
  · exact @hmask 39 _ rfl (by decide)
  · exact @hmask 30 _ rfl (by decide)
  · exact @hmask 21 _ rfl (by decide)
  · exact @hmask 12 _ rfl (by decide)

/-- The address of the window for a level: ones, then the indices of the levels above. -/
def windowBase (addr : BitVec 64) (level : Nat) : Nat :=
  ((2 ^ (52 - 9 * level) - 1) * 2 ^ (12 + 9 * level) +
    addr.toNat / 2 ^ (36 - 9 * level) % 2 ^ (12 + 9 * level)) / 2 ^ 12 * 2 ^ 12

theorem getPagingStructVaddr_toNat (addr : BitVec 64) {level : Nat} (h : level ≤ 3) :
    ∃ table, getPagingStructVaddr addr level = .ok table ∧ table.toNat = windowBase addr level := by
  have hmask : pgtMask.toNat = (2 ^ (64 - 12) - 1) * 2 ^ 12 := rfl
  have haddr := addr.isLt
  have hlevel : ∀ {k : Nat} {c : BitVec 64}, 1 ≤ k → k ≤ 3 →
      c.toNat = (2 ^ (64 - (12 + 9 * k)) - 1) * 2 ^ (12 + 9 * k) →
      (((addr >>> (36 - 9 * k)) ||| c) &&& pgtMask).toNat = windowBase addr k := by
    intro k c hpos hk hc
    have hlt : addr.toNat / 2 ^ (36 - 9 * k) < 2 ^ 64 :=
      lt_of_le_of_lt (Nat.div_le_self _ _) haddr
    have hsub : 64 - (12 + 9 * k) = 52 - 9 * k := by omega
    have hor := Utils.or_highMask hlt (show 12 + 9 * k ≤ 64 by omega)
    have hbound := ((addr >>> (36 - 9 * k)) ||| c).isLt
    rw [BitVec.toNat_or, BitVec.toNat_ushiftRight, hc, Nat.shiftRight_eq_div_pow, hor] at hbound
    rw [BitVec.toNat_and, BitVec.toNat_or, BitVec.toNat_ushiftRight, hc, hmask,
      Nat.shiftRight_eq_div_pow, hor, Utils.and_highMask hbound (by decide), windowBase, hsub]
  interval_cases level
  · refine ⟨_, rfl, ?_⟩
    have hlow := Nat.mod_lt (addr.toNat / 2 ^ 36) (Nat.two_pow_pos 12)
    change 0xFFFFFFFFFFFFF000 = ((2 ^ 52 - 1) * 2 ^ 12 + addr.toNat / 2 ^ 36 % 2 ^ 12) / 2 ^ 12 * 2 ^ 12
    omega
  · exact ⟨_, rfl, @hlevel 1 _ (by decide) (by decide) rfl⟩
  · exact ⟨_, rfl, @hlevel 2 _ (by decide) (by decide) rfl⟩
  · exact ⟨_, rfl, @hlevel 3 _ (by decide) (by decide) rfl⟩

/-- What the processor makes of the address of an entry in the window: first 511, once for every
level that is left out, then the indices of the address, then the offset of the entry. -/
theorem window_indices {addr w : BitVec 64} {level i : Nat} (h : level ≤ 3) (hi : i < 512)
    (hw : w.toNat = windowBase addr level + 8 * i) :
    (∀ k, k + level ≤ 3 → hwIndex w k = 511) ∧
      (∀ j < level, hwIndex w (4 - level + j) = hwIndex addr j) ∧
      w.toNat % 2 ^ 12 = 8 * i ∧ Canonical w := by
  have haddr := addr.isLt
  have hloop : ((511 : Fin 512) : Nat) = 511 := rfl
  unfold windowBase at hw
  unfold Canonical
  simp only [Fin.ext_iff, hwIndex_val, hloop]
  interval_cases level
  · refine ⟨fun k hk => ?_, nofun, ?_, ?_⟩
    · have hk : k ≤ 3 := hk
      interval_cases k <;> omega
    · omega
    · omega
  · refine ⟨fun k hk => ?_, fun j hj => ?_, ?_, ?_⟩
    · have hk : k ≤ 2 := by omega
      interval_cases k <;> omega
    · interval_cases j
      omega
    · omega
    · omega
  · refine ⟨fun k hk => ?_, fun j hj => ?_, ?_, ?_⟩
    · have hk : k ≤ 1 := by omega
      interval_cases k <;> omega
    · interval_cases j <;> omega
    · omega
    · omega
  · refine ⟨fun k hk => ?_, fun j hj => ?_, ?_, ?_⟩
    · obtain rfl : k = 0 := by omega
      omega
    · interval_cases j <;> omega
    · omega
    · omega

section Windows

variable {m : Memory} {cr3 level i t t' : Nat} {addr w : BitVec 64}

theorem hwWalk_table {n : Nat} (h : decodeEntry level (m t (hwIndex w level)) = .table t') :
    hwWalk m w (n + 1) level t = hwWalk m w n (level + 1) t' := by
  rw [hwWalk, h]

theorem hwWalk_page (h : m t (hwIndex w 3) &&& pgtP ≠ 0#64) :
    hwWalk m w 1 3 t = some (entryFrame (m t (hwIndex w 3)) * 2 ^ 12 + w.toNat % 2 ^ 12) := by
  rw [hwWalk, decodeEntry_three h]
  change some (entryFrame _ * 2 ^ 12 / 2 ^ 12 * 2 ^ 12 + w.toNat % 2 ^ 12) = _
  rw [Nat.mul_div_cancel _ (Nat.two_pow_pos 12)]

/-- The first indices of a window address lead from the top-level table back to it. -/
theorem hwWalk_self (hself : SelfMapped m cr3) {k : Nat} (hk : k ≤ 3)
    (hindex : ∀ j < k, hwIndex w j = 511) : hwWalk m w 4 0 cr3 = hwWalk m w (4 - k) k cr3 := by
  induction k with
  | zero => rfl
  | succ k ih =>
    have hleft : 4 - k = 4 - (k + 1) + 1 := by omega
    rw [ih (Nat.le_of_succ_le hk) fun j hj => hindex j (Nat.lt_succ_of_lt hj), hleft]
    apply hwWalk_table
    rw [hindex k (Nat.lt_succ_self k)]
    exact decodeEntry_table.mpr ⟨by omega, hself.1, hself.2.1, hself.2.2⟩

/-- The indices after them lead through the tables of the address. -/
theorem hwWalk_window (hself : SelfMapped m cr3) (hpos : 1 ≤ level) (hlevel : level ≤ 3)
    (hones : ∀ k, k + level ≤ 3 → hwIndex w k = 511)
    (hindex : ∀ j < level, hwIndex w (4 - level + j) = hwIndex addr j) {j : Nat} (hj : j < level)
    (ht : hwTable m cr3 addr j = some t) :
    hwWalk m w 4 0 cr3 = hwWalk m w (level - j) (4 - level + j) t := by
  induction j generalizing t with
  | zero =>
    cases ht
    have hstart := hwWalk_self (w := w) (k := 4 - level) hself (by omega)
      fun j hj => hones j (by omega)
    have hleft : 4 - (4 - level) = level := by omega
    rw [hstart, hleft]
    rfl
  | succ j ih =>
    obtain ⟨t₀, ht₀, hentry⟩ := tableAt_succ.mp ht
    have hleft : level - j = level - (j + 1) + 1 := by omega
    rw [ih (Nat.lt_of_succ_lt hj) ht₀, hleft]
    apply hwWalk_table
    rw [hindex j (Nat.lt_of_succ_lt hj)]
    exact decodeEntry_table_of hentry (by omega)

/-- The window for a level below the top shows the frame of the entry above, whether that entry
points to a table or to a large page. -/
theorem translate_window (hself : SelfMapped m cr3) (hlevel : level + 1 ≤ 3) (hi : i < 512)
    (hw : w.toNat = windowBase addr (level + 1) + 8 * i) (ht : hwTable m cr3 addr level = some t)
    (hp : m t (hwIndex addr level) &&& pgtP ≠ 0#64) :
    translate m cr3 w = some (entryFrame (m t (hwIndex addr level)) * 2 ^ 12 + 8 * i) := by
  obtain ⟨hones, hindex, hoff, hcanon⟩ := window_indices hlevel hi hw
  have hwalk := hwWalk_window hself (Nat.le_add_left 1 level) hlevel hones hindex
    (Nat.lt_succ_self level) ht
  have hlast : 4 - (level + 1) + level = 3 := by omega
  have hread : hwIndex w 3 = hwIndex addr level := by
    rw [← hindex level (Nat.lt_succ_self level), hlast]
  rw [hlast, Nat.add_sub_cancel_left] at hwalk
  rw [translate, if_pos hcanon, hwalk, hwWalk_page (by rw [hread]; exact hp), hread, hoff]

/-- The window for the top level shows the top-level table. -/
theorem translate_window_top (hself : SelfMapped m cr3) (hi : i < 512)
    (hw : w.toNat = windowBase addr 0 + 8 * i) : translate m cr3 w = some (cr3 * 2 ^ 12 + 8 * i) := by
  obtain ⟨hones, -, hoff, hcanon⟩ := window_indices (Nat.zero_le 3) hi hw
  have hwalk := hwWalk_self (w := w) (k := 3) hself le_rfl fun j hj => hones j (by omega)
  have hread : hwIndex w 3 = 511 := hones 3 le_rfl
  rw [translate, if_pos hcanon, hwalk, hwWalk_page (by rw [hread]; exact hself.1), hread, hoff,
    hself.2.2]

/-- The address of an entry in a table of the window. -/
theorem slot_toNat {table : BitVec 64} (ht : table.toNat = windowBase addr level) (hi : i < 512) :
    (slot table i).toNat = windowBase addr level + 8 * i := by
  have hlt := table.isLt
  have hround : table.toNat % 2 ^ 12 = 0 := by
    rw [ht]
    exact Nat.mul_mod_left _ _
  rw [slot, BitVec.toNat_add, BitVec.toNat_ofNat, ← ht]
  omega

/-- In a table that the processor reaches, the window shows its entry. -/
theorem translate_entry (hself : SelfMapped m cr3) (hlevel : level ≤ 3)
    (ht : hwTable m cr3 addr level = some t) :
    ∃ table, getPagingStructVaddr addr level = .ok table ∧
      translate m cr3 (slot table (pagingIndex addr level)) =
        some (t * 2 ^ 12 + 8 * hwIndex addr level) := by
  obtain ⟨table, htable, haddr⟩ := getPagingStructVaddr_toNat addr hlevel
  have hi := (hwIndex addr level).isLt
  refine ⟨table, htable, ?_⟩
  rw [pagingIndex_eq addr hlevel]
  cases level with
  | zero =>
    cases ht
    exact translate_window_top hself hi (slot_toNat haddr hi)
  | succ level =>
    obtain ⟨t₀, ht₀, hentry⟩ := tableAt_succ.mp ht
    obtain ⟨-, hp, -, rfl⟩ := decodeEntry_table.mp hentry
    exact translate_window hself hlevel hi (slot_toNat haddr hi) ht₀ hp

end Windows

/-- **The window shows the processor's tables.** With the top-level table in frame `cr3` mapped by
its own entry 511, for every address and every level down to which the entries of the address are
present and not large pages: the processor translates the address that `get_paging_struct_vaddr`
gives, plus 8 times the index, to the place of the entry that it consults itself at that level. -/
theorem window_shows_tables (m : Memory) (cr3 : Nat) (hself : SelfMapped m cr3) (addr : BitVec 64)
    (level frame : Nat) (hlevel : level ≤ 3) (hframe : hwTable m cr3 addr level = some frame) :
    ∃ table, getPagingStructVaddr addr level = .ok table ∧
      translate m cr3 (slot table (pagingIndex addr level)) =
        some (frame * 2 ^ 12 + 8 * hwIndex addr level) :=
  translate_entry hself hlevel hframe

/-- Three tables in frames 1 to 3, for the address 0 and the ones after it. -/
def threeTables : Memory := fun f i =>
  if f = 1 ∧ i = 511 then 0x1003#64
  else if f = 1 ∧ i = 0 then 0x2003#64
  else if f = 2 ∧ i = 0 then 0x3003#64
  else 0#64

/-- The entry for the 2MB page at `0x200000`. -/
theorem window_shows_page_directory :
    translate threeTables 1 (slot 0xFFFFFFFFC0000000#64 1) = some (3 * 2 ^ 12 + 8) := by
  obtain ⟨table, htable, h⟩ :=
    window_shows_tables threeTables 1 (by decide) 0x200000#64 2 3 (by decide) (by decide)
  have heq : table = 0xFFFFFFFFC0000000#64 := (Except.ok.inj htable).symm
  rw [heq] at h
  exact h

end Rtv.Mm
