import Rtv.Mm.MapUnrestricted
import Rtv.Mm.Mappings

/-!
# The mapping functions on the page tables

The functions of `arch/x86_64/mm/vm.c` on the two windows a second time, now on the machine of
`Rtv.Mm.MapUnrestricted`: every read and every write of an entry is an access to the recursive
window that the processor translates with the tables as they are at that moment, also while the
function is changing them.

`Shows T M s`: the tables of the machine `M`, in the frames `T`, hold the entries that the state `s`
of `Rtv.Mm.Vm` has for the windows. As long as it holds, an access to an entry finds it
(`Shows.read`, `Shows.write`), so that each function does on the machine what it does on `s`, and
changes no translation of an address outside the windows (`MapCall.follows`, `UnmapCall.follows`).
-/

namespace Rtv.Mm

open Rtv.Lib Rtv.Lib.PageTree

/-! ## The functions -/

namespace OnTables

/-- The loop of `vm_map_page` and `vm_map_large_page`. -/
def mapPageScan (table : BitVec 64) (stop : Nat) (e : BitVec 64) : Nat → Nat → MachineM (Option Nat)
  | 0, _ => throw .hang
  | fuel + 1, i =>
    if i < stop then do
      let old ← readEntry table i
      if old &&& pgtP = 0#64 then
        writeEntry table i e
        return some i
      else
        mapPageScan table stop e fuel (i + 1)
    else
      return none

/-- The loop that counts the entries not present. -/
def countAbsent (table : BitVec 64) (stop : Nat) : Nat → Nat → Nat → MachineM (Nat × Nat)
  | 0, _, _ => throw .hang
  | fuel + 1, j, count =>
    if j < stop then do
      let e ← readEntry table j
      if e &&& pgtP = 0#64 then
        countAbsent table stop fuel (add64 j 1) (add64 count 1)
      else
        return (j, count)
    else
      return (j, count)

/-- The loop that writes the entries of a mapping. -/
def fillEntries (table : BitVec 64) (stop : Nat) (size flags : BitVec 64) :
    Nat → Nat → BitVec 64 → MachineM Unit
  | 0, _, _ => throw .hang
  | fuel + 1, j, frame =>
    if j < stop then do
      writeEntry table j (frame ||| flags)
      fillEntries table stop size flags fuel (add64 j 1) (frame + size)
    else
      return ()

/-- The loop of `vm_map_pages` and `vm_map_large_pages`. -/
def mapPagesScan (table : BitVec 64) (bound num : Nat) (size frame flags : BitVec 64) :
    Nat → Nat → MachineM (Option Nat)
  | 0, _ => throw .hang
  | fuel + 1, i =>
    if i < bound then do
      let e ← readEntry table i
      if e &&& pgtP = 0#64 then
        let (j, count) ← countAbsent table (add64 i num) loopFuel (add64 i 1) 1
        if count = num then
          fillEntries table (add64 i num) size flags loopFuel i frame
          return some i
        else
          mapPagesScan table bound num size frame flags fuel (add64 (add64 j 1) 1)
      else
        mapPagesScan table bound num size frame flags fuel (add64 i 1)
    else
      return none

/-- `vm_map_page`. -/
def vmMapPage (frame flags : BitVec 64) : MachineM Nat := do
  let pt ← pagingStruct (BitVec.ofNat 64 kernelMappingBase) 3
  match ← mapPageScan pt pgTableEntries (frame ||| flags) loopFuel 0 with
  | some i => return kernelMappingBase + (i <<< pgBits)
  | none => return 0

/-- `vm_map_pages`. -/
def vmMapPages (frame : BitVec 64) (num : Nat) (flags : BitVec 64) : MachineM Nat := do
  if num < 1 then
    return 0
  let pt ← pagingStruct (BitVec.ofNat 64 kernelMappingBase) 3
  let bound := add64 (sub64 pgTableEntries num) 1
  match ← mapPagesScan pt bound num (BitVec.ofNat 64 pgSize) frame flags loopFuel 0 with
  | some i => return kernelMappingBase + (i <<< pgBits)
  | none => return 0

/-- `vm_map_large_page`. -/
def vmMapLargePage (frame flags : BitVec 64) : MachineM Nat := do
  let pdt ← pagingStruct (BitVec.ofNat 64 lgPgBase) 2
  match ← mapPageScan pdt (lgPgLimit >>> largePgBits) (frame ||| flags) loopFuel
      (lgPgBase >>> largePgBits) with
  | some i => return i <<< largePgBits
  | none => return 0

/-- `vm_map_large_pages`. -/
def vmMapLargePages (frame : BitVec 64) (num : Nat) (flags : BitVec 64) : MachineM Nat := do
  if num < 1 then
    return 0
  let pdt ← pagingStruct (BitVec.ofNat 64 lgPgBase) 2
  let bound := add64 (sub64 (lgPgLimit >>> largePgBits) num) 1
  match ← mapPagesScan pdt bound num (BitVec.ofNat 64 largePgSize) frame flags loopFuel
      (lgPgBase >>> largePgBits) with
  | some i => return i <<< largePgBits
  | none => return 0

/-- `vm_unmap_page` and `vm_unmap_large_page`. `invlpg` leaves the tables alone. -/
def unmapEntry (va level bits : Nat) (mask : BitVec 64) : MachineM (BitVec 64) := do
  let table ← pagingStruct (BitVec.ofNat 64 va) level
  let i := entryIndex va bits
  let e ← readEntry table i
  writeEntry table i 0#64
  return e &&& mask

/-- `if (frame == 0) frame = table[i] & mask`. -/
def firstFrame (table mask : BitVec 64) (i : Nat) (frame : BitVec 64) : MachineM (BitVec 64) :=
  if frame = 0#64 then do
    let e ← readEntry table i
    return e &&& mask
  else
    return frame

/-- The loop of `vm_unmap_pages` and `vm_unmap_large_pages`. -/
def unmapLoop (table mask : BitVec 64) : Nat → Nat → BitVec 64 → MachineM (BitVec 64)
  | 0, _, frame => return frame
  | num + 1, i, frame => do
    let frame ← firstFrame table mask i frame
    writeEntry table i 0#64
    unmapLoop table mask num (add64 i 1) frame

/-- `vm_unmap_page`. -/
def vmUnmapPage (va : Nat) : MachineM (BitVec 64) := unmapEntry va 3 pgBits pgMask

/-- `vm_unmap_large_page`. -/
def vmUnmapLargePage (va : Nat) : MachineM (BitVec 64) := unmapEntry va 2 largePgBits largePgMask

/-- `vm_unmap_pages`. -/
def vmUnmapPages (va num : Nat) : MachineM (BitVec 64) := do
  let pt ← pagingStruct (BitVec.ofNat 64 va) 3
  unmapLoop pt pgMask num (entryIndex va pgBits) 0#64

/-- `vm_unmap_large_pages`. -/
def vmUnmapLargePages (va num : Nat) : MachineM (BitVec 64) := do
  let pdt ← pagingStruct (BitVec.ofNat 64 va) 2
  unmapLoop pdt largePgMask num (entryIndex va largePgBits) 0#64

/-- The loops of `vm_init` that clear the entries `[i, i + num)`. -/
def clearEntries (table : BitVec 64) : Nat → Nat → MachineM Unit
  | 0, _ => return ()
  | num + 1, i => do
    writeEntry table i 0#64
    clearEntries table num (i + 1)

/-- `vm_init`. Its first three steps are those of the way down to a page. -/
def vmInit : MachineM Unit := do
  let base := BitVec.ofNat 64 kernelMappingBase
  ensureTables "vm_init" base 3 0
  let pt ← pagingStruct base 3
  clearEntries pt pgTableEntries 0
  let pdt ← pagingStruct base 2
  clearEntries pdt (lgPgLimit >>> largePgBits - lgPgBase >>> largePgBits) (lgPgBase >>> largePgBits)

end OnTables

/-- The call on the machine. -/
def MapCall.onTables : MapCall → MachineM Nat
  | page frame flags => OnTables.vmMapPage frame flags
  | pages frame num flags => OnTables.vmMapPages frame num flags
  | largePage frame flags => OnTables.vmMapLargePage frame flags
  | largePages frame num flags => OnTables.vmMapLargePages frame num flags

/-- The call on the machine. -/
def UnmapCall.onTables : UnmapCall → MachineM (BitVec 64)
  | page va => OnTables.vmUnmapPage va
  | pages va num => OnTables.vmUnmapPages va num
  | largePage va => OnTables.vmUnmapLargePage va
  | largePages va num => OnTables.vmUnmapLargePages va num

/-! ## Where the entries of a window are -/

/-- An address of one of the windows. -/
def InWindow (va : BitVec 64) : Prop := ∃ w : Window, w.start ≤ va.toNat ∧ va.toNat < w.stop

namespace Window

variable {w : Window} {i : Nat}

/-- The address of a page, as a number. -/
theorem toNat_va (hhi : i < w.hi) : (BitVec.ofNat 64 (w.va i)).toNat = w.va i := by
  have hhi' := Nat.lt_of_lt_of_le hhi w.hi_le
  unfold pgTableEntries at hhi'
  rw [BitVec.toNat_ofNat, va_eq]
  apply Nat.mod_eq_of_lt
  cases w <;> simp only [base, size, kernelMappingBase, pgSize, largePgSize] <;> omega

/-- The walk for a page of the window begins like the walk for its first page, outside the recursive
entry, and ends with the entry of the page. -/
theorem hwIndex_va (hlo : w.lo ≤ i) (hhi : i < w.hi) :
    (∀ j < w.level, hwIndex (BitVec.ofNat 64 (w.va i)) j = hwIndex (BitVec.ofNat 64 w.start) j) ∧
      hwIndex (BitVec.ofNat 64 (w.va i)) w.level = Fin.ofNat 512 i ∧
      hwIndex (BitVec.ofNat 64 (w.va i)) 0 ≠ 511 := by
  have hloop : ((511 : Fin 512) : Nat) = 511 := rfl
  have hva : ∀ j, (hwIndex (BitVec.ofNat 64 (w.va i)) j : Nat) =
      (w.base + i * w.size) / 2 ^ (39 - 9 * j) % 512 := by
    intro j
    rw [hwIndex_val, toNat_va hhi, va_eq]
  have hstart : ∀ j, (hwIndex (BitVec.ofNat 64 w.start) j : Nat) =
      w.start / 2 ^ (39 - 9 * j) % 512 := by
    intro j
    rw [hwIndex_val]
    cases w <;> rfl
  simp only [ne_eq, Fin.ext_iff, hva, hstart, Fin.val_ofNat, hloop]
  cases w
  · change i < 512 at hhi
    simp only [level, base, size, kernelMappingBase, pgSize, start]
    refine ⟨fun j hj => ?_, by omega, by omega⟩
    interval_cases j <;> omega
  · change 6 ≤ i at hlo
    change i < 16 at hhi
    simp only [level, base, size, largePgSize, start, lgPgBase]
    refine ⟨fun j hj => ?_, by omega, by omega⟩
    interval_cases j <;> omega

/-- An address outside the windows is in no page of a window. -/
theorem not_samePage (hlo : w.lo ≤ i) (hhi : i < w.hi) {va : BitVec 64} (hcanon : Canonical va)
    (hout : ¬ InWindow va) : ¬ SamePage w.level (BitVec.ofNat 64 (w.va i)) va := by
  intro hsame
  apply hout
  have hindex : ∀ j ≤ w.level, va.toNat / 2 ^ (39 - 9 * j) % 512 =
      (w.base + i * w.size) / 2 ^ (39 - 9 * j) % 512 := by
    intro j hj
    have hval := Fin.ext_iff.mp (hsame j hj)
    rwa [hwIndex_val, hwIndex_val, toNat_va hhi, va_eq] at hval
  have hlt := va.isLt
  unfold Canonical at hcanon
  refine ⟨w, ?_⟩
  cases w
  · change i < 512 at hhi
    have h0 : va.toNat / 2 ^ 39 % 512 = (0xA00000 + i * 4096) / 2 ^ 39 % 512 := hindex 0 (by decide)
    have h1 : va.toNat / 2 ^ 30 % 512 = (0xA00000 + i * 4096) / 2 ^ 30 % 512 := hindex 1 (by decide)
    have h2 : va.toNat / 2 ^ 21 % 512 = (0xA00000 + i * 4096) / 2 ^ 21 % 512 := hindex 2 (by decide)
    change 0xA00000 ≤ va.toNat ∧ va.toNat < 0xA00000 + 0x200000
    omega
  · change 6 ≤ i at hlo
    change i < 16 at hhi
    have h0 : va.toNat / 2 ^ 39 % 512 = (0 + i * 0x200000) / 2 ^ 39 % 512 := hindex 0 (by decide)
    have h1 : va.toNat / 2 ^ 30 % 512 = (0 + i * 0x200000) / 2 ^ 30 % 512 := hindex 1 (by decide)
    have h2 : va.toNat / 2 ^ 21 % 512 = (0 + i * 0x200000) / 2 ^ 21 % 512 := hindex 2 (by decide)
    change 0xC00000 ≤ va.toNat ∧ va.toNat < 0x2000000
    omega

end Window

/-- No address outside the windows and the recursive entry is walked in another way. -/
def SameOutside (M M' : Machine) : Prop :=
  ∀ va, Canonical va → hwIndex va 0 ≠ 511 → ¬ InWindow va →
    SameWalk decodeEntry M.mem M.cr3 M'.mem M'.cr3 (hwIndex va)

theorem SameOutside.refl (M : Machine) : SameOutside M M := fun _ _ _ _ => .refl

theorem SameOutside.trans {M M' M'' : Machine} (h : SameOutside M M') (h' : SameOutside M' M'') :
    SameOutside M M'' := fun va hcanon hva hout =>
  (h va hcanon hva hout).trans (h' va hcanon hva hout)

/-! ## Writing a last entry -/

section SetLeaf

variable {M : Machine} {vaddr e : BitVec 64} {leaf t : Nat} (hM : TreeOk M)
  (hslot : hwIndex vaddr 0 ≠ 511) (hleaf : leaf ≠ 0)
  (ht : hwTable M.mem M.cr3 vaddr leaf = some t)

include hM hslot hleaf ht

/-- A table below the top-level one is another frame. -/
theorem TreeOk.ne_root : t ≠ M.cr3 := by
  rintro rfl
  exact hleaf (hM.own (hwIndex vaddr) (hwIndex vaddr) leaf 0 M.cr3 hslot hslot ht rfl).1

variable (hold : (decodeEntry leaf (M.mem t (hwIndex vaddr leaf))).next = none)
  (hnew : (decodeEntry leaf e).next = none)

include hold hnew

/-- Writing an entry that points to no table, where there was no table, keeps the tree. -/
theorem TreeOk.set_leaf : TreeOk { M with mem := M.mem.set t (hwIndex vaddr leaf) e } := by
  have hroot : ∀ i, M.mem.set t (hwIndex vaddr leaf) e M.cr3 i = M.mem M.cr3 i := fun i =>
    set_of_ne M.mem e (Or.inl (hM.ne_root hslot hleaf ht).symm)
  constructor
  · unfold SelfMapped
    dsimp only
    rw [hroot]
    exact hM.self
  · exact hM.own.set_leaf hslot ht hold hnew
  · intro w k t' hw hk
    dsimp only at hk
    rw [tableAt_set_leaf hM.own hslot hw ht hold hnew] at hk
    exact hM.taken w k t' hw hk
  · intro i
    dsimp only
    rw [hroot]
    exact hM.top i
  · exact hM.fits

end SetLeaf

/-! ## The relation -/

/-- The tables of the machine, in the frames `T`, hold the entries of the windows that `s` has. -/
structure Shows (T : Window → Nat) (M : Machine) (s : Vm) : Prop where
  tree : TreeOk M
  table : ∀ w : Window, hwTable M.mem M.cr3 (BitVec.ofNat 64 w.start) w.level = some (T w)
  leaf : ∀ (w : Window) i, w.lo ≤ i → i < w.hi →
    (decodeEntry w.level (M.mem (T w) (Fin.ofNat 512 i))).next = none
  entry : ∀ (w : Window) i, w.lo ≤ i → i < w.hi →
    s.get w.table i = M.mem (T w) (Fin.ofNat 512 i)
  phys : s.phys = M.phys

namespace Shows

variable {T : Window → Nat} {M : Machine} {s : Vm} {w : Window} {i : Nat} {e : BitVec 64}

/-- The table of a window is the one of each of its pages. -/
theorem table_va (h : Shows T M s) (hlo : w.lo ≤ i) (hhi : i < w.hi) :
    hwTable M.mem M.cr3 (BitVec.ofNat 64 (w.va i)) w.level = some (T w) := by
  rw [← h.table w]
  exact tableAt_congr (Window.hwIndex_va hlo hhi).1

/-- An entry of a window is read and written where it is. -/
theorem access (h : Shows T M s) (hlo : w.lo ≤ i) (hhi : i < w.hi) :
    readEntry w.table i M = .ok (s.get w.table i) M ∧
      ∀ e, writeEntry w.table i e M =
        .ok () { M with mem := M.mem.set (T w) (Fin.ofNat 512 i) e } := by
  obtain ⟨-, hindex, -⟩ := Window.hwIndex_va hlo hhi
  have hlevel : w.level ≤ 3 := by cases w <;> decide
  obtain ⟨table, htable, hread, hwrite⟩ :=
    access_shown h.tree.self hlevel (shown_table (h.table_va hlo hhi))
  have hi : i < 512 := Nat.lt_of_lt_of_le hhi w.hi_le
  have hpaging : pagingIndex (BitVec.ofNat 64 (w.va i)) w.level = i := by
    rw [pagingIndex_eq _ hlevel, hindex, Fin.val_ofNat, Nat.mod_eq_of_lt hi]
  obtain rfl : table = w.table := by
    rw [pagingStruct, w.getPagingStructVaddr_va hlo hhi] at htable
    cases htable
    rfl
  rw [hpaging, hindex] at hread hwrite
  refine ⟨?_, fun e => hwrite e M.phys⟩
  rw [h.entry w i hlo hhi]
  exact hread

/-- The two windows have different tables. -/
theorem table_inj (h : Shows T M s) {w' : Window} (hT : T w = T w') : w = w' := by
  have hzero : ∀ w : Window, hwIndex (BitVec.ofNat 64 w.start) 0 ≠ 511 := by
    intro w
    cases w <;> decide
  have hlevel := (h.tree.own _ _ _ _ (T w) (hzero w) (hzero w') (h.table w) (hT ▸ h.table w')).1
  revert hlevel
  cases w <;> cases w' <;> decide

/-- Writing an entry that is not a table. -/
theorem write (h : Shows T M s) (hlo : w.lo ≤ i) (hhi : i < w.hi)
    (he : (decodeEntry w.level e).next = none) :
    ∃ M', writeEntry w.table i e M = .ok () M' ∧ Shows T M' (s.set w.table i e) ∧
      SameOutside M M' := by
  obtain ⟨-, hindex, hslot⟩ := Window.hwIndex_va hlo hhi
  have hleaf : w.level ≠ 0 := by cases w <;> decide
  have ht := h.table_va hlo hhi
  have hold := h.leaf w i hlo hhi
  have hword : ∀ (w' : Window) j, w'.lo ≤ j → j < w'.hi →
      ((w' = w ∧ j = i) ∨ (T w' ≠ T w ∨ Fin.ofNat 512 j ≠ Fin.ofNat 512 i) ∧
        slot w'.table j ≠ slot w.table i) := by
    intro w' j hlo' hhi'
    have hj : j < 512 := Nat.lt_of_lt_of_le hhi' w'.hi_le
    have hi : i < 512 := Nat.lt_of_lt_of_le hhi w.hi_le
    rw [ne_eq (slot _ _), slot_inj hj hi, ne_eq (Fin.ofNat _ _), Fin.ext_iff, Fin.val_ofNat,
      Fin.val_ofNat, Nat.mod_eq_of_lt hj, Nat.mod_eq_of_lt hi]
    by_cases hsame : w' = w ∧ j = i
    · exact Or.inl hsame
    · refine Or.inr ⟨?_, hsame⟩
      by_cases hw : w' = w
      · exact Or.inr fun hji => hsame ⟨hw, hji⟩
      · exact Or.inl fun hT => hw (h.table_inj hT)
  rw [← hindex] at hold
  refine ⟨_, (h.access hlo hhi).2 e, ?_, ?_⟩
  · rw [← hindex]
    refine ⟨h.tree.set_leaf hslot hleaf ht hold he, ?_, ?_, ?_, h.phys⟩
    · intro w'
      have hzero : hwIndex (BitVec.ofNat 64 w'.start) 0 ≠ 511 := by cases w' <;> decide
      exact (tableAt_set_leaf h.tree.own hslot hzero ht hold he).trans (h.table w')
    · intro w' j hlo' hhi'
      dsimp only
      rw [hindex]
      rcases hword w' j hlo' hhi' with ⟨rfl, rfl⟩ | ⟨hne, -⟩
      · rw [set_self]
        exact he
      · rw [set_of_ne M.mem e hne]
        exact h.leaf w' j hlo' hhi'
    · intro w' j hlo' hhi'
      dsimp only
      rw [hindex, Vm.get, Vm.set]
      dsimp only
      rcases hword w' j hlo' hhi' with ⟨rfl, rfl⟩ | ⟨hne, hslots⟩
      · rw [if_pos rfl, set_self]
      · rw [if_neg hslots, set_of_ne M.mem e hne]
        exact h.entry w' j hlo' hhi'
  · intro va hcanon hva hout
    rw [← hindex]
    exact sameWalk_set h.tree.own hslot hva ht (Window.not_samePage hlo hhi hcanon hout)

/-- Reading an entry. -/
theorem read (h : Shows T M s) (hlo : w.lo ≤ i) (hhi : i < w.hi) :
    readEntry w.table i M = .ok (s.get w.table i) M := (h.access hlo hhi).1

end Shows

/-! ## Each function follows -/

/-- A computation goes on with the result of its first part. -/
theorem bind_run {α β : Type} {x : MachineM α} {f : α → MachineM β} {M M' : Machine} {a : α}
    (h : x M = .ok a M') : (x >>= f) M = f a M' := by
  simp only [bind, EStateM.bind, h]

/-- The computation on the machine returns what the one on the entries returns, and leaves the tables
with what that leaves. -/
def Follows {α : Type} (T : Window → Nat) (M : Machine) (x : EStateM.Result Stop Machine α)
    (y : Exec (α × Vm)) : Prop :=
  ∀ a s', y = .ok (a, s') → ∃ M', x = .ok a M' ∧ Shows T M' s' ∧ SameOutside M M'

section Loops

variable {T : Window → Nat} {M : Machine} {s : Vm} {w : Window} {size flags : BitVec 64}

theorem mapPageScan_follows (h : Shows T M s) {e : BitVec 64}
    (he : (decodeEntry w.level e).next = none) (fuel : Nat) {i : Nat} (hlo : w.lo ≤ i) :
    Follows T M (OnTables.mapPageScan w.table w.hi e fuel i M)
      (mapPageScan s w.table w.hi e fuel i) := by
  induction fuel generalizing i with
  | zero => exact fun a s' hrun => nomatch hrun
  | succ fuel ih =>
    unfold mapPageScan OnTables.mapPageScan
    by_cases hi : i < w.hi
    · rw [if_pos hi, if_pos hi, bind_run (h.read hlo hi)]
      by_cases habs : s.get w.table i &&& pgtP = 0#64
      · rw [if_pos habs, if_pos (show s.Absent w.table i from habs)]
        intro a s' hrun
        cases hrun
        obtain ⟨M', hwrite, hM', hout⟩ := h.write hlo hi he
        exact ⟨M', by rw [bind_run hwrite]; rfl, hM', hout⟩
      · rw [if_neg habs, if_neg (show ¬ s.Absent w.table i from habs)]
        exact ih (Nat.le_succ_of_le hlo)
    · rw [if_neg hi, if_neg hi]
      intro a s' hrun
      cases hrun
      exact ⟨M, rfl, h, .refl M⟩

theorem countAbsent_follows (h : Shows T M s) {stop : Nat} (hstop : stop ≤ w.hi)
    {fuel j count : Nat} (hlo : w.lo ≤ j) {r : Nat × Nat}
    (hrun : countAbsent s w.table stop fuel j count = .ok r) :
    OnTables.countAbsent w.table stop fuel j count M = .ok r M := by
  have hhi := w.hi_le
  unfold pgTableEntries at hhi
  induction fuel generalizing j count with
  | zero => cases hrun
  | succ fuel ih =>
    unfold countAbsent at hrun
    unfold OnTables.countAbsent
    by_cases hj : j < stop
    · have hreach := w.reaches (show j < pgTableEntries by unfold pgTableEntries; omega)
      rw [if_pos hj, if_neg (not_not.mpr hreach)] at hrun
      rw [if_pos hj, bind_run (h.read hlo (Nat.lt_of_lt_of_le hj hstop))]
      by_cases habs : s.get w.table j &&& pgtP = 0#64
      · rw [if_pos (show s.Absent w.table j from habs)] at hrun
        rw [if_pos habs]
        exact ih (by rw [add64_of_lt (by omega)]; omega) hrun
      · rw [if_neg (show ¬ s.Absent w.table j from habs)] at hrun
        rw [if_neg habs]
        cases hrun
        rfl
    · rw [if_neg hj] at hrun
      rw [if_neg hj]
      cases hrun
      rfl

/-- What is written for a mapping is no table. -/
def NoTables (w : Window) (flags : BitVec 64) : Prop :=
  ∀ frame : BitVec 64, (decodeEntry w.level (frame ||| flags)).next = none

theorem fillEntries_follows (h : Shows T M s) (hflags : NoTables w flags) {stop : Nat}
    (hstop : stop ≤ w.hi) {fuel j : Nat} {frame : BitVec 64} (hlo : w.lo ≤ j) {s' : Vm}
    (hrun : fillEntries w.table stop size flags fuel s j frame = .ok s') :
    ∃ M', OnTables.fillEntries w.table stop size flags fuel j frame M = .ok () M' ∧
      Shows T M' s' ∧ SameOutside M M' := by
  have hhi := w.hi_le
  unfold pgTableEntries at hhi
  induction fuel generalizing j frame s M with
  | zero => cases hrun
  | succ fuel ih =>
    unfold fillEntries at hrun
    unfold OnTables.fillEntries
    by_cases hj : j < stop
    · rw [if_pos hj] at hrun
      rw [if_pos hj]
      obtain ⟨M₁, hwrite, h₁, hout₁⟩ := h.write hlo (Nat.lt_of_lt_of_le hj hstop) (hflags frame)
      obtain ⟨M', hrest, h', hout'⟩ := ih h₁ (by rw [add64_of_lt (by omega)]; omega) hrun
      exact ⟨M', by rw [bind_run hwrite, hrest], h', hout₁.trans hout'⟩
    · rw [if_neg hj] at hrun
      rw [if_neg hj]
      cases hrun
      exact ⟨M, rfl, h, .refl M⟩

theorem mapPagesScan_follows (h : Shows T M s) (hflags : NoTables w flags)
    (size frame : BitVec 64) {num : Nat} (bound fuel : Nat) (hnum : 1 ≤ num)
    (hbound : bound + num ≤ w.hi + 1) {i : Nat} (hlo : w.lo ≤ i) :
    Follows T M (OnTables.mapPagesScan w.table bound num size frame flags fuel i M)
      (mapPagesScan s w.table bound num size frame flags fuel i) := by
  have hhi := w.hi_le
  unfold pgTableEntries at hhi
  induction fuel generalizing i with
  | zero => exact fun a s' hrun => nomatch hrun
  | succ fuel ih =>
    unfold mapPagesScan OnTables.mapPagesScan
    by_cases hi : i < bound
    · have hreach := w.reaches (show i < pgTableEntries by unfold pgTableEntries; omega)
      rw [if_pos hi, if_neg (not_not.mpr hreach), if_pos hi, bind_run (h.read hlo (by omega)),
        add64_of_lt (show i + num < 2 ^ 64 by omega), add64_of_lt (show i + 1 < 2 ^ 64 by omega)]
      by_cases habs : s.get w.table i &&& pgtP = 0#64
      · rw [if_pos habs, if_pos (show s.Absent w.table i from habs)]
        intro a s' hrun
        obtain ⟨⟨j, count⟩, hcount, hrun⟩ := Exec.bind_eq_ok.mp hrun
        have hcount' := countAbsent_follows h (show i + num ≤ w.hi by omega) (by omega) hcount
        rw [bind_run hcount']
        dsimp only at hrun ⊢
        by_cases heq : count = num
        · rw [if_pos heq] at hrun ⊢
          obtain ⟨s₁, hfill, hret⟩ := Exec.bind_eq_ok.mp hrun
          cases hret
          obtain ⟨M', hfill', hM', hout⟩ :=
            fillEntries_follows h hflags (show i + num ≤ w.hi by omega) hlo hfill
          exact ⟨M', by rw [bind_run hfill']; rfl, hM', hout⟩
        · rw [if_neg heq] at hrun ⊢
          obtain ⟨j', count', hspec, hle, hle', -⟩ :=
            countAbsent_spec (show i + num < 2 ^ 64 by omega)
              (fun k hk => w.reaches (show k < pgTableEntries by unfold pgTableEntries; omega))
              loopFuel (i + 1) 1 (by decide) (by unfold loopFuel; omega) (by omega) (by omega)
          rw [hcount] at hspec
          cases hspec
          refine ih ?_ a s' hrun
          rw [add64_of_lt (show j + 1 < 2 ^ 64 by omega), add64_of_lt (by omega)]
          omega
      · rw [if_neg habs, if_neg (show ¬ s.Absent w.table i from habs)]
        exact ih (by omega)
    · rw [if_neg hi, if_neg hi]
      intro a s' hrun
      cases hrun
      exact ⟨M, rfl, h, .refl M⟩

theorem unmapLoop_follows (h : Shows T M s) {mask : BitVec 64} {num i : Nat} {frame : BitVec 64}
    (hlo : w.lo ≤ i) (hhi : i + num ≤ w.hi) :
    Follows T M (OnTables.unmapLoop w.table mask num i frame M)
      (.ok (unmapLoop w.table mask num s i frame)) := by
  have hle := w.hi_le
  unfold pgTableEntries at hle
  have hzero : (decodeEntry w.level 0#64).next = none := by cases w <;> decide
  induction num generalizing i frame s M with
  | zero =>
    intro a s' hrun
    cases hrun
    exact ⟨M, rfl, h, .refl M⟩
  | succ num ih =>
    intro a s' hrun
    obtain ⟨M₁, hwrite, h₁, hout₁⟩ := h.write hlo (by omega) hzero
    have hnext : add64 i 1 = i + 1 := add64_of_lt (by omega)
    unfold unmapLoop at hrun
    unfold OnTables.unmapLoop
    rw [hnext] at hrun ⊢
    obtain ⟨M', hrest, h', hout'⟩ := ih h₁ (by omega) (by omega) a s' hrun
    refine ⟨M', ?_, h', hout₁.trans hout'⟩
    rw [← hrest]
    have hframe : OnTables.firstFrame w.table mask i frame M =
        .ok (if frame = 0#64 then s.get w.table i &&& mask else frame) M := by
      unfold OnTables.firstFrame
      split
      · rw [bind_run (h.read hlo (by omega))]
        rfl
      · rfl
    rw [bind_run hframe, bind_run hwrite]

theorem clearEntries_follows (h : Shows T M s) (num i : Nat) (hlo : w.lo ≤ i)
    (hhi : i + num ≤ w.hi) :
    ∃ M', OnTables.clearEntries w.table num i M = .ok () M' ∧
      Shows T M' (clearEntries w.table num s i) ∧ SameOutside M M' := by
  have hzero : (decodeEntry w.level 0#64).next = none := by cases w <;> decide
  induction num generalizing i s M with
  | zero => exact ⟨M, rfl, h, .refl M⟩
  | succ num ih =>
    obtain ⟨M₁, hwrite, h₁, hout₁⟩ := h.write hlo (by omega) hzero
    obtain ⟨M', hrest, h', hout'⟩ := ih h₁ (i + 1) (Nat.le_succ_of_le hlo) (by omega)
    exact ⟨M', by rw [OnTables.clearEntries, bind_run hwrite, hrest], h', hout₁.trans hout'⟩

end Loops

section Calls

variable {T : Window → Nat} {M : Machine} {s : Vm}

/-- A call that has found its table. -/
theorem pagingStruct_run {va table : BitVec 64} {level : Nat}
    (h : getPagingStructVaddr va level = .ok table) : pagingStruct va level M = .ok table M := by
  rw [pagingStruct, h]

/-- What is made of the result of a search. -/
theorem Follows.search {x : MachineM (Option Nat)} {y : Exec (Option Nat × Vm)}
    (h : Follows T M (x M) y) (f : Nat → Nat) :
    Follows T M
      ((x >>= fun r => match r with | some i => (return f i : MachineM Nat) | none => return 0) M)
      (y >>= fun r => match r with | (some i, s) => return (f i, s) | (none, s) => return (0, s)) := by
  intro a s' hrun
  obtain ⟨⟨r, s₁⟩, hy, hret⟩ := Exec.bind_eq_ok.mp hrun
  obtain ⟨M', hx, hM'⟩ := h r s₁ hy
  rw [bind_run hx]
  cases r <;> cases hret <;> exact ⟨M', rfl, hM'⟩

theorem NoTables.page (flags : BitVec 64) : NoTables .page flags := by
  intro frame
  rw [Window.level, decodeEntry]
  split <;> rfl

/-- A large page of the flags is a page. -/
theorem NoTables.largePage {flags : BitVec 64} (hps : flags &&& pdtPs ≠ 0#64) :
    NoTables .largePage flags := by
  intro frame
  have hps' : (frame ||| flags) &&& pdtPs ≠ 0#64 := by
    rw [BitVec.and_or_distrib_right]
    exact fun hzero => hps (BitVec.or_eq_zero_iff.mp hzero).2
  cases hentry : decodeEntry Window.largePage.level (frame ||| flags) with
  | absent => rfl
  | page => rfl
  | table t => exact absurd (decodeEntry_table.mp hentry).2.2.1 hps'

/-- **A mapping call on the page tables** does what the call on the entries does. -/
theorem MapCall.follows {c : MapCall} (hv : c.Valid) (h : Shows T M s) :
    Follows T M (c.onTables M) (c.exec s) := by
  have hpage : getPagingStructVaddr (BitVec.ofNat 64 kernelMappingBase) 3 =
      .ok Window.page.table := page_table
  have hlarge : getPagingStructVaddr (BitVec.ofNat 64 lgPgBase) 2 = .ok Window.largePage.table :=
    largePage_table
  cases c with
  | page frame flags =>
    have hscan := mapPageScan_follows (w := .page) h (NoTables.page flags frame) loopFuel
      (Nat.le_refl 0)
    change Follows T M (OnTables.vmMapPage frame flags M) (vmMapPage s frame flags)
    unfold vmMapPage OnTables.vmMapPage
    rw [hpage, Exec.ok_bind, bind_run (pagingStruct_run hpage)]
    exact hscan.search fun i => kernelMappingBase + (i <<< pgBits)
  | pages frame num flags =>
    obtain ⟨-, -, hnum, hfit⟩ := hv
    have hbound : add64 (sub64 pgTableEntries num) 1 + num ≤ Window.page.hi + 1 := by
      unfold add64 sub64 pgTableEntries
      change _ ≤ 512 + 1
      omega
    have hscan := mapPagesScan_follows (w := .page) h (NoTables.page flags) (BitVec.ofNat 64 pgSize)
      frame _ loopFuel hnum hbound (Nat.le_refl 0)
    change Follows T M (OnTables.vmMapPages frame num flags M) (vmMapPages s frame num flags)
    unfold vmMapPages OnTables.vmMapPages
    rw [if_neg (by omega), if_neg (by omega), hpage, Exec.ok_bind,
      bind_run (pagingStruct_run hpage)]
    exact hscan.search fun i => kernelMappingBase + (i <<< pgBits)
  | largePage frame flags =>
    have hscan := mapPageScan_follows (w := .largePage) h (NoTables.largePage hv.2.2 frame) loopFuel
      (Nat.le_refl _)
    change Follows T M (OnTables.vmMapLargePage frame flags M) (vmMapLargePage s frame flags)
    unfold vmMapLargePage OnTables.vmMapLargePage
    rw [hlarge, Exec.ok_bind, bind_run (pagingStruct_run hlarge)]
    exact hscan.search fun i => i <<< largePgBits
  | largePages frame num flags =>
    obtain ⟨-, -, hps, hnum, hfit⟩ := hv
    have hbound : add64 (sub64 (lgPgLimit >>> largePgBits) num) 1 + num ≤ Window.largePage.hi + 1 := by
      unfold add64 sub64
      change (((16 + 2 ^ 64 - num) % 2 ^ 64 + 1) % 2 ^ 64) + num ≤ 16 + 1
      omega
    have hscan := mapPagesScan_follows (w := .largePage) h (NoTables.largePage hps)
      (BitVec.ofNat 64 largePgSize) frame _ loopFuel hnum hbound (Nat.le_refl _)
    change Follows T M (OnTables.vmMapLargePages frame num flags M)
      (vmMapLargePages s frame num flags)
    unfold vmMapLargePages OnTables.vmMapLargePages
    rw [if_neg (by omega), if_neg (by omega), hlarge, Exec.ok_bind,
      bind_run (pagingStruct_run hlarge)]
    exact hscan.search fun i => i <<< largePgBits

/-- Clearing one entry. -/
theorem unmapEntry_follows (h : Shows T M s) {w : Window} {i : Nat} (hlo : w.lo ≤ i)
    (hhi : i < w.hi) (mask : BitVec 64) :
    Follows T M (OnTables.unmapEntry (w.va i) w.level w.bits mask M)
      (unmapEntry s (w.va i) w.level w.bits mask) := by
  have htable := w.getPagingStructVaddr_va hlo hhi
  have hzero : (decodeEntry w.level 0#64).next = none := by cases w <;> decide
  intro a s' hrun
  unfold unmapEntry at hrun
  rw [htable, Exec.ok_bind, w.entryIndex_va hhi] at hrun
  cases hrun
  obtain ⟨M', hwrite, hM', hout⟩ := h.write hlo hhi hzero
  refine ⟨M', ?_, hM', hout⟩
  unfold OnTables.unmapEntry
  rw [bind_run (pagingStruct_run htable), w.entryIndex_va hhi, bind_run (h.read hlo hhi),
    bind_run hwrite]
  rfl

/-- Clearing several. -/
theorem unmapEntries_follows (h : Shows T M s) {w : Window} {i num : Nat} (hlo : w.lo ≤ i)
    (hnum : 1 ≤ num) (hhi : i + num ≤ w.hi) (mask : BitVec 64) :
    Follows T M
      ((do
        let table ← pagingStruct (BitVec.ofNat 64 (w.va i)) w.level
        OnTables.unmapLoop table mask num (entryIndex (w.va i) w.bits) 0#64 : MachineM _) M)
      (do
        let table ← getPagingStructVaddr (BitVec.ofNat 64 (w.va i)) w.level
        return unmapLoop table mask num s (entryIndex (w.va i) w.bits) 0#64) := by
  have htable := w.getPagingStructVaddr_va hlo (show i < w.hi by omega)
  rw [htable, Exec.ok_bind, w.entryIndex_va (show i < w.hi by omega),
    bind_run (pagingStruct_run htable)]
  exact unmapLoop_follows h hlo hhi

/-- **An unmapping call on the page tables** does what the call on the entries does. -/
theorem UnmapCall.follows (c : UnmapCall) (h : Shows T M s) {i : Nat} (hva : c.va = c.window.va i)
    (hlo : c.window.lo ≤ i) (hnum : 1 ≤ c.num) (hhi : i + c.num ≤ c.window.hi) :
    Follows T M (c.onTables M) (c.exec s) := by
  cases c with
  | page va =>
    simp only [UnmapCall.va, UnmapCall.window] at hva hlo hhi
    rw [hva]
    exact unmapEntry_follows h hlo hhi pgMask
  | pages va num =>
    simp only [UnmapCall.va, UnmapCall.window, UnmapCall.num] at hva hlo hhi hnum
    rw [hva]
    exact unmapEntries_follows h hlo hnum hhi pgMask
  | largePage va =>
    simp only [UnmapCall.va, UnmapCall.window] at hva hlo hhi
    rw [hva]
    exact unmapEntry_follows h hlo hhi largePgMask
  | largePages va num =>
    simp only [UnmapCall.va, UnmapCall.window, UnmapCall.num] at hva hlo hhi hnum
    rw [hva]
    exact unmapEntries_follows h hlo hnum hhi largePgMask

end Calls

/-! ## Start -/

section Start

variable {M : Machine} {t : Nat}

/-- The entries of the windows as the tables in the frames `T` have them. -/
def Machine.windowEntries (M : Machine) (T : Window → Nat) : Vm where
  entry a := M.mem (T (if a.toNat / pgSize = Window.page.table.toNat / pgSize then .page
    else .largePage)) (Fin.ofNat 512 (a.toNat / 8))
  phys := M.phys

theorem Machine.windowEntries_get (M : Machine) (T : Window → Nat) (w : Window) {i : Nat}
    (hi : i < 512) : (M.windowEntries T).get w.table i = M.mem (T w) (Fin.ofNat 512 i) := by
  have hslot : (slot w.table i).toNat = w.table.toNat + 8 * i := by
    unfold slot
    rw [BitVec.toNat_add, BitVec.toNat_ofNat]
    cases w <;> simp only [Window.table, BitVec.toNat_ofNat] <;> omega
  have hindex : Fin.ofNat 512 ((slot w.table i).toNat / 8) = Fin.ofNat 512 i := by
    rw [Fin.ext_iff, Fin.val_ofNat, Fin.val_ofNat, hslot]
    cases w <;> simp only [Window.table, BitVec.toNat_ofNat] <;> omega
  have hwindow : (if (slot w.table i).toNat / pgSize = Window.page.table.toNat / pgSize then
      Window.page else .largePage) = w := by
    rw [hslot, pgSize]
    cases w
    · rw [if_pos]
      simp only [Window.table, BitVec.toNat_ofNat]
      omega
    · rw [if_neg]
      simp only [Window.table, BitVec.toNat_ofNat]
      omega
  change M.mem (T (if _ then _ else _)) (Fin.ofNat 512 ((slot w.table i).toNat / 8)) = _
  rw [hindex, hwindow]

/-- The two windows have the same tables above the last one. -/
theorem base_indices {j : Nat} (hj : j < 2) :
    hwIndex (BitVec.ofNat 64 Window.largePage.start) j = hwIndex (BitVec.ofNat 64 kernelMappingBase) j := by
  interval_cases j <;> rfl

variable (hM : TreeOk M) (ht : hwTable M.mem M.cr3 (BitVec.ofNat 64 kernelMappingBase) 2 = some t)
  (habs : M.mem t (hwIndex (BitVec.ofNat 64 kernelMappingBase) 2) &&& pgtP = 0#64)
  (hlarge : ∀ i, Window.largePage.lo ≤ i → i < Window.largePage.hi →
    (decodeEntry 2 (M.mem t (Fin.ofNat 512 i))).next = none)

include hM ht habs hlarge

/-- With the table of the 4KB window in place, the entries of the windows are where they belong. -/
theorem shows_extend {f : Nat} {phys : Physical} (hfree : M.phys.Free f)
    (hmark : Marked M.phys phys f 1 false) :
    Shows (fun | .page => f | .largePage => t)
        (M.extend (BitVec.ofNat 64 kernelMappingBase) 2 t f phys)
        ((M.extend (BitVec.ofNat 64 kernelMappingBase) 2 t f phys).windowEntries
          (fun | .page => f | .largePage => t)) ∧
      SameOutside M (M.extend (BitVec.ofNat 64 kernelMappingBase) 2 t f phys) := by
  have hslot : hwIndex (BitVec.ofNat 64 kernelMappingBase) 0 ≠ 511 := by decide
  have hlast : ∀ e : BitVec 64, (decodeEntry 3 e).next = none := by
    intro e
    rw [decodeEntry]
    split <;> rfl
  have hi := installs_extend hM (by decide) ht habs hfree
  refine ⟨⟨hM.extend_of (by decide) ht habs hfree hslot hmark fun i => hlast _, ?_, ?_, ?_, rfl⟩, ?_⟩
  · intro w
    cases w with
    | page => exact hi.tableAt_new hM.own hslot hslot fun _ _ => rfl
    | largePage =>
      have hzero : hwIndex (BitVec.ofNat 64 Window.largePage.start) 0 ≠ 511 := by decide
      refine (tableAt_set hM.own hslot hzero ht fun hc => lt_irrefl 2 hc.1).trans ?_
      rw [← ht]
      exact tableAt_congr fun j hj => base_indices hj
  · intro w i hlo hhi
    cases w with
    | page => exact hlast _
    | largePage =>
      have hword : (M.extend (BitVec.ofNat 64 kernelMappingBase) 2 t f phys).mem t
          (Fin.ofNat 512 i) = M.mem t (Fin.ofNat 512 i) := by
        refine set_of_ne M.mem _ (Or.inr fun heq => ?_)
        have hfive : hwIndex (BitVec.ofNat 64 kernelMappingBase) 2 = 5 := by rfl
        change 6 ≤ i at hlo
        change i < 16 at hhi
        rw [hfive, Fin.ext_iff, Fin.val_ofNat] at heq
        change i % 512 = 5 at heq
        omega
      dsimp only
      rw [hword]
      exact hlarge i hlo hhi
  · intro w i _ hhi
    exact Machine.windowEntries_get _ _ w (Nat.lt_of_lt_of_le hhi w.hi_le)
  · intro va hcanon hva hout
    refine sameWalk_set hM.own hslot hva ht fun hsame => hout ⟨.page, ?_⟩
    have hindex : ∀ j ≤ 2, va.toNat / 2 ^ (39 - 9 * j) % 512 = 0xA00000 / 2 ^ (39 - 9 * j) % 512 := by
      intro j hj
      have hval := Fin.ext_iff.mp (hsame j hj)
      rwa [hwIndex_val, hwIndex_val] at hval
    have h0 := hindex 0 (by decide)
    have h1 := hindex 1 (by decide)
    have h2 := hindex 2 (by decide)
    have hlt := va.isLt
    unfold Canonical at hcanon
    change 0xA00000 ≤ va.toNat ∧ va.toNat < 0xA00000 + 0x200000
    omega

/-- **`vm_init` on the page tables**: it panics if there is no frame for the table of the 4KB window,
and otherwise leaves both windows empty and changes no other translation. -/
theorem OnTables.vmInit_spec :
    (∃ phys, allocPhysFrame M.phys = .ok (0, phys) ∧
      ∃ M', OnTables.vmInit M = .error (.panic "vm_init" (noFrame 2)) M') ∨
    ∃ T M' vm new, OnTables.vmInit M = .ok () M' ∧ T .largePage = t ∧ Shows T M' vm ∧
      Windows.Inv ⟨vm, []⟩ ∧ SameOutside M M' ∧ allocPhysFrame M.phys = .ok (new, M'.phys) := by
  have habove : ensureTables "vm_init" (BitVec.ofNat 64 kernelMappingBase) 2 0 M = .ok () M := by
    apply ensureTables_pass "vm_init" hM.self (by decide)
    intro k _ hk
    exact shown_present ht (by omega)
  have hdown : ∀ r, ensureTable "vm_init" (BitVec.ofNat 64 kernelMappingBase) 2 M = r →
      ensureTables "vm_init" (BitVec.ofNat 64 kernelMappingBase) 3 0 M = r := by
    intro r hr
    have hsplit : ensureTables "vm_init" (BitVec.ofNat 64 kernelMappingBase) (2 + 1) 0 M = _ :=
      ensureTables_add habove
    rw [hsplit]
    cases r with
    | ok _ M₁ => rw [ensureTables_ok hr, ensureTables]; rfl
    | error e M₁ => exact ensureTables_error hr
  have hpage : getPagingStructVaddr (BitVec.ofNat 64 kernelMappingBase) 3 =
      .ok Window.page.table := page_table
  have hpdt : getPagingStructVaddr (BitVec.ofNat 64 kernelMappingBase) 2 =
      .ok Window.largePage.table := by rfl
  have hrun := ensureTable_eq "vm_init" hM.self (by decide) (shown_table ht)
  rw [if_pos habs] at hrun
  rcases newFrame_cases hM.fits with ⟨-, halloc⟩ | ⟨f, phys, hne, -, hfree, halloc, hmark⟩
  · rw [halloc] at hrun
    refine Or.inl ⟨M.phys, halloc, M, ?_⟩
    unfold OnTables.vmInit
    simp only [bind, EStateM.bind, hdown _ hrun]
    rfl
  · rw [halloc] at hrun
    dsimp only at hrun
    rw [if_neg hne] at hrun
    have hextend : ensureTable "vm_init" (BitVec.ofNat 64 kernelMappingBase) 2 M =
        .ok () (M.extend (BitVec.ofNat 64 kernelMappingBase) 2 t f phys) := hrun
    obtain ⟨hshows, hout⟩ := shows_extend hM ht habs hlarge hfree hmark
    obtain ⟨M₁, hrun₁, h₁, hout₁⟩ := clearEntries_follows (w := .page) hshows pgTableEntries 0
      (by decide) (by decide)
    obtain ⟨M₂, hrun₂, h₂, hout₂⟩ := clearEntries_follows (w := .largePage) h₁ 10 6
      (by decide) (by decide)
    refine Or.inr ⟨_, M₂, _, f <<< pgBits, ?_, rfl, h₂, ?_, hout.trans (hout₁.trans hout₂), ?_⟩
    · unfold OnTables.vmInit
      rw [bind_run (hdown _ hextend), bind_run (pagingStruct_run hpage), bind_run hrun₁,
        bind_run (pagingStruct_run hpdt)]
      exact hrun₂
    · exact ⟨fun m hm => absurd hm List.not_mem_nil, .nil, fun m hm => absurd hm List.not_mem_nil,
        fun w i hlo hhi _ => clearWindows_get _ w hlo hhi⟩
    · have hphys : M₂.phys = phys := by
        rw [← h₂.phys, (clearEntries_spec (w := .largePage) 10 6 _ (by decide)).1.1,
          (clearEntries_spec (w := .page) pgTableEntries 0 _ (by decide)).1.1]
        rfl
      rw [hphys]
      exact halloc

end Start

end Rtv.Mm
