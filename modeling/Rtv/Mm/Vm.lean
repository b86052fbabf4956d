import Rtv.Mm.PhysicalSpec

/-!
# Virtual memory of the kernel

`arch/x86_64/mm/vm.c`. The kernel reaches its own page tables through the recursive entry of the
top-level table: `get_paging_struct_vaddr` turns a virtual address and a level into the virtual
address of the table that translates it, and the functions read and write its entries there. The
model is those entries, one word for each virtual address in the recursive window.

Two parts of the address space are for dynamic mapping: 512 pages of 4KB from
`KERNEL_MAPPING_BASE` on, whose entries are one page table, and 10 pages of 2MB from `LG_PG_BASE`
on, whose entries are part of one page directory. The functions on them come in pairs that differ
in the table and the page size, so each pair is one definition with parameters here, and each
function of the source is that definition at its own values. `pg_lock` is held throughout each of
them, so a call is one step.
-/

namespace Rtv.Mm

open Rtv.Lib Rtv.Utils

/-! ## Constants -/

/-- `vm.h: PG_TABLE_ENTRIES`. -/
def pgTableEntries : Nat := 512

/-- `vm.h: PG_TABLE_MASK`. -/
def pgTableMask : Nat := 511

/-- `vm.h: LARGE_PG_BITS`. -/
def largePgBits : Nat := 21

/-- `vm.h: LARGE_PG_SIZE`. -/
def largePgSize : Nat := 0x200000

/-- `vm.h: PG_MASK`. -/
def pgMask : BitVec 64 := ~~~0xfff#64

/-- `vm.h: LARGE_PG_MASK`. -/
def largePgMask : BitVec 64 := ~~~0x1fffff#64

/-- `vm.h: PGT_P`. -/
def pgtP : BitVec 64 := 0x1#64

/-- `vm.h: PGT_RW`. -/
def pgtRw : BitVec 64 := 0x2#64

/-- `vm.h: PGT_XD`. -/
def pgtXd : BitVec 64 := 0x8000000000000000#64

/-- `vm.h: PDT_PS`. -/
def pdtPs : BitVec 64 := 0x80#64

/-- `vm.h: PGT_MASK`. -/
def pgtMask : BitVec 64 := 0xFFFFFFFFFFFFF000#64

/-- `vm.h: KERNEL_MAPPING_BASE`, the end of the malloc pool. -/
def kernelMappingBase : Nat := 0xA00000

/-- `vm.h: LG_PG_BASE`. -/
def lgPgBase : Nat := 0xC00000

/-- `vm.h: LG_PG_LIMIT`. -/
def lgPgLimit : Nat := 0x2000000

/-! ## The tables -/

/-- What `vm.c` works on: the words of the recursive window, by virtual address, and the frame
allocator. -/
structure Vm where
  entry : BitVec 64 → BitVec 64
  phys : Physical

/-- The virtual address of `table[i]`. -/
def slot (table : BitVec 64) (i : Nat) : BitVec 64 := table + BitVec.ofNat 64 (8 * i)

/-- Read `table[i]`. -/
def Vm.get (s : Vm) (table : BitVec 64) (i : Nat) : BitVec 64 := s.entry (slot table i)

/-- Write `table[i]`. -/
def Vm.set (s : Vm) (table : BitVec 64) (i : Nat) (e : BitVec 64) : Vm :=
  { s with entry := fun a => if a = slot table i then e else s.entry a }

/-- `!(table[i] & PGT_P)`. -/
def Vm.Absent (s : Vm) (table : BitVec 64) (i : Nat) : Prop := s.get table i &&& pgtP = 0#64

instance (s : Vm) (table : BitVec 64) (i : Nat) : Decidable (s.Absent table i) :=
  inferInstanceAs (Decidable (_ = _))

/-- `get_paging_struct_vaddr`: the table of a level, 0 to 3, that translates an address. -/
def getPagingStructVaddr (addr : BitVec 64) : Nat → Exec (BitVec 64)
  | 0 => .ok 0xFFFFFFFFFFFFF000#64
  | 1 => .ok (((addr >>> 27) ||| 0xFFFFFFFFFFE00000#64) &&& pgtMask)
  | 2 => .ok (((addr >>> 18) ||| 0xFFFFFFFFC0000000#64) &&& pgtMask)
  | 3 => .ok (((addr >>> 9) ||| 0xFFFFFF8000000000#64) &&& pgtMask)
  | _ => .error (.panic "get_paging_struct_vaddr" "invalid paging level option")

/-- `table[i]` is below the top of the address space, where the recursive window ends. -/
def Reaches (table : BitVec 64) (i : Nat) : Prop := table.toNat + 8 * i < 2 ^ 64

instance (table : BitVec 64) (i : Nat) : Decidable (Reaches table i) :=
  inferInstanceAs (Decidable (_ < _))

/-! ## Mapping -/

/-- The loop of `vm_map_page` and `vm_map_large_page` over the entries `[i, stop)`: the index of
the first one not present, which now holds `e`, or `none`. -/
def mapPageScan (s : Vm) (table : BitVec 64) (stop : Nat) (e : BitVec 64) :
    Nat → Nat → Exec (Option Nat × Vm)
  | 0, _ => .error .hang
  | fuel + 1, i =>
    if i < stop then
      if s.Absent table i then
        return (some i, s.set table i e)
      else
        mapPageScan s table stop e fuel (i + 1)
    else
      return (none, s)

/-- The loop that counts the entries not present from `j` on, below `stop`. -/
def countAbsent (s : Vm) (table : BitVec 64) (stop : Nat) : Nat → Nat → Nat → Exec (Nat × Nat)
  | 0, _, _ => .error .hang
  | fuel + 1, j, count =>
    if j < stop then
      if ¬ Reaches table j then
        .error .fault
      else if s.Absent table j then
        countAbsent s table stop fuel (add64 j 1) (add64 count 1)
      else
        return (j, count)
    else
      return (j, count)

/-- The loop that writes the entries `[j, stop)`, for frames that are `size` bytes apart. -/
def fillEntries (table : BitVec 64) (stop : Nat) (size flags : BitVec 64) :
    Nat → Vm → Nat → BitVec 64 → Exec Vm
  | 0, _, _, _ => .error .hang
  | fuel + 1, s, j, frame =>
    if j < stop then
      fillEntries table stop size flags fuel (s.set table j (frame ||| flags)) (add64 j 1)
        (frame + size)
    else
      return s

/-- The loop of `vm_map_pages` and `vm_map_large_pages` over the start entries `[i, bound)`: the
first entry of the range that was mapped, or `none`. The bound wraps if there are fewer entries than
pages to map, and the loop then goes on past the window. -/
def mapPagesScan (s : Vm) (table : BitVec 64) (bound num : Nat) (size frame flags : BitVec 64) :
    Nat → Nat → Exec (Option Nat × Vm)
  | 0, _ => .error .hang
  | fuel + 1, i =>
    if i < bound then
      if ¬ Reaches table i then
        .error .fault
      else if s.Absent table i then do
        let (j, count) ← countAbsent s table (add64 i num) loopFuel (add64 i 1) 1
        if count = num then
          let s ← fillEntries table (add64 i num) size flags loopFuel s i frame
          return (some i, s)
        else
          -- the source sets `i = j + 1` and then steps over that entry too
          mapPagesScan s table bound num size frame flags fuel (add64 (add64 j 1) 1)
      else
        mapPagesScan s table bound num size frame flags fuel (add64 i 1)
    else
      return (none, s)

/-- `vm_map_page`: maps a frame at a free page of the 4KB window. Returns its virtual address, 0
for `NULL`. -/
def vmMapPage (s : Vm) (frame flags : BitVec 64) : Exec (Nat × Vm) := do
  let pt ← getPagingStructVaddr (BitVec.ofNat 64 kernelMappingBase) 3
  match ← mapPageScan s pt pgTableEntries (frame ||| flags) loopFuel 0 with
  | (some i, s) => return (kernelMappingBase + (i <<< pgBits), s)
  | (none, s) => return (0, s)

/-- `vm_map_pages`: maps `num` contiguous frames at contiguous pages of the 4KB window. -/
def vmMapPages (s : Vm) (frame : BitVec 64) (num : Nat) (flags : BitVec 64) : Exec (Nat × Vm) := do
  if num < 1 then
    return (0, s)
  let pt ← getPagingStructVaddr (BitVec.ofNat 64 kernelMappingBase) 3
  let bound := add64 (sub64 pgTableEntries num) 1
  match ← mapPagesScan s pt bound num (BitVec.ofNat 64 pgSize) frame flags loopFuel 0 with
  | (some i, s) => return (kernelMappingBase + (i <<< pgBits), s)
  | (none, s) => return (0, s)

/-- `vm_map_large_page`: maps a 2MB frame at a free page of the 2MB window. -/
def vmMapLargePage (s : Vm) (frame flags : BitVec 64) : Exec (Nat × Vm) := do
  let pdt ← getPagingStructVaddr (BitVec.ofNat 64 lgPgBase) 2
  match ← mapPageScan s pdt (lgPgLimit >>> largePgBits) (frame ||| flags) loopFuel
      (lgPgBase >>> largePgBits) with
  | (some i, s) => return (i <<< largePgBits, s)
  | (none, s) => return (0, s)

/-- `vm_map_large_pages`: maps `num` contiguous 2MB frames at contiguous pages of the 2MB
window. -/
def vmMapLargePages (s : Vm) (frame : BitVec 64) (num : Nat) (flags : BitVec 64) :
    Exec (Nat × Vm) := do
  if num < 1 then
    return (0, s)
  let pdt ← getPagingStructVaddr (BitVec.ofNat 64 lgPgBase) 2
  let bound := add64 (sub64 (lgPgLimit >>> largePgBits) num) 1
  match ← mapPagesScan s pdt bound num (BitVec.ofNat 64 largePgSize) frame flags loopFuel
      (lgPgBase >>> largePgBits) with
  | (some i, s) => return (i <<< largePgBits, s)
  | (none, s) => return (0, s)

/-! ## Unmapping -/

/-- The index of the entry of `va` in its table. -/
def entryIndex (va bits : Nat) : Nat := (va >>> bits) &&& pgTableMask

/-- `vm_unmap_page` and `vm_unmap_large_page`: clears the entry of `va` and returns its frame. -/
def unmapEntry (s : Vm) (va level bits : Nat) (mask : BitVec 64) : Exec (BitVec 64 × Vm) := do
  let table ← getPagingStructVaddr (BitVec.ofNat 64 va) level
  let i := entryIndex va bits
  return (s.get table i &&& mask, s.set table i 0#64)

/-- The loop of `vm_unmap_pages` and `vm_unmap_large_pages`: clears `num` entries from `i` on and
returns the first frame that is not 0. -/
def unmapLoop (table mask : BitVec 64) : Nat → Vm → Nat → BitVec 64 → BitVec 64 × Vm
  | 0, s, _, frame => (frame, s)
  | num + 1, s, i, frame =>
    let frame := if frame = 0#64 then s.get table i &&& mask else frame
    unmapLoop table mask num (s.set table i 0#64) (add64 i 1) frame

/-- `vm_unmap_page`. -/
def vmUnmapPage (s : Vm) (va : Nat) : Exec (BitVec 64 × Vm) := unmapEntry s va 3 pgBits pgMask

/-- `vm_unmap_large_page`. -/
def vmUnmapLargePage (s : Vm) (va : Nat) : Exec (BitVec 64 × Vm) :=
  unmapEntry s va 2 largePgBits largePgMask

/-- `vm_unmap_pages`. -/
def vmUnmapPages (s : Vm) (va num : Nat) : Exec (BitVec 64 × Vm) := do
  let pt ← getPagingStructVaddr (BitVec.ofNat 64 va) 3
  return unmapLoop pt pgMask num s (entryIndex va pgBits) 0#64

/-- `vm_unmap_large_pages`. -/
def vmUnmapLargePages (s : Vm) (va num : Nat) : Exec (BitVec 64 × Vm) := do
  let pdt ← getPagingStructVaddr (BitVec.ofNat 64 va) 2
  return unmapLoop pdt largePgMask num s (entryIndex va largePgBits) 0#64

/-! ## Start -/

/-- One level of `vm_init`: if the entry is not present, a new frame becomes its table. -/
def initLevel (s : Vm) (table : BitVec 64) (i : Nat) (msg : String) : Exec Vm :=
  if s.Absent table i then do
    let (new, phys) ← allocPhysFrame s.phys
    if new = 0 then
      .error (.panic "vm_init" msg)
    else
      return Vm.set { s with phys } table i (BitVec.ofNat 64 new ||| pgtP ||| pgtRw)
  else
    return s

/-- The loops of `vm_init` that clear the entries `[i, i + num)`. -/
def clearEntries (table : BitVec 64) : Nat → Vm → Nat → Vm
  | 0, s, _ => s
  | num + 1, s, i => clearEntries table num (s.set table i 0#64) (i + 1)

/-- `vm_init`: makes the tables of the 4KB window and clears the entries of both windows. -/
def vmInit (s : Vm) : Exec Vm := do
  let base := BitVec.ofNat 64 kernelMappingBase
  let pml4t ← getPagingStructVaddr base 0
  let s ← initLevel s pml4t ((kernelMappingBase &&& 0xFF8000000000) >>> 39)
    "page allocation for PDPT failed"
  let pdpt ← getPagingStructVaddr base 1
  let s ← initLevel s pdpt ((kernelMappingBase &&& 0x7FC0000000) >>> 30)
    "page allocation for PDT failed"
  let pdt ← getPagingStructVaddr base 2
  let s ← initLevel s pdt ((kernelMappingBase &&& 0x3FE00000) >>> 21)
    "page allocation for PT failed"
  let pt ← getPagingStructVaddr base 3
  let s := clearEntries pt pgTableEntries s 0
  return clearEntries pdt (lgPgLimit >>> largePgBits - lgPgBase >>> largePgBits) s
    (lgPgBase >>> largePgBits)

end Rtv.Mm
