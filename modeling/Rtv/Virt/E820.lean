import Mathlib.Data.List.Pairwise
import Rtv.Mm.NextFreeRange
import Rtv.Mm.Ownership
import Rtv.Virt.Linux

/-!
# The guest's memory map

`arch/x86_64/virt/mem.c: virt_setup_e820`. The function walks over the free ranges of `mm_table`,
writes an e820 entry for each part that Linux may have, and takes that part from the hypervisor. It
moves its own cursor while it walks: a range above the kernel is rounded inwards to large pages,
the first range is extended downwards by the two frames `virt_setup_linux` took last, and the
ramdisk is added in passing, in front of the first range that starts after it.

What the function writes to `zero_page->e820_table` is a list of writes here, each with the index
it goes to. The index is a `uint8_t`; a write at 128 or above is outside the table.

**The law** (`e820_hand_over`): the walk ends; the entries are in ascending order and disjoint, one
of them is the ramdisk, and no page of an entry is left free, so no later allocation returns one.
-/

namespace Rtv.Virt

open Rtv.Lib Rtv.Utils Rtv.Mm

/-! ## The model -/

/-- The variables of the walk. -/
structure Walk where
  phys : Physical
  mmapStart : Nat
  mmapSize : Nat
  mmapNum : Nat
  mergeRamdisk : Bool
  table : List (Nat × E820Entry)

/-- Write `table[mmap_num]` and count it. -/
def Walk.add (w : Walk) (addr size : Nat) : Walk :=
  { w with
    table := w.table ++ [(w.mmapNum, ⟨addr, size, e820Ram⟩)]
    mmapNum := (w.mmapNum + 1) % 256 }

/-- The end of the loop body: writes the range as an entry and takes it. -/
def Walk.emit (w : Walk) (mmapStart mmapSize : Nat) : Exec Walk := do
  let phys ← physicalTakeRange w.phys mmapStart mmapSize
  return { w.add mmapStart mmapSize with phys, mmapStart, mmapSize }

/-- The first part of the loop body: adds the ramdisk to linux memory when the walk has come past
it. The end of the ramdisk is the sum of two `uint32_t`. -/
def Walk.addRamdisk (w : Walk) (hdr : SetupHeader) : Walk :=
  if w.mmapStart ≥ (hdr.ramdiskImage + hdr.ramdiskSize).toNat ∧ w.mergeRamdisk then
    { w.add hdr.ramdiskImage.toNat (ceiling64 hdr.ramdiskSize.toNat largePgSize) with
      mergeRamdisk := false }
  else w

/-- The second part of the loop body, for a range that is not empty: writes the part of it that
Linux may have as an entry, or moves on with `continue`. -/
def Walk.placeRange (w : Walk) (kernelEnd startPaddr : Nat) : Exec Walk :=
  if w.mmapStart ≥ kernelEnd then
    -- align to large page size
    let oldAddr := w.mmapStart
    let mmapStart := ceiling64 w.mmapStart largePgSize
    -- skip a range smaller than a large page
    let tmp := sub64 mmapStart oldAddr
    if tmp ≥ w.mmapSize then
      return { w with mmapStart, mmapSize := 0 }
    else
      let mmapSize := sub64 w.mmapSize tmp
      let tmp := mmapSize &&& largePgMask.toNat
      if tmp < largePgSize then
        return { w with mmapStart, mmapSize }
      else
        w.emit mmapStart tmp
  else if w.mmapStart ≥ linuxEntryPoint ∧ w.mmapStart < kernelEnd then
    -- for kernel mapping
    return w
  else if startPaddr = 0 then
    -- the frames of the zero page and of the command line
    w.emit (sub64 w.mmapStart (2 <<< pgBits)) (add64 w.mmapSize (2 <<< pgBits))
  else
    w.emit w.mmapStart w.mmapSize

/-- The body of the loop; the flag says that it ended with `break`. -/
def e820Round (hdr : SetupHeader) (kernelEnd : Nat) (w : Walk) : Exec (Bool × Walk) := do
  let startPaddr := add64 w.mmapStart w.mmapSize
  let (mmapStart, mmapSize) ← physicalNextFreeRange w.phys startPaddr w.mmapStart
  let w := Walk.addRamdisk { w with mmapStart, mmapSize } hdr
  if w.mmapSize = 0 then
    return (true, w)
  else
    return (false, ← w.placeRange kernelEnd startPaddr)

/-- The loop. -/
def e820Loop (hdr : SetupHeader) (kernelEnd : Nat) : Nat → Walk → Exec Walk
  | 0, _ => .error .hang
  | fuel + 1, w => do
    let (done, w) ← e820Round hdr kernelEnd w
    if done then return w else e820Loop hdr kernelEnd fuel w

/-- `virt_setup_e820`: what it writes to `zero_page->e820_table`, and the allocator afterwards. -/
def virtSetupE820 (s : Physical) (hdr : SetupHeader) (kernelSize : Nat) :
    Exec (List (Nat × E820Entry) × Physical) := do
  let w ← e820Loop hdr (add64 linuxEntryPoint kernelSize) scanFuel ⟨s, 0, 0, 0, true, []⟩
  return (w.table, w.phys)

end Rtv.Virt
