import Rtv.Utils.Bits

/-!
# Physical memory

`kernel/mm/physical.c`: the frames of physical memory and the four allocators over them. One bit
of `mm_table` stands for one page; a set bit is a free page. `mm_limit` is the last available page
plus one and `entry_end` the number of words that holds those pages.

Every function takes and returns the allocator's state, `Physical`. `phy_lock` is held from the
first to the last access of each function, so a call is one step. A scan that runs past the end
of `mm_table` faults.

This module holds the definitions; the specifications are in `Rtv.Mm.PhysicalSpec`.
-/

namespace Rtv.Mm

open Rtv.Lib Rtv.Utils

/-! ## Constants -/

/-- `vm.h: PG_BITS`. -/
def pgBits : Nat := 12

/-- `vm.h: PG_SIZE`. -/
def pgSize : Nat := 4096

/-- `MM_PHYSICAL_MAX` of `default_config.mk`: the supported physical memory, in GB. -/
def mmPhysicalMax : Nat := 64

/-- `physical.h: MM_TABLE_MAX`, the number of words of `mm_table`:
`mmPhysicalMax * 1024 * 1024 * 1024 / (8 * 8 * pgSize)`. -/
def mmTableMax : Nat := 262144

example : mmTableMax = mmPhysicalMax * 1024 * 1024 * 1024 / (8 * 8 * pgSize) := rfl

/-- More rounds than any scan of `mm_table` can make: every round moves on by at least one page,
and a page past the table faults. -/
def scanFuel : Nat := 64 * mmTableMax + 1

/-! ## The allocator -/

/-- The state of `physical.c`. `physical_set_limit` is the only writer of the two limits and
keeps them in step. -/
structure Physical where
  mmTable : Bitmap mmTableMax
  mmLimit : Nat
  entryEnd : Nat
  entryEnd_eq : entryEnd = (mmLimit + 63) / 64

/-- `mm_table` as it is loaded: all zero, no limit. -/
def Physical.boot : Physical := ⟨⟨fun _ => 0#64⟩, 0, 0, rfl⟩

/-- A page is free: its bit is set. -/
def Physical.Free (s : Physical) (page : Nat) : Prop := s.mmTable.test page = true

instance (s : Physical) (page : Nat) : Decidable (s.Free page) :=
  inferInstanceAs (Decidable (_ = true))

/-! ## Ranges -/

/-- `physical_free_range`: marks the whole pages of `[start, start + length)` free. -/
def physicalFreeRange (s : Physical) (start length : Nat) : Exec Physical := do
  let remain := start % pgSize
  let endRemain := (start + length) % 2 ^ 64 % pgSize
  let mmTable ←
    if remain = 0 then
      bitmap64SetRange s.mmTable (start >>> pgBits) (sub64 length endRemain >>> pgBits)
    else
      bitmap64SetRange s.mmTable ((start >>> pgBits) + 1)
        (sub64 (sub64 length (pgSize - remain)) endRemain >>> pgBits)
  return { s with mmTable }

/-- `physical_take_range`: marks every page that `[start, start + length)` touches taken. -/
def physicalTakeRange (s : Physical) (start length : Nat) : Exec Physical := do
  let remain := start % pgSize
  let endRemain := (start + length) % 2 ^ 64 % pgSize
  let mmTable ←
    if endRemain = 0 then
      bitmap64ClearRange s.mmTable (start >>> pgBits) (((length + remain) % 2 ^ 64) >>> pgBits)
    else
      bitmap64ClearRange s.mmTable (start >>> pgBits)
        (sub64 ((length + remain + pgSize) % 2 ^ 64) endRemain >>> pgBits)
  return { s with mmTable }

/-- `physical_set_limit`. The model reads `entry_end` off the two lines that compute it:
`mm_limit >> 6`, and one more if `mm_limit & 63` is not zero. -/
def physicalSetLimit (s : Physical) (limit : Nat) : Physical :=
  let mmLimit := limit >>> pgBits
  { s with
    mmLimit
    entryEnd := if mmLimit &&& 63 > 0 then (mmLimit >>> 6) + 1 else mmLimit >>> 6
    entryEnd_eq := by
      rw [shiftRight_six, and_sixtyThree]
      split <;> omega }

/-- The two scans of `physical_next_free_range` over the bits of one word, from `bit` up to `stop`
with `count` free pages seen in a row: the run that ended (`inl`, in bytes), or the count at the
end of the word (`inr`). -/
def nextFreeScan (s : Physical) : Nat → Nat → Nat → Nat → Exec (Nat × Nat ⊕ Nat)
  | 0, _, _, _ => .error .hang
  | fuel + 1, bit, stop, count =>
    if bit < stop then do
      if ← bitmap64CheckBit s.mmTable bit then
        nextFreeScan s fuel (bit + 1) stop (count + 1)
      else if count > 0 then
        return .inl ((bit - count) <<< pgBits, count <<< pgBits)
      else
        nextFreeScan s fuel (bit + 1) stop count
    else
      return .inr count

/-- The loop that skips words without a free page. -/
def nextFreeSkip (s : Physical) : Nat → Nat → Exec Nat
  | 0, _ => .error .hang
  | fuel + 1, i =>
    if i < s.entryEnd then do
      let w ← s.mmTable.load i
      if w ≠ 0#64 then return i else nextFreeSkip s fuel (i + 1)
    else
      return i

/-- The loop that counts whole free words after the first one. -/
def nextFreeWords (s : Physical) : Nat → Nat → Nat → Exec (Nat × Nat)
  | 0, _, _ => .error .hang
  | fuel + 1, i, count =>
    if i < s.entryEnd then do
      let w ← s.mmTable.load i
      if w = ~~~0#64 then
        nextFreeWords s fuel (i + 1) (count + 64)
      else
        return (((i <<< 6) - count) <<< pgBits, (count + countTrailingZerosBit64 (~~~w)) <<< pgBits)
    else
      return (((i <<< 6) - count) <<< pgBits, count <<< pgBits)

/-- `physical_next_free_range`: the next free range at or after `current`, as the new values of
`*start` and `*size`. `start` is the value `*start` had, which an early return leaves as it is. -/
def physicalNextFreeRange (s : Physical) (current start : Nat) : Exec (Nat × Nat) := do
  let bit := current >>> pgBits
  let stop := ((bit + 64 - 1) / 64) * 64
  if bit >>> 6 ≥ s.entryEnd then
    return (start, 0)
  match ← nextFreeScan s 65 bit stop 0 with
  | .inl range => return range
  | .inr count =>
    if count = 0 then
      let i ← nextFreeSkip s scanFuel (stop >>> 6)
      match ← nextFreeScan s 65 (i <<< 6) ((i + 1) <<< 6) count with
      | .inl range => return range
      | .inr count => nextFreeWords s scanFuel (i + 1) count
    else
      nextFreeWords s scanFuel (stop >>> 6) count

/-! ## Single frames -/

/-- The loop `while (data) { data >>= 1; pos++; }`. -/
def shiftPos : Nat → BitVec 64 → Nat → Exec Nat
  | 0, _, _ => .error .hang
  | fuel + 1, data, pos => if data ≠ 0#64 then shiftPos fuel (data >>> 1) (pos + 1) else .ok pos

/-- The body of `alloc_phys_frame` and `alloc_phys_frame_lowmem`, which differ in the words they
scan: takes the first free page of the words `[i, stop)`. Returns its address, or 0. -/
def allocFrameScan (s : Physical) (stop : Nat) : Nat → Nat → Exec (Nat × Physical)
  | 0, _ => .error .hang
  | fuel + 1, i =>
    if i < stop then do
      let w ← s.mmTable.load i
      if w ≠ 0#64 then
        let pos ← shiftPos 65 ((w &&& -w) >>> 1) 0
        let mmTable ← s.mmTable.store i (clearBit64 w pos)
        return (((i <<< 6) + pos) <<< pgBits, { s with mmTable })
      else
        allocFrameScan s stop fuel (i + 1)
    else
      return (0, s)

/-- `alloc_phys_frame`: the first free page at or above 1MB; 0 if there is none. -/
def allocPhysFrame (s : Physical) : Exec (Nat × Physical) :=
  allocFrameScan s s.entryEnd scanFuel 4

/-- `alloc_phys_frame_lowmem`: the first free page below 1MB; 0 if there is none. -/
def allocPhysFrameLowmem (s : Physical) : Exec (Nat × Physical) :=
  allocFrameScan s 4 scanFuel 0

/-! ## Runs of frames -/

/-- The loop `while (bitmap64_get(mm_table, pos) == 0) pos++;`. -/
def skipTaken (s : Physical) : Nat → Nat → Exec Nat
  | 0, _ => .error .hang
  | fuel + 1, pos => do
    if ← bitmap64Get s.mmTable pos then return pos else skipTaken s fuel (pos + 1)

/-- The loop that counts free pages from `cur` on, up to `num` of them. -/
def countFree (s : Physical) (num : Nat) : Nat → Nat → Nat → Exec (Nat × Nat)
  | 0, _, _ => .error .hang
  | fuel + 1, cur, count =>
    if count < num then do
      if ← bitmap64Get s.mmTable cur then
        countFree s num fuel (cur + 1) (count + 1)
      else
        return (cur, count)
    else
      return (cur, count)

/-- The outer loop of `alloc_phys_frames`. -/
def allocFramesScan (s : Physical) (num : Nat) : Nat → Nat → Nat → Exec (Nat × Physical)
  | 0, _, _ => .error .hang
  | fuel + 1, i, pos =>
    if i < s.entryEnd then do
      let w ← s.mmTable.load i
      if w ≠ 0#64 then
        let pos ← skipTaken s scanFuel pos
        let (cur, count) ← countFree s num scanFuel pos 0
        if count = num then
          let mmTable ← bitmap64ClearRange s.mmTable pos num
          return (pos <<< pgBits, { s with mmTable })
        else
          allocFramesScan s num fuel ((cur + 1) >>> 6) (cur + 1)
      else
        allocFramesScan s num fuel (i + 1) (pos + 64)
    else
      return (0, s)

/-- `alloc_phys_frames`: `num` contiguous frames at or above 1MB; 0 if it finds none. -/
def allocPhysFrames (s : Physical) (num : Nat) : Exec (Nat × Physical) :=
  allocFramesScan s num scanFuel 4 256

/-- The loop `while (pos < mm_limit && bitmap64_get(mm_table, pos) == 0) pos += pos_inc;`. -/
def skipTakenAligned (s : Physical) (posInc : Nat) : Nat → Nat → Exec Nat
  | 0, _ => .error .hang
  | fuel + 1, pos =>
    if pos < s.mmLimit then do
      if ← bitmap64Get s.mmTable pos then
        return pos
      else
        skipTakenAligned s posInc fuel (pos + posInc)
    else
      return pos

/-- The loop that counts free pages from `cur` on, up to `num` of them and below the limit. -/
def countFreeLimited (s : Physical) (num : Nat) : Nat → Nat → Nat → Exec (Nat × Nat)
  | 0, _, _ => .error .hang
  | fuel + 1, cur, count =>
    if count < num ∧ cur < s.mmLimit then do
      if ← bitmap64Get s.mmTable cur then
        countFreeLimited s num fuel (cur + 1) (count + 1)
      else
        return (cur, count)
    else
      return (cur, count)

/-- The outer loop of `alloc_phys_frames_aligned`. -/
def allocFramesAlignedScan (s : Physical) (num posInc iInc : Nat) :
    Nat → Nat → Nat → Exec (Nat × Physical)
  | 0, _, _ => .error .hang
  | fuel + 1, i, pos =>
    if i < s.entryEnd then do
      let w ← s.mmTable.load i
      if w ≠ 0#64 then
        let pos ← skipTakenAligned s posInc scanFuel pos
        let (cur, count) ← countFreeLimited s num scanFuel pos 0
        if count = num then
          let mmTable ← bitmap64ClearRange s.mmTable pos num
          return (pos <<< pgBits, { s with mmTable })
        else if cur ≥ s.mmLimit then
          return (0, s)
        else if posInc = 0 then
          -- the remainder by zero traps
          .error .fault
        else
          let pos := cur + 1
          let remain := pos % posInc
          let pos := if remain ≠ 0 then pos + posInc - remain else pos
          allocFramesAlignedScan s num posInc iInc fuel (pos >>> 6) pos
      else if iInc > 0 then
        allocFramesAlignedScan s num posInc iInc fuel (i + iInc) (pos + posInc)
      else
        allocFramesAlignedScan s num posInc iInc fuel (i + 1) (pos + 64)
    else
      return (0, s)

/-- `alloc_phys_frames_aligned`: `num` contiguous frames at or above 1MB that start at a multiple
of `align` bytes (a power of two); 0 if it finds none. -/
def allocPhysFramesAligned (s : Physical) (num align : Nat) : Exec (Nat × Physical) :=
  let posInc := align >>> pgBits
  let iInc := posInc >>> 6
  let i := if iInc ≤ 4 then 4 else iInc
  allocFramesAlignedScan s num posInc iInc scanFuel i (i <<< 6)

/-! ## Giving frames back -/

/-- `free_phys_frame`. -/
def freePhysFrame (s : Physical) (frame : Nat) : Exec Physical := do
  let mmTable ← bitmap64Set s.mmTable (frame >>> pgBits)
  return { s with mmTable }

/-- `free_phys_frames`. -/
def freePhysFrames (s : Physical) (frame num : Nat) : Exec Physical := do
  let mmTable ← bitmap64SetRange s.mmTable (frame >>> pgBits) num
  return { s with mmTable }

end Rtv.Mm
