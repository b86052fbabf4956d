import Mathlib.Logic.Function.Basic
import Rtv.Mm.Vm
import Rtv.Utils.List

/-!
# The heap

`kernel/mm/malloc.c` and `include/mm/malloc.h`. The pool of `2 ^ BUDDY_MAX_ORDER` bytes from
`MALLOC_BASE` on is divided into blocks of `2 ^ (entry + BUDDY_MIN_ORDER)` bytes. The free blocks
of an entry are on the list `bsystem[entry].ptr`, whose nodes are the first bytes of the blocks
themselves; the last byte of a free block holds its entry. An outstanding block holds its entry in
its first byte and `USED` in its last one, and the user has what lies between byte 8 and the last.

List nodes, marks and the user's data share one byte memory here, as they do in the source; the
counts and sizes of the buckets are kept beside it. `mm_lock` is held throughout `malloc` and
`free`, so a call is one step.
-/

namespace Rtv.Mm

open Rtv.Lib Rtv.Utils

/-! ## Constants -/

/-- `malloc.h: MALLOC_BASE`, the end of the kernel's static mapping. -/
def mallocBase : Nat := 0x600000

/-- `malloc.h: BUDDY_MIN_ORDER`. -/
def buddyMinOrder : Nat := 5

/-- `malloc.h: BUDDY_MAX_ORDER`. -/
def buddyMaxOrder : Nat := 22

/-- `malloc.h: BUDDY_MIN_BLK`. -/
def buddyMinBlk : Nat := 1 <<< buddyMinOrder

/-- `malloc.h: BUDDY_ENTRIES`. -/
def buddyEntries : Nat := buddyMaxOrder - buddyMinOrder + 1

/-- `malloc.h: USED`. -/
def used : Nat := 0xFF

/-- `sizeof(buddy_list_t)`. -/
def buddyListSize : Nat := 16

/-- `sizeof(buddy_bucket_t)`. -/
def buddyBucketSize : Nat := 24

/-! ## State -/

/-- Where the array `bsystem` is: a static object of the kernel, in the static mapping from 2MB up
to the pool. -/
structure Bsystem where
  addr : Nat
  low : 0x200000 ≤ addr
  high : addr + buddyBucketSize * buddyEntries ≤ mallocBase

/-- `&bsystem[entry].ptr`. -/
def Bsystem.ptr (t : Bsystem) (entry : Nat) : Nat := t.addr + buddyBucketSize * entry

/-- The counters of a bucket, both `uint32_t`. -/
structure Bucket where
  count : Nat
  size : Nat

/-- The memory with the pool and the list heads, the counters of the buckets, and `mem_base`. -/
structure Heap where
  mem : Bytes
  bsystem : Nat → Bucket
  memBase : Nat

/-- `bsystem[entry]`, an access outside the array being a fault. -/
def Heap.bucket (h : Heap) (entry : Nat) : Exec Bucket :=
  if entry < buddyEntries then .ok (h.bsystem entry) else .error .fault

/-- `bsystem[entry].count += k`. -/
def Heap.addCount (h : Heap) (entry k : Nat) : Heap :=
  let b := h.bsystem entry
  { h with bsystem := Function.update h.bsystem entry { b with count := (b.count + k) % 2 ^ 32 } }

/-- `bsystem[entry].count--`. -/
def Heap.decCount (h : Heap) (entry : Nat) : Heap := h.addCount entry (2 ^ 32 - 1)

/-- `*a = b` for a byte. -/
def Heap.write (h : Heap) (a b : Nat) : Heap := { h with mem := h.mem.setByte a (UInt8.ofNat b) }

/-- `list_del` on the heap's memory. -/
def Heap.listDel (h : Heap) (node : Nat) : Heap := { h with mem := Utils.listDel h.mem node }

/-- `list_add` on the heap's memory. -/
def Heap.listAdd (h : Heap) (node head : Nat) : Heap := { h with mem := Utils.listAdd h.mem node head }

/-! ## Orders -/

/-- The loop of `next_power2`. -/
def nextPower2Loop (v : Nat) : Nat → Nat → Nat → Exec Nat
  | 0, _, _ => .error .hang
  | fuel + 1, p, cnt =>
    if p < v then
      nextPower2Loop v fuel ((p <<< 1) % 2 ^ 32) ((cnt + 1) % 2 ^ 8)
    else
      return cnt

/-- `next_power2`: the least order from `BUDDY_MIN_ORDER` on whose power of two is at least `v`. -/
def nextPower2 (v : Nat) : Exec Nat :=
  if v < buddyMinBlk then
    return buddyMinOrder
  else
    nextPower2Loop v loopFuel (1 <<< buddyMinOrder) buddyMinOrder

/-! ## Freeing -/

/-- The loop of `buddy_try_merge` on the block `blt`. -/
def mergeLoop (t : Bsystem) : Nat → Heap → Nat → Nat → Nat → Exec (Nat × Heap)
  | 0, _, _, _, _ => .error .hang
  | fuel + 1, h, blt, entry, mergeCount =>
    if entry < buddyEntries - 1 then
      let size := (h.bsystem entry).size
      let buddy := add64 (sub64 blt h.memBase ^^^ size) h.memBase
      if (h.mem (buddy + size - 1)).toNat = entry then
        -- a block of an earlier round is on the list of its entry by now
        let h := if mergeCount > 0 then (h.decCount entry).listDel blt else h
        let h := (h.decCount entry).listDel buddy
        let entry := entry + 1
        let merged := if blt < buddy then blt else buddy
        let h := h.write (merged + (h.bsystem entry).size - 1) entry
        let h := (h.listAdd merged (t.ptr entry)).addCount entry 1
        mergeLoop t fuel h merged entry ((mergeCount + 1) % 2 ^ 8)
      else
        return (mergeCount, h)
    else
      return (mergeCount, h)

/-- `buddy_try_merge`: the number of merges, the merged block being on its list when there were
any. -/
def buddyTryMerge (t : Bsystem) (h : Heap) (blt entry : Nat) : Exec (Nat × Heap) :=
  if (h.bsystem entry).count = 0 then
    return (0, h)
  else
    mergeLoop t buddyEntries h blt entry 0

/-- The message of `free` about a pointer whose block is not in use. -/
structure DoubleFree where
  func : String
  ptr : Nat
deriving DecidableEq, Repr

/-- `free`: the message it prints, if any. -/
def free (t : Bsystem) (h : Heap) (ptr : Nat) : Exec (Option DoubleFree × Heap) := do
  let addr := sub64 ptr 8
  let entry := (h.mem addr).toNat
  let b ← h.bucket entry
  if (h.mem (addr + b.size - 1)).toNat ≠ used then
    return (some ⟨"free", ptr⟩, h)
  else
    let (merges, h) ← buddyTryMerge t h addr entry
    if merges ≠ 0 then
      return (none, h)
    else
      let h := h.write (addr + b.size - 1) entry
      return (none, (h.listAdd addr (t.ptr entry)).addCount entry 1)

/-! ## Allocating -/

/-- `buddy_split` of `&bsystem[entry]`: its first block becomes two of the entry below. -/
def buddySplit (t : Bsystem) (h : Heap) : Nat → Exec Heap
  | 0 => .error .fault
  | entry + 1 => do
    let blt := nextOf h.mem (t.ptr (entry + 1))
    let h := (h.listDel blt).decCount (entry + 1)
    let b ← h.bucket entry
    let h := h.addCount entry 2
    let newBlt := blt + b.size
    let h := h.listAdd newBlt (t.ptr entry)
    let h := h.listAdd blt (t.ptr entry)
    let h := h.write (newBlt - 1) entry
    return h.write (newBlt - 1 + b.size) entry

/-- The loop of `malloc` that looks for a bucket with a block: its entry, and how many buckets
above the first one it is. -/
def findBucket (h : Heap) : Nat → Nat → Nat → Exec (Nat × Nat)
  | 0, _, _ => .error .hang
  | fuel + 1, entry, splitCount => do
    let b ← h.bucket entry
    if b.count = 0 then
      if entry + 1 ≥ buddyEntries then
        .error (.panic "malloc" "out of memory")
      else
        findBucket h fuel (entry + 1) ((splitCount + 1) % 2 ^ 8)
    else
      return (entry, splitCount)

/-- The loop `while (split_count--) { buddy_split(&bsystem[entry]); entry--; }`. -/
def splitLoop (t : Bsystem) : Nat → Nat → Heap → Exec (Nat × Heap)
  | 0, entry, h => return (entry, h)
  | splitCount + 1, entry, h => do
    let h ← buddySplit t h entry
    splitLoop t splitCount (entry - 1) h

/-- The part of `malloc` that makes sure a block is on the list of `entry`: the entry, and the heap
after the splits. -/
def provide (t : Bsystem) (h : Heap) (entry : Nat) : Exec (Nat × Heap) := do
  let b ← h.bucket entry
  if b.count = 0 then
    let (entry, splitCount) ← findBucket h buddyEntries entry 0
    splitLoop t splitCount entry h
  else
    return (entry, h)

/-- The part of `malloc` that takes the first block off the list of `entry`: the user's pointer. -/
def takeFirst (t : Bsystem) (h : Heap) (entry : Nat) : Nat × Heap :=
  let blt := nextOf h.mem (t.ptr entry)
  let h := (h.listDel blt).decCount entry
  let post := blt + (h.bsystem entry).size - 1
  let h := h.write blt entry
  let h := h.write post used
  (blt + 8, h)

/-- `malloc`. -/
def malloc (t : Bsystem) (h : Heap) (size : Nat) : Exec (Nat × Heap) := do
  let order ← nextPower2 ((size + 9) % 2 ^ 32)
  let (entry, h) ← provide t h (order - buddyMinOrder)
  return takeFirst t h entry

/-! ## Start -/

/-- A call of `vm_map_page_unrestricted` or `vm_map_large_page_unrestricted`. -/
structure PoolMapping where
  frame : Nat
  flags : BitVec 64
  vaddr : Nat
  large : Bool

/-- The calls that map `pages` pages from `paddr` on to consecutive addresses from `vaddr` on. -/
def poolMappings (paddr vaddr pages size : Nat) (flags : BitVec 64) (large : Bool) : List PoolMapping :=
  (List.range pages).map fun i => ⟨paddr + i * size, flags, vaddr + i * size, large⟩

/-- The bucket loop of `malloc_init`, from `i` on: empty lists, counts of 0 and the sizes. -/
def initBuckets (t : Bsystem) : Nat → Nat → Heap → Heap
  | 0, _, h => h
  | n + 1, i, h =>
    let bucket : Bucket := ⟨0, 1 <<< (i + buddyMinOrder)⟩
    initBuckets t n (i + 1)
      { h with
        mem := initListHead h.mem (t.ptr i)
        bsystem := Function.update h.bsystem i bucket }

/-- The frames of the pool and how `malloc_init` maps them. -/
def poolFrames (s : Physical) : Exec (Physical × List PoolMapping) := do
  let size := 1 <<< buddyMaxOrder
  let pages := 1 <<< (buddyMaxOrder - pgBits)
  if size < largePgSize then
    let (paddr, s) ← allocPhysFrames s pages
    if paddr = 0 then
      .error (.panic "malloc_init" "out of physical memory")
    else
      return (s, poolMappings paddr mallocBase pages pgSize (pgtP ||| pgtRw ||| pgtXd) false)
  else
    let (paddr, s) ← allocPhysFramesAligned s pages largePgSize
    if paddr = 0 then
      .error (.panic "malloc_init" "out of physical memory")
    else
      let pages := 1 <<< (buddyMaxOrder - largePgBits)
      return (s, poolMappings paddr mallocBase pages largePgSize (pgtP ||| pgtRw ||| pgtXd ||| pdtPs)
        true)

/-- The heap with the initial block, the whole pool, on its list. -/
def initialBlock (t : Bsystem) (h : Heap) : Heap :=
  let last := buddyEntries - 1
  let h := { h with memBase := mallocBase }
  let bucket : Bucket := ⟨1, (h.bsystem last).size⟩
  let h := { h with bsystem := Function.update h.bsystem last bucket }
  let h := h.listAdd mallocBase (t.ptr last)
  h.write (mallocBase + (h.bsystem last).size - 1) last

/-- `malloc_init`. `h` is the heap before, its memory with whatever the frames of the pool hold
once they are mapped. -/
def mallocInit (t : Bsystem) (h : Heap) (s : Physical) : Exec (Heap × Physical × List PoolMapping) :=
  if 1 <<< buddyMinOrder < buddyListSize + 1 then
    .error (.panic "malloc_init" "minimum block size too large")
  else do
    let h := initBuckets t buddyEntries 0 h
    let (s, mappings) ← poolFrames s
    return (initialBlock t h, s, mappings)

end Rtv.Mm
