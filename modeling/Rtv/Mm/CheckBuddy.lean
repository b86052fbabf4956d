import Mathlib.Algebra.BigOperators.Intervals
import Rtv.Lib.Logged
import Rtv.Mm.HeapRuns

/-!
# The check of the buddy table

`check_buddy_table` goes through the buckets and their lists, prints each count, complains about a block
without its mark and about a count that is not the length of its list, and prints how much memory is free.

**The law** (`check_buddy_table_reports`): at every point of every run it comes to an end, it never
complains about a mark, and what it says is free is the pool without the outstanding blocks. The counter
for the length is a `uint8_t`, so it complains about the count of each bucket with 256 free blocks or more,
and of no other; the counts are right in both cases.
-/

namespace Rtv.Mm

open Rtv.Lib Rtv.Utils

/-! ## The code -/

/-- A line that is printed. -/
inductive BuddyLine where
  /-- The count of a bucket and its order. -/
  | count (count order : Nat)
  /-- `postamble not set`. -/
  | postamble (blt : Nat)
  /-- `Count is incorrect!` -/
  | incorrect
  /-- `Total free memory`. -/
  | total (bytes : Nat)
deriving DecidableEq, Repr

/-- The loop over the list of a bucket. -/
def checkList (h : Heap) (head size entry : Nat) : Nat → Nat → Nat → Logged BuddyLine Nat
  | 0, _, _ => Logged.lift (.error .hang)
  | fuel + 1, blt, counter =>
    if blt = head then pure counter
    else do
      if (h.mem (blt + size - 1)).toNat ≠ entry then
        Logged.record (.postamble blt)
      -- `counter` is a `uint8_t`
      checkList h head size entry fuel (nextOf h.mem blt) ((counter + 1) % 2 ^ 8)

/-- One round of the loop over the buckets, which returns the new `total`. -/
def checkBucket (t : Bsystem) (h : Heap) (entry total : Nat) : Logged BuddyLine Nat := do
  let bucket ← Logged.lift (h.bucket entry)
  Logged.record (.count bucket.count (entry + buddyMinOrder))
  let total := (total + bucket.count * bucket.size) % 2 ^ 32
  let counter ← checkList h (t.ptr entry) bucket.size entry loopFuel (nextOf h.mem (t.ptr entry)) 0
  if counter ≠ bucket.count then
    Logged.record .incorrect
  return total

/-- The loop over the buckets. -/
def checkBuckets (t : Bsystem) (h : Heap) : Nat → Nat → Nat → Logged BuddyLine Nat
  | 0, _, _ => Logged.lift (.error .hang)
  | fuel + 1, entry, total => do
    let total ← checkBucket t h entry total
    if entry + 1 ≥ buddyEntries then return total
    else checkBuckets t h fuel (entry + 1) total

/-- `check_buddy_table`. -/
def checkBuddyTable (t : Bsystem) (h : Heap) : Logged BuddyLine Unit := do
  let total ← checkBuckets t h loopFuel 0 0
  Logged.record (.total total)

/-! ## The free memory -/

/-- The bytes of the free blocks. -/
def freeBytes (free : Nat → List Nat) : Nat :=
  ∑ e ∈ Finset.range buddyEntries, (free e).length * blockSize e

/-- The block of an entry at an address. -/
def blockAt (e a : Nat) : Block := ⟨e, (a - mallocBase) / blockSize e⟩

/-- The free blocks of an entry. -/
def freeOf (free : Nat → List Nat) (e : Nat) : Finset Block := (free e).toFinset.image (blockAt e)

section Bytes

variable {t : Bsystem} {h : Heap} {U : Set Block} {free : Nat → List Nat} {b : Block} {e : Nat}

theorem blockAt_blockAddr (b : Block) : blockAt b.level (blockAddr b) = b := by
  refine Block.ext rfl ?_
  rw [blockAt, blockAddr, Nat.add_sub_cancel_left]
  exact Nat.mul_div_cancel _ (Nat.two_pow_pos _)

theorem HeapLists.mem_freeOf (hl : HeapLists t h U free) :
    b ∈ freeOf free e ↔ b.level = e ∧ b ∈ freeSet free := by
  rw [freeOf, Finset.mem_image]
  constructor
  · rintro ⟨a, ha, rfl⟩
    rw [List.mem_toFinset] at ha
    obtain ⟨c, rfl, rfl⟩ := hl.listed e a ha
    rw [blockAt_blockAddr]
    exact ⟨rfl, ha⟩
  · rintro ⟨rfl, hb⟩
    exact ⟨blockAddr b, List.mem_toFinset.mpr hb, blockAt_blockAddr b⟩

theorem HeapLists.card_freeOf (hl : HeapLists t h U free) (he : e < buddyEntries) :
    (freeOf free e).card = (free e).length := by
  have hinj : Set.InjOn (blockAt e) ((free e).toFinset : Set Nat) := by
    intro a ha a' ha' heq
    rw [Finset.mem_coe, List.mem_toFinset] at ha ha'
    obtain ⟨b, hb, rfl⟩ := hl.listed e a ha
    obtain ⟨c, hc, rfl⟩ := hl.listed e a' ha'
    rw [← hb, blockAt_blockAddr, hb, ← hc, blockAt_blockAddr] at heq
    rw [heq]
  rw [freeOf, Finset.card_image_of_injOn hinj]
  exact List.toFinset_card_of_nodup (List.nodup_cons.mp (hl.ring e he).nodup).2

/-- The cells of the free blocks. -/
theorem HeapLists.sum_free (hl : HeapLists t h U free) :
    ∑ b ∈ (Finset.range buddyEntries).biUnion (freeOf free), blockSize b.level = freeBytes free := by
  have hapart : ∀ e ∈ Finset.range buddyEntries, ∀ e' ∈ Finset.range buddyEntries, e ≠ e' →
      Disjoint (freeOf free e) (freeOf free e') := by
    intro e _ e' _ hne
    rw [Finset.disjoint_left]
    intro b hb hb'
    exact hne ((hl.mem_freeOf.mp hb).1.symm.trans (hl.mem_freeOf.mp hb').1)
  rw [Finset.sum_biUnion hapart, freeBytes]
  refine Finset.sum_congr rfl fun e he => ?_
  have hsize : ∀ b ∈ freeOf free e, blockSize b.level = blockSize e := fun b hb => by
    rw [(hl.mem_freeOf.mp hb).1]
  rw [Finset.sum_const_nat hsize, hl.card_freeOf (Finset.mem_range.mp he)]

/-- The free and the other blocks are the pool. -/
theorem HeapLists.free_add_rest {V : Finset Block} (hl : HeapLists t h V free) :
    freeBytes free + ∑ b ∈ V, blockSize b.level = 2 ^ buddyMaxOrder := by
  have hfree : (((Finset.range buddyEntries).biUnion (freeOf free) : Finset Block) : Set Block) =
      freeSet free := by
    ext b
    rw [Finset.mem_coe, Finset.mem_biUnion]
    constructor
    · rintro ⟨e, -, hb⟩
      exact (hl.mem_freeOf.mp hb).2
    · intro hb
      exact ⟨b.level, Finset.mem_range.mpr (hl.level_lt_of_free hb), hl.mem_freeOf.mpr ⟨rfl, hb⟩⟩
  have htiling := hl.tiling
  have hunlisted := hl.unlisted
  rw [← hfree] at htiling hunlisted
  rw [← Finset.coe_union] at htiling
  have hcells := htiling.sum_cells
  rw [Finset.sum_union (Finset.disjoint_coe.mp hunlisted)] at hcells
  have hscale : ∀ W : Finset Block, ∑ b ∈ W, blockSize b.level = 32 * ∑ b ∈ W, 2 ^ b.level := by
    intro W
    rw [Finset.mul_sum]
    exact Finset.sum_congr rfl fun b _ => blockSize_eq b.level
  rw [← hl.sum_free, hscale, hscale, ← Nat.mul_add, Nat.add_comm, hcells]
  rfl

end Bytes

/-! ## What is printed -/

/-- What is printed about a bucket with as many free blocks. -/
def bucketLines (entry n : Nat) : List BuddyLine :=
  .count n (entry + buddyMinOrder) :: if n < 2 ^ 8 then [] else [.incorrect]

section Printed

variable {t : Bsystem} {h : Heap} {U : Set Block} {free : Nat → List Nat} {entry total fuel : Nat}

/-- The loop over a list whose blocks have their marks counts it, up to 255. -/
theorem checkList_path {head size counter a : Nat} {ns : List Nat} (hpath : Path (nextOf h.mem) a ns head)
    (hout : head ∉ ns) (hmarks : ∀ b ∈ ns, (h.mem (b + size - 1)).toNat = entry)
    (hfuel : ns.length < fuel) (hcounter : counter < 2 ^ 8) :
    checkList h head size entry fuel (nextOf h.mem a) counter =
      ⟨[], .ok ((counter + ns.length) % 2 ^ 8)⟩ := by
  induction ns generalizing a fuel counter with
  | nil =>
    obtain ⟨fuel, rfl⟩ := Nat.exists_eq_add_of_lt hfuel
    have hend : nextOf h.mem a = head := hpath
    rw [checkList, if_pos hend, List.length_nil, Nat.add_zero, Nat.mod_eq_of_lt hcounter]
    rfl
  | cons x xs ih =>
    obtain ⟨fuel, rfl⟩ : ∃ k, fuel = k + 1 := ⟨fuel - 1, by omega⟩
    obtain ⟨hx, hrest⟩ := hpath
    have hne : x ≠ head := fun heq => hout (heq ▸ List.mem_cons_self)
    have hmark : ¬ (h.mem (x + size - 1)).toNat ≠ entry := not_not.mpr (hmarks x List.mem_cons_self)
    have htail := ih hrest (fun hmem => hout (List.mem_cons_of_mem x hmem))
      (fun b hb => hmarks b (List.mem_cons_of_mem x hb)) (Nat.lt_of_succ_lt_succ hfuel)
      (Nat.mod_lt (counter + 1) (by decide))
    rw [checkList, hx, if_neg hne, if_neg hmark]
    change checkList h head size entry fuel (nextOf h.mem x) ((counter + 1) % 2 ^ 8) = _
    rw [htail, List.length_cons]
    congr 2
    omega

/-- One round. -/
theorem checkBucket_eq (hl : HeapLists t h U free) (hmarks : HeapMarks h.mem U (freeSet free))
    (hentry : entry < buddyEntries) (hlength : (free entry).length < loopFuel)
    (htotal : total + (free entry).length * blockSize entry < 2 ^ 32) :
    checkBucket t h entry total =
      ⟨bucketLines entry (free entry).length, .ok (total + (free entry).length * blockSize entry)⟩ := by
  have hring := hl.ring entry hentry
  have hmark : ∀ a ∈ free entry, (h.mem (a + (h.bsystem entry).size - 1)).toNat = entry := by
    intro a ha
    obtain ⟨b, rfl, rfl⟩ := hl.listed entry a ha
    rw [hl.size b.level hentry]
    exact hmarks.free b ha
  have hcounter : checkList h (t.ptr entry) (h.bsystem entry).size entry loopFuel
      (nextOf h.mem (t.ptr entry)) 0 = ⟨[], .ok ((0 + (free entry).length) % 2 ^ 8)⟩ :=
    checkList_path hring.forward (List.nodup_cons.mp hring.nodup).1 hmark hlength (by decide)
  rw [Nat.zero_add] at hcounter
  have hcount := hl.count entry hentry
  have hsize := hl.size entry hentry
  have hbucket : h.bucket entry = .ok (h.bsystem entry) := if_pos hentry
  rw [checkBucket, hbucket, Logged.lift_ok_bind, Logged.record_bind, hcounter, Logged.bind_ok, hcount,
    hsize, Nat.mod_eq_of_lt htotal, bucketLines]
  by_cases hfew : (free entry).length < 2 ^ 8
  · have hsame : ¬ (free entry).length % 2 ^ 8 ≠ (free entry).length := not_not.mpr (Nat.mod_eq_of_lt hfew)
    rw [if_neg hsame, if_pos hfew]
    rfl
  · have hother : (free entry).length % 2 ^ 8 ≠ (free entry).length := by omega
    rw [if_pos hother, if_neg hfew]
    rfl

/-- The loop. -/
theorem checkBuckets_eq (hl : HeapLists t h U free) (hmarks : HeapMarks h.mem U (freeSet free))
    (hlength : ∀ e < buddyEntries, (free e).length < loopFuel) {n : Nat}
    (hn : entry + (n + 1) = buddyEntries) (hfuel : n < fuel)
    (htotal : total + ∑ e ∈ Finset.Ico entry buddyEntries, (free e).length * blockSize e < 2 ^ 32) :
    checkBuckets t h fuel entry total =
      ⟨(List.range' entry (n + 1)).flatMap fun e => bucketLines e (free e).length,
        .ok (total + ∑ e ∈ Finset.Ico entry buddyEntries, (free e).length * blockSize e)⟩ := by
  induction n generalizing entry total fuel with
  | zero =>
    obtain ⟨fuel, rfl⟩ : ∃ k, fuel = k + 1 := ⟨fuel - 1, by omega⟩
    have hlast : entry + 1 ≥ buddyEntries := by omega
    have hsum : ∑ e ∈ Finset.Ico entry buddyEntries, (free e).length * blockSize e =
        (free entry).length * blockSize entry := by
      rw [← hn, Nat.zero_add, Nat.Ico_succ_singleton, Finset.sum_singleton]
    rw [hsum] at htotal ⊢
    rw [checkBuckets, checkBucket_eq hl hmarks (by omega) (hlength entry (by omega)) htotal, Logged.bind_ok,
      if_pos hlast]
    rfl
  | succ n ih =>
    obtain ⟨fuel, rfl⟩ : ∃ k, fuel = k + 1 := ⟨fuel - 1, by omega⟩
    have hmore : ¬ entry + 1 ≥ buddyEntries := by omega
    have hsum := Finset.sum_eq_sum_Ico_succ_bot (by omega : entry < buddyEntries)
      fun e => (free e).length * blockSize e
    rw [hsum, ← Nat.add_assoc] at htotal ⊢
    have hrounds : List.range' entry (n + 1 + 1) = entry :: List.range' (entry + 1) (n + 1) :=
      List.range'_succ
    rw [hrounds, List.flatMap_cons, checkBuckets,
      checkBucket_eq hl hmarks (by omega) (hlength entry (by omega)) (by omega), Logged.bind_ok,
      if_neg hmore, ih (by omega) (by omega) htotal]

end Printed

/-! ## The law -/

/-- **What the check prints.** At every point of every run of the heap: the count of each bucket is the
number of its free blocks, the only complaints are those about the counts of buckets with 256 free blocks or
more, and the total is what the outstanding blocks leave of the pool. -/
theorem check_buddy_table_reports (t : Bsystem) (h₀ h : Heap) (s s' : Physical)
    (mappings : List PoolMapping) (hinit : mallocInit t h₀ s = .ok (h, s', mappings)) (tr : List HeapCall)
    (w : HeapWorld)
    (hrun : Runs (HeapStep t) ⟨h, []⟩ tr w) :
    ∃ free, BuddyHeap t w free ∧
      checkBuddyTable t w.heap =
        ⟨((List.range buddyEntries).flatMap fun e => bucketLines e (free e).length) ++
          [.total (freeBytes free)], .ok ()⟩ ∧
      freeBytes free + (w.out.map fun a => blockSize a.block.level).sum = 2 ^ buddyMaxOrder := by
  obtain ⟨free, hi⟩ := heapRuns_inv hinit hrun
  have hout : w.outstanding = ((w.out.map Allocation.block).toFinset : Finset Block) := by
    ext b
    rw [Finset.mem_coe, List.mem_toFinset, List.mem_map]
    rfl
  have hl := hi.heap.lists
  rw [hout] at hl
  have hbytes := hl.free_add_rest
  have hrange : freeBytes free = ∑ e ∈ Finset.Ico 0 buddyEntries, (free e).length * blockSize e := by
    rw [freeBytes, Finset.range_eq_Ico]
  have hpool : 2 ^ buddyMaxOrder < 2 ^ 32 := by decide
  have hlength : ∀ e < buddyEntries, (free e).length < loopFuel := by
    intro e he
    have hle : (free e).length * blockSize e ≤ freeBytes free :=
      Finset.single_le_sum (f := fun e => (free e).length * blockSize e) (fun _ _ => Nat.zero_le _)
        (Finset.mem_range.mpr he)
    have hmul := Nat.mul_le_mul_left (free e).length (blockSize_ge e)
    have hfuel : 2 ^ 32 < loopFuel := by decide
    omega
  refine ⟨free, hi.buddyHeap, ?_, ?_⟩
  · have hloop : checkBuckets t w.heap loopFuel 0 0 = _ :=
      checkBuckets_eq hi.heap.lists hi.heap.marks hlength (n := topEntry) (by decide) (by decide) (by omega)
    rw [Nat.zero_add, ← hrange] at hloop
    rw [checkBuddyTable, hloop, Logged.bind_ok, List.range_eq_range']
    rfl
  · rw [← hbytes, List.sum_toFinset _ hi.distinct, List.map_map]
    rfl

/-- Two blocks are outstanding, of 128 and of 1024 bytes. -/
theorem check_buddy_table_reports_two_blocks :
    ∃ w, Runs (HeapStep someTable) ⟨bootHeap, []⟩ someCalls w ∧ ∃ free, BuddyHeap someTable w free ∧
      checkBuddyTable someTable w.heap =
        ⟨((List.range buddyEntries).flatMap fun e => bucketLines e (free e).length) ++
          [.total (freeBytes free)], .ok ()⟩ ∧
      freeBytes free = 2 ^ buddyMaxOrder - 1152 := by
  obtain ⟨s, mappings, hinit⟩ := bootHeap_init
  obtain ⟨w, hrun, hout⟩ := bootHeap_run
  obtain ⟨free, hbuddy, hprinted, hbytes⟩ := check_buddy_table_reports someTable blankHeap bootHeap allFree s
    mappings hinit someCalls w hrun
  refine ⟨w, hrun, free, hbuddy, hprinted, ?_⟩
  have hsizes : (w.out.map fun a => blockSize a.block.level).sum = 1152 := by
    rw [hout]
    decide
  omega

end Rtv.Mm
