import Rtv.Lib.Logged
import Rtv.Mm.HeapRuns

/-!
# The merge test in runs of the heap

`free` with a log of the tests of `buddy_try_merge`: the heap at the test, the block and its entry.
Each test reads a byte that may be of a free block, of an outstanding one or in the middle of a list
that the round before has changed.

**The law** (`merge_test_exact`): at every point of every run, whatever the user has written to his
bytes, each test that `free` makes says whether the buddy is free, and so would the one that an empty
bucket saves it.
-/

namespace Rtv.Mm

open Rtv.Lib Rtv.Utils

/-! ## Tests -/

/-- A test of `buddy_try_merge`: whether the block merges with its buddy. -/
structure MergeTest where
  heap : Heap
  blt : Nat
  entry : Nat

namespace MergeTest

/-- `buddy_addr`. -/
def buddyAddr (s : MergeTest) : Nat :=
  add64 (sub64 s.blt s.heap.memBase ^^^ (s.heap.bsystem s.entry).size) s.heap.memBase

/-- The byte that is read is the entry. -/
def Allows (s : MergeTest) : Prop :=
  (s.heap.mem (s.buddyAddr + (s.heap.bsystem s.entry).size - 1)).toNat = s.entry

instance (s : MergeTest) : Decidable s.Allows := inferInstanceAs (Decidable (_ = _))

/-- The buddy is on the list of the entry. -/
def BuddyFree (t : Bsystem) (s : MergeTest) : Prop :=
  ∃ ns, Ring (nextOf s.heap.mem) (prevOf s.heap.mem) (t.ptr s.entry) ns ∧ s.buddyAddr ∈ ns

/-- The test is right. -/
def Exact (t : Bsystem) (s : MergeTest) : Prop := s.Allows ↔ s.BuddyFree t

end MergeTest

/-! ## The code with its tests -/

/-- The loop of `buddy_try_merge` with its tests. -/
def logMergeLoop (t : Bsystem) : Nat → Heap → Nat → Nat → Nat → Logged MergeTest (Nat × Heap)
  | 0, _, _, _, _ => Logged.lift (.error .hang)
  | fuel + 1, h, blt, entry, mergeCount =>
    if entry < buddyEntries - 1 then do
      Logged.record ⟨h, blt, entry⟩
      let size := (h.bsystem entry).size
      let buddy := add64 (sub64 blt h.memBase ^^^ size) h.memBase
      if (h.mem (buddy + size - 1)).toNat = entry then
        let h := if mergeCount > 0 then (h.decCount entry).listDel blt else h
        let h := (h.decCount entry).listDel buddy
        let entry := entry + 1
        let merged := if blt < buddy then blt else buddy
        let h := h.write (merged + (h.bsystem entry).size - 1) entry
        let h := (h.listAdd merged (t.ptr entry)).addCount entry 1
        logMergeLoop t fuel h merged entry ((mergeCount + 1) % 2 ^ 8)
      else
        return (mergeCount, h)
    else
      return (mergeCount, h)

/-- `buddy_try_merge` with its tests. -/
def logBuddyTryMerge (t : Bsystem) (h : Heap) (blt entry : Nat) : Logged MergeTest (Nat × Heap) :=
  if (h.bsystem entry).count = 0 then
    return (0, h)
  else
    logMergeLoop t buddyEntries h blt entry 0

/-- `free` with the tests. -/
def logFree (t : Bsystem) (h : Heap) (ptr : Nat) : Logged MergeTest (Option DoubleFree × Heap) := do
  let addr := sub64 ptr 8
  let entry := (h.mem addr).toNat
  let b ← Logged.lift (h.bucket entry)
  if (h.mem (addr + b.size - 1)).toNat ≠ used then
    return (some ⟨"free", ptr⟩, h)
  else
    let (merges, h) ← logBuddyTryMerge t h addr entry
    if merges ≠ 0 then
      return (none, h)
    else
      let h := h.write (addr + b.size - 1) entry
      return (none, (h.listAdd addr (t.ptr entry)).addCount entry 1)

section Erasure

variable (t : Bsystem) (h : Heap)

theorem logMergeLoop_outcome (fuel blt entry k : Nat) :
    (logMergeLoop t fuel h blt entry k).outcome = mergeLoop t fuel h blt entry k := by
  induction fuel generalizing h blt entry k with
  | zero => rfl
  | succ fuel ih => simp [logMergeLoop, mergeLoop, ih]

theorem logBuddyTryMerge_outcome (blt entry : Nat) :
    (logBuddyTryMerge t h blt entry).outcome = buddyTryMerge t h blt entry := by
  simp [logBuddyTryMerge, buddyTryMerge, logMergeLoop_outcome]

/-- **The code with its tests is the code.** -/
theorem logFree_outcome (ptr : Nat) : (logFree t h ptr).outcome = free t h ptr := by
  simp [logFree, free, logBuddyTryMerge_outcome]

end Erasure

/-! ## Tests that tell free buddies -/

/-- The test for the block that `free` is about to release. -/
def releasedTest (h : Heap) (ptr : Nat) : MergeTest :=
  ⟨h, sub64 ptr 8, (h.mem (sub64 ptr 8)).toNat⟩

/-- The merge test is right in a call of `free`. -/
structure MergeTestExact (t : Bsystem) (h : Heap) (ptr : Nat) : Prop where
  /-- The call with its tests is the call. -/
  outcome : (logFree t h ptr).outcome = free t h ptr
  /-- The block that is released, whether it is tested or not. -/
  released : (releasedTest h ptr).entry < buddyEntries - 1 → (releasedTest h ptr).Exact t
  /-- All blocks that are tested: the one that is released, and each that a merge has made. -/
  tested : ∀ s ∈ (logFree t h ptr).log, s.Exact t
  /-- An empty bucket keeps no block from a merge. -/
  early : (h.bsystem (releasedTest h ptr).entry).count = 0 →
    (releasedTest h ptr).entry < buddyEntries - 1 → ¬(releasedTest h ptr).Allows

/-! ## The tests -/

section Tests

variable {t : Bsystem} {h : Heap} {U V : Set Block} {free₀ : Nat → List Nat} {b : Block} {s : MergeTest}

/-- What the test reads is the last byte of the buddy. -/
theorem allows_iff (hl : HeapLists t h U free₀) (hb : b ≤ Block.whole topEntry)
    (hlevel : b.level < topEntry) :
    MergeTest.Allows ⟨h, blockAddr b, b.level⟩ ↔ (h.mem (blockLast b.buddy)).toNat = b.level := by
  simp only [MergeTest.Allows, MergeTest.buddyAddr, hl.base, hl.size b.level (level_lt hb),
    buddy_addr hb hlevel]
  rfl

/-- The buddy is on the list if it is a free block. -/
theorem buddyFree_iff (hl : HeapLists t h U free₀) (hb : b ≤ Block.whole topEntry)
    (hlevel : b.level < topEntry) :
    MergeTest.BuddyFree t ⟨h, blockAddr b, b.level⟩ ↔ b.buddy ∈ freeSet free₀ := by
  simp only [MergeTest.BuddyFree, MergeTest.buddyAddr, hl.base, hl.size b.level (level_lt hb),
    buddy_addr hb hlevel]
  rw [← hl.freeBlocks_eq]
  exact (and_iff_right (level_lt hb)).symm

/-- The test of a block whose own marks may be anything. -/
theorem exact_of_lists (hl : HeapLists t h U free₀) (hb : b ∈ U ∪ freeSet free₀)
    (hlevel : b.level < topEntry) (hU : ∀ d ∈ U, d ≠ b → d ∈ V)
    (hm : HeapMarks h.mem V (freeSet free₀)) : MergeTest.Exact t ⟨h, blockAddr b, b.level⟩ := by
  have hwhole := hl.tiling.le_whole b hb
  rw [MergeTest.Exact, allows_iff hl hwhole hlevel, buddyFree_iff hl hwhole hlevel]
  apply merge_test hl.tiling hb hlevel _ hm
  rintro d (hd | hd) hne
  · exact Or.inl (hU d hd hne)
  · exact Or.inr hd

/-- The tests of a loop on a block of the pool: the one on the block, and if it merges those on the
block that the merge makes. -/
theorem mem_logMergeLoop_succ (hl : HeapLists t h U free₀) (hb : b ≤ Block.whole topEntry)
    {fuel k : Nat} (hs : s ∈ (logMergeLoop t (fuel + 1) h (blockAddr b) b.level k).log) :
    b.level < topEntry ∧ (s = ⟨h, blockAddr b, b.level⟩ ∨
      ((h.mem (blockLast b.buddy)).toNat = b.level ∧
        s ∈ (logMergeLoop t fuel
          (mergeOnce t (if k > 0 then (h.decCount b.level).listDel (blockAddr b) else h) b)
          (blockAddr b.parent) b.parent.level ((k + 1) % 2 ^ 8)).log)) := by
  rw [logMergeLoop] at hs
  by_cases hlevel : b.level < topEntry
  · refine ⟨hlevel, ?_⟩
    have hif : b.level < buddyEntries - 1 := hlevel
    simp only [if_pos hif, hl.size b.level (level_lt hb), hl.base, buddy_addr hb hlevel, merged_addr,
      blockLast_buddy, HeapLists.listDel_bsystem, HeapLists.decCount_size, merged_size hl.size hlevel,
      blockLast_parent, Logged.mem_log_bind, Logged.log_record, List.mem_singleton,
      Logged.outcome_record] at hs
    obtain rfl | ⟨-, -, hs⟩ := hs
    · exact Or.inl rfl
    · by_cases hbyte : (h.mem (blockLast b.buddy)).toNat = b.level
      · rw [if_pos hbyte] at hs
        exact Or.inr ⟨hbyte, hs⟩
      · rw [if_neg hbyte] at hs
        cases hs
  · have hif : ¬b.level < buddyEntries - 1 := hlevel
    rw [if_neg hif] at hs
    cases hs

/-- **The tests on blocks that a merge has made.** -/
theorem mem_logMergeLoop : ∀ {fuel k : Nat} {h : Heap} {free₀ : Nat → List Nat} {b : Block},
    0 < k → k ≤ b.level → Merging t h V free₀ b →
    s ∈ (logMergeLoop t fuel h (blockAddr b) b.level k).log → s.Exact t := by
  intro fuel
  induction fuel with
  | zero =>
    intro k h free₀ b hk hkb hmerging hs
    cases hs
  | succ fuel ih =>
    intro k h free₀ b hk hkb hmerging hs
    have hb := Set.mem_union_right V hmerging.listed
    have hwhole := hmerging.lists.tiling.le_whole b hb
    obtain ⟨hlevel, rfl | ⟨hbyte, hs⟩⟩ := mem_logMergeLoop_succ hmerging.lists hwhole hs
    · exact exact_of_lists hmerging.lists hb hlevel (fun d hd _ => hd) hmerging.marks
    · obtain ⟨free₁, hmerging₁⟩ := hmerging.again hlevel ((hmerging.test hlevel).mp hbyte)
      have htop : topEntry < 2 ^ 8 := by decide
      have hk' : (k + 1) % 2 ^ 8 = k + 1 := Nat.mod_eq_of_lt (by omega)
      rw [if_pos hk, hk'] at hs
      exact ih (Nat.succ_pos k) (Nat.succ_le_succ hkb) hmerging₁ hs

/-- The tests on a block on no list and on what it merges to. -/
theorem mem_logBuddyTryMerge (hl : HeapLists t h (insert b V) free₀) (hbV : b ∉ V)
    (hm : HeapMarks h.mem V (freeSet free₀)) (hc : Coalesced topEntry (freeSet free₀))
    (hs : s ∈ (logBuddyTryMerge t h (blockAddr b) b.level).log) : s.Exact t := by
  rw [logBuddyTryMerge] at hs
  by_cases hcount : (h.bsystem b.level).count = 0
  · rw [if_pos hcount] at hs
    cases hs
  rw [if_neg hcount] at hs
  have hb : b ∈ insert b V ∪ freeSet free₀ := Or.inl (Set.mem_insert b V)
  have hwhole := hl.tiling.le_whole b hb
  have hcover : ∀ d ∈ insert b V, d ≠ b → d ∈ V := fun d hd hne => hd.resolve_left hne
  obtain ⟨hlevel, rfl | ⟨hbyte, hs⟩⟩ := mem_logMergeLoop_succ hl hwhole hs
  · exact exact_of_lists hl hb hlevel hcover hm
  · have hexact := exact_of_lists hl hb hlevel hcover hm
    have hbuddy : b.buddy ∈ freeSet free₀ :=
      (buddyFree_iff hl hwhole hlevel).mp (hexact.mp ((allows_iff hl hwhole hlevel).mpr hbyte))
    obtain ⟨free₁, hmerging⟩ := Merging.first hl hbV hm hc hlevel hbuddy
    have hk : 1 ≤ b.parent.level := Nat.succ_pos b.level
    exact mem_logMergeLoop Nat.one_pos hk hmerging hs

/-- The merge test when an outstanding block is released. -/
theorem HeapInv.mergeTestExact (hi : HeapInv t h U free₀) (hb : b ∈ U) :
    MergeTestExact t h (blockAddr b + 8) := by
  have hwhole := hi.lists.tiling.le_whole b (Or.inl hb)
  have hU : insert b (U \ {b}) = U := by
    rw [Set.insert_sdiff_singleton, Set.insert_eq_of_mem hb]
  have haddr := sub64_blockAddr hwhole
  have hentry := hi.marks.first b hb
  have hreleased : releasedTest h (blockAddr b + 8) = ⟨h, blockAddr b, b.level⟩ := by
    rw [releasedTest, haddr, hentry]
  have hexact : b.level < topEntry → MergeTest.Exact t ⟨h, blockAddr b, b.level⟩ := fun hlevel =>
    exact_of_lists hi.lists (Or.inl hb) hlevel (fun d hd _ => hd) hi.marks
  refine ⟨logFree_outcome t h _, ?_, ?_, ?_⟩
  · rw [hreleased]
    exact hexact
  · intro s hs
    rw [logFree] at hs
    simp only [haddr, hentry, Heap.bucket, if_pos (level_lt hwhole), Logged.mem_log_bind,
      Logged.log_lift, List.not_mem_nil, false_or, Logged.outcome_lift] at hs
    obtain ⟨bucket, -, hs⟩ := hs
    split_ifs at hs with hused
    · cases hs
    rw [Logged.mem_log_bind] at hs
    obtain hs | ⟨r, -, hs⟩ := hs
    · apply mem_logBuddyTryMerge (V := U \ {b}) _ (fun hmem => hmem.2 rfl) _ hi.coalesced hs
      · rw [hU]
        exact hi.lists
      · exact hi.marks.mono Set.sdiff_subset le_rfl
    · -- after the merges nothing is tested
      split_ifs at hs
      · cases hs
      · cases hs
  · rw [hreleased]
    intro hcount hlevel hallows
    have hbuddy := (buddyFree_iff hi.lists hwhole hlevel).mp ((hexact hlevel).mp hallows)
    rw [hi.lists.count b.level (level_lt hwhole), List.length_eq_zero_iff] at hcount
    rw [mem_freeSet, Block.buddy_level, hcount] at hbuddy
    exact List.not_mem_nil hbuddy

end Tests

/-- **The merge test is right** in every `free` of an outstanding allocation, at every point of every
run. -/
theorem merge_test_exact (t : Bsystem) (h₀ h : Heap) (s s' : Physical) (mappings : List PoolMapping)
    (hinit : mallocInit t h₀ s = .ok (h, s', mappings)) (tr : List HeapCall) (w : HeapWorld)
    (hrun : Runs (HeapStep t) ⟨h, []⟩ tr w) : ∀ a ∈ w.out, MergeTestExact t w.heap a.ptr := by
  obtain ⟨free₁, hi⟩ := heapRuns_inv hinit hrun
  intro a ha
  rw [hi.ptr a ha]
  exact hi.heap.mergeTestExact ⟨a, ha, rfl⟩

/-- A block of an eighth of the pool. -/
theorem merge_test_exact_eighth : ∃ w, Runs (HeapStep someTable) ⟨bootHeap, []⟩ [.malloc 500000] w ∧
    w.out.length = 1 ∧ ∀ a ∈ w.out, MergeTestExact someTable w.heap a.ptr := by
  have hok : (malloc someTable bootHeap 500000).isOk = true := by decide +kernel
  obtain ⟨⟨ptr, h⟩, hr⟩ := Exec.exists_of_isOk hok
  obtain ⟨s, mappings, hinit⟩ := bootHeap_init
  have hrun : Runs (HeapStep someTable) ⟨bootHeap, []⟩ [.malloc 500000] ⟨h, [⟨ptr, 500000⟩]⟩ :=
    .single (.malloc (by decide) hr)
  exact ⟨_, hrun, rfl, merge_test_exact someTable blankHeap bootHeap allFree s mappings hinit _ _ hrun⟩

end Rtv.Mm
