import Mathlib.Data.Nat.Log
import Rtv.Mm.Pool

/-!
# What `malloc` and `free` do to the heap

`HeapInv` holds between calls: the lists and the outstanding blocks tile the pool, the marks are
right, and no two buddies are free. `free` of an outstanding block succeeds and keeps it. The merge
test is exact: the byte it reads is the entry exactly when the buddy is free at that entry
(`merge_test`), because what else may end where the buddy ends is outstanding or smaller. `malloc`
panics or hands out a block that was not outstanding; between two of its splits the only free
buddies are the halves just cut, and the one that is first on its list goes next.
-/

namespace Rtv.Mm

open Rtv.Lib Rtv.Utils

/-- The heap between calls, with the outstanding blocks `U`. -/
structure HeapInv (t : Bsystem) (h : Heap) (U : Set Block) (free : Nat → List Nat) : Prop where
  lists : HeapLists t h U free
  marks : HeapMarks h.mem U (freeSet free)
  coalesced : Coalesced topEntry (freeSet free)

/-! ## Buddies -/

section Buddies

variable {b : Block} {m : Bytes} {S V F : Set Block}

/-- The address arithmetic of `buddy_try_merge`. -/
theorem buddy_addr (hb : b ≤ Block.whole topEntry) (hlevel : b.level < topEntry) :
    add64 (sub64 (blockAddr b) mallocBase ^^^ blockSize b.level) mallocBase = blockAddr b.buddy := by
  have hend : mallocEnd < 2 ^ 64 := by decide
  have hsize := blockSize_ge b.level
  have hbounds := blockAddr_bounds hb
  have hbounds' := blockAddr_bounds (Block.buddy_le_whole hb hlevel)
  have hoff : sub64 (blockAddr b) mallocBase = b.idx <<< (b.level + buddyMinOrder) := by
    rw [sub64_of_le hbounds.1 (by omega), blockAddr, Nat.add_sub_cancel_left, Nat.shiftLeft_eq,
      blockSize]
  have hone : blockSize b.level = 1 <<< (b.level + buddyMinOrder) := by
    rw [Nat.shiftLeft_eq, Nat.one_mul, blockSize]
  have hxor : sub64 (blockAddr b) mallocBase ^^^ blockSize b.level =
      b.buddy.idx * blockSize b.buddy.level := by
    rw [hoff, hone, ← Nat.shiftLeft_xor_distrib, Nat.shiftLeft_eq]
    rfl
  have hcomm : b.buddy.idx * blockSize b.buddy.level + mallocBase = blockAddr b.buddy :=
    Nat.add_comm _ _
  rw [Block.buddy_level] at hbounds'
  rw [hxor, add64_of_lt (by omega), hcomm]

/-- The lower one of two buddies starts where their parent does. -/
theorem merged_addr (b : Block) :
    (if blockAddr b < blockAddr b.buddy then blockAddr b else blockAddr b.buddy) =
      blockAddr b.parent := by
  have hsize := blockSize_ge b.level
  rcases Nat.mod_two_eq_zero_or_one b.idx with heven | hodd
  · obtain ⟨hlow, hhigh⟩ := halves heven
    rw [if_pos (by omega), hlow]
  · have heven : b.buddy.idx % 2 = 0 := by
      show (b.idx ^^^ 1) % 2 = 0
      rw [Block.xor_one_mod, hodd]
    obtain ⟨hlow, hhigh⟩ := halves heven
    rw [Block.buddy_buddy, Block.buddy_level] at hhigh
    rw [Block.parent_buddy] at hlow
    rw [if_neg (by omega), hlow]

/-- A part of a block that has its last byte ends where the block does. -/
theorem blockLast_eq {c d : Block} (hle : d ≤ c) (hin : InBlock d (blockLast c)) :
    blockLast d = blockLast c := by
  have hd := Nat.two_pow_pos d.level
  have hc := Nat.two_pow_pos c.level
  have hmem : d.first + 2 ^ d.level - 1 ∈ c := by
    apply Block.mem_of_le hle
    rw [Block.mem_iff_bounds]
    omega
  have hbound := (Block.mem_iff_bounds.mp hmem).2
  obtain ⟨-, hhi⟩ := hin
  rw [blockLast, blockAddr_eq, blockSize_eq] at hhi ⊢
  rw [blockAddr_eq, blockSize_eq] at hhi
  rw [blockLast, blockAddr_eq, blockSize_eq]
  omega

/-- **The merge test is exact.** For a block of the tiling whose own marks may be anything, the last
byte of its buddy is their entry if and only if the buddy is a free block of that entry. -/
theorem merge_test (ht : Tiling topEntry S) (hb : b ∈ S) (hlevel : b.level < topEntry)
    (hS : ∀ d ∈ S, d ≠ b → d ∈ V ∨ d ∈ F) (hm : HeapMarks m V F) :
    (m (blockLast b.buddy)).toNat = b.level ↔ b.buddy ∈ F := by
  refine ⟨fun htest => ?_, fun hbuddy => hm.free b.buddy hbuddy⟩
  have hwhole := Block.buddy_le_whole (ht.le_whole b hb) hlevel
  have hpos := Nat.two_pow_pos b.level
  -- the block of the tiling that has the buddy's last byte
  obtain ⟨d, hd, hmem⟩ : ∃ d ∈ S, b.buddy.first + 2 ^ b.level - 1 ∈ d := by
    apply ht.cover
    rw [← Block.mem_whole]
    apply Block.mem_of_le hwhole
    rw [Block.mem_iff_bounds, Block.buddy_level]
    omega
  have hself : b.buddy.first + 2 ^ b.level - 1 ∈ b.buddy := by
    rw [Block.mem_iff_bounds, Block.buddy_level]
    omega
  have hdb : d ≠ b := by
    rintro rfl
    have hle := Block.le_of_mem hself hmem le_rfl
    exact Block.buddy_ne d (Block.eq_of_le_of_level hle le_rfl)
  have hle : d ≤ b.buddy := by
    rcases Block.nested_of_mem hmem hself with hle | hle
    · exact hle
    · by_cases heq : b.buddy = d
      · exact le_of_eq heq.symm
      · have hparent := Block.parent_le hle heq
        rw [Block.parent_buddy] at hparent
        exact absurd (ht.eq_of_le b hb d hd (b.le_parent.trans hparent)).symm hdb
  have hin : InBlock d (blockLast b.buddy) := by
    obtain ⟨hlo, hhi⟩ := Block.mem_iff_bounds.mp hmem
    rw [InBlock, blockLast, blockAddr_eq, blockAddr_eq, blockSize_eq, blockSize_eq,
      Block.buddy_level]
    omega
  rw [← blockLast_eq hle hin] at htest
  rcases hS d hd hdb with hV | hF
  · have hused : used = b.level := (hm.last d hV).symm.trans htest
    have htop : topEntry < used := by decide
    omega
  · have hsame : d.level = b.level := (hm.free d hF).symm.trans htest
    have heq : d = b.buddy := Block.eq_of_le_of_level hle (le_of_eq hsame.symm)
    exact heq ▸ hF

end Buddies

/-! ## Freeing -/

section Freeing

variable {t : Bsystem} {h : Heap} {V : Set Block} {free₀ : Nat → List Nat} {b : Block}

/-- The heap after one merge of a block on no list with its buddy. -/
def mergeOnce (t : Bsystem) (h : Heap) (b : Block) : Heap :=
  let h := (h.decCount b.level).listDel (blockAddr b.buddy)
  let h := h.write (blockLast b.parent) (b.level + 1)
  (h.listAdd (blockAddr b.parent) (t.ptr (b.level + 1))).addCount (b.level + 1) 1

/-- The byte that the merge test reads. -/
theorem blockLast_buddy (b : Block) : blockAddr b.buddy + blockSize b.level - 1 = blockLast b.buddy := rfl

/-- The byte that a merge marks. -/
theorem blockLast_parent (b : Block) :
    blockAddr b.parent + blockSize (b.level + 1) - 1 = blockLast b.parent := rfl

/-- Taking the block off its list before a merge changes no size. -/
theorem merged_size (hsize : ∀ e < buddyEntries, (h.bsystem e).size = blockSize e)
    (hlevel : b.level < topEntry) (k : Nat) :
    ((if k > 0 then (h.decCount b.level).listDel (blockAddr b) else h).bsystem (b.level + 1)).size =
      blockSize (b.level + 1) := by
  have hnext := hsize (b.level + 1) (Nat.succ_lt_succ hlevel)
  split_ifs
  · rw [HeapLists.listDel_bsystem, HeapLists.decCount_size, hnext]
  · exact hnext

/-- One round of `buddy_try_merge` on a block of the pool. -/
theorem mergeLoop_succ (hbase : h.memBase = mallocBase)
    (hsize : ∀ e < buddyEntries, (h.bsystem e).size = blockSize e) (hb : b ≤ Block.whole topEntry)
    (fuel k : Nat) :
    mergeLoop t (fuel + 1) h (blockAddr b) b.level k =
      if b.level < topEntry ∧ (h.mem (blockLast b.buddy)).toNat = b.level then
        mergeLoop t fuel
          (mergeOnce t (if k > 0 then (h.decCount b.level).listDel (blockAddr b) else h) b)
          (blockAddr b.parent) b.parent.level ((k + 1) % 2 ^ 8)
      else
        .ok (k, h) := by
  rw [mergeLoop]
  by_cases hlevel : b.level < topEntry
  · have hif : b.level < buddyEntries - 1 := hlevel
    have hs := hsize b.level (level_lt hb)
    simp only [if_pos hif, hs, hbase, buddy_addr hb hlevel, merged_addr, blockLast_buddy,
      HeapLists.listDel_bsystem, HeapLists.decCount_size, merged_size hsize hlevel, blockLast_parent,
      hlevel, true_and]
    rfl
  · have hif : ¬b.level < buddyEntries - 1 := hlevel
    rw [if_neg hif, if_neg fun hand => hlevel hand.1]
    rfl

/-- One merge of a block on no list with its free buddy: the parent is on its list afterwards. -/
theorem merge_round (hl : HeapLists t h (insert b V) free₀) (hbV : b ∉ V)
    (hm : HeapMarks h.mem V (freeSet free₀)) (hbuddy : b.buddy ∈ freeSet free₀)
    (hlevel : b.level < topEntry) :
    ∃ free₁, HeapLists t (mergeOnce t h b) V free₁ ∧
      HeapMarks (mergeOnce t h b).mem V (freeSet free₁) ∧
      freeSet free₁ = insert b.parent (freeSet free₀ \ {b.buddy}) := by
  have hbuddyV : b.buddy ∉ V := fun hV =>
    Set.disjoint_left.mp hl.unlisted (Set.mem_insert_of_mem b hV) hbuddy
  have hnd : (free₀ b.buddy.level).Nodup :=
    (List.nodup_cons.mp (hl.ring b.buddy.level (hl.level_lt_of_free hbuddy)).nodup).2
  -- the buddy comes off its list
  obtain ⟨hl₁, hm₁⟩ := hl.unlink hbuddy
  have hm₁ := hm₁ V (Set.subset_insert b V) _
    (Set.sdiff_subset.trans Set.subset_union_right) (hm.mono le_rfl (Set.sdiff_subset (t := {b.buddy})))
  rw [Block.buddy_level] at hl₁
  set free₁ := Function.update free₀ b.level ((free₀ b.level).erase (blockAddr b.buddy)) with hfree₁
  have hF₁ : freeSet free₁ = freeSet free₀ \ {b.buddy} := freeSet_erase hnd
  -- the two are one block, which is marked and goes on the list
  have hl₂ := hl₁.merge (Or.inr (Set.mem_insert b V)) (Or.inl rfl) hlevel
  have hV : insert b.parent (insert b.buddy (insert b V) \ {b, b.buddy}) = insert b.parent V := by
    congr 1
    ext c
    simp only [Set.mem_sdiff, Set.mem_insert_iff, Set.mem_singleton_iff]
    constructor
    · rintro ⟨hc, hne⟩
      tauto
    · intro hc
      refine ⟨Or.inr (Or.inr hc), ?_⟩
      rintro (rfl | rfl)
      · exact hbV hc
      · exact hbuddyV hc
  rw [hV] at hl₂
  have hpV : b.parent ∉ V := by
    intro hp
    exact hl.tiling.not_mem_of_le_half (Or.inl (Set.mem_insert_of_mem b hp)) (Or.inl le_rfl)
      (Or.inl (Set.mem_insert b V))
  have hl₃ := hl₂.write_unlisted (Set.mem_insert b.parent V) (inBlock_last b.parent) (b.level + 1)
  have hsub : V ⊆ insert b.parent V ∪ freeSet free₁ :=
    (Set.subset_insert b.parent V).trans Set.subset_union_left
  have hm₃ := hm₁.markFree hl₂.tiling hsub (hF₁ ▸ Set.subset_union_right)
    (Or.inl (Set.mem_insert b.parent V)) hpV
  have hF₃ : insert b.parent (freeSet free₁) ⊆ insert b.parent V ∪ freeSet free₁ :=
    Set.insert_subset (Or.inl (Set.mem_insert b.parent V)) Set.subset_union_right
  rw [← hF₁] at hm₃
  obtain ⟨hl₄, hm₄⟩ := hl₃.link_one hpV le_rfl hF₃ hm₃
  refine ⟨_, hl₄, ?_, by rw [freeSet_cons, hF₁]⟩
  rw [freeSet_cons]
  exact hm₄

/-- A block that a round of `buddy_try_merge` has made: it is on its list, and no other block has a
free buddy. -/
structure Merging (t : Bsystem) (h : Heap) (V : Set Block) (free : Nat → List Nat) (b : Block) : Prop where
  lists : HeapLists t h V free
  marks : HeapMarks h.mem V (freeSet free)
  listed : b ∈ freeSet free
  coalesced : Coalesced topEntry (freeSet free \ {b})

/-- The first round makes a block of one on no list and its free buddy. -/
theorem Merging.first (hl : HeapLists t h (insert b V) free₀) (hbV : b ∉ V)
    (hm : HeapMarks h.mem V (freeSet free₀)) (hc : Coalesced topEntry (freeSet free₀))
    (hlevel : b.level < topEntry) (hbuddy : b.buddy ∈ freeSet free₀) :
    ∃ free₁, Merging t (mergeOnce t h b) V free₁ b.parent := by
  obtain ⟨free₁, hl₁, hm₁, hF₁⟩ := merge_round hl hbV hm hbuddy hlevel
  refine ⟨free₁, hl₁, hm₁, hF₁ ▸ Set.mem_insert b.parent _, ?_⟩
  apply hc.mono
  rw [hF₁]
  rintro c ⟨rfl | hc', hne⟩
  · exact absurd rfl hne
  · exact hc'.1

/-- A further round takes the block off its list again and makes one of it and its free buddy. -/
theorem Merging.again (hs : Merging t h V free₀ b) (hlevel : b.level < topEntry)
    (hbuddy : b.buddy ∈ freeSet free₀) :
    ∃ free₁, Merging t (mergeOnce t ((h.decCount b.level).listDel (blockAddr b)) b) V free₁ b.parent := by
  have hl := hs.lists
  have hnd : (free₀ b.level).Nodup :=
    (List.nodup_cons.mp (hl.ring b.level (hl.level_lt_of_free hs.listed)).nodup).2
  have hbV : b ∉ V := Set.disjoint_right.mp hl.unlisted hs.listed
  obtain ⟨hl₁, hm₁⟩ := hl.unlink hs.listed
  have hF₁ := freeSet_erase hnd
  have hm₁ := hm₁ V le_rfl _ (Set.sdiff_subset.trans Set.subset_union_right)
    (hs.marks.mono le_rfl (Set.sdiff_subset (t := {b})))
  have hcoalesced := hs.coalesced
  have hbuddy₁ : b.buddy ∈ freeSet free₀ \ {b} := ⟨hbuddy, Block.buddy_ne b⟩
  rw [← hF₁] at hm₁ hbuddy₁ hcoalesced
  exact Merging.first hl₁ hbV hm₁ hcoalesced hlevel hbuddy₁

/-- The merge test on such a block. -/
theorem Merging.test (hs : Merging t h V free₀ b) (hlevel : b.level < topEntry) :
    (h.mem (blockLast b.buddy)).toNat = b.level ↔ b.buddy ∈ freeSet free₀ :=
  merge_test hs.lists.tiling (Or.inr hs.listed) hlevel (fun _ hd _ => hd) hs.marks

/-- The rounds of `buddy_try_merge` after the first one: the block is on its list. -/
theorem mergeLoop_merged : ∀ {fuel k : Nat} {h : Heap} {free₀ : Nat → List Nat} {b : Block},
    buddyEntries ≤ fuel + b.level → 0 < k → k ≤ b.level → Merging t h V free₀ b →
    ∃ n h' free₁, mergeLoop t fuel h (blockAddr b) b.level k = .ok (n, h') ∧ n ≠ 0 ∧
      HeapInv t h' V free₁ := by
  intro fuel
  induction fuel with
  | zero =>
    intro k h free₀ b hfuel hk hkb hs
    have hlt := hs.lists.level_lt_of_free hs.listed
    omega
  | succ fuel ih =>
    intro k h free₀ b hfuel hk hkb hs
    have hwhole := hs.lists.tiling.le_whole b (Or.inr hs.listed)
    rw [mergeLoop_succ hs.lists.base hs.lists.size hwhole, if_pos hk]
    by_cases htest : b.level < topEntry ∧ (h.mem (blockLast b.buddy)).toNat = b.level
    · rw [if_pos htest]
      obtain ⟨hlevel, hbyte⟩ := htest
      obtain ⟨free₁, hs₁⟩ := hs.again hlevel ((hs.test hlevel).mp hbyte)
      have htop : topEntry < 2 ^ 8 := by decide
      have hk' : (k + 1) % 2 ^ 8 = k + 1 := Nat.mod_eq_of_lt (by omega)
      rw [hk']
      apply ih _ _ _ hs₁
      · rw [Block.parent_level]
        omega
      · omega
      · rw [Block.parent_level]
        omega
    · rw [if_neg htest]
      have hself : insert b (freeSet free₀ \ {b}) = freeSet free₀ := by
        rw [Set.insert_sdiff_singleton, Set.insert_eq_of_mem hs.listed]
      refine ⟨k, h, free₀, rfl, by omega, hs.lists, hs.marks, ?_⟩
      rw [← hself]
      apply hs.coalesced.insert
      intro hlevel hmem
      exact htest ⟨hlevel, (hs.test hlevel).mpr hmem.1⟩

/-- `buddy_try_merge` on a block on no list: it does nothing when the buddy is not free, and
otherwise leaves the block merged and on its list. -/
theorem buddyTryMerge_spec (hl : HeapLists t h (insert b V) free₀) (hbV : b ∉ V)
    (hm : HeapMarks h.mem V (freeSet free₀)) (hc : Coalesced topEntry (freeSet free₀)) :
    ∃ n h', buddyTryMerge t h (blockAddr b) b.level = .ok (n, h') ∧
      ((n = 0 ∧ h' = h ∧ (b.level < topEntry → b.buddy ∉ freeSet free₀)) ∨
        (n ≠ 0 ∧ ∃ free₁, HeapInv t h' V free₁)) := by
  have hb : b ∈ insert b V ∪ freeSet free₀ := Or.inl (Set.mem_insert b V)
  have hwhole := hl.tiling.le_whole b hb
  have hcover : ∀ d ∈ insert b V ∪ freeSet free₀, d ≠ b → d ∈ V ∨ d ∈ freeSet free₀ := by
    rintro d ((rfl | hd) | hd) hne
    · exact absurd rfl hne
    · exact Or.inl hd
    · exact Or.inr hd
  rw [buddyTryMerge]
  by_cases hcount : (h.bsystem b.level).count = 0
  · rw [if_pos hcount]
    refine ⟨0, h, rfl, Or.inl ⟨rfl, rfl, fun _ hbuddy => ?_⟩⟩
    rw [hl.count b.level (level_lt hwhole), List.length_eq_zero_iff] at hcount
    rw [mem_freeSet, Block.buddy_level, hcount] at hbuddy
    exact List.not_mem_nil hbuddy
  · have hfuel : buddyEntries = topEntry + 1 := rfl
    rw [if_neg hcount, hfuel, mergeLoop_succ hl.base hl.size hwhole, if_neg (lt_irrefl 0)]
    by_cases htest : b.level < topEntry ∧ (h.mem (blockLast b.buddy)).toNat = b.level
    · rw [if_pos htest]
      obtain ⟨hlevel, hbyte⟩ := htest
      have hbuddy := (merge_test hl.tiling hb hlevel hcover hm).mp hbyte
      obtain ⟨free₁, hs⟩ := Merging.first hl hbV hm hc hlevel hbuddy
      have hround : buddyEntries ≤ topEntry + b.parent.level := by
        rw [Block.parent_level, hfuel]
        omega
      obtain ⟨n, h', free₂, hrun, hn, hinv⟩ := mergeLoop_merged hround Nat.one_pos
        (Nat.le_add_left 1 b.level) hs
      exact ⟨n, h', hrun, Or.inr ⟨hn, free₂, hinv⟩⟩
    · rw [if_neg htest]
      refine ⟨0, h, rfl, Or.inl ⟨rfl, rfl, fun hlevel hbuddy => ?_⟩⟩
      exact htest ⟨hlevel, (merge_test hl.tiling hb hlevel hcover hm).mpr hbuddy⟩

/-- **`free` of an outstanding block** succeeds, without a message, and keeps the invariant. -/
theorem free_spec {U : Set Block} (hi : HeapInv t h U free₀) (hb : b ∈ U) :
    ∃ h' free₁, free t h (blockAddr b + 8) = .ok (none, h') ∧ HeapInv t h' (U \ {b}) free₁ := by
  have hwhole := hi.lists.tiling.le_whole b (Or.inl hb)
  have hU : insert b (U \ {b}) = U := by
    rw [Set.insert_sdiff_singleton, Set.insert_eq_of_mem hb]
  have hbV : b ∉ U \ {b} := fun hmem => hmem.2 rfl
  have hl : HeapLists t h (insert b (U \ {b})) free₀ := by
    rw [hU]
    exact hi.lists
  have hm := hi.marks.mono (Set.sdiff_subset (t := {b})) le_rfl
  have haddr := sub64_blockAddr hwhole
  have hlast : (h.mem (blockAddr b + blockSize b.level - 1)).toNat = used := hi.marks.last b hb
  obtain ⟨n, h', hmerge, hcases⟩ := buddyTryMerge_spec hl hbV hm hi.coalesced
  rw [free]
  simp only [haddr, hi.marks.first b hb, Heap.bucket, if_pos (level_lt hwhole),
    hi.lists.size b.level (level_lt hwhole), Exec.ok_bind, hlast, ne_eq, not_true_eq_false, if_false,
    hmerge]
  rcases hcases with ⟨rfl, rfl, hbuddy⟩ | ⟨hn, free₁, hinv⟩
  · -- no merge: the block is marked and goes on its list
    have hmem := Set.mem_insert b (U \ {b})
    have hl₁ := hl.write_unlisted hmem (inBlock_last b) b.level
    have hsub : U \ {b} ⊆ insert b (U \ {b}) ∪ freeSet free₀ :=
      (Set.subset_insert b _).trans Set.subset_union_left
    have hm₁ := hm.markFree hl.tiling hsub Set.subset_union_right (Or.inl hmem) hbV
    have hF : insert b (freeSet free₀) ⊆ insert b (U \ {b}) ∪ freeSet free₀ :=
      Set.insert_subset (Or.inl hmem) Set.subset_union_right
    obtain ⟨hl₂, hm₂⟩ := hl₁.link_one hbV le_rfl hF hm₁
    refine ⟨_, _, rfl, hl₂, ?_, ?_⟩
    · rw [freeSet_cons]
      exact hm₂
    · rw [freeSet_cons]
      exact hi.coalesced.insert hbuddy
  · rw [if_pos hn]
    exact ⟨h', free₁, rfl, hinv⟩

end Freeing

/-! ## Orders -/

/-- The entry of the blocks that `size` bytes and their marks fit. -/
def entryFor (size : Nat) : Nat := Nat.clog 2 (size + 9) - buddyMinOrder

/-- The block has room for the bytes, eight before them and one after. -/
theorem size_le_blockSize (size : Nat) : size + 9 ≤ blockSize (entryFor size) := by
  calc size + 9 ≤ 2 ^ Nat.clog 2 (size + 9) := Nat.le_pow_clog Nat.one_lt_two _
    _ ≤ blockSize (entryFor size) :=
      Nat.pow_le_pow_right Nat.two_pos le_tsub_add

/-- The loop of `next_power2` counts up to the order. -/
theorem nextPower2Loop_spec {v : Nat} (hv : v ≤ 2 ^ 31) : ∀ {fuel c : Nat}, c ≤ 31 →
    32 - c ≤ fuel → nextPower2Loop v fuel (2 ^ c) c = .ok (max c (Nat.clog 2 v)) := by
  have hclog : Nat.clog 2 v ≤ 31 := Nat.clog_le_of_le_pow hv
  intro fuel
  induction fuel with
  | zero =>
    intro c hc hfuel
    omega
  | succ fuel ih =>
    intro c hc hfuel
    rw [nextPower2Loop]
    by_cases hlt : 2 ^ c < v
    · have hcv : c < Nat.clog 2 v := (Nat.lt_clog_iff_pow_lt Nat.one_lt_two).mpr hlt
      have hshift : (2 ^ c) <<< 1 % 2 ^ 32 = 2 ^ (c + 1) := by
        rw [Nat.shiftLeft_eq, ← Nat.pow_succ]
        exact Nat.mod_eq_of_lt (Nat.pow_lt_pow_right Nat.one_lt_two (by omega))
      have hcnt : (c + 1) % 2 ^ 8 = c + 1 := Nat.mod_eq_of_lt (by omega)
      rw [if_pos hlt, hshift, hcnt, ih (by omega) (by omega)]
      congr 1
      omega
    · have hcv : Nat.clog 2 v ≤ c := Nat.clog_le_of_le_pow (not_lt.mp hlt)
      rw [if_neg hlt, max_eq_left hcv]
      rfl

/-- `next_power2` of a value that 31 bits hold. -/
theorem nextPower2_spec {v : Nat} (hv : v ≤ 2 ^ 31) :
    nextPower2 v = .ok (max buddyMinOrder (Nat.clog 2 v)) := by
  have hblk : buddyMinBlk = 2 ^ buddyMinOrder := by decide
  rw [nextPower2]
  by_cases hlt : v < buddyMinBlk
  · have hclog : Nat.clog 2 v ≤ buddyMinOrder := Nat.clog_le_of_le_pow (hblk ▸ hlt.le)
    rw [if_pos hlt, max_eq_left hclog]
    rfl
  · have hstart : 1 <<< buddyMinOrder = 2 ^ buddyMinOrder := by decide
    rw [if_neg hlt, hstart]
    exact nextPower2Loop_spec hv (by decide) (by decide)

/-! ## Allocating -/

section Allocating

variable {t : Bsystem} {h : Heap} {U : Set Block} {free₀ : Nat → List Nat} {entry : Nat}

/-- The search of `malloc` for a bucket: it panics when all are empty from the entry on, and
otherwise finds the lowest one that is not. -/
theorem findBucket_spec : ∀ {fuel entry k : Nat}, entry < buddyEntries →
    buddyEntries ≤ fuel + entry → k ≤ entry →
    (findBucket h fuel entry k = .error (.panic "malloc" "out of memory") ∧
        ∀ e, entry ≤ e → e < buddyEntries → (h.bsystem e).count = 0) ∨
      ∃ j, entry + j < buddyEntries ∧ findBucket h fuel entry k = .ok (entry + j, k + j) ∧
        (h.bsystem (entry + j)).count ≠ 0 ∧
        ∀ e, entry ≤ e → e < entry + j → (h.bsystem e).count = 0 := by
  intro fuel
  induction fuel with
  | zero =>
    intro entry k hentry hfuel hk
    omega
  | succ fuel ih =>
    intro entry k hentry hfuel hk
    rw [findBucket, Heap.bucket, if_pos hentry, Exec.ok_bind]
    by_cases hcount : (h.bsystem entry).count = 0
    · rw [if_pos hcount]
      by_cases hlast : entry + 1 ≥ buddyEntries
      · rw [if_pos hlast]
        refine Or.inl ⟨rfl, fun e hlo hhi => ?_⟩
        have heq : e = entry := by omega
        rw [heq]
        exact hcount
      · have htop : buddyEntries < 2 ^ 8 := by decide
        have hk' : (k + 1) % 2 ^ 8 = k + 1 := Nat.mod_eq_of_lt (by omega)
        have hbelow : ∀ {e : Nat}, entry ≤ e → (entry + 1 ≤ e → (h.bsystem e).count = 0) →
            (h.bsystem e).count = 0 := by
          intro e hlo hrest
          by_cases heq : e = entry
          · rw [heq]
            exact hcount
          · exact hrest (by omega)
        rw [if_neg hlast, hk']
        rcases @ih (entry + 1) (k + 1) (by omega) (by omega) (by omega) with
          ⟨hpanic, hzero⟩ | ⟨j, hj, hrun, hne, hzero⟩
        · exact Or.inl ⟨hpanic, fun e hlo hhi => hbelow hlo fun hlo' => hzero e hlo' hhi⟩
        · have hidx : entry + 1 + j = entry + (j + 1) := by omega
          have hcnt : k + 1 + j = k + (j + 1) := by omega
          rw [hidx, hcnt] at hrun
          rw [hidx] at hj hne
          refine Or.inr ⟨j + 1, hj, hrun, hne, fun e hlo hhi => ?_⟩
          exact hbelow hlo fun hlo' => hzero e hlo' (by omega)
    · rw [if_neg hcount]
      exact Or.inr ⟨0, hentry, rfl, hcount, fun e hlo hhi => absurd hhi (by omega)⟩

/-- Between two splits: the lists and marks are right, and no buddies are free but for the block
that is first on the list of the entry at hand. -/
structure Splitting (t : Bsystem) (h : Heap) (U : Set Block) (free : Nat → List Nat) (b : Block) :
    Prop where
  lists : HeapLists t h U free
  marks : HeapMarks h.mem U (freeSet free)
  first : (free b.level).head? = some (blockAddr b)
  coalesced : Coalesced topEntry (freeSet free \ {b})

namespace Splitting

variable {b : Block}

theorem mem (hs : Splitting t h U free₀ b) : b ∈ freeSet free₀ := List.mem_of_head? hs.first

/-- The pointer `malloc` and `buddy_split` take from the list head. -/
theorem nextOf_head (hs : Splitting t h U free₀ b) : nextOf h.mem (t.ptr b.level) = blockAddr b := by
  have hring := hs.lists.ring b.level (hs.lists.level_lt_of_free hs.mem)
  obtain ⟨rest, hrest⟩ := List.head?_eq_some_iff.mp hs.first
  rw [hrest] at hring
  exact hring.next_head

/-- A coalesced heap with a block on the list of an entry. -/
theorem of_inv (hi : HeapInv t h U free₀) (hentry : entry < buddyEntries)
    (hcount : (h.bsystem entry).count ≠ 0) : ∃ b, b.level = entry ∧ Splitting t h U free₀ b := by
  rw [hi.lists.count entry hentry] at hcount
  cases hlist : free₀ entry with
  | nil =>
    rw [hlist] at hcount
    exact absurd rfl hcount
  | cons a rest =>
    have ha : a ∈ free₀ entry := by
      rw [hlist]
      exact List.mem_cons_self
    obtain ⟨b, rfl, rfl⟩ := hi.lists.listed entry a ha
    refine ⟨b, rfl, hi.lists, hi.marks, ?_, hi.coalesced.mono Set.sdiff_subset⟩
    rw [hlist]
    rfl

end Splitting

/-- Adding two to a count is adding one twice. -/
theorem addCount_two (h : Heap) (e : Nat) : h.addCount e 2 = (h.addCount e 1).addCount e 1 := by
  simp only [Heap.addCount, Function.update_self, Function.update_idem, Nat.mod_add_mod,
    Nat.add_assoc]

/-- The count of a bucket and the lists are apart. -/
theorem addCount_listAdd (h : Heap) (e k node head : Nat) :
    (h.addCount e k).listAdd node head = (h.listAdd node head).addCount e k := by
  simp only [Heap.addCount, Heap.listAdd]

/-- The heap after a block was split: it comes off its list, its halves go on the list below, the lower
one first, and are marked. -/
def splitHeap (t : Bsystem) (h : Heap) (d : Block) : Heap :=
  let h₁ := (h.listDel (blockAddr d.parent)).decCount d.parent.level
  let h₂ := (h₁.listAdd (blockAddr d.buddy) (t.ptr d.buddy.level)).addCount d.buddy.level 1
  let h₃ := (h₂.listAdd (blockAddr d) (t.ptr d.level)).addCount d.level 1
  (h₃.write (blockLast d) d.level).write (blockLast d.buddy) d.level

/-- `buddy_split` of a block splits it. -/
theorem buddySplit_eq {d : Block} (hs : Splitting t h U free₀ d.parent) (heven : d.idx % 2 = 0) :
    buddySplit t h d.parent.level = .ok (splitHeap t h d) := by
  obtain ⟨hlow, hhigh⟩ := halves heven
  have hlt := hs.lists.level_lt_of_free hs.mem
  obtain ⟨hl₁, -⟩ := hs.lists.unlink hs.mem
  have hhead : nextOf h.mem (t.ptr (d.level + 1)) = blockAddr d := by
    rw [hlow]
    exact hs.nextOf_head
  have hlevel : d.level < buddyEntries := lt_trans (Nat.lt_succ_self _) hlt
  have hsize := hl₁.size d.level hlevel
  have hpos := blockSize_ge d.level
  have hlast : blockAddr d.buddy - 1 = blockLast d := by
    rw [hhigh, blockLast]
  have hlast' : blockLast d + blockSize d.level = blockLast d.buddy := by
    rw [blockLast, blockLast, hhigh, Block.buddy_level]
    omega
  unfold splitHeap
  dsimp only
  set h₁ := (h.listDel (blockAddr d.parent)).decCount d.parent.level with hh₁
  rw [Block.parent_level, ← hlow] at hh₁
  rw [Block.parent_level, buddySplit]
  simp only [hhead, ← hh₁, Heap.bucket, if_pos hlevel, Exec.ok_bind, hsize, ← hhigh, hlast, hlast',
    addCount_two, addCount_listAdd, Exec.pure_eq]
  rw [Block.buddy_level]

/-- **`buddy_split`** of the first block of an entry leaves its lower half first on the list below,
the upper half behind it. -/
theorem buddySplit_spec {b : Block} (hs : Splitting t h U free₀ b) (hlevel : 0 < b.level) :
    ∃ h' free₁ d, buddySplit t h b.level = .ok h' ∧ d.parent = b ∧ Splitting t h' U free₁ d ∧
      freeSet free₁ = insert d (insert d.buddy (freeSet free₀ \ {b})) := by
  obtain ⟨d, rfl, heven⟩ := Block.exists_half hlevel
  have hlt := hs.lists.level_lt_of_free hs.mem
  have hpU : d.parent ∉ U := Set.disjoint_right.mp hs.lists.unlisted hs.mem
  have hnd : (free₀ d.parent.level).Nodup :=
    (List.nodup_cons.mp (hs.lists.ring d.parent.level hlt).nodup).2
  -- the block comes off its list and counts as two
  obtain ⟨hl₁, hm₁⟩ := hs.lists.unlink hs.mem
  have hF₁ := freeSet_erase hnd
  have hm₁ := hm₁ U le_rfl _ (Set.sdiff_subset.trans Set.subset_union_right)
    (hs.marks.mono le_rfl (Set.sdiff_subset (t := {d.parent})))
  have hl₂ := hl₁.split (Set.mem_insert d.parent U)
  rw [Set.insert_sdiff_self_of_notMem hpU] at hl₂
  set h₁ := (h.listDel (blockAddr d.parent)).decCount d.parent.level with hh₁
  set free₁ := Function.update free₀ d.parent.level
    ((free₀ d.parent.level).erase (blockAddr d.parent)) with hfree₁
  have hm₁ : HeapMarks h₁.mem U (freeSet free₁) := by
    rw [hh₁, HeapLists.decCount_mem, hF₁]
    exact hm₁
  have hdU : d ∉ U := fun hd =>
    hs.lists.tiling.not_mem_of_le_half (Or.inr hs.mem) (Or.inl le_rfl) (Or.inl hd)
  have hbU : d.buddy ∉ U := fun hd =>
    hs.lists.tiling.not_mem_of_le_half (Or.inr hs.mem) (Or.inr le_rfl) (Or.inl hd)
  -- the upper half goes on the list below, then the lower half
  rw [Set.insert_comm] at hl₂
  have hbU' : d.buddy ∉ insert d U := fun hmem => hmem.elim (Block.buddy_ne d) hbU
  obtain ⟨hl₃, hm₃⟩ := hl₂.link_one hbU' (Set.subset_insert d U) Set.subset_union_right hm₁
  have hsub₄ : freeSet free₁ ⊆ insert d U ∪
      freeSet (Function.update free₁ d.buddy.level (blockAddr d.buddy :: free₁ d.buddy.level)) := by
    rw [freeSet_cons]
    exact fun c hc => Or.inr (Or.inr hc)
  obtain ⟨hl₄, hm₄⟩ := hl₃.link_one hdU le_rfl hsub₄ hm₃
  set free₂ := Function.update free₁ d.buddy.level (blockAddr d.buddy :: free₁ d.buddy.level)
    with hfree₂
  set free₃ := Function.update free₂ d.level (blockAddr d :: free₂ d.level) with hfree₃
  set h₂ := (h₁.listAdd (blockAddr d.buddy) (t.ptr d.buddy.level)).addCount d.buddy.level 1 with hh₂
  set h₃ := (h₂.listAdd (blockAddr d) (t.ptr d.level)).addCount d.level 1 with hh₃
  have hF₃ : freeSet free₃ = insert d (insert d.buddy (freeSet free₀ \ {d.parent})) := by
    rw [hfree₃, freeSet_cons, hfree₂, freeSet_cons, hF₁]
  have hd₃ : d ∈ freeSet free₃ := hF₃ ▸ Set.mem_insert _ _
  have hb₃ : d.buddy ∈ freeSet free₃ := hF₃ ▸ Or.inr (Set.mem_insert _ _)
  -- both are marked
  have hl₅ := (hl₄.writeLast_free hd₃ d.level).writeLast_free hb₃ d.level
  have hsubF : freeSet free₁ ⊆ U ∪ freeSet free₃ := by
    rw [hF₁, hF₃]
    exact fun c hc => Or.inr (Or.inr (Or.inr hc))
  have hm₅ := hm₄.markFree hl₄.tiling Set.subset_union_left hsubF (Or.inr hd₃) hdU
  have hm₆ := hm₅.markFree hl₄.tiling Set.subset_union_left
    (Set.insert_subset (Or.inr hd₃) hsubF) (Or.inr hb₃) hbU
  rw [Set.insert_comm, hF₁, ← hF₃] at hm₆
  refine ⟨_, free₃, d, buddySplit_eq hs heven, rfl, ⟨hl₅, hm₆, ?_, ?_⟩, hF₃⟩
  · rw [hfree₃, Function.update_self]
    rfl
  · have hrest : Coalesced topEntry (insert d.buddy (freeSet free₀ \ {d.parent})) := by
      apply hs.coalesced.insert
      rintro - ⟨hmem, -⟩
      rw [Block.buddy_buddy] at hmem
      exact hs.lists.tiling.not_mem_of_le_half (Or.inr hs.mem) (Or.inl le_rfl) (Or.inr hmem)
    apply hrest.mono
    rw [hF₃]
    rintro c ⟨rfl | hc, hne⟩
    · exact absurd rfl hne
    · exact hc

/-- The splits of `malloc`, down to the entry it is after: a part is cut out of the block. -/
theorem splitLoop_spec : ∀ {k : Nat} {h : Heap} {free₀ : Nat → List Nat} {b : Block},
    Splitting t h U free₀ b → b.level = entry + k →
    ∃ h' free₁ c, splitLoop t k b.level h = .ok (entry, h') ∧ c.level = entry ∧
      Splitting t h' U free₁ c ∧ c ≤ b ∧
      freeSet free₁ = insert c (Block.cut c b ∪ freeSet free₀ \ {b}) := by
  intro k
  induction k with
  | zero =>
    intro h free₀ b hs hb
    refine ⟨h, free₀, b, ?_, hb, hs, le_rfl, ?_⟩
    · rw [hb]
      rfl
    · rw [Block.cut_self, Set.empty_union, Set.insert_sdiff_singleton, Set.insert_eq_of_mem hs.mem]
  | succ k ih =>
    intro h free₀ b hs hb
    obtain ⟨h₁, free₁, d, hrun, rfl, hs₁, hF₁⟩ := buddySplit_spec hs (by omega)
    have hd : d.level = entry + k := by
      rw [Block.parent_level] at hb
      omega
    obtain ⟨h₂, free₂, c, hrun', hc, hs₂, hcd, hF₂⟩ := ih hs₁ hd
    refine ⟨h₂, free₂, c, ?_, hc, hs₂, hcd.trans d.le_parent, ?_⟩
    · rw [splitLoop, hrun, Exec.ok_bind]
      exact hrun'
    · -- the lower half is cut further, the upper one is left
      have hself : d ∉ insert d.buddy (freeSet free₀ \ {d.parent}) := by
        rintro (heq | ⟨hmem, -⟩)
        · exact Block.buddy_ne d heq.symm
        · exact hs.lists.tiling.not_mem_of_le_half (Or.inr hs.mem) (Or.inl le_rfl) (Or.inr hmem)
      rw [hF₂, hF₁, Set.insert_sdiff_self_of_notMem hself, Block.cut_parent hcd]
      congr 1
      exact (Set.union_insert).trans Set.insert_union.symm

/-- A block is first on the list of an entry, cut out of the smallest free block that is large
enough, unless there is none. -/
theorem provide_spec (hi : HeapInv t h U free₀) (hentry : entry < buddyEntries) :
    (provide t h entry = .error (.panic "malloc" "out of memory") ∧
        ∀ d ∈ freeSet free₀, d.level < entry) ∨
      ∃ h₁ free₁ b c, provide t h entry = .ok (entry, h₁) ∧ b.level = entry ∧
        Splitting t h₁ U free₁ b ∧ c ∈ freeSet free₀ ∧ b ≤ c ∧
        (∀ d ∈ freeSet free₀, entry ≤ d.level → c.level ≤ d.level) ∧
        freeSet free₁ = insert b (Block.cut b c ∪ freeSet free₀ \ {c}) := by
  have hempty : ∀ e, e < buddyEntries → (h.bsystem e).count = 0 → ∀ d ∈ freeSet free₀, d.level ≠ e := by
    rintro e he hcount d hd rfl
    rw [hi.lists.count d.level he, List.length_eq_zero_iff] at hcount
    rw [mem_freeSet, hcount] at hd
    exact List.not_mem_nil hd
  rw [provide, Heap.bucket, if_pos hentry, Exec.ok_bind]
  by_cases hcount : (h.bsystem entry).count = 0
  · rw [if_pos hcount]
    rcases findBucket_spec hentry (Nat.le_add_right _ _) (Nat.zero_le _) with
      ⟨hpanic, hzero⟩ | ⟨j, hj, hrun, hne, hzero⟩
    · left
      rw [hpanic]
      refine ⟨rfl, fun d hd => ?_⟩
      by_contra hge
      have hlt := hi.lists.level_lt_of_free hd
      exact hempty d.level hlt (hzero d.level (not_lt.mp hge) hlt) d hd rfl
    · right
      obtain ⟨c, hc, hs⟩ := Splitting.of_inv hi hj hne
      obtain ⟨h₁, free₁, b, hsplit, hb, hs₁, hle, hF⟩ := splitLoop_spec hs hc
      refine ⟨h₁, free₁, b, c, ?_, hb, hs₁, hs.mem, hle, fun d hd hlo => ?_, hF⟩
      · rw [hrun, Exec.ok_bind, Nat.zero_add, ← hc]
        exact hsplit
      · by_contra hlt
        have hbelow : d.level < entry + j := by omega
        exact hempty d.level (by omega) (hzero d.level hlo hbelow) d hd rfl
  · rw [if_neg hcount]
    right
    obtain ⟨b, hb, hs⟩ := Splitting.of_inv hi hentry hcount
    refine ⟨h, free₀, b, b, rfl, hb, hs, hs.mem, le_rfl, fun d _ hlo => hb.le.trans hlo, ?_⟩
    rw [Block.cut_self, Set.empty_union, Set.insert_sdiff_singleton, Set.insert_eq_of_mem hs.mem]

/-- The block `malloc` takes is off its list, marked and outstanding. -/
theorem takeFirst_spec {b : Block} (hs : Splitting t h U free₀ b) :
    ∃ h' free₁, takeFirst t h b.level = (blockAddr b + 8, h') ∧ HeapInv t h' (insert b U) free₁ ∧
      freeSet free₁ = freeSet free₀ \ {b} := by
  have hlt := hs.lists.level_lt_of_free hs.mem
  have hnd : (free₀ b.level).Nodup :=
    (List.nodup_cons.mp (hs.lists.ring b.level (hs.lists.level_lt_of_free hs.mem)).nodup).2
  have hF₁ := freeSet_erase hnd
  obtain ⟨hl₁, hm₁⟩ := hs.lists.unlink hs.mem
  have hm₁ := hm₁ U le_rfl _ (Set.sdiff_subset.trans Set.subset_union_right)
    (hs.marks.mono le_rfl (Set.sdiff_subset (t := {b})))
  have hbmem : b ∈ insert b U := Set.mem_insert b U
  have hbF : b ∉ freeSet free₀ \ {b} := fun hmem => hmem.2 rfl
  have hsub : freeSet free₀ \ {b} ⊆ insert b U ∪
      freeSet (Function.update free₀ b.level ((free₀ b.level).erase (blockAddr b))) := by
    rw [hF₁]
    exact Set.subset_union_right
  have hm₂ := hm₁.markUsed hl₁.tiling ((Set.subset_insert b U).trans Set.subset_union_left) hsub
    (Or.inl hbmem) hbF
  rw [← HeapLists.decCount_mem (h.listDel (blockAddr b)) b.level] at hm₂
  have hl₂ := (hl₁.write_unlisted hbmem (inBlock_first b) b.level).write_unlisted hbmem
    (inBlock_last b) used
  refine ⟨_, _, ?_, ⟨hl₂, ?_, ?_⟩, hF₁⟩
  · simp only [takeFirst, hs.nextOf_head, HeapLists.decCount_size, HeapLists.listDel_bsystem,
      hs.lists.size b.level hlt]
    rfl
  · rw [hF₁]
    exact hm₂
  · rw [hF₁]
    exact hs.coalesced

/-- `next_power2` of a size that fits the pool. -/
theorem entryFor_spec {size : Nat} (hsize : size + 9 ≤ 2 ^ buddyMaxOrder) :
    (∃ order, nextPower2 ((size + 9) % 2 ^ 32) = .ok order ∧ order - buddyMinOrder = entryFor size) ∧
      entryFor size < buddyEntries := by
  have hmax : 2 ^ buddyMaxOrder = 4194304 := by decide
  have hwrap : (size + 9) % 2 ^ 32 = size + 9 := Nat.mod_eq_of_lt (by omega)
  have hclog : Nat.clog 2 (size + 9) ≤ buddyMaxOrder := Nat.clog_le_of_le_pow hsize
  rw [hwrap, entryFor, buddyEntries]
  refine ⟨⟨_, nextPower2_spec (by omega), ?_⟩, ?_⟩
  · omega
  · omega

/-- **`malloc`** of a size that fits the pool: it panics when every free block is too small, and
otherwise hands out a block of the entry for the size, cut out of the smallest free block that is
large enough. -/
theorem malloc_fit {size : Nat} (hi : HeapInv t h U free₀) (hsize : size + 9 ≤ 2 ^ buddyMaxOrder) :
    (malloc t h size = .error (.panic "malloc" "out of memory") ∧
        ∀ d ∈ freeSet free₀, d.level < entryFor size) ∨
      ∃ b c h' free₁, malloc t h size = .ok (blockAddr b + 8, h') ∧ b.level = entryFor size ∧
        b ∉ U ∧ HeapInv t h' (insert b U) free₁ ∧ c ∈ freeSet free₀ ∧ b ≤ c ∧
        (∀ d ∈ freeSet free₀, entryFor size ≤ d.level → c.level ≤ d.level) ∧
        freeSet free₁ = Block.cut b c ∪ freeSet free₀ \ {c} := by
  obtain ⟨⟨order, horder, hentry⟩, hlt⟩ := entryFor_spec hsize
  rw [malloc, horder, Exec.ok_bind, hentry]
  rcases provide_spec hi hlt with ⟨hpanic, hsmall⟩ | ⟨h₁, free₁, b, c, hrun, hb, hs, hc, hle, hbest, hF⟩
  · left
    rw [hpanic]
    exact ⟨rfl, hsmall⟩
  · right
    obtain ⟨h₂, free₂, htake, hinv, hF₂⟩ := takeFirst_spec hs
    have hbU : b ∉ U := Set.disjoint_right.mp hs.lists.unlisted hs.mem
    refine ⟨b, c, h₂, free₂, ?_, hb, hbU, hinv, hc, hle, hbest, ?_⟩
    · rw [hrun, Exec.ok_bind, ← hb]
      exact congrArg Except.ok htake
    · rw [hF₂, hF]
      apply Set.insert_sdiff_self_of_notMem
      rintro (hcut | ⟨hmem, hne⟩)
      · obtain ⟨x, hbx, -, -, hx⟩ := hcut
        exact Block.not_le_buddy hbx hx.ge
      · exact hne (hi.lists.tiling.eq_of_le b (Or.inr hmem) c (Or.inr hc) hle)

/-- **`malloc`** of a size that fits the pool panics or hands out a block that was not outstanding,
of the entry for the size, and keeps the invariant. -/
theorem malloc_spec {size : Nat} (hi : HeapInv t h U free₀) (hsize : size + 9 ≤ 2 ^ buddyMaxOrder) :
    malloc t h size = .error (.panic "malloc" "out of memory") ∨
      ∃ b h' free₁, malloc t h size = .ok (blockAddr b + 8, h') ∧ b.level = entryFor size ∧ b ∉ U ∧
        HeapInv t h' (insert b U) free₁ := by
  rcases malloc_fit hi hsize with ⟨hpanic, -⟩ | ⟨b, -, h', free₁, hok, hb, hbU, hinv, -⟩
  · exact Or.inl hpanic
  · exact Or.inr ⟨b, h', free₁, hok, hb, hbU, hinv⟩

end Allocating

end Rtv.Mm
