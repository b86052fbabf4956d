import Mathlib.Data.Finset.Dedup
import Mathlib.Order.Interval.Finset.Nat
import Rtv.Lib.Blocks
import Rtv.Mm.Malloc

/-!
# The pool and its lists

A block of the pool is a dyadic block of cells of `BUDDY_MIN_BLK` bytes, its level being its entry.
`HeapLists` says that the blocks on the lists and a set of further blocks tile the pool and that
the lists and counts are right; the further blocks are the outstanding ones and, in the middle of a
call, the ones it works on. `HeapMarks` is about the bytes in which blocks keep their entries.

The operations of the heap take blocks off their lists, put blocks on them, split and merge blocks
that are on no list, and write marks. Each of these keeps `HeapLists`, and the list operations keep
every mark.
-/

namespace Rtv.Mm

open Rtv.Lib Rtv.Utils

/-! ## Blocks of the pool -/

/-- The entry of the block that is the whole pool. -/
def topEntry : Nat := buddyEntries - 1

/-- The size of the blocks of an entry. -/
def blockSize (entry : Nat) : Nat := 2 ^ (entry + buddyMinOrder)

/-- The address of a block. -/
def blockAddr (b : Block) : Nat := mallocBase + b.idx * blockSize b.level

/-- The address of the last byte of a block. -/
def blockLast (b : Block) : Nat := blockAddr b + blockSize b.level - 1

/-- The end of the pool, `MALLOC_END`. -/
def mallocEnd : Nat := mallocBase + 2 ^ buddyMaxOrder

/-- The blocks on the lists, given the addresses on each list. -/
def freeSet (free : Nat → List Nat) : Set Block := {b | blockAddr b ∈ free b.level}

section Geometry

variable {b c : Block} {S : Set Block}

theorem blockSize_eq (e : Nat) : blockSize e = 32 * 2 ^ e := by
  rw [blockSize, Nat.pow_add, Nat.mul_comm]
  rfl

theorem blockAddr_eq (b : Block) : blockAddr b = mallocBase + 32 * b.first := by
  rw [blockAddr, blockSize_eq, Block.first, Nat.mul_left_comm]

theorem blockSize_ge (e : Nat) : 32 ≤ blockSize e := by
  have := Nat.two_pow_pos e
  rw [blockSize_eq]
  omega

theorem blockSize_succ (e : Nat) : blockSize (e + 1) = 2 * blockSize e := by
  rw [blockSize_eq, blockSize_eq, Nat.pow_succ]
  omega

/-- Two blocks of one entry at one address are the same. -/
theorem block_ext (hlevel : b.level = c.level) (haddr : blockAddr b = blockAddr c) : b = c := by
  refine Block.ext hlevel ?_
  rw [blockAddr, blockAddr, hlevel] at haddr
  exact Nat.eq_of_mul_eq_mul_right (Nat.two_pow_pos _) (Nat.add_left_cancel haddr)

/-- A block of the pool lies inside it. -/
theorem blockAddr_bounds (h : b ≤ Block.whole topEntry) :
    mallocBase ≤ blockAddr b ∧ blockAddr b + blockSize b.level ≤ mallocEnd := by
  refine ⟨Nat.le_add_right _ _, ?_⟩
  obtain ⟨hlevel, hidx⟩ := Block.le_whole_iff.mp h
  have hend : (b.idx + 1) * 2 ^ b.level ≤ 2 ^ topEntry := by
    have hmul := Nat.mul_le_mul_right (2 ^ b.level) (Nat.succ_le_of_lt hidx)
    rwa [← Nat.pow_add, Nat.sub_add_cancel hlevel] at hmul
  have htop : mallocEnd = mallocBase + 32 * 2 ^ topEntry := by decide
  rw [Nat.add_mul, Nat.one_mul] at hend
  rw [blockAddr_eq, blockSize_eq, htop, Block.first]
  omega

/-- A block of the pool has an entry of the table. -/
theorem level_lt (h : b ≤ Block.whole topEntry) : b.level < buddyEntries := Nat.lt_succ_of_le h.1

/-- Two blocks of a tiling have no byte in common. -/
theorem block_apart (h : Tiling topEntry S) (hb : b ∈ S) (hc : c ∈ S) (hne : b ≠ c) :
    blockAddr b + blockSize b.level ≤ blockAddr c ∨
      blockAddr c + blockSize c.level ≤ blockAddr b := by
  rw [blockAddr_eq, blockAddr_eq, blockSize_eq, blockSize_eq]
  have := h.bounds_apart hb hc hne
  omega

/-- A byte of a block. -/
def InBlock (b : Block) (i : Nat) : Prop := blockAddr b ≤ i ∧ i < blockAddr b + blockSize b.level

theorem inBlock_first (b : Block) : InBlock b (blockAddr b) := by
  have := blockSize_ge b.level
  exact ⟨le_rfl, by omega⟩

theorem inBlock_last (b : Block) : InBlock b (blockLast b) := by
  have := blockSize_ge b.level
  rw [InBlock, blockLast]
  omega

/-- A byte lies in one block of a tiling only. -/
theorem InBlock.unique {i : Nat} (hi : InBlock b i) (h : Tiling topEntry S) (hb : b ∈ S)
    (hc : c ∈ S) (hi' : InBlock c i) : b = c := by
  by_contra hne
  have hapart := block_apart h hb hc hne
  obtain ⟨hlo, hhi⟩ := hi
  obtain ⟨hlo', hhi'⟩ := hi'
  omega

/-- The header in front of the pointer that `malloc` returned. -/
theorem sub64_blockAddr (h : b ≤ Block.whole topEntry) : sub64 (blockAddr b + 8) 8 = blockAddr b := by
  have hend : mallocEnd + 8 < 2 ^ 64 := by decide
  have hbounds := blockAddr_bounds h
  have hsize := blockSize_ge b.level
  rw [sub64_of_le (Nat.le_add_left 8 _) (by omega), Nat.add_sub_cancel]

/-- The lower half of a block starts where the block does, and the upper half follows it. -/
theorem halves (h : b.idx % 2 = 0) :
    blockAddr b = blockAddr b.parent ∧ blockAddr b.buddy = blockAddr b + blockSize b.level := by
  have hmod := Block.xor_one_mod b.idx
  have hdiv := Block.xor_one_div b.idx
  have hxor : b.buddy.idx = b.idx + 1 := by
    show b.idx ^^^ 1 = b.idx + 1
    omega
  have hhalf : b.idx = 2 * (b.idx / 2) := by omega
  constructor
  · rw [blockAddr, blockAddr, Block.parent_level, blockSize_succ]
    show _ = mallocBase + b.idx / 2 * (2 * blockSize b.level)
    rw [← Nat.mul_assoc, Nat.mul_comm (b.idx / 2) 2, ← hhalf]
  · rw [blockAddr, blockAddr, Block.buddy_level, hxor, Nat.add_mul, Nat.one_mul, Nat.add_assoc]

end Geometry

/-! ## Lists -/

/-- The lists and the blocks `U` on no list tile the pool, and the table of buckets is right. -/
structure HeapLists (t : Bsystem) (h : Heap) (U : Set Block) (free : Nat → List Nat) : Prop where
  base : h.memBase = mallocBase
  size : ∀ e < buddyEntries, (h.bsystem e).size = blockSize e
  ring : ∀ e < buddyEntries, Ring (nextOf h.mem) (prevOf h.mem) (t.ptr e) (free e)
  count : ∀ e < buddyEntries, (h.bsystem e).count = (free e).length
  listed : ∀ e, ∀ a ∈ free e, ∃ b : Block, b.level = e ∧ blockAddr b = a
  tiling : Tiling topEntry (U ∪ freeSet free)
  unlisted : Disjoint U (freeSet free)

/-- The marks: an outstanding block has its entry in its first byte and `USED` in its last, a free
block has its entry in its last byte. -/
structure HeapMarks (m : Bytes) (U F : Set Block) : Prop where
  first : ∀ b ∈ U, (m (blockAddr b)).toNat = b.level
  last : ∀ b ∈ U, (m (blockLast b)).toNat = used
  free : ∀ b ∈ F, (m (blockLast b)).toNat = b.level

/-! ## Nodes -/

/-- The addresses of the list heads and of the blocks of a set. -/
def nodes (t : Bsystem) (S : Set Block) : Set Nat :=
  {a | (∃ e < buddyEntries, t.ptr e = a) ∨ ∃ b ∈ S, blockAddr b = a}

theorem ptr_bounds (t : Bsystem) {e : Nat} (h : e < buddyEntries) : t.ptr e + 24 ≤ mallocBase := by
  have hhigh := t.high
  simp only [Bsystem.ptr, buddyBucketSize] at hhigh ⊢
  omega

/-- The nodes do not overlap. -/
theorem nodes_apart (t : Bsystem) {S : Set Block} (h : Tiling topEntry S) : Nodes (nodes t S) where
  apart := by
    rintro _ (⟨e, he, rfl⟩ | ⟨b, hb, rfl⟩) _ (⟨e', he', rfl⟩ | ⟨c, hc, rfl⟩) hne
    · have hee : e ≠ e' := fun heq => hne (heq ▸ rfl)
      simp only [Bsystem.ptr, buddyBucketSize]
      omega
    · have hlow := (blockAddr_bounds (h.le_whole c hc)).1
      have hptr := ptr_bounds t he
      omega
    · have hlow := (blockAddr_bounds (h.le_whole b hb)).1
      have hptr := ptr_bounds t he'
      omega
    · have hbc : b ≠ c := fun heq => hne (heq ▸ rfl)
      have hapart := block_apart h hb hc hbc
      have hsize := blockSize_ge b.level
      have hsize' := blockSize_ge c.level
      omega
  lt := by
    have hend : mallocEnd < 2 ^ 64 := by decide
    have hbase : mallocBase < 2 ^ 64 := by decide
    rintro _ (⟨e, he, rfl⟩ | ⟨b, hb, rfl⟩)
    · have hptr := ptr_bounds t he
      omega
    · have hbounds := blockAddr_bounds (h.le_whole b hb)
      have hsize := blockSize_ge b.level
      omega

/-- Distinct blocks of a tiling have distinct addresses. -/
theorem blockAddr_ne {S : Set Block} (h : Tiling topEntry S) {b c : Block} (hb : b ∈ S) (hc : c ∈ S)
    (hne : b ≠ c) : blockAddr b ≠ blockAddr c := by
  have hapart := block_apart h hb hc hne
  have hsize := blockSize_ge b.level
  have hsize' := blockSize_ge c.level
  omega

/-- No block starts at a list head. -/
theorem ptr_ne_blockAddr (t : Bsystem) {e : Nat} (he : e < buddyEntries) (b : Block) :
    t.ptr e ≠ blockAddr b := by
  have hptr := ptr_bounds t he
  have hlow : mallocBase ≤ blockAddr b := Nat.le_add_right _ _
  omega

/-- The list heads are distinct. -/
theorem ptr_ne (t : Bsystem) {e e' : Nat} (hne : e ≠ e') : t.ptr e ≠ t.ptr e' := by
  simp only [Bsystem.ptr, buddyBucketSize]
  omega

/-- **Marks outside the nodes that change are kept.** A mark is outside every node, except that the
first byte of a block is in the node of that block. -/
theorem HeapMarks.of_sameOff {t : Bsystem} {S V F : Set Block} {m m' : Bytes} {ns : List Nat}
    (h : HeapMarks m V F) (ht : Tiling topEntry S) (hV : V ⊆ S) (hF : F ⊆ S)
    (hns : ∀ x ∈ ns, x ∈ nodes t (S \ V)) (hm : SameOff ns m m') : HeapMarks m' V F := by
  have hlast : ∀ b ∈ S, m' (blockLast b) = m (blockLast b) := by
    intro b hb
    apply hm
    intro x hx
    have hsize := blockSize_ge b.level
    have hlow := (blockAddr_bounds (ht.le_whole b hb)).1
    rw [blockLast]
    rcases hns x hx with ⟨e, he, rfl⟩ | ⟨c, ⟨hc, -⟩, rfl⟩
    · have hptr := ptr_bounds t he
      omega
    · by_cases hbc : b = c
      · subst hbc
        omega
      · have hapart := block_apart ht hb hc hbc
        have hsize' := blockSize_ge c.level
        omega
  have hfirst : ∀ b ∈ V, m' (blockAddr b) = m (blockAddr b) := by
    intro b hb
    apply hm
    intro x hx
    have hsize := blockSize_ge b.level
    have hlow := (blockAddr_bounds (ht.le_whole b (hV hb))).1
    rcases hns x hx with ⟨e, he, rfl⟩ | ⟨c, ⟨hc, hcV⟩, rfl⟩
    · have hptr := ptr_bounds t he
      omega
    · have hbc : b ≠ c := fun heq => hcV (heq ▸ hb)
      have hapart := block_apart ht (hV hb) hc hbc
      have hsize' := blockSize_ge c.level
      omega
  constructor
  · intro b hb
    rw [hfirst b hb, h.first b hb]
  · intro b hb
    rw [hlast b (hV hb), h.last b hb]
  · intro b hb
    rw [hlast b (hF hb), h.free b hb]

/-! ## Taking a block off its list and putting it on -/

section FreeSet

variable {free : Nat → List Nat} {b : Block}

theorem mem_freeSet : b ∈ freeSet free ↔ blockAddr b ∈ free b.level := Iff.rfl

/-- Putting a block on the list of its entry. -/
theorem freeSet_cons : freeSet (Function.update free b.level (blockAddr b :: free b.level)) =
    insert b (freeSet free) := by
  ext c
  rw [mem_freeSet, Set.mem_insert_iff]
  by_cases hlevel : c.level = b.level
  · rw [hlevel, Function.update_self, List.mem_cons, mem_freeSet, hlevel]
    refine or_congr_left ⟨block_ext hlevel, ?_⟩
    rintro rfl
    rfl
  · rw [Function.update_of_ne hlevel, mem_freeSet]
    refine (or_iff_right ?_).symm
    rintro rfl
    exact hlevel rfl

/-- Taking a block off the list of its entry. -/
theorem freeSet_erase (hnd : (free b.level).Nodup) :
    freeSet (Function.update free b.level ((free b.level).erase (blockAddr b))) =
      freeSet free \ {b} := by
  ext c
  rw [mem_freeSet, Set.mem_sdiff, Set.mem_singleton_iff]
  by_cases hlevel : c.level = b.level
  · rw [hlevel, Function.update_self, hnd.mem_erase_iff, mem_freeSet, hlevel, and_comm]
    refine and_congr_right fun _ => not_congr ⟨block_ext hlevel, ?_⟩
    rintro rfl
    rfl
  · rw [Function.update_of_ne hlevel, mem_freeSet]
    refine (and_iff_left ?_).symm
    rintro rfl
    exact hlevel rfl

end FreeSet

namespace HeapLists

variable {t : Bsystem} {h : Heap} {U : Set Block} {free : Nat → List Nat} {b : Block} {e : Nat}

/-- Every free block is listed under an entry of the table. -/
theorem level_lt_of_free (hl : HeapLists t h U free) (hb : b ∈ freeSet free) :
    b.level < buddyEntries :=
  level_lt (hl.tiling.le_whole b (Or.inr hb))

/-- The nodes of a list. -/
theorem nodes_of_list (hl : HeapLists t h U free) (he : e < buddyEntries) :
    ∀ x ∈ t.ptr e :: free e, x ∈ nodes t (freeSet free) := by
  intro x hx
  rcases List.mem_cons.mp hx with rfl | hmem
  · exact Or.inl ⟨e, he, rfl⟩
  · obtain ⟨c, rfl, rfl⟩ := hl.listed e x hmem
    exact Or.inr ⟨c, hmem, rfl⟩

theorem nodes_mono {S T : Set Block} (hsub : S ⊆ T) {x : Nat} (hx : x ∈ nodes t S) :
    x ∈ nodes t T := by
  rcases hx with hhead | ⟨c, hc, rfl⟩
  · exact Or.inl hhead
  · exact Or.inr ⟨c, hsub hc, rfl⟩

/-- The lists of two entries have no node in common. -/
theorem lists_apart (hl : HeapLists t h U free) {e' : Nat} (he : e < buddyEntries)
    (he' : e' < buddyEntries) (hne : e ≠ e') : ∀ x ∈ t.ptr e' :: free e', x ∉ t.ptr e :: free e := by
  intro x hx hx'
  rcases List.mem_cons.mp hx with rfl | hmem
  · rcases List.mem_cons.mp hx' with heq | hmem'
    · exact ptr_ne t hne heq.symm
    · obtain ⟨c, -, hc⟩ := hl.listed e _ hmem'
      exact ptr_ne_blockAddr t he' c hc.symm
  · obtain ⟨c, rfl, rfl⟩ := hl.listed e' x hmem
    rcases List.mem_cons.mp hx' with heq | hmem'
    · exact ptr_ne_blockAddr t he c heq.symm
    · obtain ⟨c', rfl, hc'⟩ := hl.listed e _ hmem'
      have hcc : c' ≠ c := fun heq => hne (congrArg Block.level heq)
      have hc'free : c' ∈ freeSet free := by
        rw [mem_freeSet, hc']
        exact hmem'
      exact blockAddr_ne hl.tiling (Or.inr hc'free) (Or.inr hmem) hcc hc'

/-- A list is far shorter than a count can hold. -/
theorem length_lt (hl : HeapLists t h U free) (he : e < buddyEntries) :
    (free e).length < 2 ^ 32 - 1 := by
  have hnd : (free e).Nodup := (List.nodup_cons.mp (hl.ring e he).nodup).2
  have hsub : (free e).toFinset ⊆ Finset.Ico mallocBase mallocEnd := by
    intro x hx
    obtain ⟨c, rfl, rfl⟩ := hl.listed e x (List.mem_toFinset.mp hx)
    have hbounds := blockAddr_bounds (hl.tiling.le_whole c (Or.inr (List.mem_toFinset.mp hx)))
    have hsize := blockSize_ge c.level
    rw [Finset.mem_Ico]
    omega
  have hcard := Finset.card_le_card hsub
  rw [List.toFinset_card_of_nodup hnd, Nat.card_Ico] at hcard
  exact lt_of_le_of_lt hcard (by decide)

/-- Changing one bucket's count. -/
theorem addCount_bucket (h : Heap) (e e' k : Nat) :
    (h.addCount e k).bsystem e' =
      if e' = e then ⟨((h.bsystem e).count + k) % 2 ^ 32, (h.bsystem e).size⟩ else h.bsystem e' := by
  by_cases heq : e' = e
  · rw [if_pos heq, heq]
    exact Function.update_self _ _ _
  · rw [if_neg heq]
    exact Function.update_of_ne heq _ _

/-- A list operation on the list of one entry. -/
theorem relist (hl : HeapLists t h U free) (he : e < buddyEntries) {m : Bytes} {k : Nat}
    {l ns : List Nat} {U' : Set Block}
    (hring : Ring (nextOf m) (prevOf m) (t.ptr e) l)
    (hcount : ((free e).length + k) % 2 ^ 32 = l.length)
    (hoff : SameOff ns h.mem m) (hns : ∀ x ∈ ns, x ∈ nodes t (U ∪ freeSet free))
    (hother : ∀ e' < buddyEntries, e' ≠ e → ∀ x ∈ t.ptr e' :: free e', x ∉ ns)
    (hlisted : ∀ a ∈ l, ∃ b : Block, b.level = e ∧ blockAddr b = a)
    (htiling : U' ∪ freeSet (Function.update free e l) = U ∪ freeSet free)
    (hunlisted : Disjoint U' (freeSet (Function.update free e l))) :
    HeapLists t ({ h with mem := m }.addCount e k) U' (Function.update free e l) where
  base := hl.base
  size e' he' := by
    rw [addCount_bucket]
    split_ifs with heq
    · exact heq ▸ hl.size e' he'
    · exact hl.size e' he'
  ring e' he' := by
    by_cases heq : e' = e
    · rw [heq, Function.update_self]
      exact hring
    · rw [Function.update_of_ne heq]
      have hS := nodes_apart t hl.tiling
      have hkeep : ∀ y ∈ t.ptr e' :: free e', nextOf m y = nextOf h.mem y ∧
          prevOf m y = prevOf h.mem y := by
        intro y hy
        have hyS : y ∈ nodes t (U ∪ freeSet free) :=
        nodes_mono Set.subset_union_right (hl.nodes_of_list he' y hy)
        exact hS.links_of_sameOff hns hyS (hother e' he' heq y hy) hoff
      exact (hl.ring e' he').congr (fun y hy => (hkeep y hy).1) fun y hy => (hkeep y hy).2
  count e' he' := by
    rw [addCount_bucket]
    split_ifs with heq
    · rw [heq, Function.update_self, ← hcount, ← hl.count e he]
    · rw [Function.update_of_ne heq]
      exact hl.count e' he'
  listed e' a ha := by
    by_cases heq : e' = e
    · rw [heq, Function.update_self] at ha
      exact heq ▸ hlisted a ha
    · rw [Function.update_of_ne heq] at ha
      exact hl.listed e' a ha
  tiling := htiling ▸ hl.tiling
  unlisted := hunlisted

/-- Changing a count keeps the sizes. -/
@[simp] theorem addCount_size (h : Heap) (e e' k : Nat) :
    ((h.addCount e k).bsystem e').size = (h.bsystem e').size := by
  rw [addCount_bucket]
  split_ifs with heq
  · rw [heq]
  · rfl

@[simp] theorem addCount_mem (h : Heap) (e k : Nat) : (h.addCount e k).mem = h.mem := by
  rw [Heap.addCount]

@[simp] theorem decCount_mem (h : Heap) (e : Nat) : (h.decCount e).mem = h.mem := by
  rw [Heap.decCount, addCount_mem]

@[simp] theorem decCount_size (h : Heap) (e e' : Nat) :
    ((h.decCount e).bsystem e').size = (h.bsystem e').size := by
  rw [Heap.decCount, addCount_size]

@[simp] theorem listDel_bsystem (h : Heap) (node : Nat) :
    (h.listDel node).bsystem = h.bsystem := by
  rw [Heap.listDel]

/-- **Putting a block on its list.** -/
theorem link (hl : HeapLists t h U free) (hb : b ∈ U) :
    HeapLists t ((h.listAdd (blockAddr b) (t.ptr b.level)).addCount b.level 1) (U \ {b})
        (Function.update free b.level (blockAddr b :: free b.level)) ∧
      ∀ V ⊆ U \ {b}, ∀ F ⊆ U ∪ freeSet free, HeapMarks h.mem V F →
        HeapMarks (h.listAdd (blockAddr b) (t.ptr b.level)).mem V F := by
  have he : b.level < buddyEntries := level_lt (hl.tiling.le_whole b (Or.inl hb))
  have hbfree : b ∉ freeSet free := Set.disjoint_left.mp hl.unlisted hb
  have hnot : blockAddr b ∉ t.ptr b.level :: free b.level := by
    intro hmem
    rcases List.mem_cons.mp hmem with heq | hin
    · exact ptr_ne_blockAddr t he b heq.symm
    · exact hbfree hin
  have hS := nodes_apart t hl.tiling
  have hlist := hl.nodes_of_list he
  have hsub : ∀ x ∈ t.ptr b.level :: free b.level, x ∈ nodes t (U ∪ freeSet free) :=
    fun x hx => nodes_mono Set.subset_union_right (hlist x hx)
  have hnew : blockAddr b ∈ nodes t (U ∪ freeSet free) := Or.inr ⟨b, Or.inl hb, rfl⟩
  obtain ⟨hring, hoff⟩ := listAdd_spec hS hsub hnew hnot (hl.ring b.level he)
  constructor
  · apply hl.relist he hring
    · have hlt := hl.length_lt he
      rw [List.length_cons]
      exact Nat.mod_eq_of_lt (by omega)
    · exact hoff
    · intro x hx
      rcases List.mem_cons.mp hx with rfl | hx'
      · exact hnew
      · exact hsub x hx'
    · intro e' he' hne x hx hmem
      rcases List.mem_cons.mp hmem with rfl | hmem'
      · rcases hl.nodes_of_list he' _ hx with ⟨i, hi, hptr⟩ | ⟨c, hc, hcb⟩
        · exact ptr_ne_blockAddr t hi b hptr
        · have hne' : c ≠ b := fun heq => hbfree (heq ▸ hc)
          exact blockAddr_ne hl.tiling (Or.inr hc) (Or.inl hb) hne' hcb
      · exact hl.lists_apart he he' (Ne.symm hne) x hx hmem'
    · intro a ha
      rcases List.mem_cons.mp ha with rfl | ha'
      · exact ⟨b, rfl, rfl⟩
      · exact hl.listed b.level a ha'
    · rw [freeSet_cons, Set.union_insert, ← Set.insert_union, Set.insert_sdiff_singleton,
        Set.insert_eq_of_mem hb]
    · rw [freeSet_cons, Set.disjoint_insert_right]
      exact ⟨fun hmem => hmem.2 rfl, hl.unlisted.mono_left Set.sdiff_subset⟩
  · intro V hV F hF hmarks
    refine hmarks.of_sameOff (t := t) hl.tiling (fun c hc => Or.inl (hV hc).1) hF ?_ hoff
    have hfreeV : freeSet free ⊆ (U ∪ freeSet free) \ V := by
      intro c hc
      exact ⟨Or.inr hc, fun hcV => Set.disjoint_left.mp hl.unlisted (hV hcV).1 hc⟩
    intro x hx
    rcases List.mem_cons.mp hx with rfl | hx'
    · exact Or.inr ⟨b, ⟨Or.inl hb, fun hbV => (hV hbV).2 rfl⟩, rfl⟩
    · exact nodes_mono hfreeV (hlist x hx')

/-- Putting the one block on its list that is not outstanding. -/
theorem link_one (hl : HeapLists t h (insert b U) free) (hbU : b ∉ U) {V F : Set Block}
    (hV : V ⊆ U) (hF : F ⊆ insert b U ∪ freeSet free) (hm : HeapMarks h.mem V F) :
    HeapLists t ((h.listAdd (blockAddr b) (t.ptr b.level)).addCount b.level 1) U
        (Function.update free b.level (blockAddr b :: free b.level)) ∧
      HeapMarks ((h.listAdd (blockAddr b) (t.ptr b.level)).addCount b.level 1).mem V F := by
  have hU : insert b U \ {b} = U := Set.insert_sdiff_self_of_notMem hbU
  obtain ⟨hl', hm'⟩ := hl.link (Set.mem_insert b U)
  rw [hU] at hl' hm'
  refine ⟨hl', ?_⟩
  rw [addCount_mem]
  exact hm' V hV F hF hm

/-- **Taking a block off its list.** -/
theorem unlink (hl : HeapLists t h U free) (hb : b ∈ freeSet free) :
    HeapLists t ((h.listDel (blockAddr b)).decCount b.level) (insert b U)
        (Function.update free b.level ((free b.level).erase (blockAddr b))) ∧
      ∀ V ⊆ U, ∀ F ⊆ U ∪ freeSet free, HeapMarks h.mem V F →
        HeapMarks (h.listDel (blockAddr b)).mem V F := by
  have he : b.level < buddyEntries := hl.level_lt_of_free hb
  have hnd : (free b.level).Nodup := (List.nodup_cons.mp (hl.ring b.level he).nodup).2
  have hbU : b ∉ U := Set.disjoint_right.mp hl.unlisted hb
  obtain ⟨xs, ys, hxs, hsplit, herase⟩ := List.exists_erase_eq (mem_freeSet.mp hb)
  have hS := nodes_apart t hl.tiling
  have hlist := hl.nodes_of_list he
  have hring₀ := hl.ring b.level he
  rw [hsplit] at hlist hring₀
  have hsub : ∀ x ∈ t.ptr b.level :: (xs ++ blockAddr b :: ys), x ∈ nodes t (U ∪ freeSet free) :=
    fun x hx => nodes_mono Set.subset_union_right (hlist x hx)
  obtain ⟨hring, hoff⟩ := listDel_spec hS hsub hring₀
  rw [← herase] at hring
  constructor
  · apply hl.relist he hring
    · have hlt := hl.length_lt he
      have hpos : 0 < (free b.level).length := List.length_pos_of_mem hb
      rw [List.length_erase_of_mem hb]
      omega
    · exact hoff
    · exact hsub
    · intro e' he' hne x hx hmem
      rw [← hsplit] at hmem
      exact hl.lists_apart he he' (Ne.symm hne) x hx hmem
    · intro a ha
      exact hl.listed b.level a (List.mem_of_mem_erase ha)
    · rw [freeSet_erase hnd, Set.insert_union, ← Set.union_insert, Set.insert_sdiff_singleton,
        Set.insert_eq_of_mem hb]
    · rw [freeSet_erase hnd, Set.disjoint_insert_left]
      exact ⟨fun hmem => hmem.2 rfl, hl.unlisted.mono_right Set.sdiff_subset⟩
  · intro V hV F hF hmarks
    refine hmarks.of_sameOff (t := t) hl.tiling (fun c hc => Or.inl (hV hc)) hF ?_ hoff
    have hfreeV : freeSet free ⊆ (U ∪ freeSet free) \ V := by
      intro c hc
      exact ⟨Or.inr hc, fun hcV => Set.disjoint_left.mp hl.unlisted (hV hcV) hc⟩
    exact fun x hx => nodes_mono hfreeV (hlist x hx)

/-- The lists are in the nodes: what happens to other bytes does not matter. -/
theorem remem (hl : HeapLists t h U free) {m : Bytes}
    (hm : ∀ x ∈ nodes t (freeSet free), ∀ i, x ≤ i → i < x + 16 → m i = h.mem i) :
    HeapLists t { h with mem := m } U free where
  base := hl.base
  size := hl.size
  ring e he := by
    have hnext : ∀ y ∈ t.ptr e :: free e, nextOf m y = nextOf h.mem y := by
      intro y hy
      apply Bytes.loadLE_congr
      intro i hlo hhi
      exact hm y (hl.nodes_of_list he y hy) i hlo (by omega)
    have hprev : ∀ y ∈ t.ptr e :: free e, prevOf m y = prevOf h.mem y := by
      intro y hy
      apply Bytes.loadLE_congr
      intro i hlo hhi
      exact hm y (hl.nodes_of_list he y hy) i (by omega) (by omega)
    exact (hl.ring e he).congr hnext hprev
  count := hl.count
  listed := hl.listed
  tiling := hl.tiling
  unlisted := hl.unlisted

/-- Bytes of the blocks on no list do not matter to the lists. -/
theorem remem_unlisted (hl : HeapLists t h U free) {m : Bytes}
    (hm : ∀ i, m i ≠ h.mem i → ∃ b ∈ U, InBlock b i) : HeapLists t { h with mem := m } U free := by
  apply hl.remem
  intro x hx i hlo hhi
  by_contra hne
  obtain ⟨b, hb, hin⟩ := hm i hne
  rcases hx with ⟨e, he, rfl⟩ | ⟨c, hc, rfl⟩
  · have hptr := ptr_bounds t he
    have hlow := (blockAddr_bounds (hl.tiling.le_whole b (Or.inl hb))).1
    exact absurd hin.1 (by omega)
  · have hsize := blockSize_ge c.level
    have hbc : b = c := hin.unique hl.tiling (Or.inl hb) (Or.inr hc) ⟨hlo, by omega⟩
    exact Set.disjoint_left.mp hl.unlisted hb (hbc ▸ hc)

/-- Writing a byte of a block on no list. -/
theorem write_unlisted (hl : HeapLists t h U free) (hb : b ∈ U) {i : Nat} (hi : InBlock b i)
    (v : Nat) : HeapLists t (h.write i v) U free := by
  apply hl.remem_unlisted
  intro j hne
  refine ⟨b, hb, ?_⟩
  by_contra hout
  apply hne
  apply Bytes.setByte_ne
  rintro rfl
  exact hout hi

/-- Writing the last byte of a block on a list: it is not in the block's node. -/
theorem writeLast_free (hl : HeapLists t h U free) (hb : b ∈ freeSet free) (v : Nat) :
    HeapLists t (h.write (blockLast b) v) U free := by
  apply hl.remem
  intro x hx i hlo hhi
  apply Bytes.setByte_ne
  rintro rfl
  have hin := inBlock_last b
  rcases hx with ⟨e, he, rfl⟩ | ⟨c, hc, rfl⟩
  · have hptr := ptr_bounds t he
    have hlow := (blockAddr_bounds (hl.tiling.le_whole b (Or.inr hb))).1
    have := hin.1
    omega
  · have hsize := blockSize_ge c.level
    have hbc : b = c := hin.unique hl.tiling (Or.inr hb) (Or.inr hc) ⟨hlo, by omega⟩
    subst hbc
    rw [blockLast] at hhi
    omega

/-- Two buddies on no list may count as one block. -/
theorem merge (hl : HeapLists t h U free) (hb : b ∈ U) (hb' : b.buddy ∈ U)
    (hlevel : b.level < topEntry) :
    HeapLists t h (insert b.parent (U \ {b, b.buddy})) free where
  base := hl.base
  size := hl.size
  ring := hl.ring
  count := hl.count
  listed := hl.listed
  tiling := by
    have htiling := hl.tiling.merge (Or.inl hb) (Or.inl hb') hlevel
    have hfree : freeSet free \ {b, b.buddy} = freeSet free := by
      apply sdiff_eq_left.mpr
      rw [Set.disjoint_right]
      rintro c (rfl | rfl) hc
      · exact Set.disjoint_left.mp hl.unlisted hb hc
      · exact Set.disjoint_left.mp hl.unlisted hb' hc
    rwa [Set.union_sdiff_distrib, hfree, ← Set.insert_union] at htiling
  unlisted := by
    rw [Set.disjoint_insert_left]
    refine ⟨fun hp => ?_, hl.unlisted.mono_left Set.sdiff_subset⟩
    exact hl.tiling.not_mem_of_le_half (Or.inr hp) (Or.inl le_rfl) (Or.inl hb)

/-- A block on no list may count as its two halves. -/
theorem split (hl : HeapLists t h U free) (hp : b.parent ∈ U) :
    HeapLists t h (insert b (insert b.buddy (U \ {b.parent}))) free where
  base := hl.base
  size := hl.size
  ring := hl.ring
  count := hl.count
  listed := hl.listed
  tiling := by
    have htiling := hl.tiling.split (Or.inl hp)
    have hfree : freeSet free \ {b.parent} = freeSet free := by
      apply Set.sdiff_singleton_eq_self
      exact Set.disjoint_left.mp hl.unlisted hp
    rwa [Set.union_sdiff_distrib, hfree, ← Set.insert_union, ← Set.insert_union] at htiling
  unlisted := by
    rw [Set.disjoint_insert_left, Set.disjoint_insert_left]
    refine ⟨fun hc => ?_, fun hc => ?_, hl.unlisted.mono_left Set.sdiff_subset⟩
    · exact hl.tiling.not_mem_of_le_half (Or.inl hp) (Or.inl le_rfl) (Or.inr hc)
    · exact hl.tiling.not_mem_of_le_half (Or.inl hp) (Or.inr le_rfl) (Or.inr hc)

end HeapLists

/-! ## Writing marks -/

namespace HeapMarks

variable {m m' : Bytes} {V V' F F' S : Set Block} {b : Block}

theorem mono (h : HeapMarks m V F) (hV : V' ⊆ V) (hF : F' ⊆ F) : HeapMarks m V' F' where
  first c hc := h.first c (hV hc)
  last c hc := h.last c (hV hc)
  free c hc := h.free c (hF hc)

/-- A byte of one block is no mark of another. -/
theorem remem (h : HeapMarks m V F) (ht : Tiling topEntry S) (hV : V ⊆ S) (hF : F ⊆ S) (hb : b ∈ S)
    (hm : ∀ i, m' i ≠ m i → InBlock b i) : HeapMarks m' (V \ {b}) (F \ {b}) := by
  have hkeep : ∀ c ∈ S, c ≠ b → ∀ i, InBlock c i → m' i = m i := by
    intro c hc hne i hin
    by_contra hdiff
    exact hne (hin.unique ht hc hb (hm i hdiff))
  constructor
  · rintro c ⟨hc, hne⟩
    rw [hkeep c (hV hc) hne _ (inBlock_first c), h.first c hc]
  · rintro c ⟨hc, hne⟩
    rw [hkeep c (hV hc) hne _ (inBlock_last c), h.last c hc]
  · rintro c ⟨hc, hne⟩
    rw [hkeep c (hF hc) hne _ (inBlock_last c), h.free c hc]

/-- Marking a block free. -/
theorem markFree (h : HeapMarks m V F) (ht : Tiling topEntry S) (hV : V ⊆ S) (hF : F ⊆ S)
    (hb : b ∈ S) (hbV : b ∉ V) :
    HeapMarks (m.setByte (blockLast b) (UInt8.ofNat b.level)) V (insert b F) := by
  have hrest : HeapMarks (m.setByte (blockLast b) (UInt8.ofNat b.level)) (V \ {b}) (F \ {b}) :=
      h.remem ht hV hF hb (by
    intro i hne
    by_contra hout
    apply hne
    apply Bytes.setByte_ne
    rintro rfl
    exact hout (inBlock_last b))
  rw [Set.sdiff_singleton_eq_self hbV] at hrest
  refine ⟨hrest.first, hrest.last, ?_⟩
  have hlevel : b.level < 2 ^ 8 := lt_trans (level_lt (ht.le_whole b hb)) (by decide)
  intro c hc
  by_cases heq : c = b
  · rw [heq, Bytes.setByte_self]
    exact UInt8.toNat_ofNat_of_lt' hlevel
  · exact hrest.free c ⟨hc.resolve_left heq, heq⟩

/-- Marking a block outstanding. -/
theorem markUsed (h : HeapMarks m V F) (ht : Tiling topEntry S) (hV : V ⊆ S) (hF : F ⊆ S)
    (hb : b ∈ S) (hbF : b ∉ F) :
    HeapMarks ((m.setByte (blockAddr b) (UInt8.ofNat b.level)).setByte (blockLast b)
      (UInt8.ofNat used)) (insert b V) F := by
  have hne : blockAddr b ≠ blockLast b := by
    have hsize := blockSize_ge b.level
    rw [blockLast]
    omega
  set m' := (m.setByte (blockAddr b) (UInt8.ofNat b.level)).setByte (blockLast b)
    (UInt8.ofNat used) with hm'
  have hrest : HeapMarks m' (V \ {b}) (F \ {b}) := by
    apply h.remem ht hV hF hb
    intro i hdiff
    by_contra hout
    apply hdiff
    rw [hm', Bytes.setByte_ne, Bytes.setByte_ne]
    · rintro rfl
      exact hout (inBlock_first b)
    · rintro rfl
      exact hout (inBlock_last b)
  rw [Set.sdiff_singleton_eq_self hbF] at hrest
  have hlevel : b.level < 2 ^ 8 := lt_trans (level_lt (ht.le_whole b hb)) (by decide)
  refine ⟨?_, ?_, hrest.free⟩
  · intro c hc
    by_cases heq : c = b
    · rw [heq, hm', Bytes.setByte_ne _ _ hne, Bytes.setByte_self]
      exact UInt8.toNat_ofNat_of_lt' hlevel
    · exact hrest.first c ⟨hc.resolve_left heq, heq⟩
  · intro c hc
    by_cases heq : c = b
    · rw [heq, hm', Bytes.setByte_self]
      rfl
    · exact hrest.last c ⟨hc.resolve_left heq, heq⟩

end HeapMarks

end Rtv.Mm
