import Rtv.Lib.Runs
import Rtv.Mm.MallocSpec

/-!
# Runs of the heap

Runs of `malloc` and `free` from the state `malloc_init` leaves, with the list of outstanding
allocations a reader keeps beside them. Between calls the user may write to the bytes he asked for
and to no others. `free` is called with a pointer of that list; a call that panics ends the run.

`heap_partitioned` says what the pool looks like at every point of every run, and that no call of
`free` fails. `heap_coalesced` says that no two buddies are free, so the outstanding blocks
determine the free ones, and freeing everything, in any order, brings the whole pool back.
-/

namespace Rtv.Mm

open Rtv.Lib Rtv.Utils

/-! ## Calls -/

/-- An outstanding allocation: the pointer `malloc` returned and the size it was asked for. -/
structure Allocation where
  ptr : Nat
  size : Nat
deriving DecidableEq, Repr

/-- The block of an allocation: eight bytes before the pointer, of the entry for the size. -/
def Allocation.block (a : Allocation) : Block :=
  ⟨entryFor a.size, (a.ptr - 8 - mallocBase) / blockSize (entryFor a.size)⟩

/-- The heap and the outstanding allocations. -/
structure HeapWorld where
  heap : Heap
  out : List Allocation

/-- The outstanding blocks. -/
def HeapWorld.outstanding (w : HeapWorld) : Set Block := {b | ∃ a ∈ w.out, a.block = b}

/-- A label of a run. -/
inductive HeapCall where
  | malloc (size : Nat)
  | free (a : Allocation)
  | write
deriving DecidableEq, Repr

/-- One call, or writes of the user to bytes of his allocations. -/
inductive HeapStep (t : Bsystem) : HeapWorld → HeapCall → HeapWorld → Prop
  | malloc {w : HeapWorld} {size ptr : Nat} {h : Heap} :
      size + 9 ≤ 2 ^ buddyMaxOrder → malloc t w.heap size = .ok (ptr, h) →
      HeapStep t w (.malloc size) ⟨h, ⟨ptr, size⟩ :: w.out⟩
  | free {w : HeapWorld} {a : Allocation} {report : Option DoubleFree} {h : Heap} :
      a ∈ w.out → free t w.heap a.ptr = .ok (report, h) →
      HeapStep t w (.free a) ⟨h, w.out.erase a⟩
  | write {w : HeapWorld} {m : Bytes} :
      (∀ i, m i ≠ w.heap.mem i → ∃ a ∈ w.out, a.ptr ≤ i ∧ i < a.ptr + a.size) →
      HeapStep t w .write ⟨{ w.heap with mem := m }, w.out⟩

/-- The free blocks, read off the lists. -/
def freeBlocks (t : Bsystem) (h : Heap) : Set Block :=
  {b | b.level < buddyEntries ∧
    ∃ ns, Ring (nextOf h.mem) (prevOf h.mem) (t.ptr b.level) ns ∧ blockAddr b ∈ ns}

/-- The free blocks are the listed ones. -/
theorem HeapLists.freeBlocks_eq {t : Bsystem} {h : Heap} {U : Set Block} {free : Nat → List Nat}
    (hl : HeapLists t h U free) : freeBlocks t h = freeSet free := by
  ext b
  constructor
  · rintro ⟨hlt, ns, hring, hmem⟩
    rw [mem_freeSet, ← hring.unique (hl.ring b.level hlt)]
    exact hmem
  · intro hb
    have hlt := hl.level_lt_of_free hb
    exact ⟨hlt, free b.level, hl.ring b.level hlt, hb⟩

/-! ## Start -/

section Start

variable {t : Bsystem}

/-- The bucket loop of `malloc_init` makes empty lists and sets the sizes, and changes no byte
outside the list heads. -/
theorem initBuckets_spec : ∀ {n i : Nat} {h : Heap}, i + n ≤ buddyEntries →
    (∀ e, i ≤ e → e < i + n →
      Ring (nextOf (initBuckets t n i h).mem) (prevOf (initBuckets t n i h).mem) (t.ptr e) [] ∧
        (initBuckets t n i h).bsystem e = ⟨0, blockSize e⟩) ∧
      (∀ a, (∀ e, i ≤ e → e < i + n → a < t.ptr e ∨ t.ptr e + 16 ≤ a) →
        (initBuckets t n i h).mem a = h.mem a) ∧
      ∀ e < i, (initBuckets t n i h).bsystem e = h.bsystem e := by
  intro n
  induction n with
  | zero =>
    intro i h hin
    exact ⟨fun e hlo hhi => absurd hhi (by omega), fun _ _ => rfl, fun _ _ => rfl⟩
  | succ n ih =>
    intro i h hin
    have hi : i < buddyEntries := by omega
    have hptr : t.ptr i < 2 ^ 64 := by
      have hbound := ptr_bounds t hi
      have hbase : mallocBase < 2 ^ 64 := by decide
      omega
    obtain ⟨hring, hoff⟩ := initListHead_spec (m := h.mem) hptr
    rw [initBuckets]
    set h₁ : Heap := { h with
      mem := initListHead h.mem (t.ptr i)
      bsystem := Function.update h.bsystem i ⟨0, 1 <<< (i + buddyMinOrder)⟩ } with hh₁
    have hbucket : h₁.bsystem = Function.update h.bsystem i ⟨0, blockSize i⟩ := by
      rw [hh₁, blockSize, ← Nat.one_shiftLeft]
    obtain ⟨hlists, hframe, hbelow⟩ := ih (i := i + 1) (h := h₁) (by omega)
    refine ⟨fun e hlo hhi => ?_, fun a ha => ?_, fun e he => ?_⟩
    · by_cases heq : e = i
      · subst heq
        have hsame : ∀ a, t.ptr e ≤ a → a < t.ptr e + 16 →
            (initBuckets t n (e + 1) h₁).mem a = h₁.mem a := by
          intro a hlo' hhi'
          apply hframe
          intro e' hlo'' hhi''
          left
          simp only [Bsystem.ptr, buddyBucketSize] at hlo' hhi' ⊢
          omega
        refine ⟨hring.congr ?_ ?_, ?_⟩
        · intro y hy
          rw [List.mem_singleton.mp hy]
          apply Bytes.loadLE_congr
          intro a hlo' hhi'
          exact hsame a hlo' (by omega)
        · intro y hy
          rw [List.mem_singleton.mp hy]
          apply Bytes.loadLE_congr
          intro a hlo' hhi'
          exact hsame a (by omega) (by omega)
        · rw [hbelow e (Nat.lt_succ_self e), hbucket, Function.update_self]
      · exact hlists e (by omega) (by omega)
    · rw [hframe a fun e hlo hhi => ha e (by omega) (by omega)]
      apply hoff
      intro x hx
      rw [List.mem_singleton.mp hx]
      exact ha i le_rfl (by omega)
    · rw [hbelow e (Nat.lt_succ_of_lt he), hbucket, Function.update_of_ne (Nat.ne_of_lt he)]

theorem blockAddr_whole : blockAddr (Block.whole topEntry) = mallocBase := by
  rw [blockAddr, Block.whole, Nat.zero_mul, Nat.add_zero]

/-- After the bucket loop nothing is free, and the pool is one block on no list. -/
theorem initBuckets_lists (t : Bsystem) (h : Heap) :
    HeapLists t { initBuckets t buddyEntries 0 h with memBase := mallocBase }
      {Block.whole topEntry} fun _ => [] := by
  obtain ⟨hlists, -, -⟩ := initBuckets_spec (t := t) (h := h) (Nat.le_of_eq (Nat.zero_add buddyEntries))
  have hnone : freeSet (fun _ => []) = ∅ :=
    Set.eq_empty_of_forall_notMem fun _ => List.not_mem_nil
  constructor
  · rfl
  · intro e he
    exact congrArg Bucket.size (hlists e (Nat.zero_le e) (by omega)).2
  · intro e he
    exact (hlists e (Nat.zero_le e) (by omega)).1
  · intro e he
    exact congrArg Bucket.count (hlists e (Nat.zero_le e) (by omega)).2
  · intro e a ha
    exact absurd ha List.not_mem_nil
  · rw [hnone, Set.union_empty]
    exact Tiling.whole topEntry
  · rw [hnone]
    exact Set.disjoint_empty _

/-- The initial block is put on its list and marked. -/
theorem initialBlock_spec {h : Heap}
    (hl : HeapLists t { h with memBase := mallocBase } {Block.whole topEntry} fun _ => []) :
    ∃ free, HeapInv t (initialBlock t h) ∅ free := by
  set h₁ : Heap := { h with memBase := mallocBase } with hh₁
  have hwhole : Block.whole topEntry ∉ (∅ : Set Block) := Set.notMem_empty _
  have hmem : Block.whole topEntry ∈ insert (Block.whole topEntry) (∅ : Set Block) :=
    Set.mem_insert _ _
  have hl₁ : HeapLists t h₁ (insert (Block.whole topEntry) ∅) fun _ => [] := by
    rwa [insert_empty_eq]
  have hmarks : HeapMarks h₁.mem ∅ ∅ := ⟨nofun, nofun, nofun⟩
  obtain ⟨hl₂, hm₂⟩ := hl₁.link_one hwhole le_rfl (Set.empty_subset _) hmarks
  have hF := @freeSet_cons (fun _ => []) (Block.whole topEntry)
  have hnone : freeSet (fun _ => []) = ∅ :=
    Set.eq_empty_of_forall_notMem fun _ => List.not_mem_nil
  rw [hnone, insert_empty_eq] at hF
  have hfree : Block.whole topEntry ∈ freeSet (Function.update (fun _ => [])
      (Block.whole topEntry).level [blockAddr (Block.whole topEntry)]) := by
    rw [hF]
    rfl
  have hl₃ := hl₂.writeLast_free hfree topEntry
  have hm₃ := hm₂.markFree hl₂.tiling (Set.empty_subset _) (Set.empty_subset _) (Or.inr hfree) hwhole
  have hsame : initialBlock t h = ((h₁.listAdd (blockAddr (Block.whole topEntry))
      (t.ptr topEntry)).addCount topEntry 1).write (blockLast (Block.whole topEntry)) topEntry := by
    have htop : topEntry < buddyEntries := Nat.lt_succ_self topEntry
    have hcount : ((h₁.bsystem topEntry).count + 1) % 2 ^ 32 = 1 := by
      rw [hl.count topEntry htop]
      rfl
    have hsize : (h₁.bsystem topEntry).size = blockSize topEntry := hl.size topEntry htop
    have hlast : mallocBase + blockSize topEntry - 1 = blockLast (Block.whole topEntry) := by
      rw [blockLast, blockAddr_whole]
      rfl
    simp only [initialBlock, Heap.addCount, Heap.listAdd, Heap.write, blockAddr_whole, hcount,
      ← hlast, ← hsize]
    rfl
  rw [hsame]
  refine ⟨_, hl₃, ?_, ?_⟩
  · rw [hF]
    rw [insert_empty_eq] at hm₃
    exact hm₃
  · rw [hF]
    rintro d rfl hlevel
    exact absurd hlevel (lt_irrefl topEntry)

/-- **The state `malloc_init` leaves**: the whole pool is one free block. -/
theorem mallocInit_spec {h h' : Heap} {s s' : Physical} {mappings : List PoolMapping}
    (hinit : mallocInit t h s = .ok (h', s', mappings)) : ∃ free, HeapInv t h' ∅ free := by
  have hsize : ¬1 <<< buddyMinOrder < buddyListSize + 1 := by decide
  rw [mallocInit, if_neg hsize] at hinit
  obtain ⟨⟨s₁, maps⟩, -, hret⟩ := Exec.bind_eq_ok.mp hinit
  cases hret
  exact initialBlock_spec (initBuckets_lists t h)

end Start

/-! ## What one step preserves -/

/-- The heap is right for the outstanding allocations. -/
structure HeapWorld.Inv (t : Bsystem) (w : HeapWorld) (free : Nat → List Nat) : Prop where
  heap : HeapInv t w.heap w.outstanding free
  ptr : ∀ a ∈ w.out, a.ptr = blockAddr a.block + 8
  distinct : (w.out.map Allocation.block).Nodup

section Steps

variable {t : Bsystem} {w w' : HeapWorld} {free₀ : Nat → List Nat} {c : HeapCall}

/-- The block of a new allocation is the one `malloc` took. -/
theorem block_of_ptr {b : Block} {size : Nat} (h : b.level = entryFor size) :
    Allocation.block ⟨blockAddr b + 8, size⟩ = b := by
  refine Block.ext h.symm ?_
  show (blockAddr b + 8 - 8 - mallocBase) / blockSize (entryFor size) = b.idx
  rw [Nat.add_sub_cancel, blockAddr, Nat.add_sub_cancel_left, ← h]
  exact Nat.mul_div_cancel _ (Nat.two_pow_pos _)

/-- The user's bytes of an allocation lie strictly between the first eight bytes of its block and
the last one. -/
theorem HeapWorld.Inv.room (hi : w.Inv t free₀) {a : Allocation} (ha : a ∈ w.out) :
    blockAddr a.block + 8 = a.ptr ∧ a.ptr + a.size ≤ blockLast a.block := by
  have hsize : a.size + 9 ≤ blockSize a.block.level := size_le_blockSize a.size
  have hptr := hi.ptr a ha
  rw [blockLast]
  omega

/-- What the user writes changes neither the lists nor the marks. -/
theorem write_spec (hi : w.Inv t free₀) {m : Bytes}
    (hm : ∀ i, m i ≠ w.heap.mem i → ∃ a ∈ w.out, a.ptr ≤ i ∧ i < a.ptr + a.size) :
    HeapInv t { w.heap with mem := m } w.outstanding free₀ := by
  have htiling := hi.heap.lists.tiling
  have hinside : ∀ i, m i ≠ w.heap.mem i → ∃ b ∈ w.outstanding, InBlock b i ∧ i ≠ blockAddr b ∧
      i ≠ blockLast b := by
    intro i hne
    obtain ⟨a, ha, hlo, hhi⟩ := hm i hne
    obtain ⟨hptr, hroom⟩ := hi.room ha
    have hsize := blockSize_ge a.block.level
    refine ⟨a.block, ⟨a, ha, rfl⟩, ?_⟩
    rw [blockLast] at hroom ⊢
    rw [InBlock]
    omega
  have hkeep : ∀ b ∈ w.outstanding ∪ freeSet free₀, m (blockAddr b) = w.heap.mem (blockAddr b) ∧
      m (blockLast b) = w.heap.mem (blockLast b) := by
    intro b hb
    constructor
    · by_contra hne
      obtain ⟨d, hd, hin, hfirst, -⟩ := hinside _ hne
      apply hfirst
      rw [hin.unique htiling (Or.inl hd) hb (inBlock_first b)]
    · by_contra hne
      obtain ⟨d, hd, hin, -, hlast⟩ := hinside _ hne
      apply hlast
      rw [hin.unique htiling (Or.inl hd) hb (inBlock_last b)]
  refine ⟨?_, ⟨?_, ?_, ?_⟩, hi.heap.coalesced⟩
  · apply hi.heap.lists.remem_unlisted
    intro i hne
    obtain ⟨b, hb, hin, -, -⟩ := hinside i hne
    exact ⟨b, hb, hin⟩
  · intro b hb
    rw [(hkeep b (Or.inl hb)).1, hi.heap.marks.first b hb]
  · intro b hb
    rw [(hkeep b (Or.inl hb)).2, hi.heap.marks.last b hb]
  · intro b hb
    rw [(hkeep b (Or.inr hb)).2, hi.heap.marks.free b hb]

/-- Giving an allocation back takes its block from the outstanding ones. -/
theorem outstanding_erase {h : Heap} (hnd : (w.out.map Allocation.block).Nodup) {a : Allocation}
    (ha : a ∈ w.out) :
    HeapWorld.outstanding ⟨h, w.out.erase a⟩ = w.outstanding \ {a.block} := by
  have hout : w.out.Nodup := List.Nodup.of_map _ hnd
  ext b
  constructor
  · rintro ⟨x, hx, rfl⟩
    obtain ⟨hne, hmem⟩ := hout.mem_erase_iff.mp hx
    refine ⟨⟨x, hmem, rfl⟩, fun heq => hne ?_⟩
    exact List.inj_on_of_nodup_map hnd hmem ha heq
  · rintro ⟨⟨x, hx, rfl⟩, hne⟩
    refine ⟨x, hout.mem_erase_iff.mpr ⟨?_, hx⟩, rfl⟩
    rintro rfl
    exact hne rfl

/-- Every valid `free` succeeds without a message. -/
theorem HeapWorld.Inv.free_ok (hi : w.Inv t free₀) {a : Allocation} (ha : a ∈ w.out) :
    ∃ h' free₁, free t w.heap a.ptr = .ok (none, h') ∧
      HeapWorld.Inv t ⟨h', w.out.erase a⟩ free₁ := by
  obtain ⟨h', free₁, hrun, hinv⟩ := free_spec hi.heap ⟨a, ha, rfl⟩
  rw [hi.ptr a ha]
  refine ⟨h', free₁, hrun, ⟨?_, ?_, ?_⟩⟩
  · rw [outstanding_erase hi.distinct ha]
    exact hinv
  · exact fun x hx => hi.ptr x (List.mem_of_mem_erase hx)
  · exact hi.distinct.sublist (List.Sublist.map _ List.erase_sublist)

/-- **One step keeps the invariant.** -/
theorem HeapStep.inv (hstep : HeapStep t w c w') (hi : w.Inv t free₀) : ∃ free₁, w'.Inv t free₁ := by
  cases hstep with
  | @malloc size ptr h hsize hrun =>
    rcases malloc_spec hi.heap hsize with hpanic | ⟨b, h', free₁, hok, hlevel, hbU, hinv⟩
    · rw [hpanic] at hrun
      cases hrun
    · rw [hok] at hrun
      cases hrun
      have hblock : Allocation.block ⟨blockAddr b + 8, size⟩ = b := block_of_ptr hlevel
      refine ⟨free₁, ?_, ?_, ?_⟩
      · have hout : HeapWorld.outstanding ⟨h, ⟨blockAddr b + 8, size⟩ :: w.out⟩ =
            insert b w.outstanding := by
          ext d
          simp only [HeapWorld.outstanding, List.mem_cons, exists_eq_or_imp, Set.mem_ofPred_eq,
            Set.mem_insert_iff, hblock, eq_comm]
        rw [hout]
        exact hinv
      · intro a ha
        rcases List.mem_cons.mp ha with rfl | ha'
        · rw [hblock]
        · exact hi.ptr a ha'
      · rw [List.map_cons, hblock, List.nodup_cons]
        refine ⟨fun hmem => hbU ?_, hi.distinct⟩
        obtain ⟨a, ha, hab⟩ := List.mem_map.mp hmem
        exact ⟨a, ha, hab⟩
  | @free a report h ha hrun =>
    obtain ⟨h', free₁, hok, hinv⟩ := hi.free_ok ha
    rw [hok] at hrun
    cases hrun
    exact ⟨free₁, hinv⟩
  | write hm => exact ⟨free₀, write_spec hi hm, hi.ptr, hi.distinct⟩

/-- **The invariant holds at every point of every run** from the state `malloc_init` leaves. -/
theorem heapRuns_inv {h₀ h : Heap} {s s' : Physical} {mappings : List PoolMapping}
    (hinit : mallocInit t h₀ s = .ok (h, s', mappings)) {tr : List HeapCall}
    (hrun : Runs (HeapStep t) ⟨h, []⟩ tr w) : ∃ free₁, w.Inv t free₁ := by
  refine hrun.invariant (I := fun w => ∃ free₁, w.Inv t free₁) ?_ ?_
  · rintro a e b ⟨free₁, hi⟩ hstep
    exact hstep.inv hi
  · obtain ⟨free₁, hi⟩ := mallocInit_spec hinit
    have hnone : HeapWorld.outstanding ⟨h, []⟩ = ∅ :=
      Set.eq_empty_of_forall_notMem fun _ hb => hb.elim fun _ ha => List.not_mem_nil ha.1
    refine ⟨free₁, ?_, fun a ha => absurd ha List.not_mem_nil, List.nodup_nil⟩
    rw [hnone]
    exact hi

end Steps

/-! ## The heap at every point of a run -/

/-- What the pool and its lists look like, `free` naming the addresses on each list. -/
structure BuddyHeap (t : Bsystem) (w : HeapWorld) (free : Nat → List Nat) : Prop where
  /-- Every byte of the pool lies in exactly one block, outstanding or free. -/
  partition : ∀ i, mallocBase ≤ i → i < mallocEnd →
    ∃! b, (b ∈ w.outstanding ∨ b ∈ freeSet free) ∧ InBlock b i
  /-- No block is both. -/
  apart : Disjoint w.outstanding (freeSet free)
  /-- Each block is of an entry of the table, at an offset that is a multiple of its size. -/
  aligned : ∀ b, b ∈ w.outstanding ∨ b ∈ freeSet free → b.level < buddyEntries ∧
    blockSize b.level ∣ blockAddr b - mallocBase ∧
    mallocBase ≤ blockAddr b ∧ blockAddr b + blockSize b.level ≤ mallocEnd
  /-- Distinct allocations have distinct blocks. -/
  distinct : (w.out.map Allocation.block).Nodup
  /-- The user's bytes lie between the marks of the block. -/
  room : ∀ a ∈ w.out, blockAddr a.block + 8 = a.ptr ∧ a.ptr + a.size ≤ blockLast a.block
  /-- Each list is a ring of the free blocks of its entry, each of them once. -/
  ring : ∀ e < buddyEntries, Ring (nextOf w.heap.mem) (prevOf w.heap.mem) (t.ptr e) (free e)
  listed : ∀ e, ∀ a ∈ free e, ∃ b ∈ freeSet free, b.level = e ∧ blockAddr b = a
  count : ∀ e < buddyEntries, (w.heap.bsystem e).count = (free e).length
  size : ∀ e < buddyEntries, (w.heap.bsystem e).size = blockSize e
  lastFree : ∀ b ∈ freeSet free, (w.heap.mem (blockLast b)).toNat = b.level
  firstUsed : ∀ b ∈ w.outstanding, (w.heap.mem (blockAddr b)).toNat = b.level
  lastUsed : ∀ b ∈ w.outstanding, (w.heap.mem (blockLast b)).toNat = used

/-- The invariant, read off. -/
theorem HeapWorld.Inv.buddyHeap {t : Bsystem} {w : HeapWorld} {free : Nat → List Nat}
    (hi : w.Inv t free) : BuddyHeap t w free where
  partition i hlo hhi := by
    have htop : mallocEnd = mallocBase + 32 * 2 ^ topEntry := by decide
    have hcell : (i - mallocBase) / 32 < 2 ^ topEntry := by omega
    obtain ⟨b, hb, hmem⟩ := hi.heap.lists.tiling.cover _ hcell
    have hin : InBlock b i := by
      obtain ⟨hlo', hhi'⟩ := Block.mem_iff_bounds.mp hmem
      rw [InBlock, blockAddr_eq, blockSize_eq]
      omega
    refine ⟨b, ⟨hb, hin⟩, ?_⟩
    rintro d ⟨hd, hin'⟩
    exact hin'.unique hi.heap.lists.tiling hd hb hin
  apart := hi.heap.lists.unlisted
  aligned b hb := by
    have hwhole := hi.heap.lists.tiling.le_whole b hb
    refine ⟨level_lt hwhole, ?_, blockAddr_bounds hwhole⟩
    rw [blockAddr, Nat.add_sub_cancel_left]
    exact Nat.dvd_mul_left _ _
  distinct := hi.distinct
  room _ ha := hi.room ha
  ring := hi.heap.lists.ring
  listed e a ha := by
    obtain ⟨b, rfl, rfl⟩ := hi.heap.lists.listed e a ha
    exact ⟨b, ha, rfl, rfl⟩
  count := hi.heap.lists.count
  size := hi.heap.lists.size
  lastFree := hi.heap.marks.free
  firstUsed := hi.heap.marks.first
  lastUsed := hi.heap.marks.last

/-- **The buddy heap at every point of every run.** The outstanding and free blocks partition the
pool, the lists, counts and marks are right, a valid `malloc` returns or panics for want of memory,
and a valid `free` returns without a message. -/
theorem heap_partitioned (t : Bsystem) (h₀ h : Heap) (s s' : Physical) (mappings : List PoolMapping)
    (hinit : mallocInit t h₀ s = .ok (h, s', mappings)) (tr : List HeapCall) (w : HeapWorld)
    (hrun : Runs (HeapStep t) ⟨h, []⟩ tr w) :
    (∃ free, BuddyHeap t w free) ∧
      (∀ size, size + 9 ≤ 2 ^ buddyMaxOrder →
        malloc t w.heap size = .error (.panic "malloc" "out of memory") ∨
          ∃ r, malloc t w.heap size = .ok r) ∧
      ∀ a ∈ w.out, ∃ h', free t w.heap a.ptr = .ok (none, h') := by
  obtain ⟨free₁, hi⟩ := heapRuns_inv hinit hrun
  refine ⟨⟨free₁, hi.buddyHeap⟩, fun size hsize => ?_, fun a ha => ?_⟩
  · rcases malloc_spec hi.heap hsize with hpanic | ⟨b, h', -, hok, -⟩
    · exact Or.inl hpanic
    · exact Or.inr ⟨_, hok⟩
  · obtain ⟨h', -, hok, -⟩ := hi.free_ok ha
    exact ⟨h', hok⟩

/-- A place for `bsystem`, 1MB into the static mapping. -/
def someTable : Bsystem := ⟨0x300000, by decide, by decide⟩

/-- Memory of zeros, before `malloc_init`. -/
def blankHeap : Heap := ⟨⟨fun _ => 0⟩, fun _ => ⟨0, 0⟩, 0⟩

/-- A machine with 16MB, all free. -/
def allFree : Physical := ⟨⟨fun _ => -1#64⟩, 4096, 64, by decide⟩

/-- The heap of that machine after `malloc_init`. -/
def bootHeap : Heap := initialBlock someTable (initBuckets someTable buddyEntries 0 blankHeap)

theorem bootHeap_init : ∃ s mappings, mallocInit someTable blankHeap allFree =
    .ok (bootHeap, s, mappings) := by
  have hok : (poolFrames allFree).isOk = true := by decide +kernel
  have hsize : ¬1 <<< buddyMinOrder < buddyListSize + 1 := by decide
  obtain ⟨⟨s, mappings⟩, hr⟩ := Exec.exists_of_isOk hok
  refine ⟨s, mappings, ?_⟩
  rw [mallocInit, if_neg hsize, hr]
  rfl

/-- A run on that machine: three blocks are split off, the user writes to the second and gives it back. -/
def someCalls : List HeapCall :=
  [.malloc 1000, .malloc 100, .malloc 100, .write, .free ⟨0x600408, 100⟩]

/-- The three blocks while all of them are outstanding. -/
def someBlocks : List Allocation := [⟨0x600488, 100⟩, ⟨0x600408, 100⟩, ⟨0x600008, 1000⟩]

theorem bootHeap_run : ∃ w, Runs (HeapStep someTable) ⟨bootHeap, []⟩ someCalls w ∧
    w.out = [⟨0x600488, 100⟩, ⟨0x600008, 1000⟩] := by
  obtain ⟨s, mappings, hinit⟩ := bootHeap_init
  have hfirst : (malloc someTable bootHeap 1000).map Prod.fst = .ok 0x600008 := by decide +kernel
  have hsecond : (do
      let r ← malloc someTable bootHeap 1000
      malloc someTable r.2 100).map Prod.fst = .ok 0x600408 := by decide +kernel
  have hthird : (do
      let r ← malloc someTable bootHeap 1000
      let r ← malloc someTable r.2 100
      malloc someTable r.2 100).map Prod.fst = .ok 0x600488 := by decide +kernel
  obtain ⟨h₁, hr₁⟩ := Exec.exists_of_map_fst hfirst
  rw [hr₁, Exec.ok_bind] at hsecond hthird
  obtain ⟨h₂, hr₂⟩ := Exec.exists_of_map_fst hsecond
  rw [hr₂, Exec.ok_bind] at hthird
  obtain ⟨h₃, hr₃⟩ := Exec.exists_of_map_fst hthird
  have hmallocs : Runs (HeapStep someTable) ⟨bootHeap, []⟩ [.malloc 1000, .malloc 100, .malloc 100]
      ⟨h₃, someBlocks⟩ :=
    .cons (.malloc (by decide) hr₁) (.cons (.malloc (by decide) hr₂) (.single (.malloc (by decide) hr₃)))
  -- the last byte of the second block
  have hwrite : HeapStep someTable ⟨h₃, someBlocks⟩ .write
      ⟨{ h₃ with mem := ⟨Function.update h₃.mem.byte 0x60046B 0xFF⟩ }, someBlocks⟩ := by
    refine .write fun i hi => ⟨⟨0x600408, 100⟩, List.mem_cons_of_mem _ List.mem_cons_self, ?_⟩
    have hat : i = 0x60046B := by
      by_contra hne
      exact hi (Function.update_of_ne hne _ _)
    rw [hat]
    decide
  obtain ⟨free, hinv⟩ := heapRuns_inv hinit (hmallocs.trans (.single hwrite))
  obtain ⟨h₅, -, hfree, -⟩ := hinv.free_ok (List.mem_cons_of_mem _ List.mem_cons_self)
  exact ⟨_, (hmallocs.trans (.single hwrite)).trans (.single (.free
    (List.mem_cons_of_mem _ List.mem_cons_self) hfree)), rfl⟩

theorem heap_partitioned_three_blocks : ∃ w, Runs (HeapStep someTable) ⟨bootHeap, []⟩ someCalls w ∧
    w.out = [⟨0x600488, 100⟩, ⟨0x600008, 1000⟩] ∧ (∃ free, BuddyHeap someTable w free) ∧
    ∀ a ∈ w.out, ∃ h', free someTable w.heap a.ptr = .ok (none, h') := by
  obtain ⟨s, mappings, hinit⟩ := bootHeap_init
  obtain ⟨w, hrun, hout⟩ := bootHeap_run
  obtain ⟨hheap, -, hfree⟩ := heap_partitioned someTable blankHeap bootHeap allFree s mappings hinit
    someCalls w hrun
  exact ⟨w, hrun, hout, hheap, hfree⟩

/-! ## Coalescing -/

section Coalescing

variable {t : Bsystem} {w : HeapWorld} {free₀ : Nat → List Nat}

theorem HeapWorld.Inv.freeBlocks_eq (hi : w.Inv t free₀) : freeBlocks t w.heap = freeSet free₀ :=
  hi.heap.lists.freeBlocks_eq

/-- Two free blocks of one entry are not buddies. -/
theorem HeapWorld.Inv.no_buddies (hi : w.Inv t free₀) {b c : Block} (hb : b ∈ freeBlocks t w.heap)
    (hc : c ∈ freeBlocks t w.heap) (hlevel : c.level = b.level) (hlt : b.level < buddyEntries - 1) :
    blockAddr c - mallocBase ≠ (blockAddr b - mallocBase) ^^^ (w.heap.bsystem b.level).size := by
  rw [hi.freeBlocks_eq] at hb hc
  intro heq
  have hsize := hi.heap.lists.size b.level (hi.heap.lists.level_lt_of_free hb)
  have hcb : c = b.buddy := by
    refine Block.ext hlevel ?_
    have hone : blockSize b.level = 1 <<< (b.level + buddyMinOrder) := by
      rw [Nat.one_shiftLeft, blockSize]
    have hshift : ∀ d : Block, blockAddr d - mallocBase = d.idx <<< (d.level + buddyMinOrder) := by
      intro d
      rw [blockAddr, Nat.add_sub_cancel_left, Nat.shiftLeft_eq, blockSize]
    rw [hsize, hshift, hshift, hlevel, hone, ← Nat.shiftLeft_xor_distrib, Nat.shiftLeft_eq,
      Nat.shiftLeft_eq] at heq
    exact Nat.eq_of_mul_eq_mul_right (Nat.two_pow_pos _) heq
  exact hi.heap.coalesced b hb hlt (hcb ▸ hc)

/-- The outstanding blocks determine the free ones. -/
theorem HeapWorld.Inv.freeBlocks_unique {t' : Bsystem} {w' : HeapWorld} {free₁ : Nat → List Nat}
    (hi : w.Inv t free₀) (hi' : w'.Inv t' free₁) (hout : w.outstanding = w'.outstanding) :
    freeBlocks t w.heap = freeBlocks t' w'.heap := by
  have ht' := hi'.heap.lists.tiling
  have hd' := hi'.heap.lists.unlisted
  rw [← hout] at ht' hd'
  rw [hi.freeBlocks_eq, hi'.freeBlocks_eq]
  exact hi.heap.coalesced.unique hi.heap.lists.tiling hi.heap.lists.unlisted hi'.heap.coalesced ht' hd'

/-- With nothing outstanding the pool is one free block. -/
theorem HeapWorld.Inv.freeBlocks_whole (hi : w.Inv t free₀) (hout : w.out = []) :
    freeBlocks t w.heap = {Block.whole topEntry} ∧
      ∀ e < buddyEntries, (w.heap.bsystem e).count = if e = topEntry then 1 else 0 := by
  have hnone : w.outstanding = ∅ := by
    refine Set.eq_empty_of_forall_notMem fun b hb => ?_
    obtain ⟨a, ha, -⟩ := hb
    rw [hout] at ha
    exact List.not_mem_nil ha
  have htiling := hi.heap.lists.tiling
  rw [hnone, Set.empty_union] at htiling
  have hwhole := hi.heap.coalesced.eq_whole htiling
  have honly : ∀ e, ∀ a ∈ free₀ e, e = topEntry ∧ a = mallocBase := by
    intro e a ha
    obtain ⟨b, rfl, rfl⟩ := hi.heap.lists.listed e a ha
    have hb : b ∈ freeSet free₀ := ha
    rw [hwhole] at hb
    rw [Set.mem_singleton_iff.mp hb]
    exact ⟨rfl, blockAddr_whole⟩
  refine ⟨hi.freeBlocks_eq.trans hwhole, fun e he => ?_⟩
  rw [hi.heap.lists.count e he]
  split_ifs with htop
  · have hmem : mallocBase ∈ free₀ e := by
      have hin : Block.whole topEntry ∈ freeSet free₀ := by
        rw [hwhole]
        rfl
      rw [mem_freeSet, blockAddr_whole] at hin
      rw [htop]
      exact hin
    have hset : (free₀ e).toFinset = {mallocBase} := by
      ext a
      rw [List.mem_toFinset, Finset.mem_singleton]
      refine ⟨fun ha => (honly e a ha).2, ?_⟩
      rintro rfl
      exact hmem
    have hnd := (List.nodup_cons.mp (hi.heap.lists.ring e he).nodup).2
    rw [← List.toFinset_card_of_nodup hnd, hset, Finset.card_singleton]
  · rw [List.length_eq_zero_iff, List.eq_nil_iff_forall_not_mem]
    exact fun a ha => htop (honly e a ha).1

/-- Freeing every allocation, in any order, succeeds. -/
theorem freeAll_run : ∀ {order : List Allocation} {w : HeapWorld} {free₀ : Nat → List Nat},
    w.Inv t free₀ → order.Perm w.out →
    ∃ w', Runs (HeapStep t) w (order.map .free) w' ∧ w'.out = [] ∧ ∃ free₁, w'.Inv t free₁ := by
  intro order
  induction order with
  | nil =>
    intro w free₀ hi hperm
    exact ⟨w, .nil, List.nil_perm.mp hperm, free₀, hi⟩
  | cons a order ih =>
    intro w free₀ hi hperm
    obtain ⟨ha, hrest⟩ := List.cons_perm_iff_perm_erase.mp hperm
    obtain ⟨h', free₁, hok, hi₁⟩ := hi.free_ok ha
    obtain ⟨w', hrun, hout, hi'⟩ := ih hi₁ hrest
    exact ⟨w', .cons (.free ha hok) hrun, hout, hi'⟩

end Coalescing

/-- **Maximal coalescing.** At every point of every run no two free blocks are buddies; a run that
reaches the same outstanding blocks, from whatever start and by whatever history, has the same free
blocks; and freeing every outstanding allocation, in any order, succeeds and leaves the pool the
one free block that `malloc_init` made of it. -/
theorem heap_coalesced (t : Bsystem) (h₀ h : Heap) (s s' : Physical) (mappings : List PoolMapping)
    (hinit : mallocInit t h₀ s = .ok (h, s', mappings)) (tr : List HeapCall) (w : HeapWorld)
    (hrun : Runs (HeapStep t) ⟨h, []⟩ tr w) :
    (∀ b ∈ freeBlocks t w.heap, ∀ c ∈ freeBlocks t w.heap, c.level = b.level →
      b.level < buddyEntries - 1 →
      blockAddr c - mallocBase ≠ (blockAddr b - mallocBase) ^^^ (w.heap.bsystem b.level).size) ∧
    (∀ (t₁ : Bsystem) (h₁ h₁' : Heap) (s₁ s₁' : Physical) (mappings₁ : List PoolMapping)
      (tr₁ : List HeapCall) (w₁ : HeapWorld), mallocInit t₁ h₁ s₁ = .ok (h₁', s₁', mappings₁) →
      Runs (HeapStep t₁) ⟨h₁', []⟩ tr₁ w₁ → w.outstanding = w₁.outstanding →
      freeBlocks t w.heap = freeBlocks t₁ w₁.heap) ∧
    ∀ order : List Allocation, order.Perm w.out → ∃ w', Runs (HeapStep t) w (order.map .free) w' ∧
      w'.out = [] ∧ freeBlocks t w'.heap = {Block.whole topEntry} ∧
      freeBlocks t w'.heap = freeBlocks t h ∧
      ∀ e < buddyEntries, (w'.heap.bsystem e).count = if e = topEntry then 1 else 0 := by
  obtain ⟨free₁, hi⟩ := heapRuns_inv hinit hrun
  obtain ⟨free₂, hi₂⟩ := heapRuns_inv hinit .nil
  refine ⟨fun b hb c hc hlevel hlt => hi.no_buddies hb hc hlevel hlt, ?_, fun order hperm => ?_⟩
  · intro t₁ h₁ h₁' s₁ s₁' mappings₁ tr₁ w₁ hinit₁ hrun₁ hout
    obtain ⟨free₃, hi₃⟩ := heapRuns_inv hinit₁ hrun₁
    exact hi.freeBlocks_unique hi₃ hout
  · obtain ⟨w', hrun', hout, free₃, hi₃⟩ := freeAll_run hi hperm
    obtain ⟨hwhole, hcount⟩ := hi₃.freeBlocks_whole hout
    have hstart := (hi₂.freeBlocks_whole rfl).1
    exact ⟨w', hrun', hout, hwhole, hwhole.trans hstart.symm, hcount⟩

theorem heap_coalesced_three_blocks : ∃ w w', Runs (HeapStep someTable) ⟨bootHeap, []⟩ someCalls w ∧
    w.out = [⟨0x600488, 100⟩, ⟨0x600008, 1000⟩] ∧
    Runs (HeapStep someTable) w (w.out.map .free) w' ∧ w'.out = [] ∧
    freeBlocks someTable w'.heap = {Block.whole topEntry} := by
  obtain ⟨s, mappings, hinit⟩ := bootHeap_init
  obtain ⟨w, hrun, hout⟩ := bootHeap_run
  obtain ⟨-, -, hfree⟩ := heap_coalesced someTable blankHeap bootHeap allFree s mappings hinit
    someCalls w hrun
  obtain ⟨w', hrun', hempty, hwhole, -⟩ := hfree w.out (List.Perm.refl _)
  exact ⟨w, w', hrun, hout, hrun', hempty, hwhole⟩

end Rtv.Mm
