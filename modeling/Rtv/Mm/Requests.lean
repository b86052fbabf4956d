import Rtv.Mm.HeapRuns

/-!
# What a request gets

`malloc` at any point of a run of the heap.

A size that fits the pool together with its marks is served as long as there is a free block large
enough, and there is one as long as some block of the size, wherever it lies in the pool, meets no
outstanding one (`malloc_best_fit`). A larger size goes wrong in one of three ways: the entry is past
the table, the doubling in `next_power2` never gets there, or `size + 9` wraps and the block is far
too small (`malloc_honours_iff`).
-/

namespace Rtv.Mm

open Rtv.Lib Rtv.Utils

/-! ## Bytes and cells -/

section Cells

variable {b c : Block} {i : Nat}

/-- The bytes of a block are those of its cells. -/
theorem inBlock_iff_cell : InBlock b i ↔ mallocBase ≤ i ∧ (i - mallocBase) / 32 ∈ b := by
  rw [Block.mem_iff_bounds, InBlock, blockAddr_eq, blockSize_eq]
  omega

/-- The bytes of a part are bytes of the block. -/
theorem InBlock.of_le (hle : b ≤ c) (hi : InBlock b i) : InBlock c i := by
  rw [inBlock_iff_cell] at hi ⊢
  exact ⟨hi.1, Block.mem_of_le hle hi.2⟩

/-- A block has a byte in common with each block that is not apart from it. -/
theorem exists_common_of_not_apart {U : Set Block} (h : ¬Apart U b) :
    ∃ u ∈ U, ∃ i, InBlock b i ∧ InBlock u i := by
  by_contra hnone
  apply h
  intro u hu
  constructor
  · intro hle
    exact hnone ⟨u, hu, blockAddr u, (inBlock_first u).of_le hle, inBlock_first u⟩
  · intro hle
    exact hnone ⟨u, hu, blockAddr b, inBlock_first b, (inBlock_first b).of_le hle⟩

/-- The block of an entry at an offset of the pool. -/
theorem exists_block_at {e off : Nat} (he : e < buddyEntries) (hdvd : blockSize e ∣ off)
    (hend : off + blockSize e ≤ 2 ^ buddyMaxOrder) :
    ∃ b : Block, b.level = e ∧ blockAddr b = mallocBase + off ∧ b ≤ Block.whole topEntry := by
  obtain ⟨k, rfl⟩ := hdvd
  have htop : e ≤ topEntry := Nat.le_of_lt_succ he
  refine ⟨⟨e, k⟩, rfl, ?_, Block.le_whole_iff.mpr ⟨htop, ?_⟩⟩
  · rw [blockAddr, Nat.mul_comm]
  · have hpool : 2 ^ buddyMaxOrder = 2 ^ (topEntry - e) * blockSize e := by
      have hmax : buddyMaxOrder = topEntry - e + (e + buddyMinOrder) := by
        have htop' : topEntry = 17 := by decide
        have hmin : buddyMinOrder = 5 := rfl
        have hmax' : buddyMaxOrder = 22 := rfl
        omega
      rw [blockSize, ← Nat.pow_add, ← hmax]
    rw [hpool, Nat.mul_comm, ← Nat.add_one_mul] at hend
    exact Nat.le_of_mul_le_mul_right hend (Nat.two_pow_pos _)

end Cells

/-! ## Sizes that fit -/

/-- `2 ^ k` is the least power of two that is at least `size + 9` and at least `BUDDY_MIN_BLK`. -/
structure LeastOrder (size k : Nat) : Prop where
  fits : size + 9 ≤ 2 ^ k
  min : buddyMinOrder ≤ k
  least : ∀ j, buddyMinOrder ≤ j → size + 9 ≤ 2 ^ j → k ≤ j

/-- The entry for a size is that of its order. -/
theorem LeastOrder.eq {size k : Nat} (hk : LeastOrder size k) : k = entryFor size + buddyMinOrder := by
  apply Nat.le_antisymm
  · exact hk.least _ (Nat.le_add_left _ _) (size_le_blockSize size)
  · have hclog : Nat.clog 2 (size + 9) ≤ k := Nat.clog_le_of_le_pow hk.fits
    have hmin := hk.min
    rw [entryFor]
    omega

/-- What `malloc` does for a size of order `k`. -/
structure BestFit (t : Bsystem) (w : HeapWorld) (size k : Nat) : Prop where
  /-- It panics exactly when every place for a block of `2 ^ k` bytes meets an outstanding block. -/
  exhausted : malloc t w.heap size = .error (.panic "malloc" "out of memory") ↔
    ∀ off, 2 ^ k ∣ off → off + 2 ^ k ≤ 2 ^ buddyMaxOrder →
      ∃ u ∈ w.outstanding, ∃ i, w.heap.memBase + off ≤ i ∧ i < w.heap.memBase + off + 2 ^ k ∧ InBlock u i
  /-- Otherwise the block `b` it hands out is cut from the smallest free block `c` of order `k` or
  more; besides, exactly one free block of each order between is left of `c`, and the other free
  blocks stay. -/
  served : malloc t w.heap size ≠ .error (.panic "malloc" "out of memory") →
    ∃ b c h', malloc t w.heap size = .ok (blockAddr b + 8, h') ∧
      b.level + buddyMinOrder = k ∧ (h'.mem (blockAddr b)).toNat = b.level ∧
      c ∈ freeBlocks t w.heap ∧ b ≤ c ∧
      (∀ d ∈ freeBlocks t w.heap, k ≤ d.level + buddyMinOrder → c.level ≤ d.level) ∧
      freeBlocks t h' = Block.cut b c ∪ freeBlocks t w.heap \ {c} ∧
      (∀ d ∈ Block.cut b c, d ≤ c ∧ d ∉ freeBlocks t w.heap ∧ b.level ≤ d.level ∧ d.level < c.level) ∧
      ∀ l, b.level ≤ l → l < c.level → ∃! d, d ∈ Block.cut b c ∧ d.level = l

/-- **`malloc` takes the best fit**, and panics only when nothing fits, at every point of every run. -/
theorem malloc_best_fit (t : Bsystem) (h₀ h : Heap) (s s' : Physical) (mappings : List PoolMapping)
    (hinit : mallocInit t h₀ s = .ok (h, s', mappings)) (tr : List HeapCall) (w : HeapWorld)
    (hrun : Runs (HeapStep t) ⟨h, []⟩ tr w) (size k : Nat) (hsize : size + 9 ≤ 2 ^ buddyMaxOrder)
    (hk : LeastOrder size k) : BestFit t w size k := by
  obtain ⟨free₁, hi⟩ := heapRuns_inv hinit hrun
  have hF := hi.freeBlocks_eq
  have hlists := hi.heap.lists
  have hentry := (entryFor_spec hsize).2
  have hpow : 2 ^ k = blockSize (entryFor size) := by
    rw [hk.eq]
    rfl
  rcases malloc_fit hi.heap hsize with
    ⟨hpanic, hsmall⟩ | ⟨b, c, h', free₂, hok, hb, hbU, hinv, hc, hle, hbest, hF₂⟩
  · refine ⟨⟨fun _ off hdvd hend => ?_, fun _ => hpanic⟩, fun hne => absurd hpanic hne⟩
    rw [hpow] at hdvd hend ⊢
    obtain ⟨d, hd, haddr, hwhole⟩ := exists_block_at hentry hdvd hend
    -- a place apart from all outstanding blocks would be part of a free block
    have hmeets : ¬Apart w.outstanding d := by
      intro hapart
      obtain ⟨f, hf, hdf⟩ := hi.heap.coalesced.exists_le hlists.tiling hwhole hapart
      have hlevel := hsmall f hf
      have hdf' := hdf.1
      omega
    obtain ⟨u, hu, i, ⟨hlo, hhi⟩, hui⟩ := exists_common_of_not_apart hmeets
    rw [haddr] at hlo hhi
    rw [hd] at hhi
    rw [hlists.base]
    exact ⟨u, hu, i, hlo, hhi, hui⟩
  · have hbc : b.level ≤ c.level := hle.1
    have hwhole := hle.trans (hlists.tiling.le_whole c (Or.inr hc))
    have hbounds := blockAddr_bounds hwhole
    refine ⟨⟨fun hpanic => ?_, fun hmeets => ?_⟩, fun _ => ?_⟩
    · rw [hok] at hpanic
      cases hpanic
    · -- the block handed out is a place that meets no outstanding block
      exfalso
      have hdvd : blockSize (entryFor size) ∣ b.idx * blockSize b.level := by
        rw [hb]
        exact Nat.dvd_mul_left _ _
      have hend : mallocEnd = mallocBase + 2 ^ buddyMaxOrder := rfl
      rw [hpow, hlists.base] at hmeets
      obtain ⟨u, hu, i, hlo, hhi, hui⟩ := hmeets _ hdvd (by
        rw [← hb]
        rw [blockAddr, hend] at hbounds
        omega)
      have hib : InBlock b i := by
        rw [← hb] at hhi
        exact ⟨hlo, hhi⟩
      have heq := (hib.of_le hle).unique hlists.tiling (Or.inr hc) (Or.inl hu) hui
      exact Set.disjoint_left.mp hlists.unlisted hu (heq ▸ hc)
    · have hfirst := hinv.marks.first b (Set.mem_insert b _)
      refine ⟨b, c, h', hok, ?_, hfirst, hF ▸ hc, hle, fun d hd hlo => ?_, ?_, fun d hd => ?_, ?_⟩
      · rw [hk.eq, hb]
      · rw [hF] at hd
        exact hbest d hd (by have := hk.eq; omega)
      · rw [hinv.lists.freeBlocks_eq, hF₂, hF]
      · obtain ⟨hdc, hlo, hhi⟩ := Block.cut_bounds hd
        refine ⟨hdc, fun hfree => ?_, hlo, hhi⟩
        rw [hF] at hfree
        have heq := hlists.tiling.eq_of_le d (Or.inr hfree) c (Or.inr hc) hdc
        rw [heq] at hhi
        exact lt_irrefl _ hhi
      · exact fun l hlo hhi => Block.existsUnique_cut hle hlo hhi

/-- A request for 100 bytes on a machine with 16MB. -/
theorem malloc_best_fit_boot : LeastOrder 100 7 ∧ BestFit someTable ⟨bootHeap, []⟩ 100 7 := by
  obtain ⟨s, mappings, hinit⟩ := bootHeap_init
  have hk : LeastOrder 100 7 := by
    refine ⟨by decide, by decide, fun j _ hfits => ?_⟩
    by_contra hlt
    have hle : 2 ^ j ≤ 2 ^ 6 := Nat.pow_le_pow_right Nat.two_pos (by omega)
    omega
  exact ⟨hk, malloc_best_fit someTable blankHeap bootHeap allFree s mappings hinit [] ⟨bootHeap, []⟩
    .nil 100 7 (by decide) hk⟩

/-! ## All sizes -/

/-- What `malloc` owes a caller: it panics for want of memory, or the pointer is eight bytes into a
block of the pool, of the entry in its first byte, whose last byte the `size` bytes do not reach. -/
def Honours (t : Bsystem) (h : Heap) (size : Nat) : Prop :=
  malloc t h size = .error (.panic "malloc" "out of memory") ∨
    ∃ b h', malloc t h size = .ok (blockAddr b + 8, h') ∧ b ≤ Block.whole topEntry ∧
      (h'.mem (blockAddr b)).toNat = b.level ∧ blockAddr b + 8 + size ≤ blockLast b

section Sizes

variable {t : Bsystem} {h : Heap} {U : Set Block} {free₀ : Nat → List Nat} {size v : Nat}

/-- Doubling within 32 bits never reaches a value above `2 ^ 31`. -/
theorem nextPower2Loop_hangs (hv : 2 ^ 31 < v) : ∀ {fuel p cnt : Nat}, (p = 0 ∨ ∃ i ≤ 31, p = 2 ^ i) →
    nextPower2Loop v fuel p cnt = .error .hang
  | 0, _, _, _ => rfl
  | fuel + 1, p, cnt, hp => by
    have hle : p ≤ 2 ^ 31 := by
      rcases hp with rfl | ⟨i, hi, rfl⟩
      · exact Nat.zero_le _
      · exact Nat.pow_le_pow_right Nat.two_pos hi
    rw [nextPower2Loop, if_pos (by omega)]
    apply nextPower2Loop_hangs hv
    rcases hp with rfl | ⟨i, hi, rfl⟩
    · exact Or.inl rfl
    · rw [Nat.shiftLeft_eq, ← Nat.pow_succ]
      by_cases hlast : i = 31
      · subst hlast
        exact Or.inl rfl
      · exact Or.inr ⟨i + 1, by omega, Nat.mod_eq_of_lt (Nat.pow_lt_pow_right Nat.one_lt_two (by omega))⟩

/-- A size above `2 ^ 31` that does not wrap: `next_power2` does not return. -/
theorem malloc_hangs (hlo : 2 ^ 31 < size + 9) (hhi : size + 9 < 2 ^ 32) :
    malloc t h size = .error .hang := by
  have hblk : buddyMinBlk = 32 := rfl
  rw [malloc, Nat.mod_eq_of_lt hhi, nextPower2, if_neg (by omega),
    nextPower2Loop_hangs hlo (Or.inr ⟨buddyMinOrder, by decide, by decide⟩)]
  rfl

/-- A size above the pool's: the entry is past the table. -/
theorem malloc_faults (hlo : 2 ^ buddyMaxOrder < size + 9) (hhi : size + 9 ≤ 2 ^ 31) :
    malloc t h size = .error .fault := by
  have hclog : buddyMaxOrder < Nat.clog 2 (size + 9) :=
    (Nat.lt_clog_iff_pow_lt Nat.one_lt_two).mpr hlo
  have hpast : ¬max buddyMinOrder (Nat.clog 2 (size + 9)) - buddyMinOrder < buddyEntries := by
    have hle : buddyMinOrder ≤ buddyMaxOrder := by decide
    rw [buddyEntries]
    omega
  rw [malloc, Nat.mod_eq_of_lt (by omega), nextPower2_spec hhi, Exec.ok_bind, provide, Heap.bucket,
    if_neg hpast]
  rfl

/-- A size that wraps gets a smallest block, or a panic when all counts are 0. -/
theorem malloc_wraps (hi : HeapInv t h U free₀) (hlo : 2 ^ 32 ≤ size + 9) (hhi : size < 2 ^ 32) :
    (malloc t h size = .error (.panic "malloc" "out of memory") ∧
        ∀ e < buddyEntries, (h.bsystem e).count = 0) ∨
      (∃ r, malloc t h size = .ok r) ∧ ∃ e < buddyEntries, (h.bsystem e).count ≠ 0 := by
  have hsmall : (size + 9) % 2 ^ 32 < buddyMinBlk := by
    have hblk : buddyMinBlk = 32 := rfl
    omega
  rw [malloc, nextPower2, if_pos hsmall, Exec.pure_eq, Exec.ok_bind, Nat.sub_self]
  rcases provide_spec hi (show 0 < buddyEntries by decide) with
    ⟨hpanic, hnone⟩ | ⟨h₁, free₁, b, c, hrun, -, -, hc, -⟩
  · left
    rw [hpanic]
    refine ⟨rfl, fun e he => ?_⟩
    rw [hi.lists.count e he, List.length_eq_zero_iff, List.eq_nil_iff_forall_not_mem]
    intro a ha
    obtain ⟨d, rfl, rfl⟩ := hi.lists.listed e a ha
    exact Nat.not_lt_zero _ (hnone d ha)
  · right
    rw [hrun]
    refine ⟨⟨_, rfl⟩, c.level, hi.lists.level_lt_of_free hc, fun hzero => ?_⟩
    rw [hi.lists.count _ (hi.lists.level_lt_of_free hc), List.length_eq_zero_iff] at hzero
    rw [mem_freeSet, hzero] at hc
    exact List.not_mem_nil hc

/-- No block of the pool holds as many bytes as a size that wraps. -/
theorem not_room_of_wraps {b : Block} (hb : b ≤ Block.whole topEntry) (hlo : 2 ^ 32 ≤ size + 9) :
    ¬blockAddr b + 8 + size ≤ blockLast b := by
  have hbounds := (blockAddr_bounds hb).2
  have hend : mallocEnd < 2 ^ 31 := by decide
  rw [blockLast]
  omega

end Sizes

/-- **When `malloc` honours a 32-bit size**, at any point of any run: the size fits the pool together
with its marks; or it wraps, and no block is free. -/
theorem malloc_honours_iff (t : Bsystem) (h₀ h : Heap) (s s' : Physical) (mappings : List PoolMapping)
    (hinit : mallocInit t h₀ s = .ok (h, s', mappings)) (tr : List HeapCall) (w : HeapWorld)
    (hrun : Runs (HeapStep t) ⟨h, []⟩ tr w) (size : Nat) (hsize : size < 2 ^ 32) :
    Honours t w.heap size ↔ size + 9 ≤ 2 ^ buddyMaxOrder ∨
      2 ^ 32 ≤ size + 9 ∧ ∀ e < buddyEntries, (w.heap.bsystem e).count = 0 := by
  obtain ⟨free₁, hi⟩ := heapRuns_inv hinit hrun
  have hmax : 2 ^ buddyMaxOrder = 4194304 := by decide
  constructor
  · intro hhonours
    by_cases hfits : size + 9 ≤ 2 ^ buddyMaxOrder
    · exact Or.inl hfits
    · right
      rcases Nat.lt_or_ge (size + 9) (2 ^ 32) with hlt | hwraps
      · exfalso
        have hstops : ∃ e, malloc t w.heap size = .error e ∧ ∀ f m, e ≠ .panic f m := by
          by_cases hle : size + 9 ≤ 2 ^ 31
          · exact ⟨.fault, malloc_faults (by omega) hle, nofun⟩
          · exact ⟨.hang, malloc_hangs (by omega) hlt, nofun⟩
        obtain ⟨e, he, hne⟩ := hstops
        rcases hhonours with hpanic | ⟨b, h', hok, -⟩
        · rw [he] at hpanic
          cases hpanic
          exact hne _ _ rfl
        · rw [he] at hok
          cases hok
      · refine ⟨hwraps, ?_⟩
        rcases malloc_wraps hi.heap hwraps hsize with ⟨-, hzero⟩ | ⟨⟨r, hr⟩, -⟩
        · exact hzero
        · exfalso
          rcases hhonours with hpanic | ⟨b, h', -, hb, -, hroom⟩
          · rw [hr] at hpanic
            cases hpanic
          · exact not_room_of_wraps hb hwraps hroom
  · rintro (hfits | ⟨hwraps, hzero⟩)
    · rcases malloc_spec hi.heap hfits with hpanic | ⟨b, h', free₂, hok, hb, -, hinv⟩
      · exact Or.inl hpanic
      · right
        have hmem : b ∈ insert b w.outstanding := Set.mem_insert b _
        have hroom := size_le_blockSize size
        refine ⟨b, h', hok, hinv.lists.tiling.le_whole b (Or.inl hmem), hinv.marks.first b hmem, ?_⟩
        rw [← hb] at hroom
        rw [blockLast]
        omega
    · left
      rcases malloc_wraps hi.heap hwraps hsize with ⟨hpanic, -⟩ | ⟨-, e, he, hne⟩
      · exact hpanic
      · exact absurd (hzero e he) hne

/-- A request for 100 bytes on a machine with 16MB. -/
theorem malloc_honours_boot : Honours someTable bootHeap 100 ↔ 100 + 9 ≤ 2 ^ buddyMaxOrder ∨
    2 ^ 32 ≤ 100 + 9 ∧ ∀ e < buddyEntries, (bootHeap.bsystem e).count = 0 := by
  obtain ⟨s, mappings, hinit⟩ := bootHeap_init
  exact malloc_honours_iff someTable blankHeap bootHeap allFree s mappings hinit [] ⟨bootHeap, []⟩ .nil
    100 (by decide)

/-- A request for one byte more than fits the pool, on the same machine. -/
theorem malloc_past_table : (∃ s mappings, mallocInit someTable blankHeap allFree =
    .ok (bootHeap, s, mappings)) ∧ ¬Honours someTable bootHeap 4194296 := by
  refine ⟨bootHeap_init, ?_⟩
  have hfault : malloc someTable bootHeap 4194296 = .error .fault := malloc_faults (by decide) (by decide)
  rintro (hpanic | ⟨b, h', hok, -⟩)
  · rw [hfault] at hpanic
    cases hpanic
  · rw [hfault] at hok
    cases hok

end Rtv.Mm
