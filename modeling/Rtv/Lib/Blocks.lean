import Mathlib.Algebra.BigOperators.Ring.Finset
import Mathlib.Algebra.Order.BigOperators.Group.Finset
import Mathlib.Data.Set.Insert
import Mathlib.Data.Set.Lattice
import Mathlib.Order.CompletePartialOrder
import Mathlib.Order.Disjoint
import Mathlib.Order.Interval.Finset.Nat
import Mathlib.Order.Minimal
import Mathlib.Tactic.Ring

/-!
# Dyadic blocks

The cells `0, 1, 2, …` are grouped into blocks of `2 ^ level` consecutive cells, each block at a
multiple of its size. Two blocks are nested or apart, so inclusion is an order in which the blocks
above a given one form a chain; the block next above is the `parent`, and the other half of the
parent is the `buddy`.

A `Tiling` is a set of blocks in which every cell of a whole of `2 ^ n` cells lies in exactly one.
Replacing a block by its halves, or two buddies by their parent, gives a tiling again. When the
blocks of a tiling are used or free and no two buddies are free, the free blocks are the maximal
blocks apart from every used one (`Coalesced.mem_iff_maximal`): they depend on the used blocks
alone.
-/

namespace Rtv.Lib

/-- The block of `2 ^ level` cells from cell `idx * 2 ^ level` on. -/
@[ext] structure Block where
  level : Nat
  idx : Nat
deriving DecidableEq, Repr

namespace Block

variable {b c d e : Block} {i n : Nat}

/-- `i ∈ d`: cell `i` lies in the block. -/
instance : Membership Nat Block := ⟨fun d i => i / 2 ^ d.level = d.idx⟩

theorem mem_iff : i ∈ d ↔ i / 2 ^ d.level = d.idx := Iff.rfl

instance (i : Nat) (d : Block) : Decidable (i ∈ d) := inferInstanceAs (Decidable (_ = _))

/-- `d ≤ e`: block `d` is part of block `e`. -/
instance : LE Block := ⟨fun d e => d.level ≤ e.level ∧ d.idx / 2 ^ (e.level - d.level) = e.idx⟩

theorem le_trans' (hde : d ≤ e) (hec : e ≤ c) : d ≤ c := by
  obtain ⟨hl, hi⟩ := hde
  obtain ⟨hl', hi'⟩ := hec
  refine ⟨hl.trans hl', ?_⟩
  have hsum : c.level - d.level = (e.level - d.level) + (c.level - e.level) := by omega
  rw [hsum, Nat.pow_add, ← Nat.div_div_eq_div_mul, hi, hi']

/-- Of two blocks of one level neither is part of the other, unless they are the same. -/
theorem eq_of_le_of_level (h : d ≤ e) (hlevel : e.level ≤ d.level) : d = e := by
  obtain ⟨hl, hi⟩ := h
  have heq : d.level = e.level := le_antisymm hl hlevel
  rw [heq, Nat.sub_self, Nat.pow_zero, Nat.div_one] at hi
  exact Block.ext heq hi

instance : PartialOrder Block where
  le_refl d := ⟨le_rfl, by rw [Nat.sub_self, Nat.pow_zero, Nat.div_one]⟩
  le_trans _ _ _ := le_trans'
  le_antisymm _ _ h h' := eq_of_le_of_level h h'.1

/-! ## Cells -/

/-- The first cell of a block. -/
def first (d : Block) : Nat := d.idx * 2 ^ d.level

theorem first_mem (d : Block) : d.first ∈ d := Nat.mul_div_cancel _ (Nat.two_pow_pos d.level)

/-- A cell of a part is a cell of the block. -/
theorem mem_of_le (h : d ≤ e) (hi : i ∈ d) : i ∈ e := by
  obtain ⟨hl, hidx⟩ := h
  have hsum : e.level = d.level + (e.level - d.level) := by omega
  rw [mem_iff, hsum, Nat.pow_add, ← Nat.div_div_eq_div_mul, mem_iff.mp hi, hidx]

/-- Of two blocks with a common cell, the smaller one is part of the other. -/
theorem le_of_mem (hd : i ∈ d) (he : i ∈ e) (hlevel : d.level ≤ e.level) : d ≤ e := by
  refine ⟨hlevel, ?_⟩
  have hsum : e.level = d.level + (e.level - d.level) := by omega
  rw [← mem_iff.mp hd, ← mem_iff.mp he, Nat.div_div_eq_div_mul, ← Nat.pow_add, ← hsum]

/-- Two blocks with a common cell are nested. -/
theorem nested_of_mem (hd : i ∈ d) (he : i ∈ e) : d ≤ e ∨ e ≤ d := by
  rcases Nat.le_total d.level e.level with h | h
  · exact Or.inl (le_of_mem hd he h)
  · exact Or.inr (le_of_mem he hd h)

/-- The cells of a block are an interval. -/
theorem mem_iff_bounds : i ∈ d ↔ d.first ≤ i ∧ i < d.first + 2 ^ d.level := by
  rw [mem_iff, Nat.div_eq_iff (Nat.two_pow_pos _), first]
  have := Nat.two_pow_pos d.level
  omega

/-- Blocks that are not nested are intervals apart. -/
theorem bounds_apart (hde : ¬d ≤ e) (hed : ¬e ≤ d) :
    d.first + 2 ^ d.level ≤ e.first ∨ e.first + 2 ^ e.level ≤ d.first := by
  by_contra hover
  have hd : max d.first e.first ∈ d := by
    rw [mem_iff_bounds]
    have := Nat.two_pow_pos d.level
    omega
  have he : max d.first e.first ∈ e := by
    rw [mem_iff_bounds]
    have := Nat.two_pow_pos e.level
    omega
  exact (nested_of_mem hd he).elim hde hed

/-! ## Parents and buddies -/

/-- The block next above. -/
def parent (d : Block) : Block := ⟨d.level + 1, d.idx / 2⟩

/-- The other half of the parent. -/
def buddy (d : Block) : Block := ⟨d.level, d.idx ^^^ 1⟩

@[simp] theorem parent_level (d : Block) : d.parent.level = d.level + 1 := rfl

@[simp] theorem buddy_level (d : Block) : d.buddy.level = d.level := rfl

theorem xor_one_div (k : Nat) : (k ^^^ 1) / 2 = k / 2 := by
  rw [Nat.xor_div_two]
  exact Nat.xor_zero (k / 2)

theorem xor_one_mod (k : Nat) : (k ^^^ 1) % 2 = 1 - k % 2 := by
  have h : (k ^^^ 1) % 2 = 1 ↔ ¬(k % 2 = 1 ↔ 1 % 2 = 1) := Nat.xor_mod_two_eq_one
  omega

@[simp] theorem buddy_buddy (d : Block) : d.buddy.buddy = d := by
  ext
  · rfl
  · show d.idx ^^^ 1 ^^^ 1 = d.idx
    rw [Nat.xor_assoc, Nat.xor_self, Nat.xor_zero]

@[simp] theorem parent_buddy (d : Block) : d.buddy.parent = d.parent := by
  ext
  · rfl
  · exact xor_one_div d.idx

theorem buddy_ne (d : Block) : d.buddy ≠ d := by
  intro h
  have hidx : d.idx ^^^ 1 = d.idx := congrArg Block.idx h
  have hmod := xor_one_mod d.idx
  omega

theorem le_parent (d : Block) : d ≤ d.parent := by
  refine ⟨Nat.le_succ d.level, ?_⟩
  rw [parent_level, Nat.add_sub_cancel_left, Nat.pow_one]
  rfl

theorem buddy_le_parent (d : Block) : d.buddy ≤ d.parent := by
  rw [← parent_buddy]
  exact d.buddy.le_parent

/-- The parent is part of every block strictly above. -/
theorem parent_le (h : d ≤ e) (hne : d ≠ e) : d.parent ≤ e := by
  have hlevel : d.level < e.level := by
    by_contra hge
    exact hne (eq_of_le_of_level h (not_lt.mp hge))
  exact le_of_mem (mem_of_le d.le_parent d.first_mem) (mem_of_le h d.first_mem) hlevel

/-- A cell of the parent lies in one of its halves. -/
theorem mem_or_mem_buddy (h : i ∈ d.parent) : i ∈ d ∨ i ∈ d.buddy := by
  have hidx : i / 2 ^ d.level / 2 = d.idx / 2 := by
    rw [Nat.div_div_eq_div_mul]
    exact h
  have hdiv := xor_one_div d.idx
  have hmod := xor_one_mod d.idx
  have hor : i / 2 ^ d.level = d.idx ∨ i / 2 ^ d.level = d.idx ^^^ 1 := by omega
  exact hor

/-- A part of the parent is the parent or part of one of its halves. -/
theorem le_parent_cases (h : e ≤ d.parent) : e = d.parent ∨ e ≤ d ∨ e ≤ d.buddy := by
  rcases Nat.lt_or_ge d.level e.level with hlt | hge
  · exact Or.inl (eq_of_le_of_level h hlt)
  · rcases mem_or_mem_buddy (mem_of_le h e.first_mem) with hm | hm
    · exact Or.inr (Or.inl (le_of_mem e.first_mem hm hge))
    · exact Or.inr (Or.inr (le_of_mem e.first_mem hm hge))

/-- The lower half of a block above level 0. -/
theorem exists_half (h : 0 < e.level) : ∃ d : Block, d.parent = e ∧ d.idx % 2 = 0 := by
  refine ⟨⟨e.level - 1, 2 * e.idx⟩, ?_, Nat.mul_mod_right 2 e.idx⟩
  ext
  · exact Nat.sub_add_cancel h
  · exact Nat.mul_div_cancel_left e.idx (by decide)

/-- The block of the cells below `2 ^ n`. -/
def whole (n : Nat) : Block := ⟨n, 0⟩

theorem mem_whole : i ∈ whole n ↔ i < 2 ^ n := Nat.div_eq_zero_iff_lt (Nat.two_pow_pos n)

theorem le_whole_iff : d ≤ whole n ↔ d.level ≤ n ∧ d.idx < 2 ^ (n - d.level) := by
  refine and_congr_right fun _ => ?_
  exact Nat.div_eq_zero_iff_lt (Nat.two_pow_pos _)

/-- The parent of a part of the whole, when the part is not all of it. -/
theorem parent_le_whole (h : d ≤ whole n) (hlevel : d.level < n) : d.parent ≤ whole n := by
  apply parent_le h
  rintro rfl
  exact lt_irrefl n hlevel

/-- The buddy of a part of the whole, when the part is not all of it. -/
theorem buddy_le_whole (h : d ≤ whole n) (hlevel : d.level < n) : d.buddy ≤ whole n :=
  d.buddy_le_parent.trans (parent_le_whole h hlevel)

/-! ## Cutting a part out of a block -/

/-- The part of level `l` of the chain above a block. -/
theorem exists_above (hlevel : d.level ≤ n) : ∃ x : Block, d ≤ x ∧ x.level = n :=
  ⟨⟨n, d.idx / 2 ^ (n - d.level)⟩, ⟨hlevel, rfl⟩, rfl⟩

/-- A block above a common part is part of another one if its level is not above. -/
theorem le_of_level (hd : c ≤ d) (he : c ≤ e) (hlevel : d.level ≤ e.level) : d ≤ e :=
  le_of_mem (mem_of_le hd c.first_mem) (mem_of_le he c.first_mem) hlevel

/-- A block and its buddy have no common part. -/
theorem not_le_buddy (hd : c ≤ d) : ¬c ≤ d.buddy :=
  fun hb => buddy_ne d (eq_of_le_of_level (le_of_level hb hd le_rfl) le_rfl)

/-- What is left of block `e` when the part `d` is cut out of it: the buddies of the blocks from `d`
up to below `e`. -/
def cut (d e : Block) : Set Block := {c | ∃ x, d ≤ x ∧ x ≤ e ∧ x ≠ e ∧ x.buddy = c}

theorem cut_self (d : Block) : cut d d = ∅ := by
  ext c
  rw [Set.mem_empty_iff_false, iff_false]
  rintro ⟨x, hdx, hxd, hne, -⟩
  exact hne (le_antisymm hxd hdx)

/-- Cutting a part out of the lower one of two halves leaves the other one as well. -/
theorem cut_parent (h : d ≤ e) : cut d e.parent = Set.insert e.buddy (cut d e) := by
  ext c
  constructor
  · rintro ⟨x, hdx, hxe, hne, rfl⟩
    rcases le_parent_cases hxe with heq | hle | hle
    · exact absurd heq hne
    · by_cases heq : x = e
      · exact Or.inl (heq ▸ rfl)
      · exact Or.inr ⟨x, hdx, hle, heq, rfl⟩
    · exact absurd (hdx.trans hle) (not_le_buddy h)
  · rintro (rfl | ⟨x, hdx, hxe, -, rfl⟩)
    · exact ⟨e, h, e.le_parent, fun heq => by simpa using congrArg Block.level heq, rfl⟩
    · refine ⟨x, hdx, hxe.trans e.le_parent, fun heq => ?_, rfl⟩
      have hlevel := hxe.1
      rw [heq, parent_level] at hlevel
      exact Nat.not_succ_le_self _ hlevel

/-- The blocks left lie in the block, between the levels. -/
theorem cut_bounds (h : c ∈ cut d e) : c ≤ e ∧ d.level ≤ c.level ∧ c.level < e.level := by
  obtain ⟨x, hdx, hxe, hne, rfl⟩ := h
  have hparent := parent_le hxe hne
  exact ⟨x.buddy_le_parent.trans hparent, hdx.1, hparent.1⟩

/-- **One block of each level is left.** -/
theorem existsUnique_cut (h : d ≤ e) (hlo : d.level ≤ n) (hhi : n < e.level) :
    ∃! c, c ∈ cut d e ∧ c.level = n := by
  obtain ⟨x, hdx, rfl⟩ := exists_above hlo
  have hne : x ≠ e := fun heq => Nat.ne_of_lt hhi (congrArg Block.level heq)
  refine ⟨x.buddy, ⟨⟨x, hdx, le_of_level hdx h hhi.le, hne, rfl⟩, rfl⟩, ?_⟩
  rintro c ⟨⟨y, hdy, -, -, rfl⟩, hlevel⟩
  rw [eq_of_le_of_level (le_of_level hdy hdx hlevel.le) hlevel.ge]

end Block

open Block

/-! ## Tilings -/

/-- Every cell below `2 ^ n` lies in exactly one block of the set. -/
structure Tiling (n : Nat) (S : Set Block) : Prop where
  le_whole : ∀ d ∈ S, d ≤ whole n
  cover : ∀ i < 2 ^ n, ∃ d ∈ S, i ∈ d
  eq_of_le : ∀ d ∈ S, ∀ e ∈ S, d ≤ e → d = e

namespace Tiling

variable {n i : Nat} {S : Set Block} {d e : Block}

/-- Two blocks of a tiling are intervals apart. -/
theorem bounds_apart (h : Tiling n S) (hd : d ∈ S) (he : e ∈ S) (hne : d ≠ e) :
    d.first + 2 ^ d.level ≤ e.first ∨ e.first + 2 ^ e.level ≤ d.first := by
  apply Block.bounds_apart
  · exact fun hle => hne (h.eq_of_le d hd e he hle)
  · exact fun hle => hne (h.eq_of_le e he d hd hle).symm

/-- The blocks of a finite tiling have as many cells as the whole. -/
theorem sum_cells {F : Finset Block} (h : Tiling n (F : Set Block)) : ∑ d ∈ F, 2 ^ d.level = 2 ^ n := by
  have hcells : F.biUnion (fun d => Finset.Ico d.first (d.first + 2 ^ d.level)) =
      Finset.range (2 ^ n) := by
    ext i
    rw [Finset.mem_biUnion, Finset.mem_range]
    constructor
    · rintro ⟨d, hd, hi⟩
      have hmem : i ∈ d := Block.mem_iff_bounds.mpr (Finset.mem_Ico.mp hi)
      exact Block.mem_whole.mp (Block.mem_of_le (h.le_whole d hd) hmem)
    · intro hi
      obtain ⟨d, hd, hmem⟩ := h.cover i hi
      exact ⟨d, hd, Finset.mem_Ico.mpr (Block.mem_iff_bounds.mp hmem)⟩
  have hapart : ∀ d ∈ F, ∀ e ∈ F, d ≠ e →
      Disjoint (Finset.Ico d.first (d.first + 2 ^ d.level))
        (Finset.Ico e.first (e.first + 2 ^ e.level)) := by
    intro d hd e he hne
    have hbounds := h.bounds_apart hd he hne
    rw [Finset.disjoint_left]
    intro i hi hi'
    rw [Finset.mem_Ico] at hi hi'
    omega
  have hcard := congrArg Finset.card hcells
  rw [Finset.card_biUnion hapart, Finset.card_range] at hcard
  simpa only [Nat.card_Ico, Nat.add_sub_cancel_left] using hcard

/-- The whole alone. -/
theorem whole (n : Nat) : Tiling n {Block.whole n} where
  le_whole := by
    rintro _ rfl
    exact le_rfl
  cover _ hi := ⟨Block.whole n, rfl, mem_whole.mpr hi⟩
  eq_of_le := by
    rintro _ rfl _ rfl _
    rfl

/-- **Merging** two buddies. -/
theorem merge (h : Tiling n S) (hd : d ∈ S) (hb : d.buddy ∈ S) (hlevel : d.level < n) :
    Tiling n (insert d.parent (S \ {d, d.buddy})) where
  le_whole := by
    rintro e (rfl | ⟨he, -⟩)
    · exact parent_le_whole (h.le_whole d hd) hlevel
    · exact h.le_whole e he
  cover i hi := by
    obtain ⟨e, he, hie⟩ := h.cover i hi
    by_cases hpart : e = d ∨ e = d.buddy
    · refine ⟨d.parent, Set.mem_insert _ _, ?_⟩
      rcases hpart with rfl | rfl
      · exact mem_of_le e.le_parent hie
      · exact mem_of_le d.buddy_le_parent hie
    · exact ⟨e, Or.inr ⟨he, hpart⟩, hie⟩
  eq_of_le := by
    rintro a (rfl | ⟨ha, hne⟩) b (rfl | ⟨hb', hne'⟩) hle
    · rfl
    · exact absurd (Or.inl (h.eq_of_le d hd b hb' (d.le_parent.trans hle)).symm) hne'
    · rcases le_parent_cases hle with heq | hlow | hhigh
      · exact heq
      · exact absurd (Or.inl (h.eq_of_le a ha d hd hlow)) hne
      · exact absurd (Or.inr (h.eq_of_le a ha d.buddy hb hhigh)) hne
    · exact h.eq_of_le a ha b hb' hle

/-- A part of a half of a block of a tiling is not in the tiling. -/
theorem not_mem_of_le_half (h : Tiling n S) (hp : d.parent ∈ S) (hle : e ≤ d ∨ e ≤ d.buddy) :
    e ∉ S := by
  intro he
  have hlevel : e.level ≤ d.level := hle.elim (fun hl => hl.1) fun hl => hl.1
  have hpart : e ≤ d.parent := hle.elim (fun hl => hl.trans d.le_parent)
    fun hl => hl.trans d.buddy_le_parent
  have heq := h.eq_of_le e he d.parent hp hpart
  rw [heq, parent_level] at hlevel
  exact Nat.not_succ_le_self _ hlevel

/-- **Splitting** a block into its halves. -/
theorem split (h : Tiling n S) (hp : d.parent ∈ S) :
    Tiling n (insert d (insert d.buddy (S \ {d.parent}))) where
  le_whole := by
    have hwhole := h.le_whole d.parent hp
    rintro e (rfl | rfl | ⟨he, -⟩)
    · exact e.le_parent.trans hwhole
    · exact d.buddy_le_parent.trans hwhole
    · exact h.le_whole e he
  cover i hi := by
    obtain ⟨e, he, hie⟩ := h.cover i hi
    by_cases heq : e = d.parent
    · subst heq
      rcases mem_or_mem_buddy hie with hm | hm
      · exact ⟨d, Set.mem_insert _ _, hm⟩
      · exact ⟨d.buddy, Or.inr (Set.mem_insert _ _), hm⟩
    · exact ⟨e, Or.inr (Or.inr ⟨he, heq⟩), hie⟩
  eq_of_le := by
    -- a half is above no other block of the set, and below none
    have hhalf : ∀ k ∈ ({d, d.buddy} : Set Block), ∀ e ∈ S \ {d.parent}, ¬k ≤ e ∧ ¬e ≤ k := by
      rintro k hk e ⟨he, hne⟩
      have hparent : k.parent = d.parent := by
        rcases hk with rfl | rfl
        · rfl
        · exact parent_buddy d
      constructor
      · intro hle
        have hke : k ≠ e := by
          rintro rfl
          exact h.not_mem_of_le_half (hparent ▸ hp) (Or.inl le_rfl) he
        apply hne
        have hple := parent_le hle hke
        rw [hparent] at hple
        exact (h.eq_of_le d.parent hp e he hple).symm
      · intro hle
        exact h.not_mem_of_le_half (hparent ▸ hp) (Or.inl hle) he
    have hd : d ∈ ({d, d.buddy} : Set Block) := Or.inl rfl
    have hb : d.buddy ∈ ({d, d.buddy} : Set Block) := Or.inr rfl
    rintro a (rfl | rfl | ha) b (rfl | rfl | hb') hle
    · rfl
    · exact eq_of_le_of_level hle le_rfl
    · exact absurd hle (hhalf _ hd b hb').1
    · exact eq_of_le_of_level hle le_rfl
    · rfl
    · exact absurd hle (hhalf _ hb b hb').1
    · exact absurd hle (hhalf _ hd a ha).2
    · exact absurd hle (hhalf _ hb a ha).2
    · exact h.eq_of_le a ha.1 b hb'.1 hle

end Tiling

/-! ## Coalesced sets -/

/-- No two buddies below level `n` are both in the set. -/
def Coalesced (n : Nat) (F : Set Block) : Prop := ∀ d ∈ F, d.level < n → d.buddy ∉ F

/-- No block of the set meets the block. -/
def Apart (U : Set Block) (b : Block) : Prop := ∀ u ∈ U, ¬u ≤ b ∧ ¬b ≤ u

namespace Coalesced

variable {n : Nat} {U F F' : Set Block} {b : Block}

theorem mono (h : Coalesced n F) (hsub : F' ⊆ F) : Coalesced n F' :=
  fun d hd hlevel hb => h d (hsub hd) hlevel (hsub hb)

/-- Adding a block whose buddy is not there. -/
theorem insert (h : Coalesced n F) (hb : b.level < n → b.buddy ∉ F) : Coalesced n (insert b F) := by
  rintro d (rfl | hd) hlevel (heq | hmem)
  · exact buddy_ne d heq
  · exact hb hlevel hmem
  · apply hb
    · rw [← heq]
      exact hlevel
    · rw [← heq, buddy_buddy]
      exact hd
  · exact h d hd hlevel hmem

/-- In a coalesced tiling a block that meets no used block is part of a free one. -/
theorem exists_le (hc : Coalesced n F) (ht : Tiling n (U ∪ F)) (hb : b ≤ whole n)
    (hapart : Apart U b) : ∃ f ∈ F, b ≤ f := by
  obtain ⟨l, i⟩ := b
  induction l generalizing i with
  | zero =>
    set b : Block := ⟨0, i⟩ with hbdef
    obtain ⟨e, he, hmem⟩ := ht.cover b.first (mem_whole.mp (mem_of_le hb b.first_mem))
    have hle : b ≤ e := le_of_mem b.first_mem hmem (Nat.zero_le _)
    rcases he with hu | hf
    · exact absurd hle (hapart e hu).2
    · exact ⟨e, hf, hle⟩
  | succ l ih =>
    -- both halves are part of free blocks; they are not both free themselves
    set b : Block := ⟨l + 1, i⟩ with hbdef
    obtain ⟨k, hk, -⟩ := exists_half (e := b) (Nat.succ_pos l)
    have hklevel : k.level = l := Nat.succ_injective (congrArg Block.level hk)
    have half : ∀ d : Block, d.level = l → d.parent = b → ∃ f ∈ F, d ≤ f := by
      rintro ⟨dl, di⟩ rfl hp
      have hdb : (⟨dl, di⟩ : Block) ≤ b := hp ▸ le_parent _
      refine ih di (hdb.trans hb) ?_
      intro u hu
      refine ⟨fun hle => (hapart u hu).1 (hle.trans hdb), fun hle => ?_⟩
      by_cases heq : (⟨dl, di⟩ : Block) = u
      · exact (hapart u hu).1 (heq ▸ hdb)
      · exact (hapart u hu).2 (hp ▸ parent_le hle heq)
    obtain ⟨f, hf, hkf⟩ := half k hklevel hk
    obtain ⟨f', hf', hkf'⟩ := half k.buddy hklevel (by rw [parent_buddy, hk])
    by_cases heq : k = f
    · by_cases heq' : k.buddy = f'
      · exfalso
        have hlevel : k.level < n := by
          have hbn : l + 1 ≤ n := hb.1
          omega
        exact hc k (heq ▸ hf) hlevel (heq' ▸ hf')
      · refine ⟨f', hf', ?_⟩
        have hle := parent_le hkf' heq'
        rwa [parent_buddy, hk] at hle
    · exact ⟨f, hf, hk ▸ parent_le hkf heq⟩

/-- **The free blocks of a coalesced tiling** are the maximal blocks that meet no used one. -/
theorem mem_iff_maximal (hc : Coalesced n F) (ht : Tiling n (U ∪ F)) (hd : Disjoint U F) :
    b ∈ F ↔ Maximal (fun b => b ≤ whole n ∧ Apart U b) b := by
  have hfree : ∀ f ∈ F, f ≤ whole n ∧ Apart U f := by
    intro f hf
    refine ⟨ht.le_whole f (Or.inr hf), fun u hu => ?_⟩
    have hne : u ≠ f := by
      rintro rfl
      exact Set.disjoint_left.mp hd hu hf
    exact ⟨fun hle => hne (ht.eq_of_le u (Or.inl hu) f (Or.inr hf) hle),
      fun hle => hne (ht.eq_of_le f (Or.inr hf) u (Or.inl hu) hle).symm⟩
  constructor
  · intro hb
    refine ⟨hfree b hb, ?_⟩
    rintro a ⟨ha, hapart⟩ hle
    obtain ⟨f, hf, haf⟩ := hc.exists_le ht ha hapart
    rw [ht.eq_of_le b (Or.inr hb) f (Or.inr hf) (hle.trans haf)]
    exact haf
  · rintro ⟨⟨hb, hapart⟩, hmax⟩
    obtain ⟨f, hf, hbf⟩ := hc.exists_le ht hb hapart
    rw [le_antisymm hbf (hmax (hfree f hf) hbf)]
    exact hf

/-- The used blocks determine the free ones. -/
theorem unique (hc : Coalesced n F) (ht : Tiling n (U ∪ F)) (hd : Disjoint U F)
    (hc' : Coalesced n F') (ht' : Tiling n (U ∪ F')) (hd' : Disjoint U F') : F = F' := by
  ext b
  rw [hc.mem_iff_maximal ht hd, hc'.mem_iff_maximal ht' hd']

/-- When nothing is used, the whole is free. -/
theorem eq_whole (hc : Coalesced n F) (ht : Tiling n F) : F = {whole n} := by
  have ht' : Tiling n (∅ ∪ F) := by rwa [Set.empty_union]
  refine hc.unique ht' (Set.empty_disjoint F) ?_ ?_ (Set.empty_disjoint _)
  · rintro d rfl hlevel
    exact absurd hlevel (lt_irrefl n)
  · rw [Set.empty_union]
    exact Tiling.whole n

end Coalesced

end Rtv.Lib
