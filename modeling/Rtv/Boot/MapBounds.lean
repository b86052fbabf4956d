import Rtv.Boot.Init
import Rtv.Mm.Ranges

/-!
# Memory that the table does not cover

`kernel_main` gives the available memory of the multiboot2 map to `physical_free_range` and the end of
the last of it to `physical_set_limit`, wherever it lies: neither compares an address with the memory
that `mm_table` is made for (`MM_PHYSICAL_MAX` GB). A write to a word that the table does not have
stops the model with a fault.

**The law** (`memory_map_bounded_iff`): for a map whose entries end within 64 bits, the first loop
writes inside the table and the limit stays inside it exactly if every available entry ends before
the page behind the table does, and starts with a page or reaches the next one.
-/

namespace Rtv.Boot

open Rtv.Lib Rtv.Utils Rtv.Mm

/-! ## Maps that the table covers -/

/-- The first loop over the tags stays inside `mm_table`, and so does the limit that is set after it. -/
def MapBounded (tags : List Tag) : Prop :=
  ∃ b, tags.foldlM memoryTag .init = .ok b ∧
    (physicalSetLimit b.phys b.memLimit.toNat).entryEnd ≤ mmTableMax

/-- An entry starts with a page or reaches the next one. -/
def MmapEntry.Reaches (e : MmapEntry) : Prop :=
  e.addr.toNat % pgSize = 0 ∨ pgSize ≤ e.addr.toNat % pgSize + e.len.toNat

/-- The pages of an entry up to its end are in the table, and the entry starts with a page or reaches
the next one. -/
structure MmapEntry.Covered (e : MmapEntry) : Prop where
  stop : e.stop / pgSize ≤ 64 * mmTableMax
  reaches : e.Reaches

/-! ## The calls of `physical_free_range` -/

section Calls

variable {e : MmapEntry} {tag : Tag} {tags : List Tag}

/-- Giving back a range that ends in the table. -/
theorem physicalFreeRange_returns_iff_reaches (s : Physical) {start length : Nat}
    (hin : (start + length) / pgSize ≤ 64 * mmTableMax) :
    (∃ s', physicalFreeRange s start length = .ok s') ↔
      start % pgSize = 0 ∨ pgSize ≤ start % pgSize + length := by
  constructor
  · rintro ⟨s', hs'⟩
    by_contra hwraps
    rw [not_or, Nat.not_le] at hwraps
    have hlt : start + length < 2 ^ 64 := by
      unfold pgSize mmTableMax at hin
      omega
    exact physicalFreeRange_wraps s hwraps.1 hwraps.2 hlt s' hs'
  · intro hreach
    obtain ⟨s', hs', -⟩ := physicalFreeRange_whole s hreach hin
    exact ⟨s', hs'⟩

/-- An entry returns. -/
theorem mmapEntry_returns_iff (hstop : e.isAvailable → e.stop / pgSize ≤ 64 * mmTableMax) (b : BootState) :
    (∃ b', mmapEntry b e = .ok b') ↔ (e.isAvailable → e.Reaches) := by
  rw [mmapEntry]
  by_cases hty : e.type = multibootMemoryAvailable
  · have hav : e.isAvailable := decide_eq_true hty
    rw [if_pos hty, forall_prop_of_true hav, MmapEntry.Reaches,
      ← physicalFreeRange_returns_iff_reaches b.phys (hstop hav)]
    constructor
    · rintro ⟨b', hrun⟩
      obtain ⟨phys, hphys, -⟩ := Exec.bind_eq_ok.mp hrun
      exact ⟨phys, hphys⟩
    · rintro ⟨phys, hphys⟩
      exact ⟨_, Exec.bind_eq_ok.mpr ⟨phys, hphys, rfl⟩⟩
  · have hav : ¬e.isAvailable := by simpa [MmapEntry.isAvailable] using hty
    rw [if_neg hty]
    exact iff_of_true ⟨b, rfl⟩ fun h => absurd h hav

/-- A tag of the first loop returns. -/
theorem memoryTag_returns_iff (hstop : ∀ e ∈ tag.available, e.stop / pgSize ≤ 64 * mmTableMax)
    (b : BootState) : (∃ b', memoryTag b tag = .ok b') ↔ ∀ e ∈ tag.available, e.Reaches := by
  cases tag with
  | mmap entries =>
    have hentries : ∀ e ∈ entries, ∀ b, (∃ b', mmapEntry b e = .ok b') ↔ (e.isAvailable → e.Reaches) :=
      fun e he => mmapEntry_returns_iff fun hav => hstop e (List.mem_filter.mpr ⟨he, hav⟩)
    rw [memoryTag, Exec.foldlM_returns_iff hentries]
    simp [Tag.available]
  | _ => exact iff_of_true ⟨_, rfl⟩ fun e he => absurd he List.not_mem_nil

/-- The first loop returns. -/
theorem memoryTags_return_iff (hstop : ∀ e ∈ available tags, e.stop / pgSize ≤ 64 * mmTableMax)
    (b : BootState) : (∃ b', tags.foldlM memoryTag b = .ok b') ↔ ∀ e ∈ available tags, e.Reaches := by
  have htags : ∀ tag ∈ tags, ∀ b, (∃ b', memoryTag b tag = .ok b') ↔ ∀ e ∈ tag.available, e.Reaches :=
    fun tag htag => memoryTag_returns_iff fun e he => hstop e (List.mem_flatMap.mpr ⟨tag, htag, he⟩)
  rw [Exec.foldlM_returns_iff htags]
  simp only [available, List.mem_flatMap, forall_exists_index, and_imp]
  constructor
  · intro h e tag htag he
    exact h tag htag e he
  · intro h tag htag e he
    exact h e tag htag he

/-! ## The limit -/

/-- `mem_end`. -/
def MmapEntry.memEnd (e : MmapEntry) : UInt64 := e.addr + e.len

/-- The limit is the greatest end of the entries of the list. -/
structure Limited (entries : List MmapEntry) (limit : UInt64) : Prop where
  above : ∀ e ∈ entries, e.memEnd ≤ limit
  reached : limit = 0 ∨ ∃ e ∈ entries, limit = e.memEnd

/-- One more entry. -/
theorem Limited.snoc {entries : List MmapEntry} {limit : UInt64} (h : Limited entries limit)
    (e : MmapEntry) :
    Limited (entries ++ [e]) (if e.memEnd > limit then e.memEnd else limit) := by
  split_ifs with hgt
  · constructor
    · intro e' he'
      rcases List.mem_append.mp he' with hmem | hlast
      · exact UInt64.le_trans (h.above e' hmem) (UInt64.le_of_lt hgt)
      · exact List.mem_singleton.mp hlast ▸ UInt64.le_refl _
    · exact Or.inr ⟨e, List.mem_append_right _ (List.mem_singleton_self e), rfl⟩
  · constructor
    · intro e' he'
      rcases List.mem_append.mp he' with hmem | hlast
      · exact h.above e' hmem
      · exact List.mem_singleton.mp hlast ▸ UInt64.not_lt.mp hgt
    · rcases h.reached with hzero | ⟨e', he', heq⟩
      · exact Or.inl hzero
      · exact Or.inr ⟨e', List.mem_append_left _ he', heq⟩

theorem mmapEntry_limited {entries : List MmapEntry} {b b' : BootState}
    (hb : Limited entries b.memLimit) (hrun : mmapEntry b e = .ok b') :
    Limited (entries ++ [e].filter MmapEntry.isAvailable) b'.memLimit := by
  rw [mmapEntry] at hrun
  by_cases hty : e.type = multibootMemoryAvailable
  · have hav : e.isAvailable := decide_eq_true hty
    rw [if_pos hty] at hrun
    obtain ⟨phys, -, hrun⟩ := Exec.bind_eq_ok.mp hrun
    cases hrun
    rw [List.filter_cons_of_pos hav]
    exact hb.snoc e
  · have hav : ¬e.isAvailable := by simpa [MmapEntry.isAvailable] using hty
    rw [if_neg hty] at hrun
    cases hrun
    rw [List.filter_cons_of_neg hav]
    simpa using hb

theorem memoryTag_limited {entries : List MmapEntry} {b b' : BootState}
    (hb : Limited entries b.memLimit) (hrun : memoryTag b tag = .ok b') :
    Limited (entries ++ tag.available) b'.memLimit := by
  cases tag with
  | mmap es =>
    refine Exec.foldlM_inv (P := fun l (b : BootState) =>
      Limited (entries ++ l.filter MmapEntry.isAvailable) b.memLimit) ?_ ?_ hrun
    · simpa using hb
    · intro pre e b₁ b₂ hb₁ hstep
      rw [List.filter_append, ← List.append_assoc]
      exact mmapEntry_limited hb₁ hstep
  | _ =>
    cases hrun
    simpa [Tag.available] using hb

/-- The first loop sets the limit to the greatest end. -/
theorem memoryTags_limited {b : BootState} (hrun : tags.foldlM memoryTag .init = .ok b) :
    Limited (available tags) b.memLimit := by
  refine Exec.foldlM_inv (P := fun l (b : BootState) => Limited (available l) b.memLimit) ?_ ?_ hrun
  · exact ⟨nofun, Or.inl rfl⟩
  · intro pre tag b₁ b₂ hb₁ hstep
    simpa [available] using memoryTag_limited hb₁ hstep

theorem entryEnd_le_iff (s : Physical) (limit : Nat) :
    (physicalSetLimit s limit).entryEnd ≤ mmTableMax ↔ limit / pgSize ≤ 64 * mmTableMax := by
  rw [(physicalSetLimit s limit).entryEnd_eq]
  have hlimit : (physicalSetLimit s limit).mmLimit = limit / pgSize := Nat.shiftRight_eq_div_pow _ 12
  rw [hlimit]
  omega

/-- The limit is inside the table exactly if every entry ends there. -/
theorem Limited.entryEnd_le_iff {entries : List MmapEntry} {limit : UInt64} (h : Limited entries limit)
    (hwrap : ∀ e ∈ entries, e.stop < 2 ^ 64) (s : Physical) :
    (physicalSetLimit s limit.toNat).entryEnd ≤ mmTableMax ↔
      ∀ e ∈ entries, e.stop / pgSize ≤ 64 * mmTableMax := by
  have hend : ∀ e ∈ entries, e.memEnd.toNat = e.stop := by
    intro e he
    rw [MmapEntry.memEnd, UInt64.toNat_add]
    exact Nat.mod_eq_of_lt (hwrap e he)
  rw [Boot.entryEnd_le_iff]
  constructor
  · intro hlimit e he
    have hle := UInt64.le_iff_toNat_le.mp (h.above e he)
    rw [hend e he] at hle
    exact Nat.le_trans (Nat.div_le_div_right hle) hlimit
  · intro hall
    rcases h.reached with hzero | ⟨e, he, heq⟩
    · rw [hzero]
      exact Nat.zero_le _
    · rw [heq, hend e he]
      exact hall e he

end Calls

/-! ## The law -/

/-- **The memory map** stays inside `mm_table` exactly if every available entry is covered. -/
theorem memory_map_bounded_iff (tags : List Tag) (hwrap : ∀ e ∈ available tags, e.stop < 2 ^ 64) :
    MapBounded tags ↔ ∀ e ∈ available tags, e.Covered := by
  constructor
  · rintro ⟨b, hrun, hend⟩ e he
    have hstop := ((memoryTags_limited hrun).entryEnd_le_iff hwrap b.phys).mp hend
    exact ⟨hstop e he, (memoryTags_return_iff hstop .init).mp ⟨b, hrun⟩ e he⟩
  · intro hall
    have hstop : ∀ e ∈ available tags, e.stop / pgSize ≤ 64 * mmTableMax := fun e he => (hall e he).stop
    obtain ⟨b, hrun⟩ := (memoryTags_return_iff hstop .init).mpr fun e he => (hall e he).reaches
    exact ⟨b, hrun, ((memoryTags_limited hrun).entryEnd_le_iff hwrap b.phys).mpr hstop⟩

/-- Available memory from 1MB to 4MB. -/
theorem memory_map_bounded_low : MapBounded [.mmap [⟨0x100000, 0x300000, 1⟩]] ↔
    ∀ e ∈ available [.mmap [⟨0x100000, 0x300000, 1⟩]], e.Covered :=
  memory_map_bounded_iff _ (by decide)

/-- **A write behind the table**, for the first page above 64GB. -/
theorem memory_map_unbounded : ¬ ∀ tags : List Tag, (∀ e ∈ available tags, e.stop < 2 ^ 64) →
    MapBounded tags := by
  intro h
  obtain ⟨b, hrun, hend⟩ := h [.mmap [⟨0x1000000000, 0x1000, 1⟩]] (by decide)
  have hstop := ((memoryTags_limited hrun).entryEnd_le_iff (by decide) b.phys).mp hend
  exact absurd hstop (by decide)

end Rtv.Boot
