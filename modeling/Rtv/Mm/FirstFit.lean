import Rtv.Mm.PhysicalSpec

/-!
# Single frames, zone by zone

`alloc_phys_frame` searches the words of `mm_table` from 1MB up to `entry_end`,
`alloc_phys_frame_lowmem` the four words below. Each takes the first free page of its zone.

`entry_end` comes from the memory map and nothing keeps it inside `mm_table`. Behind the table
`alloc_phys_frame` finds its page in whatever lies there; the model stops with a fault.

**The law** (`first_fit_iff`): with page 0 taken both are an exact first fit, exactly if `entry_end`
is inside the table or a page from 1MB on is free.
-/

namespace Rtv.Mm

open Rtv.Lib Rtv.Utils

/-! ## First fit in a zone -/

/-- The pages from 1MB on, in the first `entry_end` words. -/
def HighZone (s : Physical) (p : Nat) : Prop := 256 ≤ p ∧ p / 64 < s.entryEnd

/-- The pages below 1MB. -/
def LowZone (p : Nat) : Prop := p < 256

/-- The lowest free page of a zone is returned and taken, or there is none. -/
def FirstFit (Zone : Nat → Prop) (s : Physical) (r : Nat × Physical) : Prop :=
  (r = (0, s) ∧ ∀ p, Zone p → ¬s.Free p) ∨
    ∃ p, r.1 = p * pgSize ∧ r.1 ≠ 0 ∧ Zone p ∧ s.Free p ∧ (∀ q, Zone q → q < p → ¬s.Free q) ∧
      Marked s r.2 p 1 false

/-- Both functions are a first fit in their zone and stay out of the other's. -/
structure FirstFitPerZone (s : Physical) : Prop where
  high : ∃ r, allocPhysFrame s = .ok r ∧ FirstFit (HighZone s) s r ∧ (r.1 = 0 ∨ 256 * pgSize ≤ r.1)
  low : ∃ r, allocPhysFrameLowmem s = .ok r ∧ FirstFit LowZone s r ∧ r.1 < 256 * pgSize

/-! ## The scan -/

section Scan

variable {s : Physical} {stop : Nat}

/-- The scan finds a free page that is there. -/
theorem allocFrameScan_finds {p : Nat} (hfree : s.Free p) (hstop : p / 64 < stop) :
    ∀ {fuel i : Nat}, p / 64 < fuel + i → i ≤ p / 64 → ∃ r, allocFrameScan s stop fuel i = .ok r := by
  have hin : p / 64 < mmTableMax := Bitmap.lt_of_test hfree
  intro fuel
  induction fuel with
  | zero =>
    intro i hfuel hle
    omega
  | succ fuel ih =>
    intro i hfuel hle
    have hi : i < mmTableMax := Nat.lt_of_le_of_lt hle hin
    rw [allocFrameScan, if_pos (Nat.lt_of_le_of_lt hle hstop), Bitmap.load_of_lt _ hi, Exec.ok_bind]
    by_cases hne : s.mmTable.word ⟨i, hi⟩ ≠ 0#64
    · obtain ⟨k, hk, hset, hlow⟩ := exists_lowest hne
      rw [if_pos hne, shiftPos_lowest hk hset hlow, Exec.ok_bind, Bitmap.store_of_lt _ _ hi]
      exact ⟨_, rfl⟩
    · have hload := s.mmTable.load_of_lt hi
      rw [not_not.mp hne] at hload
      have hother : p / 64 ≠ i := fun heq => not_free_of_zero hload heq hfree
      rw [if_neg hne]
      exact ih (by omega) (by omega)

/-- The scan leaves the table when there is no free page left in it. -/
theorem allocFrameScan_behind (hstop : mmTableMax < stop) :
    ∀ {fuel i : Nat}, mmTableMax < fuel + i → i ≤ mmTableMax → (∀ p, 64 * i ≤ p → ¬s.Free p) →
      allocFrameScan s stop fuel i = .error .fault := by
  intro fuel
  induction fuel with
  | zero =>
    intro i hfuel hle
    omega
  | succ fuel ih =>
    intro i hfuel hle hnone
    rw [allocFrameScan, if_pos (Nat.lt_of_le_of_lt hle hstop)]
    by_cases hi : i < mmTableMax
    · have hload := s.mmTable.load_of_lt hi
      have hzero : s.mmTable.word ⟨i, hi⟩ = 0#64 := by
        by_contra hne
        obtain ⟨k, hk, hset, -⟩ := exists_lowest hne
        refine hnone (64 * i + k) (by omega) ((free_iff_word hload (by omega)).mpr ?_)
        rwa [show (64 * i + k) % 64 = k by omega]
      rw [hload, Exec.ok_bind, hzero, if_neg (not_not.mpr rfl)]
      exact ih (by omega) hi fun p hp => hnone p (by omega)
    · rw [Bitmap.load, dif_neg hi]
      rfl

/-- What the scan returns, for the zone that its words are. -/
theorem allocFrameScan_firstFit {Zone : Nat → Prop} {fuel i : Nat} {r : Nat × Physical}
    (hzero : ¬s.Free 0) (hzone : ∀ p, Zone p ↔ 64 * i ≤ p ∧ p < 64 * stop)
    (h : allocFrameScan s stop fuel i = .ok r) : FirstFit Zone s r := by
  rcases allocFrameScan_spec h with ⟨hr, hnone⟩ | ⟨page, hr, hlo, hhi, hfree, hlow, hm⟩
  · exact Or.inl ⟨hr, fun p hp => hnone p ((hzone p).mp hp).1 ((hzone p).mp hp).2⟩
  · have hpos : page ≠ 0 := by
      rintro rfl
      exact hzero hfree
    have haddr : r.1 = page * pgSize := hr.trans (shiftLeft_pgBits page)
    have hne : r.1 ≠ 0 := haddr ▸ Nat.mul_ne_zero hpos (by decide)
    exact Or.inr ⟨page, haddr, hne, (hzone page).mpr ⟨hlo, hhi⟩, hfree,
      fun q hq hlt => hlow q ((hzone q).mp hq).1 hlt, hm⟩

/-- An address returned is the address of a page of the zone. -/
theorem FirstFit.zone {Zone : Nat → Prop} {r : Nat × Physical} (h : FirstFit Zone s r) :
    r.1 = 0 ∨ ∃ p, r.1 = p * pgSize ∧ Zone p := by
  rcases h with ⟨rfl, -⟩ | ⟨p, haddr, -, hzone, -⟩
  · exact Or.inl rfl
  · exact Or.inr ⟨p, haddr, hzone⟩

end Scan

/-! ## The law -/

/-- The words of the zone from 1MB on are in the table, or a page in them is free. -/
def FrameBounded (s : Physical) : Prop := s.entryEnd ≤ mmTableMax ∨ ∃ p, 256 ≤ p ∧ s.Free p

theorem highZone_iff (s : Physical) (p : Nat) : HighZone s p ↔ 64 * 4 ≤ p ∧ p < 64 * s.entryEnd := by
  unfold HighZone
  omega

theorem lowZone_iff (p : Nat) : LowZone p ↔ 64 * 0 ≤ p ∧ p < 64 * 4 := by
  unfold LowZone
  omega

/-- `alloc_phys_frame` returns exactly if it need not look behind the table. -/
theorem allocPhysFrame_returns_iff (s : Physical) : (∃ r, allocPhysFrame s = .ok r) ↔ FrameBounded s := by
  constructor
  · rintro ⟨r, hr⟩
    by_contra hneeded
    obtain ⟨hend, hnone⟩ := not_or.mp hneeded
    have hbehind : allocPhysFrame s = .error .fault :=
      allocFrameScan_behind (not_le.mp hend) (by decide) (by decide)
        fun p hp hfree => hnone ⟨p, hp, hfree⟩
    rw [hr] at hbehind
    cases hbehind
  · intro hbounded
    by_cases hend : s.entryEnd ≤ mmTableMax
    · exact allocFrameScan_ok hend (by decide) (by unfold scanFuel; omega)
    · obtain ⟨p, hp, hfree⟩ := hbounded.resolve_left hend
      have hin : p / 64 < mmTableMax := Bitmap.lt_of_test hfree
      exact allocFrameScan_finds hfree (by omega) (by unfold scanFuel; omega) (by omega)

/-- **Single frames** are an exact first fit in each zone exactly if the words searched are in the
table or a page in them is free. -/
theorem first_fit_iff (s : Physical) (hzero : ¬s.Free 0) : FirstFitPerZone s ↔ FrameBounded s := by
  rw [← allocPhysFrame_returns_iff]
  constructor
  · rintro ⟨⟨r, hr, -⟩, -⟩
    exact ⟨r, hr⟩
  · rintro ⟨r, hr⟩
    obtain ⟨r', hr'⟩ : ∃ r', allocPhysFrameLowmem s = .ok r' :=
      allocFrameScan_ok (by decide) (by decide) (by decide)
    have hhigh : FirstFit (HighZone s) s r := allocFrameScan_firstFit hzero (highZone_iff s) hr
    have hlow : FirstFit LowZone s r' := allocFrameScan_firstFit hzero lowZone_iff hr'
    refine ⟨⟨r, hr, hhigh, ?_⟩, r', hr', hlow, ?_⟩
    · refine hhigh.zone.imp_right ?_
      rintro ⟨p, haddr, hzone⟩
      rw [haddr]
      exact Nat.mul_le_mul_right _ hzone.1
    · rcases hlow.zone with haddr | ⟨p, haddr, hzone⟩
      · rw [haddr]
        decide
      · rw [haddr]
        exact Nat.mul_lt_mul_of_pos_right hzone (by decide)

/-- Pages 3 and 5 are free below 1MB, pages 300 and 301 above it, and the limit is 1280KB. -/
def twoZones : Physical where
  mmTable := ⟨fun i => if i.val = 0 then 0x28#64 else if i.val = 4 then 3#64 <<< 44 else 0#64⟩
  mmLimit := 320
  entryEnd := 5
  entryEnd_eq := by decide

/-- Both zones have free pages, and each function takes the lowest of its own. -/
theorem first_fit_two_zones : FirstFitPerZone twoZones ∧ twoZones.Free 3 ∧ twoZones.Free 300 :=
  ⟨(first_fit_iff twoZones (by decide)).mpr (Or.inl (by decide)), by decide, by decide⟩

/-- A limit one page behind the table, and all pages taken. -/
def limitBehind : Physical where
  mmTable := ⟨fun _ => 0#64⟩
  mmLimit := 64 * mmTableMax + 1
  entryEnd := mmTableMax + 1
  entryEnd_eq := by decide

theorem limitBehind_not_free (p : Nat) : ¬limitBehind.Free p := by
  unfold Physical.Free limitBehind Bitmap.test
  split <;> simp

/-- **A search behind the table**, when the limit lies behind it. -/
theorem first_fit_behind : ¬ ∀ s : Physical, ¬s.Free 0 → FirstFitPerZone s := by
  intro h
  obtain ⟨r, hr, -⟩ := (h limitBehind (limitBehind_not_free 0)).high
  rcases (allocPhysFrame_returns_iff limitBehind).mp ⟨r, hr⟩ with hend | ⟨p, -, hfree⟩
  · exact absurd hend (by decide)
  · exact limitBehind_not_free p hfree

end Rtv.Mm
