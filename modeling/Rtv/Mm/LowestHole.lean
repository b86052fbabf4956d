import Rtv.Mm.WindowBounds
import Mathlib.Order.Bounds.Basic

/-!
# The lowest hole of a window

A search for `num` pages is for a hole, `num` entries of the window in a row that are not present.
After a run that is too short, the searching loop goes on from the second entry behind the present
one that ended the run, so the entry right behind it is never tried as a start. `Vm.StepsOver` says
which entries those are; the search takes the lowest hole unless it begins at one of them.
-/

namespace Rtv.Mm

open Rtv.Lib

/-- A hole: `num` entries of the window in a row that are not present. -/
def Window.Hole (w : Window) (s : Vm) (num a : Nat) : Prop :=
  w.lo ≤ a ∧ a + num ≤ w.hi ∧ s.AbsentRun w.table a num

/-- The entries that a search steps over, as long as it has found nothing: a present entry is right
before them, and before that a run in which the search has tried a start. It has tried one in every
run of two entries or more, and in a run of one entry unless it has stepped over that one. -/
def Vm.StepsOver (s : Vm) (w : Window) : Nat → Prop
  | 0 => False
  | 1 => False
  | i + 2 => w.lo ≤ i ∧ s.Absent w.table i ∧ ¬ s.Absent w.table (i + 1) ∧
      ((w.lo < i ∧ s.Absent w.table (i - 1)) ∨ ¬ s.StepsOver w i)

/-- The entries a search comes to: it does not step over the entry, nor over the next one if the
entry is present. -/
structure Vm.OnPath (s : Vm) (w : Window) (i : Nat) : Prop where
  here : ¬ s.StepsOver w i
  next : ¬ s.Absent w.table i → ¬ s.StepsOver w (i + 1)

section Search

variable {w : Window} {s : Vm} {frame flags : BitVec 64} {num a i n : Nat}

/-- An entry two behind a present one has not been stepped over. -/
theorem Vm.not_stepsOver_of_present (h : ¬ s.Absent w.table i) : ¬ s.StepsOver w (i + 2) :=
  fun hover => h hover.2.1

theorem Vm.onPath_lo : s.OnPath w w.lo := by
  constructor
  · intro hover
    cases w with
    | page => exact hover
    | largePage => exact absurd hover.1 (by decide)
  · intro _ hover
    cases w with
    | page => exact hover
    | largePage => exact absurd hover.1 (by decide)

/-- The search goes on from the entry behind a present one. -/
theorem Vm.OnPath.present (h : s.OnPath w i) (hi : ¬ s.Absent w.table i) : s.OnPath w (i + 1) where
  here := h.next hi
  next _ := Vm.not_stepsOver_of_present hi

/-- The search steps over the entry behind the one that ends a run. -/
theorem Vm.OnPath.stepsOver (h : s.OnPath w i) (hlo : w.lo ≤ i) (hrun : s.AbsentRun w.table i (n + 1))
    (hend : ¬ s.Absent w.table (i + n + 1)) : s.StepsOver w (i + n + 2) := by
  refine ⟨by omega, hrun n (Nat.lt_succ_self n), hend, ?_⟩
  cases n with
  | zero => exact Or.inr h.here
  | succ n => exact Or.inl ⟨by omega, hrun n (by omega)⟩

/-- It goes on from the entry behind that. -/
theorem Vm.OnPath.run (h : s.OnPath w i) (hlo : w.lo ≤ i) (hrun : s.AbsentRun w.table i (n + 1))
    (hend : ¬ s.Absent w.table (i + n + 1)) : s.OnPath w (i + n + 3) where
  here := Vm.not_stepsOver_of_present hend
  next _ hover := by
    rcases hover.2.2.2 with ⟨_, habs⟩ | hnot
    · exact hend habs
    · exact hnot (h.stepsOver hlo hrun hend)

/-- The search finds the lowest hole unless it steps over its first entry. -/
theorem mapPagesScan_lowest (hnum : 1 ≤ num) (hfit : num ≤ pgTableEntries) {bound : Nat}
    (hbound : bound + num = w.hi + 1) (hleast : IsLeast {b | w.Hole s num b} a) :
    ∀ {fuel i : Nat} {r : Option Nat × Vm}, bound < fuel + i → w.lo ≤ i → i ≤ a → s.OnPath w i →
      mapPagesScan s w.table bound num (BitVec.ofNat 64 w.size) frame flags fuel i = .ok r →
        (r.1 = some a ↔ ¬ s.StepsOver w a) := by
  obtain ⟨⟨hlo, hin, hhole⟩, hleast⟩ := hleast
  have hhi := w.hi_le
  unfold pgTableEntries at hfit hhi
  intro fuel
  induction fuel with
  | zero => exact nofun
  | succ fuel ih =>
    intro i r hfuel hloi hia hpath h
    rcases mapPagesScan_round hnum (by omega) h with
      ⟨hge, _⟩ | ⟨hpresent, h⟩ | ⟨n, hpos, hlt, hrun, hend, h⟩ | ⟨s', rfl, _, hrun, _⟩
    · omega
    · have hne : i ≠ a := by
        rintro rfl
        exact hpresent (hhole 0 hnum)
      exact ih (by omega) (by omega) (by omega) (hpath.present hpresent) h
    · obtain ⟨n, rfl⟩ : ∃ m, n = m + 1 := ⟨n - 1, by omega⟩
      -- the present entry is no entry of the hole, so it lies before it
      have hbefore : i + (n + 1) < a := by
        by_contra hge
        apply hend
        have := hhole (i + (n + 1) - a) (by omega)
        rwa [Nat.add_sub_cancel' (not_lt.mp hge)] at this
      rcases Nat.lt_or_ge (i + (n + 1) + 1) a with hnext | hnext
      · exact ih (by omega) (by omega) (by omega) (hpath.run hloi hrun hend) h
      · obtain rfl : a = i + n + 2 := by omega
        refine iff_of_false ?_ (not_not.mpr (hpath.stepsOver hloi hrun hend))
        intro hr
        rcases mapPagesScan_spec s frame flags hnum (by unfold pgTableEntries; omega)
            (le_of_eq hbound) fuel (i + (n + 1) + 2) (by omega) (by omega) with
          hnone | ⟨k, s', hk, hle, _⟩
        · cases h.symm.trans hnone
          cases hr
        · cases h.symm.trans hk
          cases hr
          omega
    · obtain rfl : i = a := le_antisymm hia (hleast ⟨hloi, by omega, hrun⟩)
      exact iff_of_true rfl hpath.here

end Search

/-! ## The mapping functions -/

/-- The pages of a window have different addresses. -/
theorem Window.va_inj {w : Window} {i j : Nat} (h : w.va i = w.va j) : i = j := by
  rw [w.va_eq, w.va_eq] at h
  exact Nat.eq_of_mul_eq_mul_right (by cases w <;> decide) (Nat.add_left_cancel h)

/-- A call has taken the lowest hole of the window, and it has returned 0 and changed nothing if
there is none. -/
def Window.TakesLowest (w : Window) (s : Vm) (num : Nat) (frame flags : BitVec 64) (r : Nat × Vm) :
    Prop :=
  ((∀ a, ¬ w.Hole s num a) → r = (0, s)) ∧
    ∀ a, IsLeast {b | w.Hole s num b} a →
      r.1 = w.va a ∧ s.Frame r.2 w a num ∧ ∀ t < num, r.2.get w.table (a + t) = mapped w frame flags t

/-- **A call for several pages takes the lowest hole just if its search does not step over the first
entry of it.** -/
theorem mapPages_takesLowest_iff (w : Window) (s : Vm) (frame : BitVec 64) (num : Nat)
    (flags : BitVec 64) (hnum : 1 ≤ num) (hfit : num ≤ w.hi - w.lo) :
    (∃ r, w.mapPages s frame num flags = .ok r ∧ w.TakesLowest s num frame flags r) ↔
      ∀ a, IsLeast {b | w.Hole s num b} a → ¬ s.StepsOver w a := by
  have hhi := w.hi_le
  have hpages : num ≤ pgTableEntries := by omega
  have hbound : w.bound num + num = w.hi + 1 := by
    unfold pgTableEntries at hhi
    unfold Window.bound add64 sub64
    omega
  have hfuel : w.bound num < loopFuel + w.lo := by
    unfold pgTableEntries at hhi
    unfold loopFuel
    omega
  have hspec := mapPagesScan_spec s frame flags hnum hpages (le_of_eq hbound) loopFuel w.lo
    (by decide) hfuel
  constructor
  · rintro ⟨r, hr, _, htakes⟩ a ha
    obtain ⟨hva, _⟩ := htakes a ha
    rcases hspec with hnone | ⟨k, s', hk, _⟩
    · cases hr.symm.trans (Window.mapPages_of_run hnum hnone)
      exact absurd hva.symm (w.va_pos ha.1.1).ne'
    · cases hr.symm.trans (Window.mapPages_of_run hnum hk)
      obtain rfl : k = a := Window.va_inj hva
      exact (mapPagesScan_lowest hnum hpages hbound ha hfuel (le_refl w.lo) ha.1.1 Vm.onPath_lo hk).mp
        rfl
  · intro hover
    rcases hspec with hnone | ⟨k, s', hk, hlo, hin, habs, hframe, hget⟩
    · refine ⟨_, Window.mapPages_of_run hnum hnone, fun _ => rfl, ?_⟩
      intro a ha
      cases (mapPagesScan_lowest hnum hpages hbound ha hfuel (le_refl w.lo) ha.1.1 Vm.onPath_lo
        hnone).mpr (hover a ha)
    · refine ⟨_, Window.mapPages_of_run hnum hk, fun hnone => absurd ⟨hlo, hin, habs⟩ (hnone k), ?_⟩
      intro a ha
      cases (mapPagesScan_lowest hnum hpages hbound ha hfuel (le_refl w.lo) ha.1.1 Vm.onPath_lo
        hk).mpr (hover a ha)
      exact ⟨rfl, hframe, hget⟩

/-- Ten pages of the window, all free: the search takes the first. -/
theorem mapPages_takesLowest_blank : ∃ r,
    Window.largePage.mapPages blankTables 0x200000#64 4 3#64 = .ok r ∧
      Window.largePage.TakesLowest blankTables 4 0x200000#64 3#64 r := by
  apply (mapPages_takesLowest_iff Window.largePage blankTables 0x200000#64 4 3#64 (by decide)
    (by decide)).mpr
  rintro a - hover
  match a with
  | 0 => exact hover
  | 1 => exact hover
  | i + 2 => exact hover.2.2.1 (BitVec.zero_and : 0#64 &&& pgtP = 0#64)

/-- Tables with the entries 6, 8 and 9 of the 2MB window not present. -/
def spottedTables : Vm :=
  { entry := fun a =>
      if a = slot Window.largePage.table 6 ∨ a = slot Window.largePage.table 8 ∨
          a = slot Window.largePage.table 9 then 0#64
      else 3#64
    phys := Physical.boot }

/-- A call for two pages returns 0 although the entries 8 and 9 are not present: the search tries
entry 6, and then entry 9. -/
theorem mapPages_misses_hole :
    Window.largePage.mapPages spottedTables 0x200000#64 2 3#64 = .ok (0, spottedTables) ∧
      Window.largePage.Hole spottedTables 2 8 :=
  ⟨rfl, by decide, by decide, by decide⟩

end Rtv.Mm
