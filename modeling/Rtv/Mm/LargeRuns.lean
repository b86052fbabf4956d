import Rtv.Mm.Presence
import Rtv.Mm.WindowBounds

/-!
# Searches over known entries

When `vm_map_large_pages` finds a run, for entries that are present from the start of the 2MB window up
to the run: the run is short enough to end in the window, or so long that the bound of the search
wraps.
-/

namespace Rtv.Mm

open Rtv.Lib

section Search

variable {s : Vm} {table : BitVec 64}

/-- The counting loop passes over a run that ends where it has to stop. -/
theorem countAbsent_whole : ∀ {m fuel j count : Nat}, m < fuel → count ≤ j →
    (∀ t < m, Reaches table (j + t)) → s.AbsentRun table j m →
      countAbsent s table (j + m) fuel j count = .ok (j + m, count + m) := by
  intro m
  induction m with
  | zero => exact fun hfuel _ _ _ => countAbsent_end le_rfl hfuel
  | succ m ih =>
    intro fuel j count hfuel hcount hreach hrun
    obtain ⟨fuel, rfl⟩ : ∃ f, fuel = f + 1 := ⟨fuel - 1, by omega⟩
    have hj : Reaches table j := hreach 0 (Nat.succ_pos m)
    have hsmall : j < 2 ^ 61 := by
      unfold Reaches at hj
      omega
    have habs : s.Absent table j := hrun 0 (Nat.succ_pos m)
    have hnext : j + (m + 1) = j + 1 + m := by omega
    have hreach' : ∀ t < m, Reaches table (j + 1 + t) := by
      intro t ht
      have := hreach (t + 1) (Nat.succ_lt_succ ht)
      rwa [Nat.add_comm t, ← Nat.add_assoc] at this
    rw [countAbsent, if_pos (by omega), if_neg (not_not.mpr hj), if_pos habs, add64_of_lt (by omega),
      add64_of_lt (by omega), hnext, ih (by omega) (by omega) hreach' hrun.tail]
    congr 2
    omega

/-- The filling loop returns. -/
theorem fillEntries_returns {size flags : BitVec 64} : ∀ {m fuel j : Nat} (s : Vm) (frame : BitVec 64),
    m < fuel → j + m < 2 ^ 64 → ∃ s', fillEntries table (j + m) size flags fuel s j frame = .ok s' := by
  intro m
  induction m with
  | zero =>
    intro fuel j s frame hfuel _
    obtain ⟨fuel, rfl⟩ : ∃ f, fuel = f + 1 := ⟨fuel - 1, by omega⟩
    rw [fillEntries, if_neg (by omega)]
    exact ⟨s, rfl⟩
  | succ m ih =>
    intro fuel j s frame hfuel hsmall
    obtain ⟨fuel, rfl⟩ : ∃ f, fuel = f + 1 := ⟨fuel - 1, by omega⟩
    have hnext : j + (m + 1) = j + 1 + m := by omega
    rw [fillEntries, if_pos (by omega), add64_of_lt (by omega), hnext]
    exact ih _ _ (by omega) (by omega)

variable {bound num : Nat} {size frame flags : BitVec 64}

/-- The searching loop steps over entries that are present. -/
theorem mapPagesScan_present : ∀ {k fuel i : Nat}, i + k ≤ bound → (∀ t < k, Reaches table (i + t)) →
    (∀ t < k, ¬ s.Absent table (i + t)) →
      mapPagesScan s table bound num size frame flags (fuel + k) i =
        mapPagesScan s table bound num size frame flags fuel (i + k) := by
  intro k
  induction k with
  | zero => exact fun _ _ _ => rfl
  | succ k ih =>
    intro fuel i hbound hreach hpresent
    have hi : Reaches table i := hreach 0 (Nat.succ_pos k)
    have hsmall : i < 2 ^ 61 := by
      unfold Reaches at hi
      omega
    have hnext : ∀ t, i + (t + 1) = i + 1 + t := by omega
    have hfirst : ¬ s.Absent table i := hpresent 0 (Nat.succ_pos k)
    rw [← Nat.add_assoc, mapPagesScan, if_pos (by omega), if_neg (not_not.mpr hi), if_neg hfirst,
      add64_of_lt (by omega), hnext k]
    apply ih
    · omega
    · intro t ht
      rw [← hnext]
      exact hreach (t + 1) (Nat.succ_lt_succ ht)
    · intro t ht
      rw [← hnext]
      exact hpresent (t + 1) (Nat.succ_lt_succ ht)

/-- It takes a run that it comes to. -/
theorem mapPagesScan_take {fuel i : Nat} (hnum : 1 ≤ num) (hbound : i < bound)
    (hreach : ∀ t < num, Reaches table (i + t)) (hrun : s.AbsentRun table i num) (hnum' : num < 2 ^ 32) :
    ∃ s', mapPagesScan s table bound num size frame flags (fuel + 1) i = .ok (some i, s') := by
  obtain ⟨m, rfl⟩ : ∃ m, num = m + 1 := ⟨num - 1, by omega⟩
  have hi : Reaches table i := hreach 0 (Nat.succ_pos m)
  have hsmall : i < 2 ^ 61 := by
    unfold Reaches at hi
    omega
  have habs : s.Absent table i := hrun 0 (Nat.succ_pos m)
  have hreach' : ∀ t < m, Reaches table (i + 1 + t) := by
    intro t ht
    have := hreach (t + 1) (Nat.succ_lt_succ ht)
    rwa [Nat.add_comm t, ← Nat.add_assoc] at this
  have hfuel : m + 1 < loopFuel := by
    unfold loopFuel
    omega
  have hcount : countAbsent s table (i + (m + 1)) loopFuel (i + 1) 1 = .ok (i + (m + 1), m + 1) := by
    have hnext : i + (m + 1) = i + 1 + m := by omega
    rw [hnext, countAbsent_whole (by omega) (by omega) hreach' hrun.tail, Nat.add_comm 1 m]
  obtain ⟨s', hfill⟩ := @fillEntries_returns table size flags (m + 1) loopFuel i s frame hfuel (by omega)
  refine ⟨s', ?_⟩
  rw [mapPagesScan, if_pos hbound, if_neg (not_not.mpr hi), if_pos habs, add64_of_lt (by omega),
    add64_of_lt (by omega), hcount, Exec.ok_bind]
  dsimp only
  rw [if_pos rfl, hfill]
  rfl

/-- A search for one page that finds nothing: all entries are present. -/
theorem mapPageScan_none {stop : Nat} {e : BitVec 64} {s' : Vm} : ∀ {fuel i : Nat},
    mapPageScan s table stop e fuel i = .ok (none, s') → ∀ k, i ≤ k → k < stop → ¬ s.Absent table k := by
  intro fuel
  induction fuel with
  | zero => exact nofun
  | succ fuel ih =>
    intro i h k hlo hhi
    rw [mapPageScan] at h
    split_ifs at h with hi habs
    · cases h
    · rcases Nat.eq_or_lt_of_le hlo with rfl | hlt
      · exact habs
      · exact ih h k hlt hhi
    · omega

end Search

/-- With an entry that is not present, `vm_map_page` returns a page. -/
theorem vmMapPage_ne_null {s s' : Vm} {frame flags : BitVec 64} {va k : Nat} (hk : k < pgTableEntries)
    (habs : s.Absent Window.page.table k) (h : vmMapPage s frame flags = .ok (va, s')) : va ≠ 0 := by
  rw [vmMapPage, page_table, Exec.ok_bind] at h
  obtain ⟨⟨found, t⟩, hscan, h⟩ := Exec.bind_eq_ok.mp h
  cases found with
  | none => exact absurd habs (mapPageScan_none hscan k (Nat.zero_le k) hk)
  | some i =>
    cases h
    exact Nat.ne_of_gt (Window.page.va_pos (Nat.zero_le i))

/-- **A run of large pages that is found**: it comes after `k` entries that are present, and ends in the
window or has more entries than the window. -/
theorem vmMapLargePages_at {s : Vm} (frame flags : BitVec 64) {k num : Nat} (hnum : 1 ≤ num)
    (hfit : k + num ≤ 10 ∨ 18 ≤ num) (hk : k < 2 ^ 16) (hnum' : num < 2 ^ 16)
    (hpresent : ∀ t < k, ¬ s.Absent Window.largePage.table (6 + t))
    (hrun : s.AbsentRun Window.largePage.table (6 + k) num) :
    ∃ s', vmMapLargePages s frame num flags = .ok ((6 + k) <<< largePgBits, s') := by
  have hbound : 6 + k < add64 (sub64 (lgPgLimit >>> largePgBits) num) 1 := by
    have hlimit : lgPgLimit >>> largePgBits = 16 := by decide
    rw [hlimit]
    unfold add64 sub64
    omega
  have hreach : ∀ t, t < 2 ^ 17 → Reaches Window.largePage.table (6 + t) := by
    intro t ht
    rw [reaches_large]
    unfold pdtReach
    omega
  obtain ⟨fuel, hfuel⟩ : ∃ f, loopFuel = f + 1 + k := ⟨loopFuel - 1 - k, by unfold loopFuel; omega⟩
  obtain ⟨s', hscan⟩ := @mapPagesScan_take s Window.largePage.table
    (add64 (sub64 (lgPgLimit >>> largePgBits) num) 1) num (BitVec.ofNat 64 largePgSize) frame flags fuel
    (6 + k) hnum hbound (fun t ht => by
      rw [Nat.add_assoc]
      exact hreach (k + t) (by omega)) hrun (by omega)
  refine ⟨s', ?_⟩
  have hstart : lgPgBase >>> largePgBits = 6 := by decide
  rw [vmMapLargePages, if_neg (by omega), largePage_table, Exec.ok_bind]
  dsimp only
  rw [hstart, hfuel, mapPagesScan_present (by omega) (fun t ht => hreach t (by omega)) hpresent, hscan]
  rfl

end Rtv.Mm
