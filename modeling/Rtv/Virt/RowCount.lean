import Mathlib.Data.Finset.Card
import Rtv.Virt.Reported

/-!
# The number of rows of the memory map

`e820_table` has room for `E820_MAX_ENTRIES_ZEROPAGE` rows, and `virt_setup_e820` does not look at
that. How many rows it writes is the number of runs of free pages it reports, `Reports`, and one for
the ramdisk.
-/

namespace Rtv.Virt

open Rtv.Lib Rtv.Utils Rtv.Mm

/-- A run of free pages begins at page `p`, and gets a row: it begins behind the kernel and has the
large page at or behind `p`, or it begins in front of the end of the kernel and in the first MB. -/
def Reports (s : Physical) (kernelEnd p : Nat) : Prop :=
  s.Free p ∧ (∀ r < p, r + 1 = p → ¬ s.Free r) ∧
    (kernelEnd ≤ p * pgSize → ∀ q < largeUp p + 512, p ≤ q → s.Free q) ∧
    (p * pgSize < kernelEnd → p < 256)

instance (s : Physical) (kernelEnd : Nat) : DecidablePred (Reports s kernelEnd) :=
  fun _ => inferInstanceAs (Decidable (_ ∧ _ ∧ _ ∧ _))

/-- The page from which the row of a run counts. -/
def rowPage (kernelEnd p : Nat) : Nat := if kernelEnd ≤ p * pgSize then largeUp p else p

/-- The runs that get a row from page `c` on. -/
def reported (s : Physical) (kernelEnd c : Nat) : Finset Nat :=
  (Finset.range (64 * mmTableMax)).filter fun p => Reports s kernelEnd p ∧ c ≤ rowPage kernelEnd p

section Count

variable {s : Physical} {kernelEnd c p q x y num : Nat} {rows : List E820Entry}

theorem mem_reported : x ∈ reported s kernelEnd c ↔ Reports s kernelEnd x ∧ c ≤ rowPage kernelEnd x := by
  unfold reported
  rw [Finset.mem_filter, Finset.mem_range]
  exact and_iff_right_of_imp fun h => h.1.1.lt

theorem largeUp_largeUp (p : Nat) : largeUp (largeUp p) = largeUp p := by
  unfold largeUp
  omega

theorem le_rowPage (p : Nat) : p ≤ rowPage kernelEnd p := by
  have := (le_largeUp p).1
  unfold rowPage
  split_ifs <;> omega

/-- Every free page is in a run. -/
theorem exists_runOf (hq : s.Free q) : ∃ p, RunOf s p q := by
  induction q with
  | zero =>
    refine ⟨0, le_refl 0, fun r _ hr => ?_, fun r hr => by omega⟩
    rwa [Nat.le_zero.mp hr]
  | succ q ih =>
    by_cases hprev : s.Free q
    · obtain ⟨p, hp⟩ := ih hprev
      refine ⟨p, Nat.le_succ_of_le hp.le, fun r hr hr' => ?_, hp.begins⟩
      rcases Nat.lt_or_ge q r with hlt | hge
      · rwa [show r = q + 1 by omega]
      · exact hp.free r hr hge
    · refine ⟨q + 1, le_refl _, fun r hr hr' => ?_, fun r hr => ?_⟩
      · rwa [show r = q + 1 by omega]
      · rwa [show r = q by omega]

theorem RunOf.eq (hx : RunOf s x q) (hy : RunOf s y q) : x = y := by
  have hxq := hx.le
  have hyq := hy.le
  by_contra hne
  rcases Nat.lt_or_gt_of_ne hne with hlt | hlt
  · exact hy.begins (y - 1) (by omega) (hx.free _ (by omega) (by omega))
  · exact hx.begins (x - 1) (by omega) (hy.free _ (by omega) (by omega))

/-- Where the walk goes on in the middle of a run, that is at a large page behind the kernel. It
has written the row of that run, and there is no large page left in it; or it comes to the first
large page of the run, and has not seen the pages in front of it. -/
def Midway (s : Physical) (kernelEnd c : Nat) : Prop :=
  s.Free c → ∀ r, r + 1 = c → s.Free r → kernelEnd ≤ c * pgSize ∧ largeUp c = c ∧
    ((∃ q, c ≤ q ∧ q < c + 512 ∧ ¬ s.Free q) ∨
      ∃ x, RunOf s x c ∧ kernelEnd ≤ x * pgSize ∧ largeUp x = c)

theorem midway_resumePage (hlimit : ∀ p, s.Free p → p < s.mmLimit) (h : FirstRun s c p num) :
    Midway s kernelEnd (resumePage kernelEnd p num) := by
  intro hfree r hr hr'
  have hend := h.not_free hlimit
  have hpos := h.pos
  have hup := le_largeUp p
  by_cases habove : kernelEnd ≤ p * pgSize
  · have hlt := @lt_resumePage kernelEnd p num hpos
    refine ⟨Nat.le_trans habove (Nat.mul_le_mul_right _ hlt.le), ?_⟩
    unfold resumePage at hfree hr ⊢
    rw [if_pos habove] at hfree hr ⊢
    by_cases hnone : largeIn p num = 0
    · rw [if_pos hnone] at hfree hr ⊢
      rcases Nat.lt_or_ge (p + num) (largeUp p) with hover | hin
      · -- the run has no large page, and the walk steps over the beginning of the next run
        rw [max_eq_left hover.le] at hfree hr ⊢
        obtain ⟨x, hx⟩ := exists_runOf hfree
        have hbehind : p + num < x := by
          by_contra hle
          exact hend (hx.free _ (by omega) hover.le)
        have hxle := hx.le
        have hxup : largeUp x = largeUp p := by
          unfold largeUp at *
          omega
        refine ⟨largeUp_largeUp p, Or.inr ⟨x, hx, ?_, hxup⟩⟩
        exact Nat.le_trans habove (Nat.mul_le_mul_right _ (by omega))
      · rw [max_eq_right hin] at hfree
        exact absurd hfree hend
    · rw [if_neg hnone] at hfree hr ⊢
      unfold largeIn at hnone ⊢
      refine ⟨?_, Or.inl ⟨p + num, by omega, by omega, hend⟩⟩
      unfold largeUp
      omega
  · unfold resumePage at hfree
    rw [if_neg habove] at hfree
    exact absurd hfree hend

/-- Which runs get a row. -/
theorem runRow_ne_nil : runRow kernelEnd c p num ≠ [] ↔
    (kernelEnd ≤ p * pgSize → 0 < largeIn p num) ∧ (p * pgSize < kernelEnd → p < 256) := by
  unfold runRow linuxEntryPoint pgSize
  split_ifs <;> simp <;> omega

theorem runRow_length : (runRow kernelEnd c p num).length ≤ 1 := by
  unfold runRow
  split_ifs <;> simp

/-- A row that counts from a page behind a run is not passed with it. -/
theorem resumePage_le_rowPage (hy : p + num ≤ y) :
    resumePage kernelEnd p num ≤ rowPage kernelEnd y := by
  unfold resumePage rowPage largeIn largeUp pgSize
  split_ifs <;> omega

/-- A run that begins in front of page `c` and counts behind it goes on behind `c`. -/
theorem free_of_reported (hy : y ∈ reported s kernelEnd c) (hlt : y < c) :
    kernelEnd ≤ y * pgSize ∧ c ≤ largeUp y ∧ ∀ q, y ≤ q → q < largeUp y + 512 → s.Free q := by
  obtain ⟨⟨_, _, habove, _⟩, hc⟩ := mem_reported.mp hy
  unfold rowPage at hc
  split_ifs at hc with hkernel
  · exact ⟨hkernel, hc, fun q hle hq => habove hkernel q hq hle⟩
  · omega

/-- A run whose row counts from the pages between two rounds on is the one found in between. -/
theorem runOf_of_reported (hlimit : ∀ p, s.Free p → p < s.mmLimit) (h : FirstRun s c p num)
    (hy : y ∈ reported s kernelEnd c) (hlt : rowPage kernelEnd y < resumePage kernelEnd p num) :
    RunOf s y p ∧ runRow kernelEnd c p num ≠ [] := by
  obtain ⟨⟨hfree, hbegins, habove, hbelow⟩, hc⟩ := mem_reported.mp hy
  have hend := h.not_free hlimit
  have hle := h.le
  have hbegins' : ∀ r, r + 1 = y → ¬ s.Free r := fun r hr => hbegins r (by omega) hr
  rw [runRow_ne_nil]
  rcases Nat.lt_trichotomy y p with hyp | rfl | hyp
  · -- the walk is at the first large page of the run
    have hyc : y < c := by
      by_contra hge
      exact h.skipped y (not_lt.mp hge) hyp hfree
    obtain ⟨hkernel, hcup, hall⟩ := free_of_reported hy hyc
    obtain rfl : c = p := by
      by_contra hne
      exact h.skipped c (le_refl c) (by omega) (hall c hyc.le (by omega))
    refine ⟨⟨hyp.le, fun r hr hr' => hall r hr (by omega), hbegins'⟩, fun _ => ?_, fun hfront => ?_⟩
    · have hup : largeUp c = largeUp y := by
        unfold largeUp at *
        omega
      by_contra hnone
      unfold largeIn at hnone
      exact hend (hall _ (by omega) (by omega))
    · unfold pgSize at *
      omega
  · refine ⟨⟨le_refl y, fun r hr hr' => ?_, hbegins'⟩, fun hkernel => ?_, hbelow⟩
    · rwa [le_antisymm hr' hr]
    · by_contra hnone
      unfold largeIn at hnone
      exact hend (habove hkernel _ (by omega) (by omega))
  · rcases Nat.lt_or_ge y (p + num) with hin | hout
    · exact absurd (h.free (y - 1) (by omega) (by omega)) (hbegins' (y - 1) (by omega))
    · exact absurd (@resumePage_le_rowPage kernelEnd p y num hout) (by omega)

/-- The run that was found counts in between, if it gets a row. -/
theorem reported_of_runOf (h : FirstRun s c p num) (hmid : Midway s kernelEnd c) (hx : RunOf s x p)
    (hrow : runRow kernelEnd c p num ≠ []) :
    x ∈ reported s kernelEnd c ∧ rowPage kernelEnd x < resumePage kernelEnd p num := by
  obtain ⟨hlarge, hbelow⟩ := runRow_ne_nil.mp hrow
  have hpos := h.pos
  have hle := h.le
  have hxp := hx.le
  have hlt := @lt_resumePage kernelEnd p num hpos
  have hxfree := hx.free x (le_refl x) hxp
  have hbegins : ∀ r < x, r + 1 = x → ¬ s.Free r := fun r _ => hx.begins r
  rcases Nat.eq_or_lt_of_le hxp with rfl | hxp
  · refine ⟨mem_reported.mpr ⟨⟨hxfree, hbegins, fun hkernel q hq hxq => ?_, hbelow⟩, ?_⟩, ?_⟩
    · have := hlarge hkernel
      unfold largeIn at this
      exact h.free q hxq (by omega)
    · exact Nat.le_trans hle (le_rowPage x)
    · unfold rowPage resumePage
      split_ifs with hkernel hnone
      · exact absurd (hlarge hkernel) (by omega)
      · omega
      · omega
  · obtain rfl : c = p := by
      by_contra hne
      exact h.skipped (p - 1) (by omega) (by omega) (hx.free _ (by omega) (by omega))
    obtain ⟨hkernel, hup, hrest⟩ :=
      hmid h.firstFree.2.1 (c - 1) (by omega) (hx.free _ (by omega) (by omega))
    have hmany := hlarge hkernel
    unfold largeIn at hmany
    rw [hup] at hmany
    rcases hrest with ⟨q, hq, hq', hnot⟩ | ⟨x', hx', hkernel', hup'⟩
    · exact absurd (h.free q hq (by omega)) hnot
    · obtain rfl := hx.eq hx'
      refine ⟨mem_reported.mpr ⟨⟨hxfree, hbegins, fun _ q hq hxq => ?_, fun hfront => ?_⟩, ?_⟩, ?_⟩
      · rcases Nat.lt_or_ge q c with hqc | hqc
        · exact hx.free q hxq hqc.le
        · exact h.free q hqc (by omega)
      · omega
      · rw [rowPage, if_pos hkernel', hup']
      · rw [rowPage, if_pos hkernel', hup']
        exact hlt

/-- **The walk writes a row for each run it reports.** -/
theorem HandsOver.length (hlimit : ∀ p, s.Free p → p < s.mmLimit)
    (h : HandsOver s kernelEnd c rows) :
    Midway s kernelEnd c → rows.length = (reported s kernelEnd c).card := by
  induction h with
  | @done c hnone =>
    intro _
    symm
    rw [List.length_nil, Finset.card_eq_zero, Finset.eq_empty_iff_forall_notMem]
    intro y hy
    have hfree := (mem_reported.mp hy).1.1
    rcases Nat.lt_or_ge y c with hlt | hge
    · obtain ⟨_, hcup, hall⟩ := free_of_reported hy hlt
      have hc := hall c hlt.le (by omega)
      exact hnone c (le_refl c) (hlimit c hc) hc
    · exact hnone y hge (hlimit y hfree) hfree
  | @next c p num rows hrun _ ih =>
    intro hmid
    obtain ⟨x, hx⟩ := exists_runOf hrun.firstFree.2.1
    have hsub : ∀ y, y ∈ reported s kernelEnd (resumePage kernelEnd p num) →
        y ∈ reported s kernelEnd c := by
      intro y hy
      obtain ⟨hy, hle⟩ := mem_reported.mp hy
      have := @lt_resumePage kernelEnd p num hrun.pos
      have := hrun.le
      exact mem_reported.mpr ⟨hy, by omega⟩
    rw [List.length_append, ih (midway_resumePage hlimit hrun)]
    by_cases hrow : runRow kernelEnd c p num = []
    · rw [hrow, List.length_nil, Nat.zero_add]
      refine congrArg Finset.card (Finset.ext fun y => ?_)
      refine ⟨hsub y, fun hy => mem_reported.mpr ⟨(mem_reported.mp hy).1, ?_⟩⟩
      by_contra hlt
      exact (runOf_of_reported hlimit hrun hy (not_le.mp hlt)).2 hrow
    · have hone : (runRow kernelEnd c p num).length = 1 := by
        have := @runRow_length kernelEnd c p num
        have := List.length_pos_iff.mpr hrow
        omega
      obtain ⟨hxc, hxlt⟩ := reported_of_runOf hrun hmid hx hrow
      have hfresh : x ∉ reported s kernelEnd (resumePage kernelEnd p num) :=
        fun hx' => absurd (mem_reported.mp hx').2 (by omega)
      rw [hone, Nat.add_comm, ← Finset.card_insert_of_notMem hfresh]
      refine congrArg Finset.card (Finset.ext fun y => ?_)
      rw [Finset.mem_insert]
      constructor
      · rintro (rfl | hy)
        · exact hxc
        · exact hsub y hy
      · intro hy
        by_cases hle : resumePage kernelEnd p num ≤ rowPage kernelEnd y
        · exact Or.inr (mem_reported.mpr ⟨(mem_reported.mp hy).1, hle⟩)
        · exact Or.inl ((runOf_of_reported hlimit hrun hy (not_le.mp hle)).1.eq hx)

end Count

/-- The rows fit the table: the `i`-th row is written to the index `i`, which is inside the table. -/
def RowsFit (table : List (Nat × E820Entry)) : Prop :=
  table.length ≤ e820MaxEntriesZeropage ∧ (∀ row ∈ table, row.1 < e820MaxEntriesZeropage) ∧
    table.map Prod.fst = List.range table.length

/-- The number of rows of a walk. -/
theorem e820_rows {s : Physical} {hdr : SetupHeader} {zeroFrame cmdFrame : Nat}
    (hr : Ready s hdr zeroFrame cmdFrame) (kernelSize : Nat) : ∃ table s',
      virtSetupE820 s hdr kernelSize = .ok (table, s') ∧
      table.length = (reported s (add64 linuxEntryPoint kernelSize) 0).card + 1 ∧
      table.map Prod.fst = (List.range table.length).map (· % 256) := by
  obtain ⟨w, _, hloop, hrows, hmerge⟩ := e820Loop_rows hr (add64 linuxEntryPoint kernelSize)
  obtain ⟨rows, hover, hheld⟩ :=
    e820Loop_rows_handsOver (fun q hq => hr.framesTaken.two_le hq) hloop
  refine ⟨_, _, virtSetupE820_of_loop hloop, ?_, hrows.index⟩
  have hlen := hheld.length_eq
  rw [hmerge] at hlen
  rw [← hover.length hr.limit fun _ r hr => absurd hr (by omega)]
  simpa using hlen

/-- **The rows fit the table just if no more runs are reported than there is room for beside the
ramdisk.** -/
theorem e820_fits_iff {s : Physical} {hdr : SetupHeader} {zeroFrame cmdFrame : Nat}
    (hr : Ready s hdr zeroFrame cmdFrame) (kernelSize : Nat) :
    (∃ table s', virtSetupE820 s hdr kernelSize = .ok (table, s') ∧ RowsFit table) ↔
      (reported s (add64 linuxEntryPoint kernelSize) 0).card < e820MaxEntriesZeropage := by
  obtain ⟨table, s', hrun, hlen, hindex⟩ := e820_rows hr kernelSize
  constructor
  · rintro ⟨table', s'', hrun', hfit, _⟩
    cases hrun.symm.trans hrun'
    omega
  · intro hfew
    have hrange : table.map Prod.fst = List.range table.length := by
      rw [hindex]
      refine (List.map_congr_left fun i hi => ?_).trans (List.map_id _)
      have hlt := List.mem_range.mp hi
      unfold e820MaxEntriesZeropage at hfew
      exact Nat.mod_eq_of_lt (by omega)
    refine ⟨table, s', hrun, by omega, fun row hrow => ?_, hrange⟩
    have hmem := List.mem_map_of_mem (f := Prod.fst) hrow
    rw [hrange, List.mem_range] at hmem
    omega

/-- One run behind the kernel, and the ramdisk. -/
theorem e820_fits_one : ∃ table s',
    virtSetupE820 (largeTable (· == 2) 4) oneByteRamdisk 0x200000 = .ok (table, s') ∧
      RowsFit table := by
  have hr := @largeTable_ready (· == 2) 4 (by decide) (by decide) rfl rfl
  have hfree := fun p => @largeTable_free (· == 2) 4 p (by decide)
  refine (e820_fits_iff hr 0x200000).mpr ?_
  have hsub : reported (largeTable (· == 2) 4) (add64 linuxEntryPoint 0x200000) 0 ⊆ {1024} := by
    intro y hy
    obtain ⟨⟨hy, hbegins, _⟩, _⟩ := mem_reported.mp hy
    have hpage := beq_iff_eq.mp ((hfree y).mp hy).2
    rw [Finset.mem_singleton]
    by_contra hne
    refine hbegins (y - 1) (by omega) (by omega) ((hfree _).mpr ⟨by omega, ?_⟩)
    exact beq_iff_eq.mpr (by omega)
  exact Nat.lt_of_le_of_lt (Finset.card_le_card hsub) (by decide)

/-- Every second large page, 128 of them in all. -/
def everySecond : Physical := largeTable (fun b => 2 ≤ b && b % 2 == 0) 258

/-- Memory of which every second large page is free: there is no room for the last row. -/
theorem e820_overruns : ∃ table s',
    virtSetupE820 everySecond oneByteRamdisk 0x200000 = .ok (table, s') ∧ ¬ RowsFit table := by
  have hr : Ready everySecond oneByteRamdisk 1 2 :=
    largeTable_ready (by decide) (by decide) rfl rfl
  have hfree : ∀ p, everySecond.Free p ↔ p < 512 * 258 ∧ 2 ≤ p / 512 ∧ p / 512 % 2 = 0 := by
    intro p
    refine (largeTable_free (by decide)).trans (and_congr_right fun _ => ?_)
    simp
  obtain ⟨table, s', hrun, hlen, _⟩ := e820_rows hr 0x200000
  refine ⟨table, s', hrun, fun hfit => ?_⟩
  have hsub : (Finset.range 128).image (fun i => 512 * (2 * i + 2)) ⊆
      reported everySecond (add64 linuxEntryPoint 0x200000) 0 := by
    intro y hy
    obtain ⟨i, hi, rfl⟩ := Finset.mem_image.mp hy
    have hlt := Finset.mem_range.mp hi
    refine mem_reported.mpr ⟨⟨(hfree _).mpr ?_, fun r _ hr' => ?_, fun _ q hq hq' => ?_, ?_⟩,
      Nat.zero_le _⟩
    · omega
    · rw [hfree]
      omega
    · unfold largeUp at hq
      exact (hfree _).mpr (by omega)
    · have hkernel : add64 linuxEntryPoint 0x200000 = 0x300000 := by decide
      unfold pgSize
      omega
  have hcard := Finset.card_le_card hsub
  rw [Finset.card_image_of_injective _ fun i j hij => by omega, Finset.card_range] at hcard
  have := hfit.1
  unfold e820MaxEntriesZeropage at this
  omega

end Rtv.Virt
