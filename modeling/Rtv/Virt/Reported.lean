import Rtv.Virt.HandedRuns

/-!
# What the memory map reports

The rows of `virt_setup_e820` against the pages that were free at the call: which pages the guest is
told it has, which large pages above its kernel it is not told of, and how many rows there are.
-/

namespace Rtv.Virt

open Rtv.Lib Rtv.Utils Rtv.Mm

/-! ## The pages of the rows -/

section Pages

variable {s : Physical} {hdr : SetupHeader} {kernelEnd c p num q : Nat} {rows : List E820Entry}
  {e : E820Entry}

/-- The pages of a row are pages of its run, or the two pages in front of the first run. -/
theorem runRow_touches (hfirst : c = 0 → 2 ≤ p) (he : e ∈ runRow kernelEnd c p num)
    (hq : Touches e.addr e.stop q) : p ≤ q ∧ q < p + num ∨
      c = 0 ∧ p * pgSize < kernelEnd ∧ p < 256 ∧ (q + 1 = p ∨ q + 2 = p) := by
  have hup := le_largeUp p
  unfold runRow at he
  unfold linuxEntryPoint pgSize at he
  unfold pgSize
  split_ifs at he with h1 h2 h3 h4
  · cases he
  · obtain rfl := List.mem_singleton.mp he
    simp only [Touches, E820Entry.stop, pgSize, largePgSize] at hq
    unfold largeIn at hq h2
    omega
  · cases he
  · obtain rfl := List.mem_singleton.mp he
    have := hfirst h4
    simp only [Touches, E820Entry.stop, pgSize] at hq
    omega
  · obtain rfl := List.mem_singleton.mp he
    simp only [Touches, E820Entry.stop, pgSize] at hq
    omega

/-- Behind the first run, only pages that are free and come after the cursor are reported. -/
theorem HandsOver.free (h : HandsOver s kernelEnd c rows) (hc : 0 < c) :
    ∀ e ∈ rows, ∀ q, Touches e.addr e.stop q → c ≤ q ∧ s.Free q := by
  induction h with
  | done _ => exact fun e he => absurd he List.not_mem_nil
  | @next c p num rows hrun _ ih =>
    intro e he q hq
    rcases List.mem_append.mp he with he | he
    · rcases runRow_touches (fun hzero => absurd hzero hc.ne') he hq with ⟨hle, hlt⟩ | ⟨hzero, _⟩
      · exact ⟨Nat.le_trans hrun.le hle, hrun.free q hle hlt⟩
      · exact absurd hzero hc.ne'
    · have hlt := @lt_resumePage kernelEnd p num hrun.pos
      have hle := hrun.le
      obtain ⟨hresume, hfree⟩ := ih (by omega) e he q hq
      exact ⟨by omega, hfree⟩

/-- The first run is written with the two pages in front of it, if it begins in the first MB. -/
theorem runRow_front (hp : 2 ≤ p) (hkernel : p * pgSize < kernelEnd) (hlow : p < 256)
    (hq : q + 1 = p ∨ q + 2 = p) :
    ∃ e ∈ runRow kernelEnd 0 p num, Touches e.addr e.stop q := by
  unfold pgSize at hkernel
  refine ⟨⟨(p - 2) * pgSize, (num + 2) * pgSize, e820Ram⟩, ?_, ?_⟩
  · unfold runRow
    rw [if_neg (by unfold pgSize; omega), if_neg (by unfold linuxEntryPoint pgSize; omega), if_pos rfl]
    exact List.mem_singleton_self _
  · simp only [Touches, E820Entry.stop, pgSize]
    omega

end Pages

/-- The state in which `virt_setup_linux` has taken its two frames: the free pages lie below the
limit and above the two frames, which were the lowest free ones. -/
structure FramesTaken (s : Physical) (zeroFrame cmdFrame : Nat) : Prop where
  limit : ∀ p, s.Free p → p < s.mmLimit
  zero_pos : 0 < zeroFrame
  zero_lt : zeroFrame < cmdFrame
  lowmem : cmdFrame < 256
  lowest : ∀ p, s.Free p → cmdFrame < p

/-- A page that the guest may have: it was free, or it is one of the two frames or of the ramdisk,
which is where the header says. The header has 32 bits for its address: a ramdisk that
`virt_setup_linux` has placed from 4GB on is elsewhere. -/
def GuestPage (s : Physical) (hdr : SetupHeader) (zeroFrame cmdFrame p : Nat) : Prop :=
  s.Free p ∨ p = zeroFrame ∨ p = cmdFrame ∨
    Touches (ramdiskEntry hdr).addr (ramdiskEntry hdr).stop p

theorem FramesTaken.three_le {s : Physical} {zeroFrame cmdFrame : Nat}
    (h : FramesTaken s zeroFrame cmdFrame) {q : Nat} (hq : s.Free q) : 3 ≤ q := by
  have := h.lowest q hq
  have := h.zero_pos
  have := h.zero_lt
  omega

/-- There are two pages in front of a free one. -/
theorem FramesTaken.two_le {s : Physical} {zeroFrame cmdFrame : Nat}
    (h : FramesTaken s zeroFrame cmdFrame) {q : Nat} (hq : s.Free q) : 2 ≤ q :=
  Nat.le_of_succ_le (h.three_le hq)

/-- The two pages in front of the first free run are reported. -/
theorem e820_reports_front {s s' : Physical} {hdr : SetupHeader} {zeroFrame cmdFrame kernelSize : Nat}
    {table : List (Nat × E820Entry)} (hs : FramesTaken s zeroFrame cmdFrame)
    (hrun : virtSetupE820 s hdr kernelSize = .ok (table, s')) {p q : Nat} (hp : FirstFree s 0 p)
    (hkernel : p * pgSize < add64 linuxEntryPoint kernelSize) (hfirst : p < 256)
    (hq : q + 1 = p ∨ q + 2 = p) : ∃ e ∈ table.map Prod.snd, Touches e.addr e.stop q := by
  obtain ⟨rows, merged, hrows, hperm⟩ :=
    virtSetupE820_handsOver (fun q hq => hs.two_le hq) hrun
  cases hrows with
  | done hnone => exact absurd hp.2.1 (hnone p (Nat.zero_le p) (hs.limit p hp.2.1))
  | next hfound hrest =>
    obtain rfl := hp.eq hfound.firstFree
    obtain ⟨e, he, htouch⟩ :=
      runRow_front (hs.two_le hp.2.1) hkernel hfirst hq
    exact ⟨e, hperm.mem_iff.mpr (List.mem_append_left _ (List.mem_append_left _ he)), htouch⟩

/-- **The rows report guest pages only just if the two pages in front of the first free run are
guest pages**, or that run does not begin below both 1MB and the end of the kernel. -/
theorem e820_reports_iff {s s' : Physical} {hdr : SetupHeader} {zeroFrame cmdFrame kernelSize : Nat}
    {table : List (Nat × E820Entry)} (hs : FramesTaken s zeroFrame cmdFrame)
    (hrun : virtSetupE820 s hdr kernelSize = .ok (table, s')) :
    (∀ e ∈ table.map Prod.snd, ∀ p, Touches e.addr e.stop p →
      GuestPage s hdr zeroFrame cmdFrame p) ↔
    ∀ p, FirstFree s 0 p → p * pgSize < add64 linuxEntryPoint kernelSize → p < 256 →
      GuestPage s hdr zeroFrame cmdFrame (p - 1) ∧ GuestPage s hdr zeroFrame cmdFrame (p - 2) := by
  obtain ⟨rows, merged, hrows, hperm⟩ :=
    virtSetupE820_handsOver (fun q hq => hs.two_le hq) hrun
  have hmem : ∀ e, e ∈ table.map Prod.snd → e ∈ rows ∨ e = ramdiskEntry hdr := by
    intro e he
    rcases List.mem_append.mp (hperm.mem_iff.mp he) with he | he
    · exact Or.inl he
    · cases merged with
      | true => cases he
      | false => exact Or.inr (List.mem_singleton.mp he)
  constructor
  · intro hall p hp hkernel hfirst
    have hthree := hs.three_le hp.2.1
    have hguest : ∀ q, q + 1 = p ∨ q + 2 = p → GuestPage s hdr zeroFrame cmdFrame q := by
      intro q hq
      obtain ⟨e, he, htouch⟩ := e820_reports_front hs hrun hp hkernel hfirst hq
      exact hall e he q htouch
    exact ⟨hguest (p - 1) (by omega), hguest (p - 2) (by omega)⟩
  · intro hfront e he q hq
    rcases hmem e he with he | rfl
    · cases hrows with
      | done hnone => cases he
      | @next _ p num rows hfound hrest =>
        rcases List.mem_append.mp he with he | he
        · rcases runRow_touches (fun _ => hs.two_le hfound.firstFree.2.1) he hq with
            ⟨hle, hlt⟩ | ⟨_, hkernel, hfirst, hq⟩
          · exact Or.inl (hfound.free q hle hlt)
          · obtain ⟨hone, htwo⟩ := hfront p hfound.firstFree hkernel hfirst
            rcases hq with hq | hq
            · rwa [← hq, Nat.add_sub_cancel] at hone
            · rwa [← hq, Nat.add_sub_cancel] at htwo
        · have := @lt_resumePage (add64 linuxEntryPoint kernelSize) p num hfound.pos
          exact Or.inl (hrest.free (by omega) e he q hq).2
    · exact Or.inr (Or.inr (Or.inr hq))

/-- The first word of a table, with no page below page 3 free. -/
theorem firstWord_ready {w : BitVec 64} (hw : ∀ k < 64, w.getLsbD k = true → 3 ≤ k) :
    Ready (oneWord 0 w 1025) oneByteRamdisk 1 2 := by
  have hfree : ∀ p, (oneWord 0 w 1025).Free p → 3 ≤ p ∧ p < 64 := by
    intro p hp
    obtain ⟨hdiv, hbit⟩ := oneWord_free hp
    have := hw (p % 64) (Nat.mod_lt p (by decide)) hbit
    omega
  refine ⟨fun p hp => ?_, (by decide : 17 < mmTableMax), by decide, by decide, by decide,
    fun p hp => (hfree p hp).1, by decide, by decide, by decide, fun p htouch hp => ?_,
    (by decide : 0x200001 < 1025 * pgSize), by decide⟩
  · exact Nat.lt_trans (hfree p hp).2 (by decide : 64 < 1025)
  · have hpage : 512 ≤ p := by
      have := htouch.2
      simp only [ramdiskEntry, oneByteRamdisk, pgSize] at this
      change 0x200000 < _ at this
      omega
    have := (hfree p hp).2
    omega

theorem Ready.framesTaken {s : Physical} {hdr : SetupHeader} {zeroFrame cmdFrame : Nat}
    (h : Ready s hdr zeroFrame cmdFrame) : FramesTaken s zeroFrame cmdFrame :=
  ⟨h.limit, h.zero_pos, h.zero_lt, h.lowmem, h.lowest⟩

/-- The page behind the two frames is free, and no other. -/
theorem e820_reports_page_three : ∃ table s',
    virtSetupE820 (oneWord 0 8#64 1025) oneByteRamdisk 0x500000 = .ok (table, s') ∧
      ∀ e ∈ table.map Prod.snd, ∀ p, Touches e.addr e.stop p →
        GuestPage (oneWord 0 8#64 1025) oneByteRamdisk 1 2 p := by
  have hr := firstWord_ready (w := 8#64) (by decide)
  obtain ⟨table, s', hrun⟩ := hr.returns 0x500000
  refine ⟨_, _, hrun, (e820_reports_iff hr.framesTaken hrun).mpr ?_⟩
  intro p hp _ _
  have hpage : p = 3 := hp.eq
    ⟨Nat.zero_le 3, by decide, fun q _ hlt hq => absurd (hr.framesTaken.three_le hq) (by omega)⟩
  subst hpage
  exact ⟨Or.inr (Or.inr (Or.inl rfl)), Or.inr (Or.inl rfl)⟩

/-- Page 5 is free, and no other: the pages 3 and 4 are reported too. -/
theorem e820_reports_taken : ∃ table s',
    virtSetupE820 (oneWord 0 32#64 1025) oneByteRamdisk 0x500000 = .ok (table, s') ∧
      (∃ e ∈ table.map Prod.snd, Touches e.addr e.stop 3) ∧
      ¬ GuestPage (oneWord 0 32#64 1025) oneByteRamdisk 1 2 3 := by
  have hr := firstWord_ready (w := 32#64) (by decide)
  have hword : ∀ q < 5, ¬ (oneWord 0 32#64 1025).Free q := by decide
  obtain ⟨table, s', hrun⟩ := hr.returns 0x500000
  refine ⟨_, _, hrun, ?_, ?_⟩
  · exact e820_reports_front hr.framesTaken hrun
      (⟨Nat.zero_le 5, by decide, fun q _ hlt => hword q hlt⟩ : FirstFree _ 0 5) (by decide)
      (by decide) (Or.inr rfl)
  · rintro (hfree | hpage | hpage | htouch)
    · exact hword 3 (by decide) hfree
    · exact absurd hpage (by decide)
    · exact absurd hpage (by decide)
    · exact absurd htouch (by decide)

/-! ## The large pages behind the kernel -/

/-- The `b`-th large page of memory is free. -/
def LargeFree (s : Physical) (b : Nat) : Prop := ∀ q, 512 * b ≤ q → q < 512 * b + 512 → s.Free q

/-- The run of free pages that page `q` is in begins with page `p`. -/
structure RunOf (s : Physical) (p q : Nat) : Prop where
  le : p ≤ q
  free : ∀ r, p ≤ r → r ≤ q → s.Free r
  begins : ∀ r, r + 1 = p → ¬ s.Free r

/-- A row that covers a large page. -/
def Covers (e : E820Entry) (b : Nat) : Prop :=
  e.addr ≤ b * largePgSize ∧ (b + 1) * largePgSize ≤ e.stop

section Large

variable {s : Physical} {kernelEnd c p num b : Nat} {rows : List E820Entry}

/-- The walk does not go on in the middle of a run that begins in front of the end of the kernel. -/
def Resumes (s : Physical) (kernelEnd c : Nat) : Prop :=
  s.Free c → ∀ r, r + 1 = c → s.Free r → kernelEnd ≤ c * pgSize

theorem resumes_resumePage (hlimit : ∀ p, s.Free p → p < s.mmLimit) (h : FirstRun s c p num) :
    Resumes s kernelEnd (resumePage kernelEnd p num) := by
  intro hfree r _ _
  have hlt := @lt_resumePage kernelEnd p num h.pos
  by_cases habove : kernelEnd ≤ p * pgSize
  · exact Nat.le_trans habove (Nat.mul_le_mul_right _ hlt.le)
  · unfold resumePage at hfree
    rw [if_neg habove] at hfree
    exact absurd hfree (h.not_free hlimit)

/-- The row of a run that begins in the first MB or behind the kernel covers its large pages. -/
theorem runRow_covers (hfirst : c = 0 → 2 ≤ p) (hp : p ≤ 512 * b) (hin : 512 * b + 512 ≤ p + num)
    (hclass : 256 ≤ p → kernelEnd ≤ p * pgSize) :
    ∃ e ∈ runRow kernelEnd c p num, Covers e b := by
  have hup : largeUp p ≤ 512 * b := by
    unfold largeUp
    omega
  unfold runRow
  by_cases habove : kernelEnd ≤ p * pgSize
  · have hmany : 0 < largeIn p num ∧ 512 * b + 512 ≤ largeUp p + 512 * largeIn p num := by
      unfold largeIn largeUp at *
      omega
    rw [if_pos habove, if_neg hmany.1.ne']
    refine ⟨_, List.mem_singleton_self _, ?_⟩
    simp only [Covers, E820Entry.stop, pgSize, largePgSize]
    omega
  · have hlow : ¬ linuxEntryPoint ≤ p * pgSize := by
      unfold linuxEntryPoint pgSize at *
      omega
    rw [if_neg habove, if_neg hlow]
    split_ifs with hzero
    · have := hfirst hzero
      refine ⟨_, List.mem_singleton_self _, ?_⟩
      simp only [Covers, E820Entry.stop, pgSize, largePgSize]
      omega
    · refine ⟨_, List.mem_singleton_self _, ?_⟩
      simp only [Covers, E820Entry.stop, pgSize, largePgSize]
      omega

/-- The walk does not step over a large page behind a run. -/
theorem resumePage_le_large (hout : p + num ≤ 512 * b) : resumePage kernelEnd p num ≤ 512 * b := by
  unfold resumePage largeIn largeUp
  split_ifs <;> omega

/-- A free large page is covered, if its run begins in the first MB or behind the kernel. -/
theorem HandsOver.covers (hlimit : ∀ p, s.Free p → p < s.mmLimit) (hlow : ∀ q, s.Free q → 2 ≤ q)
    (h : HandsOver s kernelEnd c rows) (hb : LargeFree s b)
    (hclass : ∀ p, RunOf s p (512 * b) → 256 ≤ p → kernelEnd ≤ p * pgSize) :
    c ≤ 512 * b → Resumes s kernelEnd c → ∃ e ∈ rows, Covers e b := by
  induction h with
  | done hnone =>
    intro hc _
    have hfree := hb (512 * b) (le_refl _) (by omega)
    exact absurd hfree (hnone _ hc (hlimit _ hfree))
  | @next c p num rows hrun _ ih =>
    intro hc hresume
    have hfree := hb (512 * b) (le_refl _) (by omega)
    have hp : p ≤ 512 * b := by
      by_contra hlt
      exact hrun.skipped _ hc (by omega) hfree
    rcases Nat.lt_or_ge (512 * b) (p + num) with hin | hout
    · have hend : 512 * b + 512 ≤ p + num := by
        by_contra hlt
        exact hrun.not_free hlimit (hb _ (by omega) (by omega))
      have hkernel : 256 ≤ p → kernelEnd ≤ p * pgSize := by
        intro hmb
        by_cases hbegins : ∀ r, r + 1 = p → ¬ s.Free r
        · exact hclass p ⟨hp, fun r hle hle' => hrun.free r hle (by omega), hbegins⟩ hmb
        · -- the walk goes on in the middle of a run
          push Not at hbegins
          obtain ⟨r, hr, hr'⟩ := hbegins
          have hle := hrun.le
          obtain rfl : c = p := by
            by_contra hne
            exact hrun.skipped r (by omega) (by omega) hr'
          exact hresume hrun.firstFree.2.1 r hr hr'
      obtain ⟨e, he, hcov⟩ := runRow_covers (fun _ => hlow p hrun.firstFree.2.1) hp hend hkernel
      exact ⟨e, List.mem_append_left _ he, hcov⟩
    · obtain ⟨e, he, hcov⟩ := ih (resumePage_le_large hout) (resumes_resumePage hlimit hrun)
      exact ⟨e, List.mem_append_right _ he, hcov⟩

/-- A page of a run that begins between the first MB and the end of the kernel is not reported. -/
theorem HandsOver.misses {q : Nat} (hlimit : ∀ p, s.Free p → p < s.mmLimit)
    (hlow : ∀ q, s.Free q → 2 ≤ q) (h : HandsOver s kernelEnd c rows) (hq : RunOf s p q)
    (hmb : 256 ≤ p) (hkernel : p * pgSize < kernelEnd) :
    c ≤ p → ∀ e ∈ rows, ¬ Touches e.addr e.stop q := by
  have hp := hq.free p (le_refl p) hq.le
  induction h with
  | done hnone => exact fun _ _ he => absurd he List.not_mem_nil
  | @next c p' num rows hrun hrest ih =>
    intro hc e he htouch
    have hle : p' ≤ p := by
      by_contra hlt
      exact hrun.skipped p hc (by omega) hp
    have hresume : resumePage kernelEnd p' num = p' + num := by
      unfold resumePage
      rw [if_neg (by unfold pgSize at *; omega)]
    have hpos := hrun.pos
    have hqle := hq.le
    rcases Nat.lt_or_ge p (p' + num) with hin | hout
    · -- the run that was found is the run of the page
      obtain rfl : p' = p := by
        by_contra hne
        exact hq.begins (p - 1) (by omega) (hrun.free _ (by omega) (by omega))
      have hend : q < p' + num := by
        by_contra hlt
        exact hrun.not_free hlimit (hq.free _ (by omega) (by omega))
      rcases List.mem_append.mp he with he | he
      · unfold runRow at he
        rw [if_neg (by omega), if_pos (by unfold linuxEntryPoint pgSize; omega)] at he
        cases he
      · have := (hrest.free (by omega) e he q htouch).1
        omega
    · rcases List.mem_append.mp he with he | he
      · rcases runRow_touches (fun _ => hlow p' hrun.firstFree.2.1) he htouch with h | ⟨_, _, _, h⟩ <;>
          omega
      · exact ih (by omega) e he htouch

end Large

section

variable {s : Physical} {hdr : SetupHeader} {zeroFrame cmdFrame kernelSize : Nat}

/-- The end of the kernel in front of a free large page. -/
theorem LargeFree.kernelEnd {b : Nat} (hb : LargeFree s b)
    (hkernel : linuxEntryPoint + kernelSize ≤ b * largePgSize) :
    add64 linuxEntryPoint kernelSize = linuxEntryPoint + kernelSize := by
  have hlt := (hb (512 * b) (le_refl _) (by omega)).lt
  unfold mmTableMax at hlt
  unfold largePgSize at hkernel
  exact add64_of_lt (by omega)

/-- A free large page whose run begins between the first MB and the end of the kernel is in no
row. -/
theorem e820_misses (hr : Ready s hdr zeroFrame cmdFrame) {table : List (Nat × E820Entry)}
    {s' : Physical} (hrun : virtSetupE820 s hdr kernelSize = .ok (table, s')) {b p : Nat}
    (hb : LargeFree s b) (hkernel : linuxEntryPoint + kernelSize ≤ b * largePgSize)
    (hp : RunOf s p (512 * b)) (hmb : 256 ≤ p) (hfront : p * pgSize < linuxEntryPoint + kernelSize) :
    ∀ e ∈ table.map Prod.snd, ¬ Covers e b := by
  have hlow : ∀ q, s.Free q → 2 ≤ q := fun q hq => hr.framesTaken.two_le hq
  obtain ⟨rows, merged, hrows, hperm⟩ := virtSetupE820_handsOver hlow hrun
  rw [hb.kernelEnd hkernel] at hrows
  intro e he hcov
  have htouch : Touches e.addr e.stop (512 * b) := by
    unfold Covers largePgSize at hcov
    unfold Touches pgSize
    omega
  rcases List.mem_append.mp (hperm.mem_iff.mp he) with he | he
  · exact hrows.misses hr.limit hlow hp hmb hfront (Nat.zero_le p) e he htouch
  · have hfree := hb (512 * b) (le_refl _) (by omega)
    cases merged with
    | true => cases he
    | false =>
      rw [List.mem_singleton.mp he] at htouch
      exact hr.taken _ htouch hfree

/-- **Every free large page behind the kernel is in a row just if no run with one of them begins
between the first MB and the end of the kernel.** -/
theorem e820_covers_iff (hr : Ready s hdr zeroFrame cmdFrame) (kernelSize : Nat) :
    (∃ table s', virtSetupE820 s hdr kernelSize = .ok (table, s') ∧
      ∀ b, LargeFree s b → linuxEntryPoint + kernelSize ≤ b * largePgSize →
        ∃ e ∈ table.map Prod.snd, Covers e b) ↔
    ∀ b p, LargeFree s b → linuxEntryPoint + kernelSize ≤ b * largePgSize → RunOf s p (512 * b) →
      256 ≤ p → linuxEntryPoint + kernelSize ≤ p * pgSize := by
  constructor
  · rintro ⟨table, s', hrun, hall⟩ b p hb hkernel hp hmb
    by_contra hfront
    obtain ⟨e, he, hcov⟩ := hall b hb hkernel
    exact e820_misses hr hrun hb hkernel hp hmb (not_le.mp hfront) e he hcov
  · intro hclass
    have hlow : ∀ q, s.Free q → 2 ≤ q := fun q hq => hr.framesTaken.two_le hq
    obtain ⟨table, s', hrun⟩ := hr.returns kernelSize
    obtain ⟨rows, merged, hrows, hperm⟩ := virtSetupE820_handsOver hlow hrun
    refine ⟨_, _, hrun, ?_⟩
    intro b hb hkernel
    rw [hb.kernelEnd hkernel] at hrows
    obtain ⟨e, he, hcov⟩ := hrows.covers hr.limit hlow hb
      (fun p hp hmb => hclass b p hb hkernel hp hmb) (Nat.zero_le _) (fun _ r hr => by omega)
    exact ⟨e, hperm.mem_iff.mpr (List.mem_append_left _ he), hcov⟩

end

/-- Memory of `num` large pages, of which those that `f` names are free. -/
def largeTable (f : Nat → Bool) (num : Nat) : Physical where
  mmTable := ⟨fun i => if i.val < 8 * num ∧ f (i.val / 8) then ~~~0#64 else 0#64⟩
  mmLimit := 512 * num
  entryEnd := (512 * num + 63) / 64
  entryEnd_eq := rfl

theorem largeTable_free {f : Nat → Bool} {num p : Nat} (hnum : num ≤ 2 ^ 15) :
    (largeTable f num).Free p ↔ p < 512 * num ∧ f (p / 512) = true := by
  have hdiv : p / 64 / 8 = p / 512 := Nat.div_div_eq_div_mul p 64 8
  unfold Physical.Free
  by_cases hp : p / 64 < mmTableMax
  · rw [Bitmap.test_of_lt _ hp]
    simp only [largeTable, hdiv]
    split_ifs with hcond
    · exact iff_of_true (full_getLsbD p) ⟨by omega, hcond.2⟩
    · refine iff_of_false (by simp) ?_
      rintro ⟨hlt, hf⟩
      exact hcond ⟨by omega, hf⟩
  · rw [Bitmap.test, dif_neg hp]
    unfold mmTableMax at hp
    exact iff_of_false Bool.false_ne_true fun h => hp (by omega)

/-- The ramdisk lies in the second large page, and the frames were taken in the first. -/
theorem largeTable_ready {f : Nat → Bool} {num : Nat} (hlo : 2 < num) (hhi : num < 2 ^ 15)
    (hzero : f 0 = false) (hone : f 1 = false) :
    Ready (largeTable f num) oneByteRamdisk 1 2 := by
  have hfree : ∀ p, (largeTable f num).Free p → p < 512 * num ∧ 1024 ≤ p := by
    intro p hp
    obtain ⟨hlt, hf⟩ := (largeTable_free hhi.le).mp hp
    refine ⟨hlt, ?_⟩
    by_contra hsmall
    have hpage : p / 512 = 0 ∨ p / 512 = 1 := by omega
    rcases hpage with h | h <;> rw [h] at hf
    · exact absurd (hzero.symm.trans hf) Bool.false_ne_true
    · exact absurd (hone.symm.trans hf) Bool.false_ne_true
  refine ⟨fun p hp => (hfree p hp).1, ?_, by decide, by decide, by decide, fun p hp => ?_,
    by decide, by decide, by decide, fun p htouch hp => ?_, ?_, by decide⟩
  · change (512 * num + 63) / 64 < mmTableMax
    unfold mmTableMax
    omega
  · have := (hfree p hp).2
    omega
  · have hlast : (ramdiskEntry oneByteRamdisk).stop = 0x400000 := by decide
    have htop := htouch.1
    have := (hfree p hp).2
    rw [hlast] at htop
    unfold pgSize at htop
    omega
  · have hend : oneByteRamdisk.ramdiskImage.toNat + oneByteRamdisk.ramdiskSize.toNat = 0x200001 := by
      decide
    change _ < 512 * num * pgSize
    rw [hend]
    unfold pgSize
    omega

/-- The third large page is free, and the kernel ends in the second. -/
theorem e820_covers_third : ∃ table s',
    virtSetupE820 (largeTable (· == 2) 4) oneByteRamdisk 0x200000 = .ok (table, s') ∧
      ∃ e ∈ table.map Prod.snd, Covers e 2 := by
  have hr := @largeTable_ready (· == 2) 4 (by decide) (by decide) rfl rfl
  have hfree := fun p => @largeTable_free (· == 2) 4 p (by decide)
  obtain ⟨table, s', hrun, hall⟩ := (e820_covers_iff hr 0x200000).mpr fun b p _ _ hp _ => by
    have hpage := ((hfree p).mp (hp.free p (le_refl p) hp.le)).2
    simp only [beq_iff_eq] at hpage
    unfold linuxEntryPoint pgSize
    omega
  refine ⟨table, s', hrun, hall 2 ?_ (by decide)⟩
  intro q hlo hhi
  rw [hfree]
  exact ⟨by omega, beq_iff_eq.mpr (by omega)⟩

/-- The third and the fourth large page are free, and the kernel ends in the third: the fourth is
in no row. -/
theorem e820_misses_fourth : ∃ table s',
    virtSetupE820 (largeTable (2 ≤ ·) 4) oneByteRamdisk 0x400000 = .ok (table, s') ∧
      LargeFree (largeTable (2 ≤ ·) 4) 3 ∧ linuxEntryPoint + 0x400000 ≤ 3 * largePgSize ∧
      ∀ e ∈ table.map Prod.snd, ¬ Covers e 3 := by
  have hr := @largeTable_ready (2 ≤ ·) 4 (by decide) (by decide) rfl rfl
  have hfree := fun p => @largeTable_free (2 ≤ ·) 4 p (by decide)
  have hall : ∀ q, 1024 ≤ q → q < 2048 → (largeTable (2 ≤ ·) 4).Free q := by
    intro q hlo hhi
    rw [hfree]
    exact ⟨by omega, decide_eq_true (by omega)⟩
  have hblock : LargeFree (largeTable (2 ≤ ·) 4) 3 := fun q hlo hhi => hall q (by omega) (by omega)
  obtain ⟨table, s', hrun⟩ := hr.returns 0x400000
  refine ⟨_, _, hrun, hblock, by decide, ?_⟩
  refine e820_misses hr hrun hblock (by decide) (p := 1024) ⟨by decide, ?_, ?_⟩ (by decide) (by decide)
  · exact fun q hlo hhi => hall q hlo (by omega)
  · intro q hq hq'
    have hpage := of_decide_eq_true ((hfree q).mp hq').2
    omega

end Rtv.Virt
