import Rtv.Virt.E820

/-!
# The hand-over of memory to the guest

What `virt_setup_e820` does to `mm_table` and to the e820 table, over its whole walk. `Rows` says
what holds of the entries written so far: they are disjoint and in order, nothing in them is free,
and the ramdisk is among them once the walk has passed it. The cursor only moves up, so the walk
ends.
-/

namespace Rtv.Virt

open Rtv.Lib Rtv.Utils Rtv.Mm

/-! ## The state at the call -/

/-- The entry of the ramdisk, rounded up to large pages. -/
def ramdiskEntry (hdr : SetupHeader) : E820Entry :=
  ⟨hdr.ramdiskImage.toNat, ceiling64 hdr.ramdiskSize.toNat largePgSize, e820Ram⟩

/-- The state in which `virt_setup_linux` calls `virt_setup_e820`: all free pages lie below the
limit and above the two frames taken last, and the ramdisk has been placed. Two things that the
caller does not check are asked for: the table is longer than memory, and the ramdisk lies below 4GB,
where 32 bits of the header can name it. -/
structure Ready (s : Physical) (hdr : SetupHeader) (zeroFrame cmdFrame : Nat) : Prop where
  limit : ∀ p, s.Free p → p < s.mmLimit
  entryEnd : s.entryEnd < mmTableMax
  zero_pos : 0 < zeroFrame
  zero_lt : zeroFrame < cmdFrame
  lowmem : cmdFrame < 256
  lowest : ∀ p, s.Free p → cmdFrame < p
  aligned : largePgSize ∣ hdr.ramdiskImage.toNat
  above : largePgSize ≤ hdr.ramdiskImage.toNat
  nonempty : 0 < hdr.ramdiskSize.toNat
  taken : ∀ p, Touches (ramdiskEntry hdr).addr (ramdiskEntry hdr).stop p → ¬ s.Free p
  inside : hdr.ramdiskImage.toNat + hdr.ramdiskSize.toNat < s.mmLimit * pgSize
  below4G : hdr.ramdiskImage.toNat + hdr.ramdiskSize.toNat < 2 ^ 32

section

variable {s : Physical} {hdr : SetupHeader} {zeroFrame cmdFrame : Nat}

/-- The size of the ramdisk in large pages. -/
theorem Ready.size_spec (h : Ready s hdr zeroFrame cmdFrame) :
    largePgSize ∣ (ramdiskEntry hdr).size ∧ hdr.ramdiskSize.toNat ≤ (ramdiskEntry hdr).size ∧
      0 < (ramdiskEntry hdr).size := by
  have hlt := h.below4G
  obtain ⟨hdvd, hle, _⟩ := ceiling64_spec (show 0 < largePgSize by decide)
    (show hdr.ramdiskSize.toNat + largePgSize ≤ 2 ^ 64 by unfold largePgSize; omega)
  exact ⟨hdvd, hle, Nat.lt_of_lt_of_le h.nonempty hle⟩

/-- The end of the ramdisk as the walk computes it. -/
theorem Ready.ramdiskEnd (h : Ready s hdr zeroFrame cmdFrame) :
    (hdr.ramdiskImage + hdr.ramdiskSize).toNat =
      hdr.ramdiskImage.toNat + hdr.ramdiskSize.toNat := by
  have hlt := h.below4G
  rw [UInt32.toNat_add, Nat.mod_eq_of_lt hlt]

/-- A free page lies in front of the ramdisk or behind its last large page. -/
theorem Ready.free_outside (h : Ready s hdr zeroFrame cmdFrame) {p : Nat} (hp : s.Free p) :
    (p + 1) * pgSize ≤ hdr.ramdiskImage.toNat ∨ (ramdiskEntry hdr).stop ≤ p * pgSize := by
  by_contra hnot
  obtain ⟨h1, h2⟩ := not_or.mp hnot
  exact h.taken p ⟨Nat.lt_of_not_le h2, Nat.lt_of_not_le h1⟩ hp

/-- The ramdisk's first page is not free. -/
theorem Ready.first_taken (h : Ready s hdr zeroFrame cmdFrame) :
    ¬ s.Free (hdr.ramdiskImage.toNat / pgSize) := by
  intro hp
  have hsize := h.size_spec.2.2
  have halign := h.aligned
  rcases h.free_outside hp with hle | hle
  · unfold pgSize at hle
    omega
  · simp only [E820Entry.stop, ramdiskEntry] at hle hsize
    unfold pgSize largePgSize at *
    omega

/-! ## The rows written so far -/

/-- The entries of a walk, without their indices. -/
def Walk.entries (w : Walk) : List E820Entry := w.table.map Prod.snd

/-- The rows of the table, all below `hi`. -/
structure Rows (s : Physical) (hdr : SetupHeader) (w : Walk) (hi : Nat) : Prop where
  limit : w.phys.mmLimit = s.mmLimit
  free_iff : ∀ p, w.phys.Free p ↔ s.Free p ∧ ∀ e ∈ w.entries, ¬ Touches e.addr e.stop p
  ascending : w.entries.Pairwise fun e e' => e.stop ≤ e'.addr
  size_pos : ∀ e ∈ w.entries, 0 < e.size
  below : ∀ e ∈ w.entries, e.stop ≤ hi
  ramdisk : w.entries.count (ramdiskEntry hdr) = if w.mergeRamdisk then 0 else 1
  waiting : w.mergeRamdisk = true → hi ≤ hdr.ramdiskImage.toNat
  index : w.table.map Prod.fst = (List.range w.table.length).map (· % 256)
  num : w.mmapNum = w.table.length % 256

theorem Rows.init (s : Physical) (hdr : SetupHeader) : Rows s hdr ⟨s, 0, 0, 0, true, []⟩ 0 where
  limit := rfl
  free_iff p := by simp [Walk.entries]
  ascending := .nil
  size_pos e he := by cases he
  below e he := by cases he
  ramdisk := rfl
  waiting _ := Nat.zero_le _
  index := rfl
  num := rfl

/-- The rows do not depend on the cursor. -/
theorem Rows.cursor {w : Walk} {hi : Nat} (h : Rows s hdr w hi) (mmapStart mmapSize : Nat) :
    Rows s hdr { w with mmapStart, mmapSize } hi :=
  ⟨h.limit, h.free_iff, h.ascending, h.size_pos, h.below, h.ramdisk, h.waiting, h.index, h.num⟩

/-- A higher bound, as long as the ramdisk is not passed. -/
theorem Rows.mono {w : Walk} {hi hi' : Nat} (h : Rows s hdr w hi) (hle : hi ≤ hi')
    (hwait : w.mergeRamdisk = true → hi' ≤ hdr.ramdiskImage.toNat) : Rows s hdr w hi' :=
  ⟨h.limit, h.free_iff, h.ascending, h.size_pos, fun e he => Nat.le_trans (h.below e he) hle,
    h.ramdisk, hwait, h.index, h.num⟩

theorem Walk.entries_add (w : Walk) (addr size : Nat) :
    (w.add addr size).entries = w.entries ++ [⟨addr, size, e820Ram⟩] := by
  simp [Walk.add, Walk.entries]

/-- A new row goes to the next index. -/
theorem Rows.add_index {w : Walk} {hi : Nat} (h : Rows s hdr w hi) (addr size : Nat) :
    (w.add addr size).table.map Prod.fst =
        (List.range (w.add addr size).table.length).map (· % 256) ∧
      (w.add addr size).mmapNum = (w.add addr size).table.length % 256 := by
  have hlen : (w.add addr size).table.length = w.table.length + 1 := by simp [Walk.add]
  rw [hlen, List.range_succ, List.map_append, ← h.index]
  refine ⟨?_, ?_⟩
  · simp [Walk.add, h.num]
  · simp only [Walk.add, h.num]
    omega

/-- A new row above the old ones. -/
theorem Rows.add_ascending {w : Walk} {addr size : Nat} (h : Rows s hdr w addr) :
    (w.add addr size).entries.Pairwise fun e e' => e.stop ≤ e'.addr := by
  rw [Walk.entries_add, List.pairwise_append]
  refine ⟨h.ascending, List.pairwise_singleton _ _, fun e he e' he' => ?_⟩
  rw [List.mem_singleton.mp he']
  exact h.below e he

/-- Adding the ramdisk. -/
theorem Rows.addRamdisk (hr : Ready s hdr zeroFrame cmdFrame) {w : Walk} {hi hi' : Nat}
    (h : Rows s hdr w hi) (hmerge : w.mergeRamdisk = true) (hhi' : (ramdiskEntry hdr).stop ≤ hi') :
    Rows s hdr { w.add hdr.ramdiskImage.toNat (ceiling64 hdr.ramdiskSize.toNat largePgSize) with
      mergeRamdisk := false } hi' := by
  have h' := h.mono (h.waiting hmerge) fun _ => Nat.le_refl _
  have hentries : Walk.entries
      { w.add hdr.ramdiskImage.toNat (ceiling64 hdr.ramdiskSize.toNat largePgSize) with
        mergeRamdisk := false } = w.entries ++ [ramdiskEntry hdr] := w.entries_add _ _
  obtain ⟨hindex, hnum⟩ := h.add_index hdr.ramdiskImage.toNat
    (ceiling64 hdr.ramdiskSize.toNat largePgSize)
  refine ⟨h.limit, fun p => ?_, h'.add_ascending, fun e he => ?_, fun e he => ?_, ?_, nofun, hindex,
    hnum⟩
  · rw [hentries]
    refine (h.free_iff p).trans ⟨fun ⟨hp, hall⟩ => ⟨hp, fun e he => ?_⟩, fun ⟨hp, hall⟩ =>
      ⟨hp, fun e he => hall e (List.mem_append_left _ he)⟩⟩
    rcases List.mem_append.mp he with he | he
    · exact hall e he
    · rw [List.mem_singleton.mp he]
      exact fun htouch => hr.taken p htouch hp
  · rw [hentries] at he
    rcases List.mem_append.mp he with he | he
    · exact h.size_pos e he
    · rw [List.mem_singleton.mp he]
      exact hr.size_spec.2.2
  · rw [hentries] at he
    rcases List.mem_append.mp he with he | he
    · have := h'.below e he
      have := hr.size_spec.2.2
      unfold E820Entry.stop at hhi'
      simp only [ramdiskEntry] at hhi' this
      omega
    · rw [List.mem_singleton.mp he]
      exact hhi'
  · have hcount := h.ramdisk
    rw [hmerge] at hcount
    rw [hentries, List.count_append, hcount]
    simp

/-- Writing a range as an entry and taking it. -/
theorem Rows.emit (hr : Ready s hdr zeroFrame cmdFrame) {w : Walk} {addr size : Nat}
    (h : Rows s hdr w addr) (hsize : 0 < size) (hin : addr + size ≤ mmTableBytes)
    (hwait : w.mergeRamdisk = true → addr + size ≤ hdr.ramdiskImage.toNat) :
    ∃ w', w.emit addr size = .ok w' ∧ Rows s hdr w' (addr + size) ∧ w'.mmapStart = addr ∧
      w'.mmapSize = size := by
  obtain ⟨phys, hphys, hlimit, hfree⟩ := physicalTakeRange_spec w.phys addr size hin
  have hentries : Walk.entries { w.add addr size with phys, mmapStart := addr, mmapSize := size } =
      w.entries ++ [⟨addr, size, e820Ram⟩] := w.entries_add _ _
  obtain ⟨hindex, hnum⟩ := h.add_index addr size
  unfold Walk.emit
  rw [hphys, Exec.ok_bind]
  refine ⟨_, rfl, ⟨hlimit.trans h.limit, fun p => ?_, h.add_ascending, fun e he => ?_,
    fun e he => ?_, ?_, hwait, hindex, hnum⟩, rfl, rfl⟩
  · rw [hentries]
    simp only [hfree p, h.free_iff p, List.mem_append, List.mem_singleton, or_imp, forall_and,
      forall_eq, and_assoc, E820Entry.stop]
  · rw [hentries] at he
    rcases List.mem_append.mp he with he | he
    · exact h.size_pos e he
    · rw [List.mem_singleton.mp he]
      exact hsize
  · rw [hentries] at he
    rcases List.mem_append.mp he with he | he
    · exact Nat.le_trans (h.below e he) (Nat.le_add_right _ _)
    · rw [List.mem_singleton.mp he]
      exact Nat.le_refl _
  · -- the new entry is not the ramdisk: it ends in front of it, or starts behind it
    have hne : (⟨addr, size, e820Ram⟩ : E820Entry) ≠ ramdiskEntry hdr := by
      intro heq
      have haddr : addr = hdr.ramdiskImage.toNat := congrArg E820Entry.addr heq
      cases hmerge : w.mergeRamdisk with
      | true =>
        have := hwait hmerge
        omega
      | false =>
        have hcount := h.ramdisk
        rw [hmerge] at hcount
        have hmem : ramdiskEntry hdr ∈ w.entries := List.count_pos_iff.mp (by rw [hcount]; decide)
        have hle := h.below _ hmem
        have hpos := hr.size_spec.2.2
        simp only [E820Entry.stop, ramdiskEntry] at hle hpos
        omega
    rw [hentries, List.count_append, List.count_singleton]
    have hbeq : ((⟨addr, size, e820Ram⟩ : E820Entry) == ramdiskEntry hdr) = false := by
      simpa using hne
    rw [if_neg (by rw [hbeq]; exact Bool.false_ne_true)]
    exact h.ramdisk

/-! ## One round -/

/-- The walk between two rounds: its rows end at the cursor, which is at a page boundary and not
far behind the table. -/
structure Cursor (s : Physical) (hdr : SetupHeader) (w : Walk) : Prop where
  rows : Rows s hdr w (w.mmapStart + w.mmapSize)
  start : pgSize ∣ w.mmapStart
  size : pgSize ∣ w.mmapSize
  bound : w.mmapStart + w.mmapSize ≤ mmTableBytes + largePgSize

theorem Cursor.init (s : Physical) (hdr : SetupHeader) : Cursor s hdr ⟨s, 0, 0, 0, true, []⟩ where
  rows := .init s hdr
  start := Nat.dvd_zero _
  size := Nat.dvd_zero _
  bound := Nat.zero_le _

/-- Moving the cursor to a page boundary at the end of the rows. -/
theorem Rows.toCursor {w : Walk} (mmapStart mmapSize : Nat)
    (h : Rows s hdr w (mmapStart + mmapSize)) (hstart : pgSize ∣ mmapStart)
    (hsize : pgSize ∣ mmapSize) (hbound : mmapStart + mmapSize ≤ mmTableBytes + largePgSize) :
    Cursor s hdr { w with mmapStart, mmapSize } :=
  ⟨h.cursor mmapStart mmapSize, hstart, hsize, hbound⟩

/-- A cursor at 0 has no rows behind it. -/
theorem Cursor.rows_nil {w : Walk} (h : Cursor s hdr w) (hzero : w.mmapStart + w.mmapSize = 0) :
    ∀ hi, hi ≤ hdr.ramdiskImage.toNat → Rows s hdr w hi := by
  intro hi hle
  exact h.rows.mono (by omega) fun _ => hle

/-- The walk has found the pages `[p, p + num)`: they were free at the start, the rows end in front
of them, and if the ramdisk is not among the rows they end in front of it. -/
structure Found (s : Physical) (hdr : SetupHeader) (w : Walk) (p num : Nat) : Prop where
  rows : Rows s hdr w (p * pgSize)
  mmapStart : w.mmapStart = p * pgSize
  mmapSize : w.mmapSize = num * pgSize
  pos : 0 < num
  bound : (p + num) * pgSize ≤ mmTableBytes
  waiting : w.mergeRamdisk = true → (p + num) * pgSize ≤ hdr.ramdiskImage.toNat

/-- The next free range, with the ramdisk added if the range starts behind it. -/
theorem Cursor.found (hr : Ready s hdr zeroFrame cmdFrame) {w : Walk} (h : Cursor s hdr w)
    {p num : Nat} (hrun : NextRun w.phys ((w.mmapStart + w.mmapSize) / pgSize) p num) :
    Found s hdr (Walk.addRamdisk
      { w with mmapStart := p * pgSize, mmapSize := num * pgSize } hdr) p num ∧
      w.mmapStart + w.mmapSize ≤ p * pgSize := by
  have hfree : ∀ q, p ≤ q → q < p + num → s.Free q := fun q hq hq' =>
    ((h.rows.free_iff q).mp (hrun.free q hq hq')).1
  have hpos := hrun.pos
  have hlast := (hfree (p + num - 1) (by omega) (by omega)).lt
  have hbound : (p + num) * pgSize ≤ mmTableBytes := by
    unfold mmTableBytes
    exact Nat.mul_le_mul_right pgSize (by omega)
  have hcur : w.mmapStart + w.mmapSize ≤ p * pgSize := by
    obtain ⟨k, hk⟩ := Nat.dvd_add h.start h.size
    have hle := hrun.le
    rw [hk, Nat.mul_div_cancel_left k (by decide)] at hle
    rw [hk, Nat.mul_comm]
    exact Nat.mul_le_mul_right pgSize hle
  refine ⟨?_, hcur⟩
  have hrows := h.rows.cursor (p * pgSize) (num * pgSize)
  unfold Walk.addRamdisk
  rw [hr.ramdiskEnd]
  have hin := hr.free_outside (hfree p (Nat.le_refl p) (by omega))
  by_cases hmerge : w.mergeRamdisk = true
  · by_cases hpast : p * pgSize ≥ hdr.ramdiskImage.toNat + hdr.ramdiskSize.toNat
    · -- the walk has come past the ramdisk
      have hbehind : (ramdiskEntry hdr).stop ≤ p * pgSize := by
        have := hr.nonempty
        rcases hin with hle | hle
        · rw [Nat.add_mul] at hle
          omega
        · exact hle
      rw [if_pos ⟨hpast, hmerge⟩]
      exact ⟨hrows.addRamdisk hr hmerge hbehind, rfl, rfl, hpos, hbound, nofun⟩
    · -- a run in front of the ramdisk ends there, since the ramdisk's first page is not free
      have hfirst := hr.first_taken
      have halign : pgSize ∣ hdr.ramdiskImage.toNat :=
        Nat.dvd_trans (show pgSize ∣ largePgSize by decide) hr.aligned
      have hfront : (p + num) * pgSize ≤ hdr.ramdiskImage.toNat := by
        have hsize := hr.size_spec
        rcases hin with hle | hle
        · by_contra hover
          refine hfirst (hfree _ ?_ ?_)
          · unfold pgSize at *
            omega
          · unfold pgSize at *
            omega
        · simp only [E820Entry.stop, ramdiskEntry] at hle hsize
          omega
      rw [if_neg fun hc => hpast hc.1]
      refine ⟨hrows.mono hcur fun _ => ?_, rfl, rfl, hpos, hbound, fun _ => hfront⟩
      exact Nat.le_trans (Nat.mul_le_mul_right pgSize (Nat.le_add_right p num)) hfront
  · rw [if_neg fun hc => hmerge hc.2]
    exact ⟨hrows.mono hcur fun hc => absurd hc hmerge, rfl, rfl, hpos, hbound,
      fun hc => absurd hc hmerge⟩

/-- After an entry was written the walk goes on at its end. -/
theorem Rows.emit_cursor (hr : Ready s hdr zeroFrame cmdFrame) {w : Walk} {addr size : Nat}
    (h : Rows s hdr w addr) (hsize : 0 < size) (haddr : pgSize ∣ addr) (hdvd : pgSize ∣ size)
    (hin : addr + size ≤ mmTableBytes)
    (hwait : w.mergeRamdisk = true → addr + size ≤ hdr.ramdiskImage.toNat) :
    ∃ w', w.emit addr size = .ok w' ∧ Cursor s hdr w' ∧ w'.mmapStart + w'.mmapSize = addr + size := by
  obtain ⟨w', hemit, hrows, hstart, hlen⟩ := h.emit hr hsize hin hwait
  refine ⟨w', hemit, ⟨?_, ?_, ?_, ?_⟩, ?_⟩
  · rw [hstart, hlen]
    exact hrows
  · rwa [hstart]
  · rwa [hlen]
  · rw [hstart, hlen]
    omega
  · rw [hstart, hlen]

/-- What is left of a range after its start was rounded up. -/
theorem Found.rounded {w : Walk} {p num : Nat} (h : Found s hdr w p num) :
    largePgSize ∣ ceiling64 w.mmapStart largePgSize ∧ w.mmapStart ≤ ceiling64 w.mmapStart largePgSize ∧
      ceiling64 w.mmapStart largePgSize < w.mmapStart + largePgSize ∧
      (w.mergeRamdisk = true → largePgSize ∣ hdr.ramdiskImage.toNat →
        ceiling64 w.mmapStart largePgSize ≤ hdr.ramdiskImage.toNat) := by
  have hbound := h.bound
  have hle : p * pgSize ≤ (p + num) * pgSize := Nat.mul_le_mul_right _ (Nat.le_add_right p num)
  rw [h.mmapStart]
  have hbytes : mmTableBytes = 2 ^ 36 := by decide
  have hfit : p * pgSize + largePgSize ≤ 2 ^ 64 := by
    unfold largePgSize
    omega
  obtain ⟨hdvd, hup, hlt⟩ := ceiling64_spec (show 0 < largePgSize by decide) hfit
  refine ⟨hdvd, hup, hlt, fun hmerge halign => ?_⟩
  exact ceiling64_le (by decide) hfit halign (Nat.le_trans hle (h.waiting hmerge))

/-- The bytes that were found. -/
theorem Found.bytes {w : Walk} {p num : Nat} (h : Found s hdr w p num) :
    0 < num * pgSize ∧ (p + num) * pgSize = p * pgSize + num * pgSize ∧
      (p + num) * pgSize ≤ mmTableBytes ∧ mmTableBytes = 2 ^ 36 :=
  ⟨Nat.mul_pos h.pos (by decide), Nat.add_mul p num pgSize, h.bound, by decide⟩

/-- A range above the kernel: what is left of it after it was rounded inwards to large pages is
written, unless that is less than one. -/
theorem Found.placeAbove (hr : Ready s hdr zeroFrame cmdFrame) {w : Walk} {p num : Nat}
    (h : Found s hdr w p num) {kernelEnd : Nat} (startPaddr : Nat) (hkernel : w.mmapStart ≥ kernelEnd) :
    ∃ w', w.placeRange kernelEnd startPaddr = .ok w' ∧ Cursor s hdr w' ∧
      p * pgSize < w'.mmapStart + w'.mmapSize := by
  obtain ⟨hnum, hsum, hbound, hbytes⟩ := h.bytes
  have hdvdp : pgSize ∣ p * pgSize := Nat.dvd_mul_left _ _
  have hdvdn : pgSize ∣ num * pgSize := Nat.dvd_mul_left _ _
  obtain ⟨hdvd, hup, hlt, hwait⟩ := h.rounded
  unfold Walk.placeRange
  rw [if_pos hkernel]
  have hdvd' : pgSize ∣ ceiling64 w.mmapStart largePgSize :=
    Nat.dvd_trans (show pgSize ∣ largePgSize by decide) hdvd
  have hrows : Rows s hdr w (ceiling64 w.mmapStart largePgSize) :=
    h.rows.mono (h.mmapStart ▸ hup) fun hmerge => hwait hmerge hr.aligned
  generalize ceiling64 w.mmapStart largePgSize = top at *
  rw [h.mmapStart] at hup hlt ⊢
  have htmp : sub64 top (p * pgSize) = top - p * pgSize :=
    sub64_of_le hup (by unfold largePgSize at hlt; omega)
  simp only [htmp, h.mmapSize]
  by_cases hskip : top - p * pgSize ≥ num * pgSize
  · rw [if_pos hskip]
    have hrows' : Rows s hdr w (top + 0) := by rwa [Nat.add_zero]
    refine ⟨_, Exec.pure_eq _, hrows'.toCursor top 0 hdvd' (Nat.dvd_zero _) (by omega), ?_⟩
    simp only
    omega
  · have hrest : sub64 (num * pgSize) (top - p * pgSize) = num * pgSize - (top - p * pgSize) :=
      sub64_of_le (by omega) (by omega)
    have hend : top + (num * pgSize - (top - p * pgSize)) = (p + num) * pgSize := by omega
    have hdvdr : pgSize ∣ num * pgSize - (top - p * pgSize) :=
      Nat.dvd_sub hdvdn (Nat.dvd_sub hdvd' hdvdp)
    rw [if_neg hskip, hrest]
    generalize num * pgSize - (top - p * pgSize) = rest at *
    have hmask : rest &&& largePgMask.toNat = rest / largePgSize * largePgSize :=
      and_largePgMask (by omega)
    simp only [hmask]
    have hdown := Nat.div_mul_le_self rest largePgSize
    by_cases hsmall : rest / largePgSize * largePgSize < largePgSize
    · rw [if_pos hsmall]
      have hrows' : Rows s hdr w (top + rest) :=
        hrows.mono (Nat.le_add_right _ _) fun hmerge => hend ▸ h.waiting hmerge
      refine ⟨_, Exec.pure_eq _, hrows'.toCursor top rest hdvd' hdvdr (by omega), ?_⟩
      simp only
      omega
    · rw [if_neg hsmall]
      have hsize : 0 < rest / largePgSize * largePgSize :=
        Nat.lt_of_lt_of_le (by decide) (Nat.le_of_not_lt hsmall)
      obtain ⟨w', hemit, hcur, hnext⟩ := hrows.emit_cursor hr hsize hdvd'
        (Nat.dvd_trans (show pgSize ∣ largePgSize by decide) (Nat.dvd_mul_left _ _)) (by omega)
        (fun hmerge => by have := h.waiting hmerge; omega)
      exact ⟨w', hemit, hcur, by omega⟩

/-- The two pages in front of a range, as they are added to it. -/
theorem two_pages_before {p num : Nat} (hp : 2 ≤ p) (hbound : (p + num) * pgSize ≤ mmTableBytes) :
    sub64 (p * pgSize) (2 <<< pgBits) = (p - 2) * pgSize ∧
      add64 (num * pgSize) (2 <<< pgBits) = (num + 2) * pgSize := by
  have hbytes : mmTableBytes = 2 ^ 36 := by decide
  have hsum := Nat.add_mul p num pgSize
  constructor
  · rw [sub64_of_le (by unfold pgBits pgSize; omega) (by omega)]
    unfold pgBits pgSize
    omega
  · rw [add64_of_lt (by unfold pgBits; omega)]
    unfold pgBits pgSize
    omega

/-- The first range is written with the two pages in front of it. -/
theorem Found.emitFirst (hr : Ready s hdr zeroFrame cmdFrame) {w : Walk} {p num : Nat}
    (h : Found s hdr w p num) (hp : 2 ≤ p) (hrows : Rows s hdr w ((p - 2) * pgSize)) :
    ∃ w', w.emit (sub64 (p * pgSize) (2 <<< pgBits)) (add64 (num * pgSize) (2 <<< pgBits)) = .ok w' ∧
      Cursor s hdr w' ∧ p * pgSize < w'.mmapStart + w'.mmapSize := by
  obtain ⟨hnum, hsum, hbound, hbytes⟩ := h.bytes
  obtain ⟨hstart, hsize⟩ := two_pages_before hp hbound
  have hend : (p - 2) * pgSize + (num + 2) * pgSize = (p + num) * pgSize := by
    rw [← Nat.add_mul, show p - 2 + (num + 2) = p + num by omega]
  rw [hstart, hsize]
  obtain ⟨w', hemit, hcur, hnext⟩ := hrows.emit_cursor hr
    (show 0 < (num + 2) * pgSize from Nat.mul_pos (by omega) (by decide))
    (Nat.dvd_mul_left _ _) (Nat.dvd_mul_left _ _) (by omega) (fun hmerge => by have := h.waiting hmerge; omega)
  exact ⟨w', hemit, hcur, by omega⟩

/-- The second part of a round returns, keeps the rows, and moves the cursor past the start of the
range that was found. -/
theorem Found.place (hr : Ready s hdr zeroFrame cmdFrame) {w : Walk} {p num : Nat}
    (h : Found s hdr w p num) (kernelEnd startPaddr : Nat)
    (hfirst : startPaddr = 0 → p * pgSize < linuxEntryPoint →
      2 ≤ p ∧ Rows s hdr w ((p - 2) * pgSize)) :
    ∃ w', w.placeRange kernelEnd startPaddr = .ok w' ∧ Cursor s hdr w' ∧
      p * pgSize < w'.mmapStart + w'.mmapSize := by
  obtain ⟨hnum, hsum, hbound, hbytes⟩ := h.bytes
  have hdvdp : pgSize ∣ p * pgSize := Nat.dvd_mul_left _ _
  have hdvdn : pgSize ∣ num * pgSize := Nat.dvd_mul_left _ _
  by_cases hkernel : w.mmapStart ≥ kernelEnd
  · exact h.placeAbove hr startPaddr hkernel
  · unfold Walk.placeRange
    rw [if_neg hkernel]
    by_cases hover : w.mmapStart ≥ linuxEntryPoint ∧ w.mmapStart < kernelEnd
    · rw [if_pos hover]
      refine ⟨w, rfl, ⟨?_, ?_, ?_, ?_⟩, ?_⟩
      · rw [h.mmapStart, h.mmapSize, ← hsum]
        exact h.rows.mono (by omega) h.waiting
      · rw [h.mmapStart]
        exact hdvdp
      · rw [h.mmapSize]
        exact hdvdn
      · rw [h.mmapStart, h.mmapSize]
        omega
      · rw [h.mmapStart, h.mmapSize]
        omega
    · rw [if_neg hover, h.mmapStart, h.mmapSize]
      by_cases hzero : startPaddr = 0
      · -- two more pages in front of the range
        obtain ⟨hp, hrows⟩ := hfirst hzero (by rw [← h.mmapStart]; omega)
        rw [if_pos hzero]
        exact h.emitFirst hr hp hrows
      · rw [if_neg hzero]
        obtain ⟨w', hemit, hcur, hnext⟩ := h.rows.emit_cursor hr hnum hdvdp hdvdn (by omega)
          (fun hmerge => by have := h.waiting hmerge; omega)
        exact ⟨w', hemit, hcur, by omega⟩

/-- The allocator during the walk has the limits of the start. -/
theorem Rows.limits (hr : Ready s hdr zeroFrame cmdFrame) {w : Walk} {hi : Nat}
    (h : Rows s hdr w hi) :
    (∀ p, w.phys.Free p → p < w.phys.mmLimit) ∧ w.phys.entryEnd = s.entryEnd := by
  refine ⟨fun p hp => ?_, ?_⟩
  · rw [h.limit]
    exact hr.limit p ((h.free_iff p).mp hp).1
  · rw [w.phys.entryEnd_eq, s.entryEnd_eq, h.limit]

/-- When no range is left, the walk is past the ramdisk, and adds it if it has not done so. -/
theorem Cursor.finish (hr : Ready s hdr zeroFrame cmdFrame) {w : Walk} (h : Cursor s hdr w)
    {mmapStart : Nat}
    (hpast : mmapStart = w.mmapStart ∧ s.entryEnd ≤ (w.mmapStart + w.mmapSize) / pgSize / 64 ∨
      64 * s.entryEnd * pgSize ≤ mmapStart) :
    (Walk.addRamdisk { w with mmapStart, mmapSize := 0 } hdr).mmapSize = 0 ∧
      ∃ hi, Rows s hdr (Walk.addRamdisk { w with mmapStart, mmapSize := 0 } hdr) hi ∧
        (Walk.addRamdisk { w with mmapStart, mmapSize := 0 } hdr).mergeRamdisk = false := by
  have hrows := h.rows.cursor mmapStart 0
  unfold Walk.addRamdisk
  rw [hr.ramdiskEnd]
  by_cases hmerge : w.mergeRamdisk = true
  · have hwait := h.rows.waiting hmerge
    have hinside := hr.inside
    have hend := s.entryEnd_eq
    have hlast : mmapStart ≥ hdr.ramdiskImage.toNat + hdr.ramdiskSize.toNat := by
      unfold pgSize at *
      rcases hpast with ⟨_, hover⟩ | hover <;> omega
    rw [if_pos ⟨hlast, hmerge⟩]
    exact ⟨rfl, _, hrows.addRamdisk hr hmerge (Nat.le_refl _), rfl⟩
  · rw [if_neg fun hc => hmerge hc.2]
    exact ⟨rfl, _, hrows, Bool.eq_false_iff.mpr hmerge⟩

/-- **One round.** It returns; either it was the last one, and the ramdisk is among the rows, or the
cursor has moved up and was still inside the table. -/
theorem e820Round_spec (hr : Ready s hdr zeroFrame cmdFrame) (kernelEnd : Nat) {w : Walk}
    (h : Cursor s hdr w) :
    (∃ w' hi, e820Round hdr kernelEnd w = .ok (true, w') ∧ Rows s hdr w' hi ∧
      w'.mergeRamdisk = false) ∨
    ∃ w', e820Round hdr kernelEnd w = .ok (false, w') ∧ Cursor s hdr w' ∧
      w.mmapStart + w.mmapSize < w'.mmapStart + w'.mmapSize ∧
      w.mmapStart + w.mmapSize < mmTableBytes := by
  have hbound := h.bound
  have hbytes : mmTableBytes = 2 ^ 36 := by decide
  have hcur : add64 w.mmapStart w.mmapSize = w.mmapStart + w.mmapSize :=
    add64_of_lt (by unfold largePgSize at hbound; omega)
  have hpage : (w.mmapStart + w.mmapSize) >>> pgBits = (w.mmapStart + w.mmapSize) / pgSize :=
    Nat.shiftRight_eq_div_pow _ 12
  obtain ⟨hlimit, hend⟩ := h.rows.limits hr
  have hnext := physicalNextFreeRange_spec hlimit (by rw [hend]; exact hr.entryEnd)
    (w.mmapStart + w.mmapSize) w.mmapStart
  rw [hpage, hend] at hnext
  unfold e820Round
  rw [hcur]
  rcases hnext with ⟨p, num, hrun, hfree⟩ | ⟨_, start', hrun, hpast⟩
  · rw [shiftLeft_pgBits, shiftLeft_pgBits] at hrun
    obtain ⟨hfound, hle⟩ := h.found hr hfree
    have hsize : (Walk.addRamdisk
        { w with mmapStart := p * pgSize, mmapSize := num * pgSize } hdr).mmapSize ≠ 0 := by
      rw [hfound.mmapSize]
      exact Nat.ne_of_gt (Nat.mul_pos hfound.pos (by decide))
    have hfirst : w.mmapStart + w.mmapSize = 0 → p * pgSize < linuxEntryPoint →
        2 ≤ p ∧ Rows s hdr (Walk.addRamdisk
          { w with mmapStart := p * pgSize, mmapSize := num * pgSize } hdr) ((p - 2) * pgSize) := by
      intro hzero hlow
      have habove := hr.above
      have hlowest := hr.lowest p
        ((h.rows.free_iff p).mp (hfree.free p (Nat.le_refl p) (by have := hfree.pos; omega))).1
      have hz := hr.zero_pos
      have hc := hr.zero_lt
      unfold linuxEntryPoint at hlow
      unfold largePgSize at habove
      refine ⟨by omega, ?_⟩
      unfold Walk.addRamdisk
      rw [hr.ramdiskEnd, if_neg fun hcond => by have := hcond.1; simp only at this; omega]
      refine (h.rows_nil hzero _ ?_).cursor _ _
      have := Nat.mul_le_mul_right pgSize (Nat.sub_le p 2)
      omega
    obtain ⟨w', hplace, hcursor, hlt⟩ := hfound.place hr kernelEnd _ hfirst
    refine .inr ⟨w', ?_, hcursor, by omega, ?_⟩
    · simp only [hrun, Exec.ok_bind, if_neg hsize, hplace, Exec.pure_eq]
    · have hin := hfound.bound
      have hpos := Nat.mul_pos hfound.pos (show 0 < pgSize by decide)
      rw [Nat.add_mul] at hin
      omega
  · rw [shiftLeft_pgBits] at hpast
    obtain ⟨hsize, hi, hrows, hmerge⟩ := h.finish hr hpast
    refine .inl ⟨_, hi, ?_, hrows, hmerge⟩
    simp only [hrun, Exec.ok_bind, hsize, if_true, Exec.pure_eq]

/-- **The walk ends**, with all its rows written and the ramdisk among them. -/
theorem e820Loop_spec (hr : Ready s hdr zeroFrame cmdFrame) (kernelEnd : Nat) :
    ∀ (fuel : Nat) (w : Walk), 0 < fuel →
      64 * mmTableMax < fuel + (w.mmapStart + w.mmapSize) / pgSize → Cursor s hdr w →
      ∃ w' hi, e820Loop hdr kernelEnd fuel w = .ok w' ∧ Rows s hdr w' hi ∧
        w'.mergeRamdisk = false := by
  intro fuel
  induction fuel with
  | zero =>
    intro w h
    exact absurd h (Nat.lt_irrefl 0)
  | succ fuel ih =>
    intro w _ hf h
    unfold e820Loop
    rcases e820Round_spec hr kernelEnd h with ⟨w', hi, hround, hrows, hmerge⟩ | ⟨w', hround, hcur, hlt, hin⟩
    · rw [hround]
      exact ⟨w', hi, rfl, hrows, hmerge⟩
    · rw [hround]
      have hnext : (w.mmapStart + w.mmapSize) / pgSize < (w'.mmapStart + w'.mmapSize) / pgSize := by
        obtain ⟨k, hk⟩ := Nat.dvd_add h.start h.size
        obtain ⟨k', hk'⟩ := Nat.dvd_add hcur.start hcur.size
        rw [hk, hk'] at hlt ⊢
        rw [Nat.mul_div_cancel_left k (by decide), Nat.mul_div_cancel_left k' (by decide)]
        exact Nat.lt_of_mul_lt_mul_left hlt
      have hpages : (w.mmapStart + w.mmapSize) / pgSize < 64 * mmTableMax := by
        rw [Nat.div_lt_iff_lt_mul (by decide)]
        rwa [mmTableBytes, Nat.mul_comm mmTableMax] at hin
      exact ih w' (by omega) (by omega) hcur

/-- What `virt_setup_e820` returns, from the walk. -/
theorem virtSetupE820_of_loop {kernelSize : Nat} {w : Walk}
    (h : e820Loop hdr (add64 linuxEntryPoint kernelSize) scanFuel ⟨s, 0, 0, 0, true, []⟩ = .ok w) :
    virtSetupE820 s hdr kernelSize = .ok (w.table, w.phys) := by
  unfold virtSetupE820
  rw [h]
  rfl

/-- The walk of `virt_setup_e820`, from its start on. -/
theorem e820Loop_rows (hr : Ready s hdr zeroFrame cmdFrame) (kernelEnd : Nat) :
    ∃ w hi, e820Loop hdr kernelEnd scanFuel ⟨s, 0, 0, 0, true, []⟩ = .ok w ∧ Rows s hdr w hi ∧
      w.mergeRamdisk = false :=
  e820Loop_spec hr kernelEnd scanFuel ⟨s, 0, 0, 0, true, []⟩ (by decide)
    (show 64 * mmTableMax < scanFuel + 0 / pgSize by decide) (.init s hdr)

/-- So `virt_setup_e820` returns. -/
theorem Ready.returns (hr : Ready s hdr zeroFrame cmdFrame) (kernelSize : Nat) :
    ∃ table s', virtSetupE820 s hdr kernelSize = .ok (table, s') := by
  obtain ⟨w, _, hloop, _⟩ := e820Loop_rows hr (add64 linuxEntryPoint kernelSize)
  exact ⟨_, _, virtSetupE820_of_loop hloop⟩

/-! ## The hand-over -/

/-- **The e820 hand-over.** The walk returns. If it writes no more entries than the table holds,
they fill it from the start; in any case they are in ascending order and do not overlap, exactly
one of them is the ramdisk, none of their pages is free afterwards, and no run of the frame
allocator from there on hands out one of their pages. -/
theorem e820_hand_over (hr : Ready s hdr zeroFrame cmdFrame) (kernelSize : Nat) :
    ∃ table s', virtSetupE820 s hdr kernelSize = .ok (table, s') ∧
      (table.length ≤ e820MaxEntriesZeropage →
        table.map Prod.fst = List.range table.length) ∧
      ((table.map Prod.snd).Pairwise fun e e' => e.stop ≤ e'.addr) ∧
      (∀ e ∈ table.map Prod.snd, e.addr < e.stop) ∧
      (table.map Prod.snd).count (ramdiskEntry hdr) = 1 ∧
      (∀ e ∈ table.map Prod.snd, ∀ p, Touches e.addr e.stop p → ¬ s'.Free p) ∧
      ∀ tr w, Runs Step ⟨s', []⟩ tr w → ∀ g ∈ w.grants, ∀ p ∈ framesAt g.addr g.call.num,
        ∀ e ∈ table.map Prod.snd, ¬ Touches e.addr e.stop p := by
  obtain ⟨w, hi, hloop, hrows, hmerge⟩ := e820Loop_rows hr (add64 linuxEntryPoint kernelSize)
  have hnone : ∀ e ∈ w.entries, ∀ p, Touches e.addr e.stop p → ¬ w.phys.Free p :=
    fun e he p htouch hp => ((hrows.free_iff p).mp hp).2 e he htouch
  have hzero : ¬ w.phys.Free 0 := fun h =>
    Nat.not_lt_zero _ (hr.lowest 0 ((hrows.free_iff 0).mp h).1)
  refine ⟨w.table, w.phys, virtSetupE820_of_loop hloop, fun hlen => ?_, hrows.ascending, fun e he => ?_, ?_, hnone, ?_⟩
  · rw [hrows.index]
    refine (List.map_congr_left fun i hi => ?_).trans (List.map_id _)
    have hlt := List.mem_range.mp hi
    unfold e820MaxEntriesZeropage at hlen
    exact Nat.mod_eq_of_lt (by omega)
  · exact Nat.lt_add_of_pos_right (hrows.size_pos e he)
  · have hcount := hrows.ramdisk
    rwa [hmerge] at hcount
  · intro tr w' hrun g hg p hp e he htouch
    exact hnone e he p htouch (((runs_owned hzero hrun).granted g hg).2 p hp)

end

/-- A machine with one free page, 3, after the frames 1 and 2 were taken. -/
def pageThree : Physical := ⟨⟨fun i => if i.val = 0 then 8#64 else 0#64⟩, 1025, 17, rfl⟩

/-- A ramdisk of one byte at 2MB. -/
def oneByteRamdisk : SetupHeader := ⟨0, linuxHeaderMagic, 0xFF, 0, 0x100000, 0x200000, 1, 0⟩

theorem pageThree_free {p : Nat} (h : pageThree.Free p) : p = 3 := by
  have hword : ∀ p < 64, (8#64).getLsbD p = true → p = 3 := by decide
  unfold Physical.Free pageThree Bitmap.test at h
  split at h
  · simp only at h
    by_cases hp : p / 64 = 0
    · rw [if_pos hp, Nat.mod_eq_of_lt (by omega)] at h
      exact hword p (by omega) h
    · rw [if_neg hp] at h
      simp at h
  · cases h

theorem pageThree_ready : Ready pageThree oneByteRamdisk 1 2 where
  limit p hp := by
    rw [pageThree_free hp]
    decide
  entryEnd := by decide
  zero_pos := by decide
  zero_lt := by decide
  lowmem := by decide
  lowest p hp := by
    rw [pageThree_free hp]
    decide
  aligned := by decide
  above := by decide
  nonempty := by decide
  taken p htouch hp := by
    rw [pageThree_free hp] at htouch
    exact absurd htouch (by decide)
  inside := by decide
  below4G := by decide

/-- On that machine the ramdisk's large page is handed over and page 3 is no longer free. -/
theorem e820_hand_over_page_three : ∃ table s',
    virtSetupE820 pageThree oneByteRamdisk 0x500000 = .ok (table, s') ∧
      ⟨0x200000, 0x200000, e820Ram⟩ ∈ table.map Prod.snd ∧ ¬ s'.Free 0x200 := by
  obtain ⟨table, s', hrun, _, _, _, hcount, hnone, _⟩ := e820_hand_over pageThree_ready 0x500000
  have hmem : ramdiskEntry oneByteRamdisk ∈ table.map Prod.snd :=
    List.count_pos_iff.mp (by rw [hcount]; decide)
  exact ⟨table, s', hrun, hmem, hnone _ hmem 0x200 (by decide)⟩

end Rtv.Virt
