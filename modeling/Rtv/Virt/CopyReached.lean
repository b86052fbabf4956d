import Rtv.Mm.FindAligned
import Rtv.Mm.LargeRuns
import Rtv.Mm.Ranges
import Rtv.Virt.CopyCalls

/-!
# A host on which the copies are reached

`Roomy ls n`: a host with nothing mapped but `ls`, and with `n` large pages in a row that are free. On
such a host every step of `virt_setup_linux` up to its second copy returns, if the page counts of the
images pass (`relocateTo_total`) and the kernel's copy is inside (`ramdiskCopy_total`). `roomHost` is
one, with the header of an image (`kernelCopy_total`).
-/

namespace Rtv.Virt

open Rtv.Lib Rtv.Utils Rtv.Mm

/-- Nothing is mapped but `ls`, and `n` large pages in a row are free. -/
structure Roomy (ls : List (Set (BitVec 64))) (n : Nat) (h : Host) : Prop where
  live : LiveAt blankTables ls h
  limit : h.vm.phys.mmLimit = 64 * mmTableMax
  large : ∃ q, 1 ≤ q ∧ ∀ p, 512 * q ≤ p → p < 512 * (q + n) → h.vm.phys.Free p

section Steps

variable {ls post : List (Set (BitVec 64))} {n : Nat} {α : Type}

/-- The allocator keeps its limit and the free pages above the first 2MB. -/
theorem Roomy.keep {h h' : Host} {ls' : List (Set (BitVec 64))} (hh : Roomy ls n h)
    (hlive : LiveAt blankTables ls' h') (hlimit : h'.vm.phys.mmLimit = h.vm.phys.mmLimit)
    (hfree : ∀ p, 512 ≤ p → h.vm.phys.Free p → h'.vm.phys.Free p) : Roomy ls' n h' where
  live := hlive
  limit := hlimit.trans hh.limit
  large := by
    obtain ⟨q, hq, hall⟩ := hh.large
    exact ⟨q, hq, fun p hlo hhi => hfree p (by omega) (hall p hlo hhi)⟩

/-- A step that leaves the allocator alone. -/
theorem Roomy.same {h h' : Host} {ls' : List (Set (BitVec 64))} (hh : Roomy ls n h)
    (hlive : LiveAt blankTables ls' h') (hphys : h'.vm.phys = h.vm.phys) : Roomy ls' n h' := by
  refine hh.keep hlive ?_ ?_
  · rw [hphys]
  · rw [hphys]
    exact fun _ _ hf => hf

/-- A step that leaves the entries and the allocator alone. -/
theorem total_step {x : HostM α} {p : α → Prop} (hret : ∀ h, ∃ r, x h = .ok r) (hlive : KeepsEntries x)
    (hphys : KeepsPhys x p) : Total (Roomy ls n) x fun a h => p a ∧ Roomy ls n h := by
  intro h hh
  obtain ⟨⟨a, h'⟩, hrun⟩ := hret h
  obtain ⟨hp, hsame⟩ := hphys h a h' hrun
  exact ⟨a, h', hrun, hp, hh.same (hlive.live h a h' hh.live hrun) hsame⟩

theorem total_store {p : Ptr} {off k v : Nat} (hin : off + k ≤ p.size) :
    Total (Roomy ls n) (store p off k v) fun _ => Roomy ls n := by
  refine (total_step (fun h => ⟨_, if_pos hin⟩) (keepsEntries_store p off k v)
    (keepsPhys_store p off k v)).mono (fun _ hh => hh) fun _ _ hh => hh.2

theorem total_load {p : Ptr} {off k : Nat} (hin : off + k ≤ p.size) :
    Total (Roomy ls n) (load p off k) fun _ => Roomy ls n := by
  refine (total_step (fun h => ⟨_, if_pos hin⟩) (keepsEntries_load p off k)
    (keepsPhys_load p off k)).mono (fun _ hh => hh) fun _ _ hh => hh.2

theorem total_copy {dst src : Ptr} {dstOff srcOff k : Nat} (hdst : dstOff + k ≤ dst.size)
    (hsrc : srcOff + k ≤ src.size) :
    Total (Roomy ls n) (copy dst dstOff src srcOff k) fun _ => Roomy ls n := by
  refine (total_step (fun h => ⟨_, if_pos ⟨hdst, hsrc⟩⟩) (keepsEntries_copy dst dstOff src srcOff k)
    (keepsPhys_copy dst dstOff src srcOff k)).mono (fun _ hh => hh) fun _ _ hh => hh.2

theorem total_require {P : Host → Prop} {func msg : String} {c : Prop} [Decidable c] (hc : c) :
    Total P (require func msg c) fun _ => P := by
  intro h hh
  refine ⟨(), h, ?_, hh⟩
  rw [require, if_pos hc]
  rfl

/-- An entry of the page window is not among `ls`. -/
def SlotLeft (ls : List (Set (BitVec 64))) : Prop :=
  ∃ k < pgTableEntries, ∀ A ∈ ls, slot Window.page.table k ∉ A

theorem slotLeft_nil : SlotLeft [] := ⟨0, by decide, nofun⟩

/-- One page leaves entry 0 or entry 1. -/
theorem slotLeft_page (va : Nat) : SlotLeft [pageSlots va] := by
  by_cases hzero : slot Window.page.table 0 ∈ pageSlots va
  · refine ⟨1, by decide, fun A hA hone => ?_⟩
    obtain rfl := List.mem_singleton.mp hA
    have hval := congrArg BitVec.toNat (hzero.2.trans hone.2.symm)
    rw [slot_page (by decide), slot_page (by decide)] at hval
    omega
  · refine ⟨0, by decide, fun A hA => ?_⟩
    obtain rfl := List.mem_singleton.mp hA
    exact hzero

/-- What is known of a pointer to a page. -/
structure PagePtr (frame : Nat) (p : Ptr) : Prop where
  va : PageVa p.va
  base : p.base = pageBase frame pgSize
  ne_null : p.va ≠ 0
  size : p.size = pgSize

/-- Mapping a page, which succeeds if an entry is left. -/
theorem total_mapPage {frame : Nat} (hls : SlotLeft ls) :
    Total (Roomy ls n) (mapPage frame (pgtP ||| pgtRw)) fun p h =>
      PagePtr frame p ∧ Roomy (pageSlots p.va :: ls) n h := by
  intro h hh
  obtain ⟨⟨va, vm⟩, hvm, _⟩ := vmMapPage_spec h.vm (BitVec.ofNat 64 frame) (pgtP ||| pgtRw)
  have hrun : mapPage frame (pgtP ||| pgtRw) h =
      .ok (⟨va, pageBase frame pgSize, if va = 0 then 0 else pgSize⟩, { h with vm }) := by
    refine run_bind_eq_ok.mpr ⟨va, { h with vm }, ?_, rfl⟩
    rw [onVm, hvm]
    rfl
  obtain ⟨hva, hlive⟩ := mapPage_live (by decide) h _ _ hh.live hrun
  have hphys := (mapPage_keeps hrun).2
  have hne : va ≠ 0 := by
    obtain ⟨k, hk, hfree⟩ := hls
    have hpos := slot_page hk
    have hnull : slot Window.page.table k ≠ nullSlot := by
      intro heq
      rw [heq] at hpos
      simp only [nullSlot, BitVec.toNat_ofNat] at hpos
      omega
    refine vmMapPage_ne_null hk ?_ hvm
    rw [Vm.absent_iff, hh.live.present_iff _ hnull]
    rintro (hblank | ⟨A, hA, hmem⟩)
    · exact hblank BitVec.zero_and
    · exact hfree A hA hmem
  exact ⟨_, _, hrun, ⟨hva, rfl, hne, if_neg hne⟩, hh.same hlive hphys⟩

/-- Unmapping a page. -/
theorem total_unmapPage (pre : List (Set (BitVec 64))) {p : Ptr} (hva : PageVa p.va) :
    Total (Roomy (pre ++ pageSlots p.va :: post) n) (unmapPage p) fun _ => Roomy (pre ++ post) n := by
  intro h hh
  obtain ⟨⟨u, h'⟩, hrun⟩ : ∃ r, unmapPage p h = .ok r := ⟨_, rfl⟩
  have hphys := (keepsPhys_unmapPage p h u h' hrun).2
  exact ⟨u, h', hrun, hh.same (unmapPage_live pre hva h u h' hh.live hrun) hphys⟩

/-- Unmapping large pages. -/
theorem total_unmapLargePages (pre : List (Set (BitVec 64))) {p : Ptr} {k num : Nat}
    (hva : p.va = k <<< largePgBits) (hk : k + num ≤ pdtReach) :
    Total (Roomy (pre ++ largeSlots k num :: post) n) (unmapLargePages p num) fun _ =>
      Roomy (pre ++ post) n := by
  intro h hh
  obtain ⟨⟨u, h'⟩, hrun⟩ : ∃ r, unmapLargePages p num h = .ok r := ⟨_, rfl⟩
  have hphys := (keepsPhys_unmapLargePages p num h u h' hrun).2
  exact ⟨u, h', hrun, hh.same (unmapLargePages_live pre hva hk h u h' hh.live hrun) hphys⟩

/-- A call of `physical.c` that returns. -/
theorem onPhys_run {f : Physical → Exec (α × Physical)} {h : Host} {a : α} {s : Physical}
    (hrun : f h.vm.phys = .ok (a, s)) : onPhys f h = .ok (a, { h with vm := { h.vm with phys := s } }) := by
  rw [onPhys, hrun]
  rfl

theorem total_allocFrameLowmem : Total (Roomy ls n) allocFrameLowmem fun _ => Roomy ls n := by
  intro h hh
  obtain ⟨⟨frame, s⟩, hrun⟩ : ∃ r, allocPhysFrameLowmem h.vm.phys = .ok r :=
    allocFrameScan_ok (by decide) (by decide) (by decide)
  refine ⟨frame, _, onPhys_run hrun, hh.keep (hh.live.congr rfl) ?_ ?_⟩
  · rcases allocPhysFrameLowmem_spec hrun with heq | ⟨_, _, _, _, hm⟩
    · exact congrArg (fun r => r.2.mmLimit) heq
    · exact hm.limit
  · intro p hp hf
    rcases allocPhysFrameLowmem_spec hrun with heq | ⟨page, _, hlow, _, hm⟩
    · obtain rfl : s = h.vm.phys := congrArg Prod.snd heq
      exact hf
    · exact (hm.taken_iff p).mpr ⟨hf, by omega⟩

theorem total_freeRangeBehind {behind : Nat → Bool} {start length : Nat} (hpage : start % pgSize = 0)
    (hlength : length < 2 ^ 64)
    (hin : ∀ p, Inside start (start + length) p → Writable mmTableMax behind (p / 64)) :
    Total (Roomy ls n) (freeRangeBehind behind start length) fun _ => Roomy ls n := by
  intro h hh
  obtain ⟨s, hs⟩ := (physicalFreeRangeBehind_returns_iff h.vm.phys hpage hlength).mpr hin
  obtain ⟨hlimit, hfree⟩ := physicalFreeRangeBehind_keeps hs
  refine ⟨(), _, onPhys_run (s := s) ?_, hh.keep (hh.live.congr rfl) hlimit fun p _ => hfree p⟩
  rw [hs]
  rfl

/-- New large frames, if there are enough in the row. -/
theorem total_allocFramesAligned {num : Nat} (hnum : 1 ≤ num) (hn : num ≤ n) :
    Total (Roomy ls n) (allocFramesAligned (num <<< (largePgBits - pgBits)) largePgSize) fun frames h =>
      frames ≠ 0 ∧ Roomy ls (n - num) h := by
  intro h hh
  obtain ⟨q, hq, hall⟩ := hh.large
  have hcount : num <<< (largePgBits - pgBits) = num * 512 := Nat.shiftLeft_eq num 9
  rw [hcount]
  obtain ⟨⟨frames, s⟩, hrun, hfinds, hzero⟩ := allocPhysFramesAligned_first_fit h.vm.phys (num * 512) 21
    (by omega) (by decide) (fun p hp => hh.limit ▸ hp.lt) (le_of_eq hh.limit)
  have hrow : AlignedRun h.vm.phys (num * 512) (2 ^ 21) (512 * q) := by
    refine ⟨by omega, ⟨q, ?_⟩, fun k hk => hall _ (by omega) (by omega)⟩
    unfold pgSize
    omega
  have hne : frames ≠ 0 := fun heq => hzero.mp heq _ hrow
  refine ⟨frames, _, onPhys_run hrun, hne, ?_⟩
  rcases hfinds with ⟨p, hlowest, _, hm⟩ | ⟨hnone, _⟩
  · -- the run that was taken begins at the row or in front of it
    have hle : p ≤ 512 * q := by
      by_contra hlt
      exact hlowest.2 _ (not_le.mp hlt) hrow
    refine ⟨hh.live.congr rfl, hm.limit.trans hh.limit, q + num, by omega, fun f hlo hhi => ?_⟩
    exact (hm.taken_iff f).mpr ⟨hall f (by omega) (by omega), by omega⟩
  · exact absurd hrow (hnone _)

/-- Mapping large pages behind `k` that are mapped. -/
theorem total_mapLargePages {frame num k : Nat} {flags : BitVec 64} (hflags : flags &&& pgtP ≠ 0#64)
    (hnum : 1 ≤ num) (hfit : k + num ≤ 10 ∨ 18 ≤ num) (hk : k < 2 ^ 16) (hnum' : num < 2 ^ 16)
    (hpresent : ∀ t < k, ∃ A ∈ ls, slot Window.largePage.table (6 + t) ∈ A)
    (hfree : ∀ t < num, ∀ A ∈ ls, slot Window.largePage.table (6 + k + t) ∉ A) :
    Total (Roomy ls n) (mapLargePages frame num flags) fun p h =>
      p.va = (6 + k) <<< largePgBits ∧ Roomy (largeSlots (6 + k) num :: ls) n h := by
  intro h hh
  have hblank : ∀ a, ¬ blankTables.Present a := fun a hp => hp BitVec.zero_and
  have hslot : ∀ j, j < 2 ^ 18 → (h.vm.Absent Window.largePage.table j ↔
      ∀ A ∈ ls, slot Window.largePage.table j ∉ A) := by
    intro j hj
    have hnull := slot_large_ne_null (show j < pdtReach by unfold pdtReach; omega)
    rw [Vm.absent_iff, hh.live.present_iff _ hnull]
    simp [hblank]
  obtain ⟨s, hvm⟩ := @vmMapLargePages_at h.vm (BitVec.ofNat 64 frame) flags k num hnum hfit hk hnum'
    (fun t ht habs => by
      obtain ⟨A, hA, hmem⟩ := hpresent t ht
      exact (hslot _ (by omega)).mp habs A hA hmem)
    (fun t ht => (hslot _ (by omega)).mpr (hfree t ht))
  have hrun : mapLargePages frame num flags h = .ok
      (⟨(6 + k) <<< largePgBits, pageBase frame largePgSize, num * largePgSize⟩, { h with vm := s }) := by
    refine run_bind_eq_ok.mpr ⟨_, { h with vm := s }, ?_, rfl⟩
    rw [onVm, hvm]
    rfl
  have hva : (6 + k) <<< largePgBits = (6 + k) * 2 ^ 21 := Nat.shiftLeft_eq _ 21
  have hphys := (keepsPhys_mapLargePages hflags (by omega) h _ _ hrun).2
  refine ⟨_, _, hrun, rfl, ?_⟩
  rcases mapLargePages_live hflags (by omega) h _ _ hh.live hrun with hzero | ⟨k', ⟨heq, _⟩, hlive⟩
  · dsimp only at hzero
    omega
  · have hva' : k' <<< largePgBits = k' * 2 ^ 21 := Nat.shiftLeft_eq _ 21
    dsimp only at heq
    obtain rfl : 6 + k = k' := by omega
    exact hh.same hlive hphys

end Steps

/-! ## The parts of `virt_setup_linux` -/

section Parts

variable {ls : List (Set (BitVec 64))} {n : Nat} {start size : Nat} {c : CopyCall} {behind : Nat → Bool}

/-- The entries of the source and of the destination of a copy. -/
def copySlots (start size : Nat) : List (Set (BitVec 64)) :=
  [largeSlots (6 + sourcePages start size) (largePages size), largeSlots 6 (sourcePages start size)]

/-- The two mappings of a copy are next to each other at the begin of the window. -/
structure AtBegin (start size : Nat) (c : CopyCall) : Prop where
  src : c.src.va = 6 <<< largePgBits
  srcPages : c.srcPages = sourcePages start size
  dst : c.dst.va = (6 + sourcePages start size) <<< largePgBits
  dstPages : c.dstPages = largePages size

/-- They are in the page directory. -/
theorem AtBegin.inDirectory (hat : AtBegin start size c) (hpass : Passes start size) : c.InDirectory := by
  have hfit := hpass.fit
  constructor
  · rw [hat.src, hat.srcPages, Nat.shiftLeft_shiftRight]
    unfold pgTableEntries
    omega
  · rw [hat.dst, hat.dstPages, Nat.shiftLeft_shiftRight]
    unfold pgTableEntries
    omega

/-- **With page counts that pass the copy is reached.** -/
theorem relocateTo_total (what : String) (hstart : start < 2 ^ 64) (hsize : size < 2 ^ 64)
    (hpass : Passes start size) (hn : largePages size ≤ n) (hls : NoLarge ls) :
    Total (Roomy ls n) (relocateTo what start size) fun c h =>
      AtBegin start size c ∧ Roomy (copySlots start size ++ ls) (n - largePages size) h := by
  obtain ⟨hsrc, hdst⟩ := counts_lt start size
  have hcounts := sourcePages_eq hstart hsize hpass.src
  have hpos := hpass.src
  have hpos' := hpass.dst
  have hfit := hpass.fit
  have hva : ∀ k, (6 + k) <<< largePgBits ≠ 0 := by
    intro k
    rw [Nat.shiftLeft_eq]
    unfold largePgBits
    omega
  have hreach : ∀ j, j < 2 ^ 18 → j < pdtReach := by
    intro j hj
    unfold pdtReach
    omega
  unfold relocateTo
  dsimp only
  refine (total_mapLargePages (k := 0) (by decide) hpos (by omega) (by decide) (by omega) nofun
    fun t ht A hA => hls A hA _ (hreach _ (by omega))).bind fun src => Total.intro fun hsrcVa => ?_
  refine (total_require (by rw [hsrcVa]; exact hva 0)).bind fun _ => ?_
  refine (total_allocFramesAligned hpos' hn).bind fun frames => Total.intro fun hframes => ?_
  refine (total_require hframes).bind fun _ => ?_
  have hpresent : ∀ t < sourcePages start size,
      ∃ A ∈ largeSlots (6 + 0) (sourcePages start size) :: ls, slot Window.largePage.table (6 + t) ∈ A :=
    fun t ht => ⟨_, List.mem_cons_self, t, ht, rfl⟩
  have hfree : ∀ t < largePages size, ∀ A ∈ largeSlots (6 + 0) (sourcePages start size) :: ls,
      slot Window.largePage.table (6 + sourcePages start size + t) ∉ A := by
    intro t ht A hA
    rcases List.mem_cons.mp hA with rfl | hA
    · rw [mem_largeSlots (le_of_lt (hreach _ (by omega))) (hreach _ (by omega))]
      omega
    · exact hls A hA _ (hreach _ (by omega))
  refine (total_mapLargePages (by decide) hpos' (by omega) (by omega) (by omega) hpresent hfree).bind
    fun dst => Total.intro fun hdstVa => ?_
  refine (total_require (by rw [hdstVa]; exact hva _)).bind fun _ => Total.pure fun h hh => ?_
  exact ⟨⟨hsrcVa, rfl, hdstVa, rfl⟩, hh⟩

/-- From the copy on, if it is inside, with the source unmapped and the old place given back. -/
theorem relocateFrom_total {oldStart oldSize : Nat} (hat : AtBegin start size c) (hinside : c.Inside)
    (hpage : oldStart % pgSize = 0) (hlength : oldSize < 2 ^ 64)
    (hin : ∀ p, Inside oldStart (oldStart + oldSize) p → Writable mmTableMax behind (p / 64)) :
    Total (Roomy (copySlots start size ++ ls) n) (relocateFrom behind oldStart oldSize c) fun r h =>
      r = (c.newFrames, c.dst, c.dstPages) ∧
        Roomy (largeSlots (6 + sourcePages start size) (largePages size) :: ls) n h := by
  have hreach : 6 + sourcePages start size ≤ pdtReach := by
    have := (counts_lt start size).1
    unfold pdtReach
    omega
  unfold relocateFrom
  refine (total_copy (by rw [Nat.zero_add]; exact hinside.dst) hinside.src).bind fun _ => ?_
  rw [hat.srcPages]
  refine Total.bind (total_unmapLargePages
    [largeSlots (6 + sourcePages start size) (largePages size)] hat.src hreach) fun _ => ?_
  exact (total_freeRangeBehind hpage hlength hin).bind fun _ => Total.pure fun h hh => ⟨rfl, hh⟩

theorem setupCmdPage_total {zeroVirt : Ptr} (hzero : zeroVirt.size = pgSize) (hls : SlotLeft ls) :
    Total (Roomy ls n) (setupCmdPage zeroVirt) fun _ => Roomy ls n := by
  unfold setupCmdPage
  refine total_allocFrameLowmem.bind fun cmdFrame => (total_mapPage hls).bind fun gdt => ?_
  refine Total.intro fun ⟨hva, _, _, hsize⟩ => ?_
  refine (total_store (by rw [hsize]; decide)).bind fun _ => ?_
  refine (total_store (by rw [hsize]; decide)).bind fun _ => ?_
  refine (total_store (by rw [hsize]; decide)).bind fun _ => ?_
  refine (total_store (by rw [hsize]; decide)).bind fun _ => ?_
  refine (total_store (by rw [hsize]; decide)).bind fun _ => ?_
  refine Total.bind (total_unmapPage [] hva) fun _ => ?_
  exact (total_store (by rw [hzero]; decide)).bind fun _ => Total.pure fun _ hh => hh

/-- Between the images: the destination of the kernel is unmapped. -/
theorem linuxMiddle_total (vm : VmStruct) {zeroVirt dst : Ptr} {k num : Nat}
    (hzero : zeroVirt.size = pgSize) (hva : dst.va = k <<< largePgBits) (hk : k + num ≤ pdtReach)
    (hls : SlotLeft ls) :
    Total (Roomy (largeSlots k num :: ls) n) (linuxMiddle vm zeroVirt dst num) fun _ => Roomy ls n := by
  unfold linuxMiddle
  refine Total.bind (total_unmapLargePages [] hva hk) fun _ => ?_
  refine (setupCmdPage_total hzero hls).bind fun cmdFrame => ?_
  refine (total_store (by rw [hzero]; decide)).bind fun _ => ?_
  refine (total_load (by rw [hzero]; decide)).bind fun loadflags => ?_
  refine (total_store (by rw [hzero]; decide)).bind fun _ => ?_
  exact (total_store (by rw [hzero]; decide)).bind fun _ => Total.pure fun _ hh => hh

/-- **The ramdisk's copy is reached**, if the kernel's copy is inside, its old place can be given back and
the page counts of the ramdisk pass. -/
theorem ramdiskCopy_total (vm : VmStruct) {head : Nat × Ptr × Nat} (hzero : head.2.1.size = pgSize)
    (hpage : vm.imgPaddr.toNat % pgSize = 0)
    (hin : ∀ p, Inside vm.imgPaddr.toNat (vm.imgPaddr.toNat + vm.imgSize.toNat) p →
      Writable mmTableMax behind (p / 64))
    (hat : AtBegin start size c) (hinside : c.Inside)
    (hpass : Passes vm.extraPaddr.toNat vm.extraSize.toNat) (hn : largePages vm.extraSize.toNat ≤ n)
    (hls : NoLarge ls) (hslot : SlotLeft ls) :
    Total (Roomy (copySlots start size ++ ls) n) (ramdiskCopy behind vm head c) fun r _ =>
      AtBegin vm.extraPaddr.toNat vm.extraSize.toNat r.2.2 := by
  have hreach : 6 + sourcePages start size + largePages size ≤ pdtReach := by
    have := counts_lt start size
    unfold pdtReach
    omega
  unfold ramdiskCopy
  refine (relocateFrom_total hat hinside hpage vm.imgSize.toNat_lt hin).bind fun r => ?_
  refine Total.intro fun hr => ?_
  rw [hr]
  dsimp only
  rw [hat.dstPages]
  refine (linuxMiddle_total vm hzero hat.dst hreach hslot).bind fun cmdFrame => ?_
  refine (relocateTo_total "ramdisk" vm.extraPaddr.toNat_lt vm.extraSize.toNat_lt hpass hn hls).bind
    fun c' => Total.intro fun hat' => ?_
  exact Total.pure fun _ _ => hat'

end Parts

/-! ## The header -/

section Header

variable {ls : List (Set (BitVec 64))} {n a f : Nat} {α : Type}

/-- The header of the image in the page at `a` has its magic number. -/
structure Headed (ls : List (Set (BitVec 64))) (n a : Nat) (h : Host) : Prop where
  roomy : Roomy ls n h
  magic : h.mem.loadLE (a + headerOff) 4 = linuxHeaderMagic.toNat

/-- A step that leaves the memory alone. -/
theorem Headed.total {x : HostM α} {p : α → Prop} {ls' : α → List (Set (BitVec 64))}
    (hx : Total (Roomy ls n) x fun r h => p r ∧ Roomy (ls' r) n h) (hmem : KeepsMemory x) :
    Total (Headed ls n a) x fun r h => p r ∧ Headed (ls' r) n a h := by
  intro h hh
  obtain ⟨r, h', hrun, hp, hroomy⟩ := hx h hh.roomy
  refine ⟨r, h', hrun, hp, hroomy, ?_⟩
  rw [(hmem h r h' hrun).1]
  exact hh.magic

theorem copySetupHeader_total (vm : VmStruct) {zeroVirt : Ptr} (hpage : vm.imgPaddr.toNat % pgSize = 0)
    (hzero : zeroVirt.size = pgSize) (hls : SlotLeft ls) :
    Total (Headed ls n (pageBase vm.imgPaddr.toNat pgSize)) (copySetupHeader vm zeroVirt) fun _ =>
      Roomy ls n := by
  unfold copySetupHeader
  refine (total_require hpage).bind fun _ => ?_
  refine (Headed.total (total_mapPage hls) (keepsMemory_mapPage _ _)).bind fun linuxVirt => ?_
  refine Total.intro fun ⟨hva, hbase, hne, hsize⟩ => ?_
  refine (total_require hne).bind fun _ => ?_
  -- the magic number that is read is that of the image
  have hload : Total (Headed (pageSlots linuxVirt.va :: ls) n (pageBase vm.imgPaddr.toNat pgSize))
      (load linuxVirt headerOff 4) fun magic h =>
        magic = linuxHeaderMagic.toNat ∧ Roomy (pageSlots linuxVirt.va :: ls) n h := by
    intro h hh
    refine ⟨_, h, if_pos (by rw [hsize]; decide), ?_, hh.roomy⟩
    rw [hbase]
    exact hh.magic
  refine hload.bind fun magic => Total.intro fun hmagic => ?_
  refine (total_require hmagic).bind fun _ => ?_
  refine (total_copy (by rw [hzero]; decide) (by rw [hsize]; decide)).bind fun _ => ?_
  exact total_unmapPage [] hva

/-- The page for the zero page is the lowest free one. -/
theorem allocFrameLowmem_first (hlow : f < 256) :
    Total (fun h => Headed ls n a h ∧ FirstFree h.vm.phys 0 f) allocFrameLowmem fun frame h =>
      frame = f * pgSize ∧ Headed ls n a h := by
  rintro h ⟨hh, hfirst⟩
  obtain ⟨frame, h', hrun, hroomy⟩ := total_allocFrameLowmem h hh.roomy
  obtain ⟨s, hs, heq⟩ := onPhys_eq_ok hrun
  dsimp only at heq
  refine ⟨frame, h', hrun, ?_, hroomy, ?_⟩
  · rcases allocFrameScan_spec hs with ⟨_, hnone⟩ | ⟨page, hframe, _, _, hfree, hmin, _⟩
    · exact absurd hfirst.2.1 (hnone f (Nat.zero_le _) (by omega))
    · obtain rfl := hfirst.eq ⟨Nat.zero_le _, hfree, fun p _ hp => hmin p (Nat.zero_le _) hp⟩
      exact hframe.trans (shiftLeft_pgBits _)
  · rw [heq]
    exact hh.magic

/-- Another page is cleared. -/
theorem clearPage_headed {p : Ptr} (hsize : p.size = pgSize) (hbase : pgSize ∣ p.base)
    (ha : pgSize ∣ a) (hapart : p.base ≠ a) :
    Total (Headed ls n a) (clearPage p) fun _ => Headed ls n a := by
  intro h hh
  have hin : 0 + pgSize ≤ p.size := by
    rw [hsize, Nat.zero_add]
  obtain ⟨u, h', hrun, hroomy⟩ := total_store (v := 0) hin h hh.roomy
  refine ⟨u, h', hrun, hroomy, ?_⟩
  obtain ⟨_, heq⟩ := Exec.guard_eq_ok.mp hrun
  cases heq
  rw [Bytes.loadLE_storeLE_apart, hh.magic]
  obtain ⟨i, hi⟩ := hbase
  obtain ⟨j, rfl⟩ := ha
  rw [hi] at hapart ⊢
  unfold headerOff pgSize at *
  omega

/-- The zero page is made, in the lowest free page, which is not the page of the image. -/
theorem linuxHead_total (vm : VmStruct) (hpage : vm.imgPaddr.toNat % pgSize = 0) (hf : 0 < f)
    (hlow : f < 256) (hapart : f * pgSize ≠ pageBase vm.imgPaddr.toNat pgSize) :
    Total (fun h => Headed [] n (pageBase vm.imgPaddr.toNat pgSize) h ∧ FirstFree h.vm.phys 0 f)
      (linuxHead vm) fun head h => PagePtr head.1 head.2.1 ∧ Roomy [pageSlots head.2.1.va] n h := by
  unfold linuxHead
  refine (allocFrameLowmem_first hlow).bind fun frame => Total.intro fun hframe => ?_
  have hne : frame ≠ 0 := by
    rw [hframe]
    exact Nat.mul_ne_zero (Nat.ne_of_gt hf) (by decide)
  refine (total_require hne).bind fun _ => ?_
  refine (Headed.total (total_mapPage slotLeft_nil) (keepsMemory_mapPage _ _)).bind fun zeroVirt => ?_
  refine Total.intro fun hptr => ?_
  have hbase := hptr.base
  rw [hframe, pageBase_page (by omega)] at hbase
  refine (total_require hptr.ne_null).bind fun _ => ?_
  refine (clearPage_headed hptr.size (hbase ▸ Nat.dvd_mul_left _ _) (pgSize_dvd_pageBase _)
    (hbase ▸ hapart)).bind fun _ => ?_
  refine (copySetupHeader_total vm hpage hptr.size (slotLeft_page _)).bind fun _ => ?_
  refine (total_load (by rw [hptr.size]; decide)).bind fun setupSects => ?_
  exact Total.pure fun _ hh => ⟨hptr, hh⟩

end Header

/-! ## The host -/

section RoomHost

variable (vm : VmStruct) (setupSects : UInt8)

/-- The page for the zero page, which is not that of the image. -/
def roomPage : Nat := if pageBase vm.imgPaddr.toNat pgSize = pgSize then 2 else 1

/-- Free are that page and 510 large pages from 2MB on. -/
def roomPhysical : Physical where
  mmTable := ⟨fun i => if i.val = 0 then 1#64 <<< roomPage vm
    else if 8 ≤ i.val ∧ i.val < 8 * 511 then ~~~0#64 else 0#64⟩
  mmLimit := 64 * mmTableMax
  entryEnd := (64 * mmTableMax + 63) / 64
  entryEnd_eq := rfl

/-- Nothing is mapped, and the memory is zero but for the header of the image. -/
def roomHost : Host where
  vm := ⟨fun _ => 0#64, roomPhysical vm⟩
  mem := (Bytes.storeLE ⟨fun _ => 0⟩ (pageBase vm.imgPaddr.toNat pgSize + headerOff) 4
    linuxHeaderMagic.toNat).setByte vm.setupSectsAt setupSects

theorem roomPage_pos : 0 < roomPage vm ∧ roomPage vm < 3 := by
  unfold roomPage
  split
  · decide
  · decide

theorem roomPhysical_low {p : Nat} (hp : p < 64) : (roomPhysical vm).Free p ↔ p = roomPage vm := by
  have hpage := roomPage_pos vm
  have hword : p / 64 = 0 := Nat.div_eq_of_lt hp
  rw [Physical.Free, Bitmap.test_of_lt _ (by rw [hword]; decide)]
  unfold roomPhysical
  dsimp only
  rw [if_pos hword, Nat.mod_eq_of_lt hp, getLsbD_one_shiftLeft _ _ (by omega), decide_eq_true_iff]

theorem roomPhysical_large {p : Nat} (hlo : 512 ≤ p) (hhi : p < 512 * 511) :
    (roomPhysical vm).Free p := by
  rw [Physical.Free, Bitmap.test_of_lt _ (by unfold mmTableMax; omega)]
  unfold roomPhysical
  dsimp only
  rw [if_neg (by omega), if_pos (by omega), BitVec.getLsbD_not, BitVec.getLsbD_zero]
  simp only [Bool.not_false, Bool.and_true, decide_eq_true_iff]
  omega

theorem roomHost_headed :
    Headed [] 510 (pageBase vm.imgPaddr.toNat pgSize) (roomHost vm setupSects) where
  roomy := {
    live := (Live.refl blankTables).congr rfl
    limit := rfl
    large := ⟨1, le_rfl, fun p hlo hhi => roomPhysical_large vm (by omega) (by omega)⟩ }
  magic := by
    have hsame : (roomHost vm setupSects).mem.loadLE (pageBase vm.imgPaddr.toNat pgSize + headerOff) 4 =
        (Bytes.storeLE ⟨fun _ => 0⟩ (pageBase vm.imgPaddr.toNat pgSize + headerOff) 4
          linuxHeaderMagic.toNat).loadLE (pageBase vm.imgPaddr.toNat pgSize + headerOff) 4 := by
      refine Bytes.loadLE_congr fun x hlo _ => Bytes.setByte_ne _ _ ?_
      unfold VmStruct.setupSectsAt setupSectsOff
      unfold headerOff at hlo
      omega
    rw [hsame, Bytes.loadLE_storeLE_same]
    rfl

theorem roomHost_first : FirstFree (roomHost vm setupSects).vm.phys 0 (roomPage vm) := by
  have hpage := roomPage_pos vm
  refine ⟨Nat.zero_le _, (roomPhysical_low vm (by omega)).mpr rfl, fun p _ hp hfree => ?_⟩
  exact Nat.ne_of_lt hp ((roomPhysical_low vm (by omega)).mp hfree)

theorem roomHost_setupSects : (roomHost vm setupSects).mem vm.setupSectsAt = setupSects :=
  Bytes.setByte_self _ _ _

theorem roomPage_apart : roomPage vm * pgSize ≠ pageBase vm.imgPaddr.toNat pgSize := by
  unfold roomPage
  split
  · next heq =>
    rw [heq]
    decide
  · next hne =>
    rw [Nat.one_mul]
    exact Ne.symm hne

/-- **The kernel's copy is reached** on this host. -/
theorem kernelCopy_total (hpage : vm.imgPaddr.toNat % pgSize = 0)
    (hpass : Passes (vm.kernelFrom setupSects) (vm.kernelBytes setupSects)) :
    ∃ head c h, kernelCopy vm (roomHost vm setupSects) = .ok ((head, c), h) ∧ PagePtr head.1 head.2.1 ∧
      AtBegin (vm.kernelFrom setupSects) (vm.kernelBytes setupSects) c ∧
        Roomy (copySlots (vm.kernelFrom setupSects) (vm.kernelBytes setupSects) ++
          [pageSlots head.2.1.va]) (510 - largePages (vm.kernelBytes setupSects)) h := by
  have hlow := roomPage_pos vm
  obtain ⟨head, h₁, hhead, hptr, hroomy⟩ :=
    linuxHead_total (n := 510) vm hpage hlow.1 (by omega) (roomPage_apart vm) _
      ⟨roomHost_headed vm setupSects, roomHost_first vm setupSects⟩
  obtain ⟨_, hsize⟩ := linuxHead_size vm (roomHost vm setupSects).mem (roomPhysical vm) _ _ _
    ⟨rfl, Or.inl fun _ _ _ => rfl⟩ hhead
  rw [roomHost_setupSects] at hsize
  have hcounts := (counts_lt (vm.kernelFrom setupSects) (vm.kernelBytes setupSects)).2
  have hnone : NoLarge [] := nofun
  obtain ⟨c, h₂, hcopy, hat, hroomy'⟩ := relocateTo_total "kernel" (vm.kernelFrom_lt setupSects)
    (vm.kernelBytes_lt setupSects) hpass (by omega) (hnone.page hptr.va) h₁ hroomy
  refine ⟨head, c, h₂, run_bind_eq_ok.mpr ⟨head, h₁, hhead, ?_⟩, hptr, hat, hroomy'⟩
  refine run_bind_eq_ok.mpr ⟨c, h₂, ?_, rfl⟩
  rw [hsize]
  exact hcopy

end RoomHost

end Rtv.Virt
