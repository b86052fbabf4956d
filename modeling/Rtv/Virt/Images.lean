import Rtv.Virt.Contents

/-!
# Moving the images

What `virt_setup_linux` does to frames in use: nothing, although it gives back the frames of the
kernel's and the ramdisk's old places. No frame in use is among those, and the new places are frames
that were free.
-/

namespace Rtv.Virt

open Rtv.Lib Rtv.Utils Rtv.Mm

/-! ## The memory map -/

section TakesOnly

variable {s s' : Physical} {w w' : Walk} {hdr : SetupHeader} {p : Nat}

/-- `physical_take_range` gives no page back. -/
theorem free_of_takeRange {start length : Nat} (h : physicalTakeRange s start length = .ok s')
    (hp : s'.Free p) : s.Free p := by
  obtain ⟨page, num, hmark⟩ := physicalTakeRange_marks h
  exact ((hmark.taken_iff p).mp hp).1

theorem Walk.emit_free {mmapStart mmapSize : Nat} (h : w.emit mmapStart mmapSize = .ok w')
    (hp : w'.phys.Free p) : w.phys.Free p := by
  obtain ⟨phys, hphys, h⟩ := Exec.bind_eq_ok.mp h
  cases h
  exact free_of_takeRange hphys hp

theorem Walk.placeRange_free {kernelEnd startPaddr : Nat}
    (h : w.placeRange kernelEnd startPaddr = .ok w') (hp : w'.phys.Free p) : w.phys.Free p := by
  unfold Walk.placeRange at h
  dsimp only at h
  split_ifs at h
  · cases h
    exact hp
  · cases h
    exact hp
  · exact Walk.emit_free h hp
  · cases h
    exact hp
  · exact Walk.emit_free h hp
  · exact Walk.emit_free h hp

theorem Walk.addRamdisk_phys (w : Walk) (hdr : SetupHeader) : (w.addRamdisk hdr).phys = w.phys := by
  unfold Walk.addRamdisk
  split <;> rfl

/-- `virt_setup_e820` gives no page back. -/
theorem free_of_setupE820 {kernelSize : Nat} {r : List (Nat × E820Entry) × Physical}
    (h : virtSetupE820 s hdr kernelSize = .ok r) (hp : r.2.Free p) : s.Free p := by
  have hround : ∀ {kernelEnd : Nat} {w : Walk} {r : Bool × Walk},
      e820Round hdr kernelEnd w = .ok r → r.2.phys.Free p → w.phys.Free p := by
    intro kernelEnd w r h hp
    obtain ⟨⟨mmapStart, mmapSize⟩, _, h⟩ := Exec.bind_eq_ok.mp h
    dsimp only at h
    split at h
    · cases h
      rwa [Walk.addRamdisk_phys] at hp
    · obtain ⟨w', hw', h⟩ := Exec.bind_eq_ok.mp h
      cases h
      have := Walk.placeRange_free hw' hp
      rwa [Walk.addRamdisk_phys] at this
  have hloop : ∀ {kernelEnd fuel : Nat} {w w' : Walk},
      e820Loop hdr kernelEnd fuel w = .ok w' → w'.phys.Free p → w.phys.Free p := by
    intro kernelEnd fuel
    induction fuel with
    | zero => exact nofun
    | succ fuel ih =>
      intro w w' h hp
      obtain ⟨⟨done, w₁⟩, hr, h⟩ := Exec.bind_eq_ok.mp h
      dsimp only at h
      split at h
      · cases h
        exact hround hr hp
      · exact hround hr (ih h hp)
  obtain ⟨w, hw, h⟩ := Exec.bind_eq_ok.mp h
  cases h
  exact hloop hw hp

end TakesOnly

/-! ## Moving one image -/

section Move

variable {b : Prop} {m₀ : Bytes} {J O : Set Nat} {W : Words} {β : Type} {Q : β → Host → Prop}

/-- The base of large pages of the allocator. -/
theorem pageBase_large {page : Nat} (hdvd : 2 ^ 9 ∣ page) (hlt : page < 2 ^ 24) :
    pageBase (page * pgSize) largePgSize = page * pgSize := by
  obtain ⟨q, rfl⟩ := hdvd
  unfold pageBase largePgSize pgSize
  omega

/-- New large frames are mapped and written. -/
theorem copyNew_holds {n size off : Nat} (hn : n < 2 ^ 32) {flags : BitVec 64}
    (hflags : flags &&& pgtP ≠ 0#64) {src : Ptr} {func msg msg' : String} {k : Nat → Ptr → HostM β}
    (hk : ∀ page dst, 2 ^ 9 ∣ page → page < 2 ^ 24 → 1 ≤ n →
      Triple (Holds b m₀ J O W) (k (page * pgSize) dst) Q) :
    Triple (Holds b m₀ J O W)
      (allocFramesAligned (n <<< (largePgBits - pgBits)) largePgSize >>= fun frames =>
        require func msg (frames ≠ 0) >>= fun _ => mapLargePages frames n flags >>= fun dst =>
          require func msg' (dst.va ≠ 0) >>= fun _ => copy dst 0 src off size >>= fun _ =>
            k frames dst) Q := by
  intro h a h' hh hrun
  obtain ⟨frames, h₁, halloc, hrun⟩ := run_bind_eq_ok.mp hrun
  obtain ⟨phys, hphys, hh₁⟩ := onPhys_eq_ok halloc
  dsimp only at hphys hh₁
  have hspec := allocPhysFramesAligned_spec (n := largePgBits) (by decide) hphys
  have htaken : ∀ f, h₁.vm.phys.Free f → h.vm.phys.Free f := by
    rw [hh₁]
    exact free_of_allocated hspec
  have hmem₁ : h₁.mem = h.mem := by rw [hh₁]
  have hholds₁ : Holds b m₀ J O W h₁ := hh.congr htaken fun f _ i _ => by rw [hmem₁]
  rcases hspec with heq | ⟨page, hpage, ⟨hlo, hdvd⟩, hfree, hm⟩
  · obtain rfl : frames = 0 := congrArg Prod.fst heq
    cases hrun
  dsimp only at hpage
  rw [shiftLeft_pgBits] at hpage
  subst hpage
  -- the frames were free, so that none of them is in use
  have hspare : ∀ f, page ≤ f → f < page + n * 512 → Spare b J O h₁.vm.phys f := by
    intro f hlof hhif
    have hcount : n <<< (largePgBits - pgBits) = n * 512 := Nat.shiftLeft_eq n 9
    have hff := hfree f hlof (by omega)
    refine Or.inr ⟨fun hfO => (hh.owned f hfO).2.1 hff, fun hb => ⟨?_, fun hfJ => hh.pending hb f hfJ hff⟩⟩
    rw [hh₁]
    intro hf
    exact ((hm.taken_iff f).mp hf).2 ⟨hlof, by omega⟩
  have hne : page * pgSize ≠ 0 := Nat.mul_ne_zero (by omega) (by decide)
  obtain ⟨_, _, hreq, hrun₁⟩ := run_bind_eq_ok.mp hrun
  obtain ⟨_, rfl⟩ := require_eq_ok hreq
  obtain ⟨dst, h₂, hmap, hrun₂⟩ := run_bind_eq_ok.mp hrun₁
  obtain ⟨hmem₂, hfree₂⟩ := keepsMemory_mapLargePages hflags hn _ dst h₂ hmap
  have hholds₂ := (keepsMemory_mapLargePages hflags hn).holds _ dst h₂ hholds₁ hmap
  obtain ⟨hbase, hsize, hpos⟩ := mapLargePages_ptr hmap
  obtain ⟨_, _, hreq, hrun₃⟩ := run_bind_eq_ok.mp hrun₂
  obtain ⟨hva, rfl⟩ := require_eq_ok hreq
  obtain ⟨_, h₃, hcopy, hrun₄⟩ := run_bind_eq_ok.mp hrun₃
  obtain ⟨⟨hin, _⟩, hcopy⟩ := Exec.guard_eq_ok.mp hcopy
  cases hcopy
  have hlt : page < 2 ^ 24 := (hfree page le_rfl (by
    have hcount : n <<< (largePgBits - pgBits) = n * 512 := Nat.shiftLeft_eq n 9
    have := hpos hva
    omega)).lt
  have hbase' : dst.base = page * pgSize := hbase.trans (pageBase_large hdvd hlt)
  refine hk page dst hdvd hlt (hpos hva) _ a h' ?_ hrun₄
  refine hholds₂.congr (fun _ hf => hf) fun f hf i hi => word_congr hi fun x hlo hhi => if_neg ?_
  intro hx
  apply hf
  have hrange := hspare f
  rw [hbase'] at hx
  rw [hsize] at hin
  unfold pgSize largePgSize at *
  exact (hrange (by omega) (by omega)).imp_right fun hs =>
    ⟨hs.1, fun hb => ⟨fun hff => (hs.2 hb).1 (hfree₂ f hff), (hs.2 hb).2⟩⟩

/-- Moving an image keeps the frames in use, if none of them is at its old place. The new place
begins with a large page, and there is something to move. -/
theorem relocate_holds {what : String} {start size : Nat} {oldStart oldSize : UInt64} :
    Triple (Holds b m₀ (touched oldStart oldSize ∪ J) O W)
      (relocate what start size oldStart.toNat oldSize.toNat) fun r h =>
        (r.1 % largePgSize = 0 ∧ r.1 < 2 ^ 36 ∧ size ≠ 0) ∧
          Holds (b ∧ Disjoint (touched oldStart oldSize) J) m₀ J O W h := by
  have hsmall : ∀ x, largePages x < 2 ^ 32 := by
    intro x
    unfold largePages
    omega
  unfold relocate
  dsimp only
  refine mapLarge_holds (by decide) (hsmall _) fun src => ?_
  refine copyNew_holds (hsmall _) (by decide) fun page dst hdvd hlt hpos => ?_
  refine (keepsMemory_unmapLargePages _ _).holds_bind fun _ => ?_
  refine freeRange_holds.bind fun _ => Triple.pure fun h hh => ⟨⟨?_, ?_, ?_⟩, hh⟩
  · obtain ⟨q, rfl⟩ := hdvd
    unfold pgSize largePgSize
    omega
  · unfold pgSize
    omega
  · rintro rfl
    exact absurd hpos (by decide)

end Move

/-! ## `virt_setup_linux` -/

section SetupLinux

variable {b : Prop} {m₀ : Bytes} {J O : Set Nat} {W : Words}

theorem copySetupHeader_holds (vm : VmStruct) {zeroVirt : Ptr}
    (hzero : zeroVirt.base + zeroVirt.size ≤ 2 ^ 20) :
    Triple (Holds b m₀ J O W) (copySetupHeader vm zeroVirt) fun _ => Holds b m₀ J O W := by
  unfold copySetupHeader
  refine (keepsMemory_require _ _ _).holds_bind fun _ => ?_
  refine (keepsMemory_mapPage _ _).holds_bind fun linuxVirt => ?_
  refine (keepsMemory_require _ _ _).holds_bind fun _ => ?_
  refine (keepsMemory_load _ _ _).holds_bind fun _ => ?_
  refine (keepsMemory_require _ _ _).holds_bind fun _ => ?_
  exact (copyLow_holds hzero _ _ _).bind fun _ => (keepsMemory_unmapPage _).holds

/-- Where a page of low memory is mapped. -/
theorem low_of_mapPage {f : Nat} (hf : f < 256) {p : Ptr} (hsize : p.size ≤ pgSize)
    (hbase : p.base = pageBase (f * pgSize) pgSize) : p.base + p.size ≤ 2 ^ 20 := by
  rw [pageBase_page (by omega)] at hbase
  unfold pgSize at *
  omega

theorem setupCmdPage_holds {zeroVirt : Ptr} (hzero : zeroVirt.base + zeroVirt.size ≤ 2 ^ 20) :
    Triple (Holds b m₀ J O W) (setupCmdPage zeroVirt) fun _ => Holds b m₀ J O W := by
  unfold setupCmdPage
  refine allocFrameLowmem_holds fun f hf => ?_
  refine mapPage_holds fun gdt hsize hbase => ?_
  have hgdt := @storeLow_holds b m₀ J O W gdt (low_of_mapPage hf hsize hbase)
  refine (hgdt _ _ _).bind fun _ => (hgdt _ _ _).bind fun _ => ?_
  refine (hgdt _ _ _).bind fun _ => (hgdt _ _ _).bind fun _ => ?_
  refine (hgdt _ _ _).bind fun _ => ?_
  refine (keepsMemory_unmapPage _).holds_bind fun _ => ?_
  exact (storeLow_holds hzero _ _ _).bind fun _ => Triple.pure fun _ hh => hh

theorem setupE820_holds {zeroVirt : Ptr} (hzero : zeroVirt.base + zeroVirt.size ≤ 2 ^ 20)
    (kernelSize : Nat) :
    Triple (Holds b m₀ J O W) (setupE820 zeroVirt kernelSize) fun _ => Holds b m₀ J O W := by
  have hload := keepsMemory_load zeroVirt
  have hhdr : KeepsMemory (loadSetupHeader zeroVirt) :=
    (hload _ _).bind fun _ => (hload _ _).bind fun _ => (hload _ _).bind fun _ =>
      (hload _ _).bind fun _ => (hload _ _).bind fun _ => (hload _ _).bind fun _ =>
        (hload _ _).bind fun _ => (hload _ _).bind fun _ => keepsMemory_pure _
  have hstore := @storeLow_holds b m₀ J O W zeroVirt hzero
  refine hhdr.holds_bind fun hdr => ?_
  refine (keepsMemory_onPhys fun s r hr p => free_of_setupE820 hr).holds_bind fun table => ?_
  refine Triple.foldlM (P := fun _ => Holds b m₀ J O W) (fun _ row => ?_) table ()
  exact (hstore _ _ _).bind fun _ => (hstore _ _ _).bind fun _ => hstore _ _ _

/-- `virt_setup_linux` keeps the frames in use, if none of them is at the old place of an image. -/
theorem virtSetupLinux_holds (vm : VmStruct) :
    Triple (Holds True m₀ (touched vm.imgPaddr vm.imgSize ∪ touched vm.extraPaddr vm.extraSize) O W)
      (virtSetupLinux vm) fun vm' h =>
        (vm'.imgPaddr.toNat % largePgSize = 0 ∧ vm'.imgSize.toNat ≠ 0 ∧ vm'.ramSize = vm.ramSize) ∧
          Holds (Disjoint (touched vm.imgPaddr vm.imgSize) (touched vm.extraPaddr vm.extraSize)) m₀ ∅
            O W h := by
  unfold virtSetupLinux
  refine allocFrameLowmem_holds fun f hf => ?_
  refine (keepsMemory_require _ _ _).holds_bind fun _ => ?_
  refine mapPage_holds fun zeroVirt hsize hbase => ?_
  have hzero := low_of_mapPage hf hsize hbase
  refine (keepsMemory_require _ _ _).holds_bind fun _ => ?_
  refine (storeLow_holds hzero _ _ _).bind fun _ => ?_
  refine (copySetupHeader_holds vm hzero).bind fun _ => ?_
  refine (keepsMemory_load _ _ _).holds_bind fun setupSects => ?_
  refine relocate_holds.bind fun ⟨newImg, dst, dstPages⟩ => Triple.intro fun himg => ?_
  refine (keepsMemory_unmapLargePages _ _).holds_bind fun _ => ?_
  refine (setupCmdPage_holds hzero).bind fun cmdFrame => ?_
  refine (storeLow_holds hzero _ _ _).bind fun _ => ?_
  refine (keepsMemory_load _ _ _).holds_bind fun loadflags => ?_
  refine (storeLow_holds hzero _ _ _).bind fun _ => (storeLow_holds hzero _ _ _).bind fun _ => ?_
  rw [← Set.union_empty (touched vm.extraPaddr vm.extraSize)]
  refine relocate_holds.bind fun ⟨newExtra, _, _⟩ => Triple.intro fun _ => ?_
  refine (storeLow_holds hzero _ _ _).bind fun _ => (storeLow_holds hzero _ _ _).bind fun _ => ?_
  refine (setupE820_holds hzero _).bind fun _ => ?_
  refine (keepsMemory_unmapPage _).holds_bind fun _ => ?_
  have hnum : ∀ x < 2 ^ 64, (UInt64.ofNat x).toNat = x := fun x hx => UInt64.toNat_ofNat_of_lt' hx
  refine Triple.pure fun h hh => ⟨⟨?_, ?_, rfl⟩, hh.mono fun hdisj => ?_⟩
  · rw [hnum _ (by omega)]
    exact himg.1
  · dsimp only
    rw [hnum (sub64 _ _) (Nat.mod_lt _ (by decide))]
    exact himg.2.2
  · exact ⟨⟨trivial, hdisj⟩, Set.disjoint_empty _⟩

end SetupLinux

end Rtv.Virt
