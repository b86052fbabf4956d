import Rtv.Virt.CopyReached

/-!
# The copies of the images stay inside

When the two calls of `memcpy` in `virt_setup_linux` stay inside the pages that were mapped for them and
the frames that were allocated, for every host.

The pages are counted in a `uint8_t`, so that a range over 256 large pages or more is counted modulo 256.
If what is left still passes the mappings and the allocation, the whole range is copied: nothing between
compares the pages with the bytes. Whether the run gets from the kernel to the ramdisk depends on where the
old place of the kernel is in `mm_table`, and on the words behind it, which are a parameter.
-/

namespace Rtv.Virt

open Rtv.Lib Rtv.Utils Rtv.Mm

/-! ## One copy -/

/-- The bytes from `start` on end in the 255 large pages that the counter can count. -/
def Fits (start size : Nat) : Prop := start % largePgSize + size ≤ 255 * largePgSize

instance (start size : Nat) : Decidable (Fits start size) :=
  inferInstanceAs (Decidable (_ ≤ _))

/-- The counted pages cover the bytes exactly if these fit. -/
theorem pages_cover_iff {start size : Nat} (hstart : start < 2 ^ 64) (hsize : size < 2 ^ 64) :
    start % largePgSize + size ≤ sourcePages start size * largePgSize ∧
      size ≤ largePages size * largePgSize ↔ Fits start size := by
  have hpage : largePgSize = 2 ^ 21 := rfl
  rw [Fits, sourcePages_count hstart, largePages_eq hsize, hpage]
  omega

/-- **A copy that is reached is inside exactly if it fits.** -/
theorem Reached.inside_iff {start size : Nat} {c : CopyCall} (h : Reached start size c)
    (hstart : start < 2 ^ 64) (hsize : size < 2 ^ 64) : c.Inside ↔ Fits start size := by
  have hframes : c.frameBytes = largePages size * largePgSize := by
    rw [CopyCall.frameBytes, h.dstPages, Nat.shiftLeft_eq, Nat.mul_assoc]
    rfl
  rw [← pages_cover_iff hstart hsize]
  constructor
  · rintro ⟨hsrc, hdst, _⟩
    rw [h.srcOff, h.size, h.srcSize] at hsrc
    rw [h.size, h.dstSize] at hdst
    exact ⟨hsrc, hdst⟩
  · rintro ⟨hsrc, hdst⟩
    refine ⟨?_, ?_, ?_⟩
    · rwa [h.srcOff, h.size, h.srcSize]
    · rwa [h.size, h.dstSize]
    · rwa [h.size, hframes]

/-! ## Both copies -/

/-- The copies that the runs for the guest make are inside, with `setup_sects` in its image: that of the
kernel has the bytes of the image behind the setup sectors, and that of the ramdisk all of its bytes. -/
def CopiesInside (behind : Nat → Bool) (vm : VmStruct) (setupSects : UInt8) : Prop :=
  ∀ h : Host, h.mem vm.setupSectsAt = setupSects →
    ∀ head c h₁, kernelCopy vm h = .ok ((head, c), h₁) → c.InDirectory →
      (setupBytes setupSects ≤ vm.imgSize.toNat ∧ c.size = vm.imgSize.toNat - setupBytes setupSects ∧
        c.Inside) ∧
      ∀ r h₂, ramdiskCopy behind vm head c h₁ = .ok (r, h₂) → r.2.2.InDirectory →
        r.2.2.size = vm.extraSize.toNat ∧ r.2.2.Inside

/-- The range can be given back: the words of its pages are in `mm_table`, or can be written behind it. -/
def GivenBack (behind : Nat → Bool) (start size : Nat) : Prop :=
  ∀ p, Inside start (start + size) p → Writable mmTableMax behind (p / 64)

/-- An image whose copy is reached fits. The kernel is only copied if the image is at a page, and the
ramdisk only after the old place of the image was given back. -/
def CopiesFit (behind : Nat → Bool) (vm : VmStruct) (setupSects : UInt8) : Prop :=
  vm.imgPaddr.toNat % pgSize = 0 → Passes (vm.kernelFrom setupSects) (vm.kernelBytes setupSects) →
    Fits (vm.kernelFrom setupSects) (vm.kernelBytes setupSects) ∧
      (GivenBack behind vm.imgPaddr.toNat vm.imgSize.toNat →
        Passes vm.extraPaddr.toNat vm.extraSize.toNat → Fits vm.extraPaddr.toNat vm.extraSize.toNat)

section Copies

variable {behind : Nat → Bool} {vm : VmStruct} {setupSects : UInt8} {h h₁ h₂ : Host}
  {head : Nat × Ptr × Nat} {c : CopyCall}

/-- What is known when the kernel's copy is reached. -/
theorem kernelCopy_reached (hsects : h.mem vm.setupSectsAt = setupSects)
    (hrun : kernelCopy vm h = .ok ((head, c), h₁)) (hdir : c.InDirectory) :
    vm.imgPaddr.toNat % pgSize = 0 ∧ Reached (vm.kernelFrom setupSects) (vm.kernelBytes setupSects) c := by
  obtain ⟨head', h', hhead, hrest⟩ := run_bind_eq_ok.mp hrun
  obtain ⟨c', h'', hcopy, hret⟩ := run_bind_eq_ok.mp hrest
  cases hret
  obtain ⟨hpage, hsize⟩ := linuxHead_size vm h.mem h.vm.phys h _ _ ⟨rfl, Or.inl fun _ _ _ => rfl⟩ hhead
  rw [hsects] at hsize
  rw [hsize] at hcopy
  exact ⟨hpage, relocateTo_reached (vm.kernelFrom_lt setupSects) (vm.kernelBytes_lt setupSects) hcopy hdir⟩

/-- What is known when the ramdisk's copy is reached. -/
theorem ramdiskCopy_reached {r : Nat × Nat × CopyCall} (hpage : vm.imgPaddr.toNat % pgSize = 0)
    (hrun : ramdiskCopy behind vm head c h = .ok (r, h₁)) (hdir : r.2.2.InDirectory) :
    GivenBack behind vm.imgPaddr.toNat vm.imgSize.toNat ∧
      Reached vm.extraPaddr.toNat vm.extraSize.toNat r.2.2 := by
  obtain ⟨_, h₂, hfrom, hrun₂⟩ := run_bind_eq_ok.mp hrun
  obtain ⟨_, h₃, _, hrun₃⟩ := run_bind_eq_ok.mp hrun₂
  obtain ⟨_, h₄, hto, hret⟩ := run_bind_eq_ok.mp hrun₃
  cases hret
  refine ⟨?_, relocateTo_reached vm.extraPaddr.toNat_lt vm.extraSize.toNat_lt hto hdir⟩
  obtain ⟨_, h₅, _, hfrom₁⟩ := run_bind_eq_ok.mp hfrom
  obtain ⟨_, h₆, _, hfrom₂⟩ := run_bind_eq_ok.mp hfrom₁
  obtain ⟨_, h₇, hfree, _⟩ := run_bind_eq_ok.mp hfrom₂
  obtain ⟨_, hphys, _⟩ := onPhys_eq_ok hfree
  obtain ⟨s, hs, _⟩ := Exec.bind_eq_ok.mp hphys
  exact (physicalFreeRangeBehind_returns_iff _ hpage vm.imgSize.toNat_lt).mp ⟨s, hs⟩

/-- A kernel that fits is not longer than its image. -/
theorem Fits.exact (hfits : Fits (vm.kernelFrom setupSects) (vm.kernelBytes setupSects)) :
    setupBytes setupSects ≤ vm.imgSize.toNat ∧
      vm.kernelBytes setupSects = vm.imgSize.toNat - setupBytes setupSects := by
  have hsects := setupSects.toNat_lt
  have himg := vm.imgSize.toNat_lt
  unfold Fits VmStruct.kernelBytes sub64 setupBytes linuxSectorSz largePgSize at *
  omega

/-- Copies that fit are inside. -/
theorem CopiesFit.inside (hfit : CopiesFit behind vm setupSects) : CopiesInside behind vm setupSects := by
  intro h hsects head c h₁ hrun hdir
  obtain ⟨hpage, hreached⟩ := kernelCopy_reached hsects hrun hdir
  obtain ⟨hkernel, hramdisk⟩ := hfit hpage hreached.passes
  obtain ⟨hle, hexact⟩ := hkernel.exact
  have hlt := vm.kernelBytes_lt setupSects
  refine ⟨⟨hle, hreached.size.trans hexact, ?_⟩, fun r h₂ hrun' hdir' => ?_⟩
  · exact (hreached.inside_iff (vm.kernelFrom_lt setupSects) hlt).mpr hkernel
  · obtain ⟨hback, hreached'⟩ := ramdiskCopy_reached hpage hrun' hdir'
    refine ⟨hreached'.size, ?_⟩
    exact (hreached'.inside_iff vm.extraPaddr.toNat_lt vm.extraSize.toNat_lt).mpr
      (hramdisk hback hreached'.passes)

/-- If the copies are inside on every host, they are on the one on which they are reached, so that they
fit. -/
theorem CopiesInside.fit (hinside : CopiesInside behind vm setupSects) : CopiesFit behind vm setupSects := by
  intro hpage hpass
  obtain ⟨head, c, h, hrun, hptr, hat, hroomy⟩ := kernelCopy_total vm setupSects hpage hpass
  have hsects := roomHost_setupSects vm setupSects
  have hdir := hat.inDirectory hpass
  obtain ⟨⟨_, _, hin⟩, hramdisk⟩ := hinside _ hsects head c h hrun hdir
  obtain ⟨_, hreached⟩ := kernelCopy_reached hsects hrun hdir
  have hkernel := (hreached.inside_iff (vm.kernelFrom_lt setupSects) (vm.kernelBytes_lt setupSects)).mp hin
  refine ⟨hkernel, fun hback hpass' => ?_⟩
  -- there is room for the ramdisk behind the kernel
  have hcounts := (counts_lt (vm.kernelFrom setupSects) (vm.kernelBytes setupSects)).2
  have hcounts' := (counts_lt vm.extraPaddr.toNat vm.extraSize.toNat).2
  have hnone : NoLarge [] := nofun
  obtain ⟨r, h₂, hrun', hat'⟩ := ramdiskCopy_total vm hptr.size hpage hback hat hin hpass' (by omega)
    (hnone.page hptr.va) (slotLeft_page _) h hroomy
  have hdir' := hat'.inDirectory hpass'
  obtain ⟨_, hin'⟩ := hramdisk r h₂ hrun' hdir'
  obtain ⟨_, hreached'⟩ := ramdiskCopy_reached hpage hrun' hdir'
  exact (hreached'.inside_iff vm.extraPaddr.toNat_lt vm.extraSize.toNat_lt).mp hin'

end Copies

/-- **When the copies of the images stay inside.** For every guest, every `setup_sects`, every host and
whatever can be written behind `mm_table`: exactly if each of the two ranges whose copy is reached ends in
255 large pages. -/
theorem copies_inside_iff (behind : Nat → Bool) (vm : VmStruct) (setupSects : UInt8) :
    CopiesInside behind vm setupSects ↔ CopiesFit behind vm setupSects :=
  ⟨CopiesInside.fit, CopiesFit.inside⟩

/-- A guest with a kernel of one byte and a ramdisk of 512MB and one byte. -/
def hugeGuest : VmStruct := ⟨0x600000, 513, 4, 0, 0x100000, 0, 0x40000000, 0x20000001⟩

/-- One large page is mapped for its ramdisk, whatever is behind `mm_table`. -/
theorem copies_outside : ¬ CopiesInside noWord hugeGuest 0 := by
  intro hinside
  have hkernel : Passes (hugeGuest.kernelFrom 0) (hugeGuest.kernelBytes 0) :=
    ⟨by decide, by decide, by decide⟩
  have hramdisk : Passes hugeGuest.extraPaddr.toNat hugeGuest.extraSize.toNat :=
    ⟨by decide, by decide, by decide⟩
  have hback : GivenBack noWord hugeGuest.imgPaddr.toNat hugeGuest.imgSize.toNat := by
    rintro p ⟨_, hhi⟩
    change (p + 1) * 4096 ≤ 0x600000 + 513 at hhi
    unfold mmTableMax
    exact Or.inl (by omega)
  have hfits := (hinside.fit (by decide) hkernel).2 hback hramdisk
  exact absurd hfits (by decide)

/-- The same ramdisk for a guest whose image ends in the page behind the last one of `mm_table`. -/
def farGuest : VmStruct := ⟨0xFFFFFF000, 8192, 4, 0, 0x100000, 0, 0x40000000, 0x20000001⟩

/-- If the word behind `mm_table` can be written, its ramdisk is copied too. -/
example : ¬ CopiesInside (fun i => i = mmTableMax) farGuest 0 := by
  intro hinside
  have hkernel : Passes (farGuest.kernelFrom 0) (farGuest.kernelBytes 0) :=
    ⟨by decide, by decide, by decide⟩
  have hramdisk : Passes farGuest.extraPaddr.toNat farGuest.extraSize.toNat :=
    ⟨by decide, by decide, by decide⟩
  have hback : GivenBack (fun i => i = mmTableMax) farGuest.imgPaddr.toNat farGuest.imgSize.toNat := by
    rintro p ⟨_, hhi⟩
    change (p + 1) * 4096 ≤ 0xFFFFFF000 + 8192 at hhi
    by_cases hword : p / 64 = mmTableMax
    · exact Or.inr (decide_eq_true hword)
    · unfold mmTableMax at *
      exact Or.inl (by omega)
  have hfits := (hinside.fit (by decide) hkernel).2 hback hramdisk
  exact absurd hfits (by decide)

end Rtv.Virt
