import Rtv.Mm.BehindTable
import Rtv.Virt.Places

/-!
# The copies of the images

`virt_setup_linux` up to each of its two calls of `memcpy`, with what is known of the call there:
`CopyCall`. The parts between them are named, and put together they are `virt_setup_linux`
(`virtSetupLinux_eq`). The old place of the kernel is given back between the two calls; where that runs
behind `mm_table` it goes on if the words there can be written, `behind`.

A call is only reached if both mappings and the allocation returned something (`Passes`). They are made
with page counts of eight bits, so that this does not say that they cover the bytes. A search that leaves
the page directory of the window page-faults, as the next directory is not mapped: only pages inside it
count as found (`CopyCall.InDirectory`).
-/

namespace Rtv.Virt

open Rtv.Lib Rtv.Utils Rtv.Mm

/-! ## The parts of `virt_setup_linux` -/

/-- A call of `memcpy` for an image: `size` bytes from `srcOff` on in the pages mapped at `src` go to the
pages mapped at `dst`, which are the frames from `newFrames` on. -/
structure CopyCall where
  dst : Ptr
  dstPages : Nat
  newFrames : Nat
  src : Ptr
  srcPages : Nat
  srcOff : Nat
  size : Nat
deriving DecidableEq, Repr

/-- The bytes of all frames that were allocated for the copy. -/
def CopyCall.frameBytes (c : CopyCall) : Nat := (c.dstPages <<< (largePgBits - pgBits)) * pgSize

/-- The source lies in the pages that were mapped for it, the destination in its pages and frames. -/
structure CopyCall.Inside (c : CopyCall) : Prop where
  src : c.srcOff + c.size ≤ c.src.size
  dst : c.size ≤ c.dst.size
  frames : c.size ≤ c.frameBytes

instance (c : CopyCall) : Decidable c.Inside :=
  decidable_of_iff (c.srcOff + c.size ≤ c.src.size ∧ c.size ≤ c.dst.size ∧ c.size ≤ c.frameBytes)
    ⟨fun h => ⟨h.1, h.2.1, h.2.2⟩, fun h => ⟨h.src, h.dst, h.frames⟩⟩

/-- Both mappings are entries of the window's page directory. -/
structure CopyCall.InDirectory (c : CopyCall) : Prop where
  src : c.src.va >>> largePgBits + c.srcPages ≤ pgTableEntries
  dst : c.dst.va >>> largePgBits + c.dstPages ≤ pgTableEntries

/-- `relocate` up to its copy. -/
def relocateTo (what : String) (start size : Nat) : HostM CopyCall := do
  let frame := start &&& largePgMask.toNat
  let srcPages := sourcePages start size
  let src ← mapLargePages frame srcPages (pgtP ||| pdtPs)
  require "virt_setup_linux" ("page mapping for src " ++ what ++ " failed") (src.va ≠ 0)
  let dstPages := largePages size
  let newFrames ← allocFramesAligned (dstPages <<< (largePgBits - pgBits)) largePgSize
  require "virt_setup_linux" ("page allocation for dst " ++ what ++ " failed") (newFrames ≠ 0)
  let dst ← mapLargePages newFrames dstPages (pgtP ||| pgtRw ||| pdtPs)
  require "virt_setup_linux" ("page mapping for dst " ++ what ++ " failed") (dst.va ≠ 0)
  return ⟨dst, dstPages, newFrames, src, srcPages, start - frame, size⟩

/-- `physical_free_range` with the words behind `mm_table` that can be written. -/
def freeRangeBehind (behind : Nat → Bool) (start length : Nat) : HostM Unit :=
  onPhys fun s => do return ((), ← physicalFreeRangeBehind behind s start length)

/-- `relocate` from its copy on. -/
def relocateFrom (behind : Nat → Bool) (oldStart oldSize : Nat) (c : CopyCall) :
    HostM (Nat × Ptr × Nat) := do
  copy c.dst 0 c.src c.srcOff c.size
  unmapLargePages c.src c.srcPages
  freeRangeBehind behind oldStart oldSize
  return (c.newFrames, c.dst, c.dstPages)

theorem freeRangeBehind_none (start length : Nat) :
    freeRangeBehind noWord start length = freeRange start length := by
  simp only [freeRangeBehind, freeRange, physicalFreeRangeBehind_none]

theorem relocate_eq (what : String) (start size oldStart oldSize : Nat) :
    relocate what start size oldStart oldSize =
      relocateTo what start size >>= relocateFrom noWord oldStart oldSize := by
  simp only [relocateTo, relocateFrom, freeRangeBehind_none, bind_assoc, pure_bind]
  rfl

/-- `virt_setup_linux` up to the kernel: the zero page, its mapping and the bytes of the setup sectors. -/
def linuxHead (vm : VmStruct) : HostM (Nat × Ptr × Nat) := do
  let zeroFrame ← allocFrameLowmem
  require "virt_setup_linux" "page allocation for zero_frame failed" (zeroFrame ≠ 0)
  let zeroVirt ← mapPage zeroFrame (pgtP ||| pgtRw)
  require "virt_setup_linux" "page mapping for zero_frame failed" (zeroVirt.va ≠ 0)
  clearPage zeroVirt
  copySetupHeader vm zeroVirt
  let setupSects ← load zeroVirt setupSectsOff 1
  return (zeroFrame, zeroVirt, (setupSects + 1) * linuxSectorSz)

/-- `virt_setup_linux` from the place of the kernel to the ramdisk: the page for the GDT. -/
def linuxMiddle (vm : VmStruct) (zeroVirt dst : Ptr) (dstPages : Nat) : HostM Nat := do
  unmapLargePages dst dstPages
  let cmdFrame ← setupCmdPage zeroVirt
  store zeroVirt typeOfLoaderOff 1 0xFF
  let loadflags ← load zeroVirt loadflagsOff 1
  store zeroVirt loadflagsOff 1 (loadflags &&& 0x1F)
  store zeroVirt code32StartOff 4 vm.entryPoint.toNat
  return cmdFrame

/-- `virt_setup_linux` from the place of the ramdisk on. -/
def linuxTail (vm : VmStruct) (zeroFrame : Nat) (zeroVirt : Ptr) (kernelSize newImg cmdFrame newExtra : Nat) :
    HostM VmStruct := do
  store zeroVirt ramdiskImageOff 4 newExtra
  store zeroVirt ramdiskSizeOff 4 vm.extraSize.toNat
  setupE820 zeroVirt kernelSize
  unmapPage zeroVirt
  return { vm with
    imgPaddr := UInt64.ofNat newImg
    imgSize := UInt64.ofNat kernelSize
    gdtr := UInt64.ofNat cmdFrame
    extraPaddr := UInt64.ofNat newExtra
    input := UInt64.ofNat zeroFrame }

/-- `virt_setup_linux` up to the copy of the kernel. -/
def kernelCopy (vm : VmStruct) : HostM ((Nat × Ptr × Nat) × CopyCall) := do
  let head ← linuxHead vm
  let c ← relocateTo "kernel" (add64 vm.imgPaddr.toNat head.2.2) (sub64 vm.imgSize.toNat head.2.2)
  return (head, c)

/-- `virt_setup_linux` from the copy of the kernel up to that of the ramdisk. -/
def ramdiskCopy (behind : Nat → Bool) (vm : VmStruct) (head : Nat × Ptr × Nat) (c : CopyCall) :
    HostM (Nat × Nat × CopyCall) := do
  let (newImg, dst, dstPages) ← relocateFrom behind vm.imgPaddr.toNat vm.imgSize.toNat c
  let cmdFrame ← linuxMiddle vm head.2.1 dst dstPages
  let c ← relocateTo "ramdisk" vm.extraPaddr.toNat vm.extraSize.toNat
  return (newImg, cmdFrame, c)

/-- The parts are `virt_setup_linux`. -/
theorem virtSetupLinux_eq (vm : VmStruct) :
    virtSetupLinux vm = kernelCopy vm >>= fun r => ramdiskCopy noWord vm r.1 r.2 >>= fun r' =>
      relocateFrom noWord vm.extraPaddr.toNat vm.extraSize.toNat r'.2.2 >>= fun r'' =>
        linuxTail vm r.1.1 r.1.2.1 (sub64 vm.imgSize.toNat r.1.2.2) r'.1 r'.2.1 r''.1 := by
  simp only [virtSetupLinux, relocate_eq, kernelCopy, ramdiskCopy, linuxHead, linuxMiddle, bind_assoc,
    pure_bind]
  rfl

/-- The bytes in front of the kernel, with `setup_sects` of the image. -/
def setupBytes (setupSects : UInt8) : Nat := (setupSects.toNat + 1) * linuxSectorSz

/-- Where the kernel is copied from. -/
def VmStruct.kernelFrom (vm : VmStruct) (setupSects : UInt8) : Nat :=
  add64 vm.imgPaddr.toNat (setupBytes setupSects)

/-- How many bytes of it are copied. -/
def VmStruct.kernelBytes (vm : VmStruct) (setupSects : UInt8) : Nat :=
  sub64 vm.imgSize.toNat (setupBytes setupSects)

theorem VmStruct.kernelFrom_lt (vm : VmStruct) (setupSects : UInt8) : vm.kernelFrom setupSects < 2 ^ 64 :=
  Nat.mod_lt _ (by decide)

theorem VmStruct.kernelBytes_lt (vm : VmStruct) (setupSects : UInt8) :
    vm.kernelBytes setupSects < 2 ^ 64 :=
  Nat.mod_lt _ (by decide)

/-- The address of `setup_sects` in the image. -/
def VmStruct.setupSectsAt (vm : VmStruct) : Nat := pageBase vm.imgPaddr.toNat pgSize + setupSectsOff

/-- The size of the setup sectors is read from the image. -/
theorem linuxHead_size (vm : VmStruct) (m₀ : Bytes) (s : Physical) :
    Triple (Before s m₀ (pageBase vm.imgPaddr.toNat pgSize)) (linuxHead vm) fun head _ =>
      vm.imgPaddr.toNat % pgSize = 0 ∧ head.2.2 = setupBytes (m₀ vm.setupSectsAt) := by
  unfold linuxHead
  refine before_onPhys fun zeroFrame s₁ _ => before_require fun _ => ?_
  refine before_mapPage fun zeroVirt _ hbase => ?_
  refine before_store (pgSize_dvd_pageBase _) (hbase ▸ pgSize_dvd_pageBase _) (Or.inr ⟨rfl, rfl⟩) ?_
  refine (copySetupHeader_place vm).bind fun _ => Triple.intro fun haligned => load_known ?_
  exact Triple.pure fun _ _ => ⟨haligned, rfl⟩

/-! ## A copy that is reached -/

/-- The page counts with which a copy can be reached. The window has ten entries; a count of 11 to 17 is
found nowhere, and a count of 18 or more also past the window, up to the end of its page directory. -/
structure Passes (start size : Nat) : Prop where
  src : 1 ≤ sourcePages start size
  dst : 1 ≤ largePages size
  fit : sourcePages start size + largePages size ≤ 10 ∨
    18 ≤ largePages size ∧ sourcePages start size + largePages size ≤ 506

/-- The page counts are of eight bits. -/
theorem counts_lt (start size : Nat) : sourcePages start size < 256 ∧ largePages size < 256 :=
  ⟨Nat.mod_lt _ (by decide), Nat.mod_lt _ (by decide)⟩

/-- A short mapping of large pages is in the window. -/
theorem largePages_inWindow {s s' : Vm} {frame flags : BitVec 64} {num k va : Nat} (hnum : 1 ≤ num)
    (hk : va = k <<< largePgBits) (hva : va ≠ 0)
    (h : vmMapLargePages s frame num flags = .ok (va, s')) (hshort : num ≤ 17) : k + num ≤ 16 := by
  obtain ⟨r, hr, hout⟩ := vmMapLargePages_spec s frame flags hnum hshort
  obtain rfl := Except.ok.inj (h.symm.trans hr)
  rcases hout with heq | ⟨k', _, heq, _, hin, _⟩
  · exact absurd (Prod.mk.inj heq).1 hva
  · have hsame := hk.symm.trans (Prod.mk.inj heq).1
    rw [largePage_va, Nat.shiftLeft_eq, Nat.shiftLeft_eq] at hsame
    obtain rfl := Nat.eq_of_mul_eq_mul_right (Nat.two_pow_pos _) hsame
    exact hin

/-- The entries of two mappings, the second of which was searched with the first one there. -/
theorem runs_apart {s s₁ s₂ : Vm} {table : BitVec 64} {k k' m n : Nat}
    (hfill : FilledRun s s₁ table k m) (hfree : s₂.AbsentRun table k' n) (hsame : s₂.entry = s₁.entry)
    (hm : 1 ≤ m) (hn : 1 ≤ n) : k + m ≤ k' ∨ k' + n ≤ k := by
  have hapart : ∀ j, k ≤ j → j < k + m → k' ≤ j → j < k' + n → False := by
    intro j hj hjm hj' hjn
    have hthere := hfill.2.2 (j - k) (by omega)
    have hnone := hfree (j - k') (by omega)
    rw [Nat.add_sub_cancel' hj, Vm.Present] at hthere
    rw [Nat.add_sub_cancel' hj', Vm.Absent, Vm.get, hsame] at hnone
    exact hthere hnone
  by_contra hmore
  rcases Nat.le_total k k' with hle | hle
  · exact hapart k' hle (by omega) le_rfl (by omega)
  · exact hapart k le_rfl (by omega) hle (by omega)

/-- Two mappings of large pages have entries of their own, none of them in front of the window; a short
one is in the window. -/
theorem large_mappings_apart {s s₁ s₂ s₃ : Vm} {frame frame' flags flags' : BitVec 64} {m n va va' : Nat}
    (hm : m < 2 ^ 32) (hn : n < 2 ^ 32) (hflags : flags &&& pgtP ≠ 0#64) (hflags' : flags' &&& pgtP ≠ 0#64)
    (hfirst : vmMapLargePages s frame m flags = .ok (va, s₁)) (hva : va ≠ 0)
    (hsame : s₂.entry = s₁.entry)
    (hsecond : vmMapLargePages s₂ frame' n flags' = .ok (va', s₃)) (hva' : va' ≠ 0) :
    ∃ k k', (va = k <<< largePgBits ∧ va' = k' <<< largePgBits) ∧ (6 ≤ k ∧ 6 ≤ k') ∧
      (k + m ≤ k' ∨ k' + n ≤ k) ∧ (m ≤ 17 → k + m ≤ 16) ∧ (n ≤ 17 → k' + n ≤ 16) := by
  rcases vmMapLargePages_run hflags hm hfirst with heq | ⟨k, s', heq, hfound, hfill⟩
  · exact absurd (congrArg Prod.fst heq) hva
  rcases vmMapLargePages_run hflags' hn hsecond with heq' | ⟨k', s'', heq', hfound', _⟩
  · exact absurd (congrArg Prod.fst heq') hva'
  obtain ⟨hk, hs⟩ := Prod.mk.inj heq
  obtain ⟨hk', _⟩ := Prod.mk.inj heq'
  rw [← hs] at hfill
  exact ⟨k, k', ⟨hk, hk'⟩, ⟨hfound.lo, hfound'.lo⟩,
    runs_apart hfill hfound'.free hsame hfound.pos hfound'.pos,
    largePages_inWindow hfound.pos hk hva hfirst, largePages_inWindow hfound'.pos hk' hva' hsecond⟩

/-- The page counts of two mappings in the page directory. -/
theorem pages_fit {m n k k' : Nat} (hcounts : m = n ∨ m = n + 1) (hlo : 6 ≤ k ∧ 6 ≤ k')
    (hapart : k + m ≤ k' ∨ k' + n ≤ k) (hshort : m ≤ 17 → k + m ≤ 16) (hshort' : n ≤ 17 → k' + n ≤ 16)
    (hdir : k + m ≤ pgTableEntries) (hdir' : k' + n ≤ pgTableEntries) :
    m + n ≤ 10 ∨ 18 ≤ n ∧ m + n ≤ 506 := by
  unfold pgTableEntries at *
  omega

/-- What is known of a copy that is reached. -/
structure Reached (start size : Nat) (c : CopyCall) : Prop where
  passes : Passes start size
  srcSize : c.src.size = sourcePages start size * largePgSize
  srcOff : c.srcOff = start % largePgSize
  dstPages : c.dstPages = largePages size
  dstSize : c.dst.size = largePages size * largePgSize
  size : c.size = size

theorem relocateTo_reached {what : String} {start size : Nat} (hstart : start < 2 ^ 64)
    (hsize : size < 2 ^ 64) {h h' : Host} {c : CopyCall}
    (hrun : relocateTo what start size h = .ok (c, h')) (hdir : c.InDirectory) :
    Reached start size c := by
  obtain ⟨src, h₁, hsrc, hrun₁⟩ := run_bind_eq_ok.mp hrun
  obtain ⟨_, h₂, hreq, hrun₂⟩ := run_bind_eq_ok.mp hrun₁
  obtain ⟨hsrcVa, heq⟩ := require_eq_ok hreq
  rw [heq] at hrun₂
  obtain ⟨frames, h₃, halloc, hrun₃⟩ := run_bind_eq_ok.mp hrun₂
  obtain ⟨_, h₄, hreq, hrun₄⟩ := run_bind_eq_ok.mp hrun₃
  obtain ⟨_, heq⟩ := require_eq_ok hreq
  rw [heq] at hrun₄
  obtain ⟨dst, h₅, hdst, hrun₅⟩ := run_bind_eq_ok.mp hrun₄
  obtain ⟨_, h₆, hreq, hrun₆⟩ := run_bind_eq_ok.mp hrun₅
  obtain ⟨hdstVa, heq⟩ := require_eq_ok hreq
  cases hrun₆
  obtain ⟨_, hsrcSize, hsrcPos⟩ := mapLargePages_ptr hsrc
  obtain ⟨_, hdstSize, hdstPos⟩ := mapLargePages_ptr hdst
  have hpos := hsrcPos hsrcVa
  have hpos' := hdstPos hdstVa
  have hoff : start - (start &&& largePgMask.toNat) = start % largePgSize := by
    rw [and_largePgMask hstart]
    unfold largePgSize
    omega
  refine ⟨⟨hpos, hpos', ?_⟩, hsrcSize, hoff, rfl, hdstSize, rfl⟩
  have hcounts := sourcePages_eq hstart hsize hpos
  obtain ⟨hsrcLt, hdstLt⟩ := counts_lt start size
  obtain ⟨hsrcDir, hdstDir⟩ := hdir
  obtain ⟨va, h₇, hvm, hret⟩ := run_bind_eq_ok.mp hsrc
  cases hret
  obtain ⟨va', h₈, hvm', hret⟩ := run_bind_eq_ok.mp hdst
  cases hret
  obtain ⟨vm, hvm, rfl⟩ := onVm_eq_ok hvm
  obtain ⟨vm', hvm', heq'⟩ := onVm_eq_ok hvm'
  obtain ⟨phys, _, heq''⟩ := onPhys_eq_ok halloc
  dsimp only at heq'' hsrcVa hdstVa hsrcDir hdstDir
  rw [heq''] at hvm'
  have hsame : ({ vm with phys } : Vm).entry = vm.entry := rfl
  obtain ⟨k, k', ⟨hk, hk'⟩, hlo, hapart, hshort, hshort'⟩ := large_mappings_apart
    (hsrcLt.trans (by decide)) (hdstLt.trans (by decide)) (by decide) (by decide) hvm hsrcVa hsame hvm'
    hdstVa
  rw [show va = k <<< largePgBits from hk, Nat.shiftLeft_shiftRight] at hsrcDir
  rw [show va' = k' <<< largePgBits from hk', Nat.shiftLeft_shiftRight] at hdstDir
  exact pages_fit hcounts hlo hapart hshort hshort' hsrcDir hdstDir

end Rtv.Virt
