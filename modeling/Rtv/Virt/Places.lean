import Rtv.Virt.LeafWords

/-!
# Where the images go

The allocator in a run of `virt_pg_table_setup`, from the call to the end of `virt_setup_linux`. What it
gives does not depend on the windows, and on the memory only through `setup_sects` in the header of
the image. So the new places of the two images, and the allocator from which the PDTs then come, are a
function of the allocator at the call, `places`.

**The law** (`virtSetupLinux_places`): the places of a run that returns are these, and the pages
counted for each of them cover its bytes.
-/

namespace Rtv.Virt

open Rtv.Lib Rtv.Utils Rtv.Mm

/-! ## The places -/

/-- `relocate` on the allocator: the new place, and the old one is given back. -/
def newPlace (s : Physical) (size oldStart oldSize : Nat) : Exec (Nat × Physical) := do
  let (frames, s) ← allocPhysFramesAligned s (largePages size <<< (largePgBits - pgBits)) largePgSize
  return (frames, ← physicalFreeRange s oldStart oldSize)

/-- The setup header as far as `virt_setup_e820` reads it: the fields of the ramdisk. -/
def ramdiskHeader (ramdiskImage ramdiskSize : Nat) : SetupHeader where
  setupSects := 0
  header := 0
  typeOfLoader := 0
  loadflags := 0
  code32Start := 0
  ramdiskImage := UInt32.ofNat ramdiskImage
  ramdiskSize := UInt32.ofNat ramdiskSize
  cmdLinePtr := 0

/-- `virt_setup_e820` on the allocator: the pages that are reported to the guest are taken. -/
def handOut (ramdiskImage ramdiskSize kernelSize : Nat) (s : Physical) : Exec Physical := do
  let (_, s) ← virtSetupE820 s (ramdiskHeader ramdiskImage ramdiskSize) kernelSize
  return s

/-- `virt_setup_linux` on the allocator, for a kernel of `kernelSize` bytes: the places of the kernel and
of the ramdisk. -/
def imagePlaces (vm : VmStruct) (kernelSize : Nat) (s : Physical) :
    Exec ((Nat × Nat) × Physical) := do
  -- the zero page
  let (_, s) ← allocPhysFrameLowmem s
  let (newImg, s) ← newPlace s kernelSize vm.imgPaddr.toNat vm.imgSize.toNat
  -- the page for the GDT
  let (_, s) ← allocPhysFrameLowmem s
  let (newExtra, s) ← newPlace s vm.extraSize.toNat vm.extraPaddr.toNat vm.extraSize.toNat
  return ((newImg, newExtra), ← handOut newExtra vm.extraSize.toNat kernelSize s)

/-- `virt_pg_table_setup` on the allocator, up to the loop over the PDPT. -/
def places (vm : VmStruct) (kernelSize : Nat) (s : Physical) : Exec ((Nat × Nat) × Physical) := do
  -- the PML4T and the PDPT
  let (_, s) ← allocPhysFrame s
  let (_, s) ← allocPhysFrame s
  imagePlaces vm kernelSize s

/-- The bytes of the kernel behind the setup sectors, whose number is in the header of the image. -/
def kernelLength (vm : VmStruct) (m : Bytes) : Nat :=
  sub64 vm.imgSize.toNat
    ((m.loadLE (pageBase vm.imgPaddr.toNat pgSize + setupSectsOff) 1 + 1) * linuxSectorSz)

/-! ## Steps that leave the allocator alone -/

section Allocator

variable {s : Physical} {α β : Type} {x : HostM α} {Q : β → Host → Prop}

/-- A computation that leaves the allocator alone, with what a result of it is known to be. -/
def KeepsPhys (x : HostM α) (p : α → Prop) : Prop :=
  ∀ h a h', x h = .ok (a, h') → p a ∧ h'.vm.phys = h.vm.phys

theorem KeepsPhys.seq {p : α → Prop} {f : α → HostM β} (hx : KeepsPhys x p)
    (hf : ∀ a, p a → Triple (fun h => h.vm.phys = s) (f a) Q) :
    Triple (fun h => h.vm.phys = s) (x >>= f) Q := by
  rintro h b h' rfl hrun
  obtain ⟨a, h₁, hxh, hrest⟩ := run_bind_eq_ok.mp hrun
  obtain ⟨hp, hphys⟩ := hx h a h₁ hxh
  exact hf a hp h₁ b h' hphys hrest

theorem keepsPhys_require (func msg : String) (c : Prop) [Decidable c] :
    KeepsPhys (require func msg c) fun _ => c := by
  intro h a h' hrun
  obtain ⟨hc, rfl⟩ := require_eq_ok hrun
  exact ⟨hc, rfl⟩

theorem keepsPhys_load (p : Ptr) (off n : Nat) : KeepsPhys (load p off n) fun _ => True := by
  intro h a h' hrun
  obtain ⟨_, hrun⟩ := Exec.guard_eq_ok.mp hrun
  cases hrun
  exact ⟨trivial, rfl⟩

theorem keepsPhys_store (p : Ptr) (off n v : Nat) : KeepsPhys (store p off n v) fun _ => True := by
  intro h a h' hrun
  obtain ⟨_, hrun⟩ := Exec.guard_eq_ok.mp hrun
  cases hrun
  exact ⟨trivial, rfl⟩

theorem keepsPhys_copy (dst : Ptr) (dstOff : Nat) (src : Ptr) (srcOff n : Nat) :
    KeepsPhys (copy dst dstOff src srcOff n) fun _ => dstOff + n ≤ dst.size := by
  intro h a h' hrun
  obtain ⟨hin, hrun⟩ := Exec.guard_eq_ok.mp hrun
  cases hrun
  exact ⟨hin.1, rfl⟩

theorem keepsPhys_mapPage (frame : Nat) (flags : BitVec 64) :
    KeepsPhys (mapPage frame flags) fun _ => True :=
  fun _ _ _ hrun => ⟨trivial, (mapPage_keeps hrun).2⟩

theorem keepsPhys_mapLargePages {frame num : Nat} {flags : BitVec 64} (hflags : flags &&& pgtP ≠ 0#64)
    (hnum : num < 2 ^ 32) : KeepsPhys (mapLargePages frame num flags) fun p =>
      p.size = num * largePgSize ∧ (p.va ≠ 0 → 1 ≤ num) := by
  intro h p h' hrun
  refine ⟨(mapLargePages_ptr hrun).2, ?_⟩
  obtain ⟨va, vm, hvm, rfl, rfl⟩ := onVm_map_eq_ok hrun
  rcases vmMapLargePages_run hflags hnum hvm with heq | ⟨_, s', heq, _, hfill⟩
  · exact congrArg (fun x => x.2.phys) heq
  · exact (congrArg (fun x => x.2.phys) heq).trans hfill.1

theorem keepsPhys_onVm {f : Vm → Exec (α × Vm)} (hf : ∀ s r, f s = .ok r → r.2.phys = s.phys) :
    KeepsPhys (onVm f) fun _ => True := by
  intro h a h' hrun
  obtain ⟨vm, hrun, rfl⟩ := onVm_eq_ok hrun
  exact ⟨trivial, hf _ _ hrun⟩

theorem KeepsPhys.drop {p : α → Prop} (hx : KeepsPhys x p) :
    KeepsPhys (x >>= fun _ => pure ()) fun _ => True := by
  intro h u h' hrun
  obtain ⟨a, h₁, hxh, hrest⟩ := run_bind_eq_ok.mp hrun
  cases hrest
  exact ⟨trivial, (hx h a h' hxh).2⟩

theorem keepsPhys_unmapPage (p : Ptr) : KeepsPhys (unmapPage p) fun _ => True := by
  refine (keepsPhys_onVm fun s r hr => ?_).drop
  obtain ⟨table, _, hr⟩ := Exec.bind_eq_ok.mp hr
  cases hr
  rfl

theorem keepsPhys_unmapLargePages (p : Ptr) (num : Nat) :
    KeepsPhys (unmapLargePages p num) fun _ => True := by
  refine (keepsPhys_onVm fun s r hr => ?_).drop
  obtain ⟨table, _, hr⟩ := Exec.bind_eq_ok.mp hr
  cases hr
  exact unmapLoop_phys _ _ _ _ _ _

/-- A call of `physical.c`. -/
theorem onPhys_at {f : Physical → Exec (α × Physical)} {k : α → HostM β}
    (hk : ∀ a s', f s = .ok (a, s') → Triple (fun h => h.vm.phys = s') (k a) Q) :
    Triple (fun h => h.vm.phys = s) (onPhys f >>= k) Q := by
  rintro h b h' rfl hrun
  obtain ⟨a, h₁, hf, hrest⟩ := run_bind_eq_ok.mp hrun
  obtain ⟨phys, hf, hh₁⟩ := onPhys_eq_ok hf
  exact hk a phys hf h₁ b h' (congrArg (fun h => h.vm.phys) hh₁) hrest

/-- The large pages of the allocator lie in the table. -/
theorem allocPhysFramesAligned_lt {size place : Nat} {s' : Physical} (hpos : 1 ≤ largePages size)
    (hne : place ≠ 0) (h : allocPhysFramesAligned s (largePages size <<< (largePgBits - pgBits))
      largePgSize = .ok (place, s')) : place < 2 ^ 36 := by
  rcases allocPhysFramesAligned_spec (n := largePgBits) (by decide) h with heq | ⟨page, hpage, _, hfree, _⟩
  · exact absurd (congrArg Prod.fst heq) hne
  · have hcount : largePages size <<< (largePgBits - pgBits) = largePages size * 512 :=
      Nat.shiftLeft_eq _ 9
    have hlt := (hfree page le_rfl (by omega)).lt
    change place = page <<< pgBits at hpage
    rw [hpage, shiftLeft_pgBits]
    unfold pgSize mmTableMax at *
    omega

/-- Moving an image: where it goes, and the pages counted for it cover it. -/
theorem relocate_place {what : String} {start size oldStart oldSize : Nat}
    {k : Nat × Ptr × Nat → HostM β}
    (hk : ∀ r s', newPlace s size oldStart oldSize = .ok (r.1, s') → r.1 < 2 ^ 36 →
      size ≤ largePages size * largePgSize → Triple (fun h => h.vm.phys = s') (k r) Q) :
    Triple (fun h => h.vm.phys = s) (relocate what start size oldStart oldSize >>= k) Q := by
  have hsmall : ∀ x, largePages x < 2 ^ 32 := by
    intro x
    unfold largePages
    omega
  have hmove : Triple (fun h => h.vm.phys = s) (relocate what start size oldStart oldSize)
      fun r h => ∃ s', (newPlace s size oldStart oldSize = .ok (r.1, s') ∧ r.1 < 2 ^ 36 ∧
        size ≤ largePages size * largePgSize) ∧ h.vm.phys = s' := by
    unfold relocate
    dsimp only
    refine (keepsPhys_mapLargePages (by decide) (hsmall _)).seq fun src _ => ?_
    refine (keepsPhys_require _ _ _).seq fun _ _ => ?_
    refine onPhys_at fun frames s₁ halloc => ?_
    refine (keepsPhys_require _ _ _).seq fun _ hne => ?_
    refine (keepsPhys_mapLargePages (by decide) (hsmall _)).seq fun dst hdst => ?_
    refine (keepsPhys_require _ _ _).seq fun _ hva => ?_
    refine (keepsPhys_copy _ _ _ _ _).seq fun _ hin => ?_
    refine (keepsPhys_unmapLargePages _ _).seq fun _ _ => ?_
    refine onPhys_at fun _ s₂ hfree => Triple.pure fun h hs => ⟨s₂, ⟨?_, ?_, ?_⟩, hs⟩
    · obtain ⟨s₂', hfree, heq⟩ := Exec.bind_eq_ok.mp hfree
      cases heq
      unfold newPlace
      rw [halloc, Exec.ok_bind]
      dsimp only
      rw [hfree]
      rfl
    · exact allocPhysFramesAligned_lt (hdst.2 hva) hne halloc
    · rwa [hdst.1, Nat.zero_add] at hin
  exact hmove.bind fun r => Triple.exists_intro fun s' => Triple.intro fun hr =>
    hk r s' hr.1 hr.2.1 hr.2.2

/-- The page for the GDT. -/
theorem setupCmdPage_place {zeroVirt : Ptr} {k : Nat → HostM β}
    (hk : ∀ cmdFrame s', allocPhysFrameLowmem s = .ok (cmdFrame, s') →
      Triple (fun h => h.vm.phys = s') (k cmdFrame) Q) :
    Triple (fun h => h.vm.phys = s) (setupCmdPage zeroVirt >>= k) Q := by
  have hpage : Triple (fun h => h.vm.phys = s) (setupCmdPage zeroVirt) fun cmdFrame h =>
      ∃ s', allocPhysFrameLowmem s = .ok (cmdFrame, s') ∧ h.vm.phys = s' := by
    unfold setupCmdPage
    refine onPhys_at fun cmdFrame s' halloc => ?_
    refine (keepsPhys_mapPage _ _).seq fun gdt _ => ?_
    refine (keepsPhys_store _ _ _ _).seq fun _ _ => (keepsPhys_store _ _ _ _).seq fun _ _ => ?_
    refine (keepsPhys_store _ _ _ _).seq fun _ _ => (keepsPhys_store _ _ _ _).seq fun _ _ => ?_
    refine (keepsPhys_store _ _ _ _).seq fun _ _ => (keepsPhys_unmapPage _).seq fun _ _ => ?_
    exact (keepsPhys_store _ _ _ _).seq fun _ _ => Triple.pure fun h hs => ⟨s', halloc, hs⟩
  exact hpage.bind fun cmdFrame => Triple.exists_intro fun s' => Triple.intro fun halloc =>
    hk cmdFrame s' halloc

end Allocator

/-! ## The header of the image -/

section Header

variable {m₀ m : Bytes} {a : Nat} {s : Physical} {α β : Type} {Q : β → Host → Prop}

/-- The page at `a`, behind its first word, is as it was, or cleared. -/
def AsBefore (m₀ : Bytes) (a : Nat) (m : Bytes) : Prop :=
  (∀ x, a + 8 ≤ x → x < a + pgSize → m x = m₀ x) ∨ ∀ x, a + 8 ≤ x → x < a + pgSize → m x = 0

/-- Writes that begin with a page: its first word, or all of it. -/
theorem AsBefore.store (h : AsBefore m₀ a m) (ha : pgSize ∣ a) {b n v : Nat} (hb : pgSize ∣ b)
    (hn : n ≤ 8 ∨ n = pgSize ∧ v = 0) : AsBefore m₀ a (m.storeLE b n v) := by
  obtain ⟨i, rfl⟩ := ha
  obtain ⟨j, rfl⟩ := hb
  by_cases hsame : i = j ∧ n = pgSize ∧ v = 0
  · obtain ⟨rfl, rfl, rfl⟩ := hsame
    refine Or.inr fun x hlo hhi => ?_
    rw [Bytes.storeLE_inside (by omega) hhi, Nat.zero_div]
    rfl
  · have hout : ∀ x, pgSize * i + 8 ≤ x → x < pgSize * i + pgSize →
        m.storeLE (pgSize * j) n v x = m x := by
      intro x hlo hhi
      apply Bytes.storeLE_outside
      unfold pgSize at *
      omega
    exact h.imp (fun h x hlo hhi => (hout x hlo hhi).trans (h x hlo hhi))
      fun h x hlo hhi => (hout x hlo hhi).trans (h x hlo hhi)

/-- The state before the header is read: the allocator, and the page of the header. -/
def Before (s : Physical) (m₀ : Bytes) (a : Nat) (h : Host) : Prop :=
  h.vm.phys = s ∧ AsBefore m₀ a h.mem

theorem before_onPhys {f : Physical → Exec (α × Physical)} {k : α → HostM β}
    (hk : ∀ r s', f s = .ok (r, s') → Triple (Before s' m₀ a) (k r) Q) :
    Triple (Before s m₀ a) (onPhys f >>= k) Q := by
  rintro h b h' ⟨rfl, hmem⟩ hrun
  obtain ⟨r, h₁, hf, hrest⟩ := run_bind_eq_ok.mp hrun
  obtain ⟨phys, hf, hh₁⟩ := onPhys_eq_ok hf
  dsimp only at hf hh₁
  have hbefore : Before phys m₀ a h₁ := by
    rw [hh₁]
    exact ⟨rfl, hmem⟩
  exact hk r phys hf h₁ b h' hbefore hrest

theorem before_require {func msg : String} {c : Prop} [Decidable c] {k : Unit → HostM β}
    (hk : c → Triple (Before s m₀ a) (k ()) Q) :
    Triple (Before s m₀ a) (require func msg c >>= k) Q := by
  intro h b h' hh hrun
  obtain ⟨u, h₁, hreq, hrest⟩ := run_bind_eq_ok.mp hrun
  obtain ⟨hc, rfl⟩ := require_eq_ok hreq
  exact hk hc h₁ b h' hh hrest

/-- A page that is mapped with a check. -/
theorem before_mapPage {frame : Nat} {flags : BitVec 64} {func msg : String} {k : Ptr → HostM β}
    (hk : ∀ p : Ptr, p.size = pgSize → p.base = pageBase frame pgSize →
      Triple (Before s m₀ a) (k p) Q) :
    Triple (Before s m₀ a)
      (mapPage frame flags >>= fun p => require func msg (p.va ≠ 0) >>= fun _ => k p) Q := by
  rintro h b h' ⟨hs, hmem⟩ hrun
  obtain ⟨p, h₁, hmap, hrest⟩ := run_bind_eq_ok.mp hrun
  obtain ⟨hsame, hphys⟩ := mapPage_keeps hmap
  obtain ⟨hbase, hsize⟩ := mapPage_ptr hmap
  have hbefore : Before s m₀ a h₁ := ⟨hphys.trans hs, hsame ▸ hmem⟩
  exact before_require (fun hva => hk p (hsize.trans (if_neg hva)) hbase) h₁ b h' hbefore hrest

theorem pgSize_dvd_pageBase (frame : Nat) : pgSize ∣ pageBase frame pgSize :=
  Nat.dvd_mul_left pgSize _

theorem before_store {p : Ptr} {n v : Nat} {k : Unit → HostM β} (ha : pgSize ∣ a)
    (hp : pgSize ∣ p.base) (hn : n ≤ 8 ∨ n = pgSize ∧ v = 0)
    (hk : Triple (Before s m₀ a) (k ()) Q) :
    Triple (Before s m₀ a) (store p 0 n v >>= k) Q := by
  rintro h b h' ⟨hs, hmem⟩ hrun
  obtain ⟨u, h₁, hstore, hrest⟩ := run_bind_eq_ok.mp hrun
  obtain ⟨_, hstore⟩ := Exec.guard_eq_ok.mp hstore
  cases hstore
  have hbefore : Before s m₀ a { h with mem := h.mem.storeLE (p.base + 0) n v } :=
    ⟨hs, hmem.store ha hp hn⟩
  exact hk _ b h' hbefore hrest

/-- The first byte of a copy. -/
theorem copied_first (m : Bytes) (dst src : Nat) {n : Nat} (hn : 0 < n) :
    copied m dst src n dst = m src := by
  have hin : dst ≤ dst ∧ dst < dst + n := ⟨le_rfl, Nat.lt_add_of_pos_right hn⟩
  rw [copied]
  dsimp only
  rw [if_pos hin, Nat.sub_self, Nat.add_zero]

/-- The header in the zero page is that of the image: its magic number was read, so that the page of the
image is not one of those that were cleared. -/
theorem copySetupHeader_place (vm : VmStruct) {zeroVirt : Ptr} :
    Triple (Before s m₀ (pageBase vm.imgPaddr.toNat pgSize)) (copySetupHeader vm zeroVirt) fun _ h =>
      vm.imgPaddr.toNat % pgSize = 0 ∧ h.vm.phys = s ∧
        h.mem.loadLE (zeroVirt.base + setupSectsOff) 1 =
          m₀.loadLE (pageBase vm.imgPaddr.toNat pgSize + setupSectsOff) 1 := by
  unfold copySetupHeader
  refine before_require fun haligned => before_mapPage fun linuxVirt hsize hbase => ?_
  rintro h u h' ⟨hs, hmem⟩ hrun
  obtain ⟨magic, h₁, hload, hrun₁⟩ := run_bind_eq_ok.mp hrun
  obtain ⟨_, hload⟩ := Exec.guard_eq_ok.mp hload
  cases hload
  obtain ⟨_, h₂, hreq, hrun₂⟩ := run_bind_eq_ok.mp hrun₁
  obtain ⟨hmagic, hsame⟩ := require_eq_ok hreq
  rw [hsame] at hrun₂
  obtain ⟨_, h₃, hcopy, hunmap⟩ := run_bind_eq_ok.mp hrun₂
  obtain ⟨_, hcopy⟩ := Exec.guard_eq_ok.mp hcopy
  cases hcopy
  have hphys := (keepsPhys_unmapPage linuxVirt _ u h' hunmap).2
  have hmem' := (keepsMemory_unmapPage linuxVirt _ u h' hunmap).1
  have hheader : h.mem.loadLE (linuxVirt.base + setupSectsOff) 1 =
      m₀.loadLE (linuxVirt.base + setupSectsOff) 1 := by
    rw [← hbase] at hmem
    rcases hmem with hsame | hzero
    · refine Bytes.loadLE_congr fun x hlo hhi => hsame x ?_ ?_
      · unfold setupSectsOff at hlo
        omega
      · unfold setupSectsOff pgSize at *
        omega
    · -- a cleared page has no magic number
      have hnone : h.mem.loadLE (linuxVirt.base + headerOff) 4 = 0 := by
        have hcleared : h.mem.loadLE (linuxVirt.base + headerOff) 4 =
            (⟨fun _ => 0⟩ : Bytes).loadLE (linuxVirt.base + headerOff) 4 := by
          refine Bytes.loadLE_congr fun x hlo hhi => hzero x ?_ ?_
          · unfold headerOff at hlo
            omega
          · unfold headerOff pgSize at *
            omega
        rw [hcleared]
        rfl
      rw [hnone] at hmagic
      exact absurd hmagic (by decide)
  refine ⟨haligned, hphys.trans hs, ?_⟩
  rw [hmem', ← hbase, ← hheader]
  exact congrArg (fun b : UInt8 => b.toNat + 2 ^ 8 * 0) (copied_first _ _ _ (by decide))

/-- Reading a number that is known. -/
theorem load_known {p : Ptr} {off n v : Nat} {k : Nat → HostM β}
    (hk : Triple (fun h => h.vm.phys = s) (k v) Q) :
    Triple (fun h => h.vm.phys = s ∧ h.mem.loadLE (p.base + off) n = v) (load p off n >>= k) Q := by
  rintro h b h' ⟨hs, rfl⟩ hrun
  obtain ⟨r, h₁, hload, hrest⟩ := run_bind_eq_ok.mp hrun
  obtain ⟨_, hload⟩ := Exec.guard_eq_ok.mp hload
  cases hload
  exact hk h b h' hs hrest

end Header

/-! ## The table of the memory -/

section Table

variable {s : Physical} {α β : Type} {Q : β → Host → Prop}

/-- Of the header only the fields of the ramdisk matter. -/
theorem virtSetupE820_congr {hdr hdr' : SetupHeader} (himage : hdr.ramdiskImage = hdr'.ramdiskImage)
    (hsize : hdr.ramdiskSize = hdr'.ramdiskSize) (kernelSize : Nat) :
    virtSetupE820 s hdr kernelSize = virtSetupE820 s hdr' kernelSize := by
  have hround : ∀ kernelEnd w, e820Round hdr kernelEnd w = e820Round hdr' kernelEnd w := by
    intro kernelEnd w
    simp only [e820Round, Walk.addRamdisk, himage, hsize]
  have hloop : ∀ kernelEnd fuel w, e820Loop hdr kernelEnd fuel w = e820Loop hdr' kernelEnd fuel w := by
    intro kernelEnd fuel
    induction fuel with
    | zero => exact fun _ => rfl
    | succ fuel ih =>
      intro w
      simp only [e820Loop, hround, ih]
  rw [virtSetupE820, virtSetupE820, hloop]

theorem load_bind_run {p : Ptr} {off n : Nat} {k : Nat → HostM α} {h : Host} {r : α × Host}
    (hrun : (load p off n >>= k) h = .ok r) : k (h.mem.loadLE (p.base + off) n) h = .ok r := by
  obtain ⟨v, h₁, hload, hrest⟩ := run_bind_eq_ok.mp hrun
  obtain ⟨_, hload⟩ := Exec.guard_eq_ok.mp hload
  cases hload
  exact hrest

/-- What is read of the header for `virt_setup_e820`. -/
theorem loadSetupHeader_run {p : Ptr} {h h' : Host} {hdr : SetupHeader}
    (hrun : loadSetupHeader p h = .ok (hdr, h')) : h' = h ∧
      hdr.ramdiskImage = UInt32.ofNat (h.mem.loadLE (p.base + ramdiskImageOff) 4) ∧
        hdr.ramdiskSize = UInt32.ofNat (h.mem.loadLE (p.base + ramdiskSizeOff) 4) := by
  -- the header is made of eight reads
  replace hrun := load_bind_run (load_bind_run (load_bind_run (load_bind_run hrun)))
  replace hrun := load_bind_run (load_bind_run (load_bind_run (load_bind_run hrun)))
  cases hrun
  exact ⟨rfl, rfl, rfl⟩

/-- The fields of the ramdisk are written, and the table is made with them. -/
theorem setupE820_place {zeroVirt : Ptr} {image size kernelSize : Nat} {k : Unit → HostM β}
    (hk : ∀ u s', handOut image size kernelSize s = .ok s' → Triple (fun h => h.vm.phys = s') (k u) Q) :
    Triple (fun h => h.vm.phys = s) (store zeroVirt ramdiskImageOff 4 image >>= fun _ =>
      store zeroVirt ramdiskSizeOff 4 size >>= fun _ => setupE820 zeroVirt kernelSize >>= k) Q := by
  rintro h b h' rfl hrun
  obtain ⟨_, h₁, hstore, hrun⟩ := run_bind_eq_ok.mp hrun
  obtain ⟨_, hstore⟩ := Exec.guard_eq_ok.mp hstore
  cases hstore
  obtain ⟨_, h₂, hstore, hrun⟩ := run_bind_eq_ok.mp hrun
  obtain ⟨_, hstore⟩ := Exec.guard_eq_ok.mp hstore
  cases hstore
  obtain ⟨u, h₃, htable, hrest⟩ := run_bind_eq_ok.mp hrun
  obtain ⟨hdr, h₄, hload, hrun₁⟩ := run_bind_eq_ok.mp htable
  obtain ⟨hsame, himage, hsize⟩ := loadSetupHeader_run hload
  rw [hsame] at hrun₁
  obtain ⟨table, h₅, hwalk, hrun₂⟩ := run_bind_eq_ok.mp hrun₁
  obtain ⟨s', hwalk, heq⟩ := onPhys_eq_ok hwalk
  -- writing the rows leaves the allocator alone
  have hrows : Triple (fun h => h.vm.phys = s')
      (table.foldlM (fun _ row => storeE820 zeroVirt row.1 row.2) ()) fun _ h => h.vm.phys = s' := by
    refine Triple.foldlM (P := fun _ (h : Host) => h.vm.phys = s') (fun _ row => ?_) table ()
    refine (keepsPhys_store _ _ _ _).seq fun _ _ => (keepsPhys_store _ _ _ _).seq fun _ _ => ?_
    exact fun h u h' hs hrun => (keepsPhys_store _ _ _ _ h u h' hrun).2.trans hs
  refine hk u s' ?_ h₃ b h' (hrows h₅ u h₃ (congrArg (fun h => h.vm.phys) heq) hrun₂) hrest
  have hapart : ramdiskImageOff + 4 ≤ ramdiskSizeOff := by decide
  rw [Bytes.loadLE_storeLE_apart (by omega), Bytes.loadLE_storeLE_same, UInt32.ofNat_mod_size] at himage
  rw [Bytes.loadLE_storeLE_same, UInt32.ofNat_mod_size] at hsize
  have hread : virtSetupE820 h.vm.phys hdr kernelSize =
      virtSetupE820 h.vm.phys (ramdiskHeader image size) kernelSize :=
    virtSetupE820_congr himage hsize kernelSize
  unfold handOut
  rw [← hread, hwalk]
  rfl

end Table

/-! ## The places of a run -/

/-- What a run makes of the guest: the places, and the bytes of the images are in the pages counted for
them, so that their ends are below 2^37. -/
structure Placed (vm : VmStruct) (kernelSize newImg newExtra : Nat) (vm' : VmStruct) : Prop where
  aligned : vm.imgPaddr.toNat % pgSize = 0
  imgPaddr : vm'.imgPaddr.toNat = newImg
  imgSize : vm'.imgSize.toNat = kernelSize
  extraPaddr : vm'.extraPaddr.toNat = newExtra
  extraSize : vm'.extraSize = vm.extraSize
  ramSize : vm'.ramSize = vm.ramSize
  imgEnd : newImg + kernelSize < 2 ^ 37
  extraEnd : newExtra + vm.extraSize.toNat < 2 ^ 37

/-- **`virt_setup_linux` puts the images where the allocator says.** -/
theorem virtSetupLinux_places (vm : VmStruct) (m₀ : Bytes) (s : Physical) :
    Triple (Before s m₀ (pageBase vm.imgPaddr.toNat pgSize)) (virtSetupLinux vm) fun vm' h =>
      ∃ newImg newExtra s', (imagePlaces vm (kernelLength vm m₀) s = .ok ((newImg, newExtra), s') ∧
        Placed vm (kernelLength vm m₀) newImg newExtra vm') ∧ h.vm.phys = s' := by
  have hpages : ∀ {size}, size ≤ largePages size * largePgSize → size < 2 ^ 29 := by
    intro size hle
    have hlt : largePages size < 256 := Nat.mod_lt _ (by decide)
    unfold largePgSize at hle
    omega
  unfold virtSetupLinux
  refine before_onPhys fun zeroFrame s₁ hzero => before_require fun _ => ?_
  refine before_mapPage fun zeroVirt hsize hbase => ?_
  refine before_store (pgSize_dvd_pageBase _) (hbase ▸ pgSize_dvd_pageBase _) (Or.inr ⟨rfl, rfl⟩) ?_
  refine (copySetupHeader_place vm).bind fun _ => Triple.intro fun haligned => load_known ?_
  refine relocate_place fun r s₂ himg himgLt himgSize => ?_
  refine (keepsPhys_unmapLargePages _ _).seq fun _ _ => setupCmdPage_place fun cmdFrame s₃ hcmd => ?_
  refine (keepsPhys_store _ _ _ _).seq fun _ _ => (keepsPhys_load _ _ _).seq fun loadflags _ => ?_
  refine (keepsPhys_store _ _ _ _).seq fun _ _ => (keepsPhys_store _ _ _ _).seq fun _ _ => ?_
  refine relocate_place fun r' s₄ hextra hextraLt hextraSize => ?_
  refine setupE820_place fun _ s₅ hout => (keepsPhys_unmapPage _).seq fun _ _ => ?_
  have hnum : ∀ x < 2 ^ 64, (UInt64.ofNat x).toNat = x := fun x hx => UInt64.toNat_ofNat_of_lt' hx
  have := hpages himgSize
  have := hpages hextraSize
  refine Triple.pure fun h hs => ⟨r.1, r'.1, s₅, ⟨?_, ?_⟩, hs⟩
  · unfold imagePlaces
    rw [hzero, Exec.ok_bind]
    dsimp only
    rw [kernelLength, himg, Exec.ok_bind]
    dsimp only
    rw [hcmd, Exec.ok_bind]
    dsimp only
    rw [hextra, Exec.ok_bind]
    dsimp only
    rw [hout]
    rfl
  · exact {
      aligned := haligned
      imgPaddr := hnum _ (by omega)
      imgSize := hnum (sub64 _ _) (Nat.mod_lt _ (by decide))
      extraPaddr := hnum _ (by omega)
      extraSize := rfl
      ramSize := rfl
      imgEnd := by
        rw [kernelLength]
        omega
      extraEnd := by omega }

/-- The ends of the images, as the loops over the tables compute them. -/
theorem Placed.ends {vm vm' : VmStruct} {kernelSize newImg newExtra : Nat}
    (h : Placed vm kernelSize newImg newExtra vm') :
    (vm'.imgSize + vm'.imgPaddr).toNat = newImg + kernelSize ∧
      (vm'.extraSize + vm'.extraPaddr).toNat = newExtra + vm.extraSize.toNat := by
  have himg := h.imgEnd
  have hextra := h.extraEnd
  rw [UInt64.toNat_add, UInt64.toNat_add, h.imgPaddr, h.imgSize, h.extraPaddr, h.extraSize]
  omega

/-- **The same for `virt_pg_table_setup`**, with what its loops write: the cursors start at the old places,
and the PDTs come from the allocator after the images were placed. -/
theorem logSetup_places (vm : VmStruct) (m₀ : Bytes) (s : Physical) (hn : vm.pdtEntries ≤ 2 ^ 18) :
    Triple (fun h => h.vm.phys = s ∧ h.mem = m₀) (logSetup vm) fun r h =>
      vm.imgPaddr.toNat % pgSize = 0 ∧
        ∃ newImg newExtra s', places vm (kernelLength vm m₀) s = .ok ((newImg, newExtra), s') ∧
          (∃ c, Logged (add64 vm.imgPaddr.toNat 0x100000) vm.extraPaddr.toNat
            (newImg + kernelLength vm m₀) (newExtra + vm.extraSize.toNat) vm.pdtEntries c r.2) ∧
          if vm.pdtEntries = 0 then r.2 = [] else ∃ f, FirstFree s' 256 f ∧ Standing f r.2 h := by
  have hstart : ∀ h : Host, h.vm.phys = s ∧ h.mem = m₀ →
      Before s m₀ (pageBase vm.imgPaddr.toNat pgSize) h := by
    rintro h ⟨hs, rfl⟩
    exact ⟨hs, Or.inl fun _ _ _ => rfl⟩
  have hpage := pgSize_dvd_pageBase
  unfold logSetup
  dsimp only
  refine Triple.mono ?_ hstart fun _ _ hQ => hQ
  refine before_onPhys fun pml4tPhy s₁ hpml4t => before_require fun _ => ?_
  refine before_mapPage fun pml4tVirt _ hpml4tBase => ?_
  refine before_onPhys fun pdptPhy s₂ hpdpt => before_require fun _ => ?_
  refine before_mapPage fun pdptVirt hpdptSize hpdptBase => ?_
  have hbase : pgSize ∣ pml4tVirt.base ∧ pgSize ∣ pdptVirt.base :=
    ⟨hpml4tBase ▸ hpage _, hpdptBase ▸ hpage _⟩
  refine before_store (hpage _) hbase.1 (Or.inr ⟨rfl, rfl⟩) ?_
  refine before_store (hpage _) hbase.2 (Or.inr ⟨rfl, rfl⟩) ?_
  refine before_store (hpage _) hbase.1 (Or.inl le_rfl) ?_
  refine (virtSetupLinux_places vm m₀ s₂).bind fun vm' => ?_
  refine Triple.exists_intro fun newImg => Triple.exists_intro fun newExtra => ?_
  refine Triple.exists_intro fun s' => Triple.intro fun ⟨hplaces, hplaced⟩ => ?_
  have hends := hplaced.ends
  have hentries : vm'.pdptEntries = pdtCount vm.pdtEntries := by
    rw [VmStruct.pdptEntries, VmStruct.pdtEntries, hplaced.ramSize]
    exact Nat.shiftRight_eq_div_pow _ 9
  have hbound : vm.pdtEntries * pgTableEntries % 2 ^ 32 = vm.pdtEntries * 512 := by
    unfold pgTableEntries
    omega
  have hlogs := logPdts_logged vm' pdptVirt hn hbound
    (by have := hplaced.imgEnd; unfold largePgSize; omega)
    (add64 vm.imgPaddr.toNat 0x100000) vm.extraPaddr.toNat
  rw [hends.1, hends.2, ← hentries] at hlogs
  have hwords := @logPdts_standing vm'.pdptEntries vm' (vm.pdtEntries * pgTableEntries % 2 ^ 32) pdptVirt
    hbase.2 hpdptSize s' ⟨add64 vm.imgPaddr.toNat 0x100000, vm.extraPaddr.toNat, 0⟩
  have hnone : vm'.pdptEntries = 0 ↔ vm.pdtEntries = 0 := by
    rw [hentries, pdtCount]
    omega
  simp only [hnone] at hwords
  have hall := hlogs.mono (fun h (_ : h.vm.phys = s') => trivial) fun _ _ hQ => hQ
  refine (hall.and hwords).bind fun c => Triple.intro fun hlogged => ?_
  have hstable : Stable fun h => if vm.pdtEntries = 0 then c.2 = [] else
      ∃ f, FirstFree s' 256 f ∧ Standing f c.2 h := by
    intro h h' hh hmem hfree
    split at hh
    · next hzero => rwa [if_pos hzero]
    · next hpos =>
      obtain ⟨f, hfirst, hstanding⟩ := hh
      rw [if_neg hpos]
      exact ⟨f, hfirst, hstanding.congr hmem hfree⟩
  refine ((keepsMemory_unmapPage _).stable hstable).bind fun _ => ?_
  refine ((keepsMemory_unmapPage _).stable hstable).bind fun _ => Triple.pure fun h hh => ?_
  refine ⟨hplaced.aligned, newImg, newExtra, s', ?_, ⟨c.1, hlogged⟩, hh⟩
  unfold places
  rw [hpml4t, Exec.ok_bind]
  dsimp only
  rw [hpdpt, Exec.ok_bind]
  exact hplaces

end Rtv.Virt
