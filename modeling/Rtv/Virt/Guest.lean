import Rtv.Virt.EptSetup
import Rtv.Virt.Reads
import Rtv.Virt.Temporary

/-!
# What the guest sees

The two results on `virt_pg_table_setup`, for every run that returns.

**What is mapped** (`ept_covers_ram`): the guest's memory and nothing else, if that is whole GBs and the
test program is not written over one of the upper tables. The rest of a PDT that is not full is never
written, so that it maps what was in its frame before.

**Where the data is** (`guest_data_iff`): the addresses handed to Linux lead to the data just if no
memory is mapped at all. The kernel's entry point is at 1MB, and the second half of the first 2MB is
always mapped to 4GB + 1MB, but the kernel is moved to the begin of a large page.
-/

namespace Rtv.Virt

open Rtv.Lib Rtv.Utils Rtv.Mm

/-! ## Runs that return -/

/-- The loop over the PDPT faults behind its last entry. -/
theorem pdptEntries_le {vm : VmStruct} {h h' : Host} {r : Nat × VmStruct}
    (hrun : virtPgTableSetup vm h = .ok (r, h')) : vm.pdtEntries ≤ 2 ^ 18 := by
  have hlinux : Triple (fun _ => True) (virtSetupLinux vm) fun vm' _ => vm'.ramSize = vm.ramSize := by
    unfold virtSetupLinux
    repeat refine Triple.skip fun _ => ?_
    exact Triple.pure fun _ _ => rfl
  have hptr : ∀ frame flags, Triple (fun _ => True) (mapPage frame flags) fun p _ => p.size ≤ pgSize :=
    fun frame flags s p s' _ hmap => mapPage_size hmap
  have hround : ∀ vm' bound p cur i, p.size ≤ pgSize →
      Triple (fun _ => True) (storePdt vm' bound p cur i) fun _ _ => i < 512 := by
    intro vm' bound p cur i hsize
    unfold storePdt
    refine Triple.skip fun frame => Triple.skip fun _ => ?_
    refine Triple.bind (Q := fun _ _ => i < 512) ?_ fun _ => fun s u s' hi _ => hi
    intro s u s' _ hstore
    have hin := (Exec.guard_eq_ok.mp hstore).1
    unfold pgSize at hsize
    omega
  have hsetup : Triple (fun _ => True) (virtPgTableSetup vm) fun _ _ => vm.pdptEntries ≤ 512 := by
    unfold virtPgTableSetup
    dsimp only
    refine Triple.skip fun _ => Triple.skip fun _ => Triple.skip fun _ => Triple.skip fun _ => ?_
    refine Triple.skip fun _ => Triple.skip fun _ => ?_
    refine (hptr _ _).bind fun p => Triple.of_fact fun hsize => ?_
    refine Triple.skip fun _ => Triple.skip fun _ => Triple.skip fun _ => Triple.skip fun _ => ?_
    refine hlinux.bind fun vm' => Triple.of_fact fun hram => ?_
    have hentries : vm'.pdptEntries = vm.pdptEntries := by
      rw [VmStruct.pdptEntries, VmStruct.pdtEntries, hram]
      rfl
    rw [hentries]
    refine Triple.bind (Q := fun _ _ => vm.pdptEntries ≤ 512) ?_ fun _ => fun s u s' hle _ => hle
    have hloop := Triple.foldlM_range (P := fun k (_ : Cursors) (_ : Host) => k ≤ 512)
      (f := storePdt vm' (vm.pdtEntries * pgTableEntries % 2 ^ 32) p) (k := vm.pdptEntries)
      (fun i _ cur s u s' _ hstep => hround vm' _ p cur i hsize s u s' trivial hstep)
    exact (hloop _).mono (fun _ _ => Nat.zero_le _) fun _ _ hle => hle
  have hle := hsetup h r h' trivial hrun
  have hdiv : vm.pdptEntries = (vm.pdtEntries + 511) / 512 := Nat.shiftRight_eq_div_pow _ 9
  omega

/-- What the memory holds after a run. -/
theorem eptBuilt_of_run {vm : VmStruct} {h h' : Host} {r : Nat × VmStruct}
    (htaken : ImagesTaken vm h.vm.phys) (hrun : virtPgTableSetup vm h = .ok (r, h')) :
    (r.2.imgPaddr.toNat % largePgSize = 0 ∧ r.2.imgSize.toNat ≠ 0 ∧ r.2.ramSize = vm.ramSize) ∧
      ∃ root pdpt pdt O, (r.1 = root * pgSize ∧ FirstFree h.vm.phys 256 root ∧
        FirstFree h.vm.phys (root + 1) pdpt ∧ ∀ f ∈ O, 256 ≤ f) ∧
        EptBuilt (ImagesApart vm) h.mem vm.pdtEntries root pdpt pdt (pdtCount vm.pdtEntries)
          vm.pdtEntries O (word h'.mem) := by
  obtain ⟨himg, root, pdpt, hroot, pdt, O, W, hbuilt, hholds⟩ :=
    virtPgTableSetup_built vm h.mem h.vm.phys (pdptEntries_le hrun) htaken h r h' ⟨rfl, rfl⟩ hrun
  exact ⟨himg, root, pdpt, pdt, O,
    ⟨hroot.1, hroot.2.1, hroot.2.2, fun f hf => (hholds.owned f hf).1⟩,
    hbuilt.congr subset_rfl fun f hf i hi => (hholds.owned f hf).2.2.2 i hi⟩

/-! ## What is mapped -/

/-- The test program is not written over the PML4T, nor over the PDPT if that has one PDT only. -/
def TestApart (vm : VmStruct) (s : Physical) : Prop :=
  vm.pdtEntries = 0 ∨ ¬ FirstFree s 256 testFrame ∧
    (1024 ≤ vm.pdtEntries ∨ ∀ root, FirstFree s 256 root → ¬ FirstFree s (root + 1) testFrame)

/-- A memory with a large page in the last word of every page above 1MB. -/
def staleMemory (m : Bytes) : Bytes := ⟨fun x => if x < 2 ^ 20 ∨ x % pgSize < 4088 then m x else 0xB7⟩

theorem staleMemory_last (m : Bytes) {f : Nat} (hf : 256 ≤ f) :
    IsLargePage (word (staleMemory m) f 511) := by
  have hstale : ∀ x, ¬ (x < 2 ^ 20 ∨ x % pgSize < 4088) → (staleMemory m x).toNat = 0xB7 := by
    intro x hx
    unfold staleMemory
    dsimp only
    rw [if_neg hx]
    rfl
  have hbyte := hstale (f * pgSize + 8 * 511) (by unfold pgSize; omega)
  have hword : word (staleMemory m) f 511 =
      0xB7 + 2 ^ 8 * (staleMemory m).loadLE (f * pgSize + 8 * 511 + 1) 7 := by
    rw [← hbyte]
    rfl
  rw [hword]
  constructor <;> omega

/-- Without whole GBs, such a memory makes the setup map an address past the guest's memory. -/
theorem not_coversExactly_stale {vm : VmStruct} {h h' : Host} {r : Nat × VmStruct}
    (htaken : ImagesTaken vm h.vm.phys) (hapart : ImagesApart vm)
    (hrun : virtPgTableSetup vm h = .ok (r, h')) (hfull : vm.pdtEntries % 512 ≠ 0) :
    ∃ h₁, virtPgTableSetup vm { h with mem := staleMemory h.mem } = .ok (r, h₁) ∧
      ¬ CoversExactly h₁.mem r.1 vm.pdtEntries := by
  have hsame : SameOn notLastWords h { h with mem := staleMemory h.mem } :=
    ⟨rfl, fun x hx => if_pos hx⟩
  obtain ⟨h₁, hrun₁, -⟩ := virtPgTableSetup_reads vm h _ r h' hsame hrun
  obtain ⟨-, root, pdpt, pdt, O, ⟨hroot, -, -, hhigh⟩, hbuilt⟩ :=
    eptBuilt_of_run (h := { h with mem := staleMemory h.mem }) htaken hrun₁
  refine ⟨h₁, hrun₁, ?_⟩
  rw [hroot]
  exact hbuilt.not_exact_of_tail (pdptEntries_le hrun) hfull hapart fun f hf =>
    staleMemory_last h.mem (hhigh f hf)

/-- **When exactly the guest's memory is mapped.** For every guest, every state of the allocator in
which the images' frames are not free and every state of the windows for which `virt_pg_table_setup`
returns. If the guest has whole GBs, and the page of the test program is not one of the upper tables,
then the tables map its memory and nothing else, whatever the memory holds. If it does not have whole
GBs, then not: some memory has a large page in the words of the last PDT that are not written. -/
theorem ept_covers_ram {vm : VmStruct} {h h' : Host} {r : Nat × VmStruct}
    (htaken : ImagesTaken vm h.vm.phys) (hapart : ImagesApart vm)
    (hrun : virtPgTableSetup vm h = .ok (r, h')) :
    (vm.pdtEntries % 512 = 0 ∧ TestApart vm h.vm.phys →
        ∀ mem r h', virtPgTableSetup vm { h with mem } = .ok (r, h') →
          CoversExactly h'.mem r.1 vm.pdtEntries) ∧
      ((∀ mem r h', virtPgTableSetup vm { h with mem } = .ok (r, h') →
          CoversExactly h'.mem r.1 vm.pdtEntries) → vm.pdtEntries % 512 = 0) := by
  have hn := pdptEntries_le hrun
  constructor
  · rintro ⟨hfull, htest⟩ mem r h' hrun
    obtain ⟨-, root, pdpt, pdt, O, ⟨hroot, hfirst, hsecond, -⟩, hbuilt⟩ :=
      eptBuilt_of_run (h := { h with mem }) htaken hrun
    rw [hroot]
    apply hbuilt.coversExactly hn hfull
    · rintro ⟨hpos, rfl⟩
      rcases htest with hzero | ⟨hnot, -⟩
      · omega
      · exact hnot hfirst
    · rintro ⟨hpos, rfl⟩
      rcases htest with hzero | ⟨-, hmany | hnot⟩
      · omega
      · exact hmany
      · exact absurd hsecond (hnot root hfirst)
  · intro hexact
    by_contra hfull
    obtain ⟨h₁, hrun₁, hnot⟩ := not_coversExactly_stale htaken hapart hrun hfull
    exact hnot (hexact _ r h₁ hrun₁)

/-- The kernel of the small guest is in one frame. -/
theorem smallGuest_img {f : Nat} (hf : f ∈ touched smallGuest.imgPaddr smallGuest.imgSize) :
    f = 0x4000 := by
  obtain ⟨hlo, hhi⟩ := hf
  change f * 4096 < 0x4000000 + 513 at hlo
  change 0x4000000 < (f + 1) * 4096 at hhi
  omega

/-- The ramdisk of the small guest is in another frame. -/
theorem smallGuest_extra {f : Nat} (hf : f ∈ touched smallGuest.extraPaddr smallGuest.extraSize) :
    f = 0x4200 := by
  obtain ⟨hlo, hhi⟩ := hf
  change f * 4096 < 0x4200000 + 1 at hlo
  change 0x4200000 < (f + 1) * 4096 at hhi
  omega

theorem smallGuest_taken : ImagesTaken smallGuest smallHost.vm.phys := by
  rintro f (himg | hextra)
  · rw [smallGuest_img himg]
    decide
  · rw [smallGuest_extra hextra]
    decide

theorem smallGuest_apart : ImagesApart smallGuest :=
  Set.disjoint_left.mpr fun f himg hextra => by
    have hne : (0x4000 : Nat) ≠ 0x4200 := by decide
    exact hne ((smallGuest_img himg).symm.trans (smallGuest_extra hextra))

/-- The small guest with 1GB. -/
def gbGuest : VmStruct := { smallGuest with ramSize := 1024 }

/-- Its setup on the same host returns. -/
theorem gbGuest_setup : ∃ r h', virtPgTableSetup gbGuest smallHost = .ok (r, h') := by
  have hrun : (virtPgTableSetup gbGuest smallHost).isOk = true := by decide +kernel
  cases h : virtPgTableSetup gbGuest smallHost with
  | error e =>
    rw [h] at hrun
    cases hrun
  | ok r => exact ⟨r.1, r.2, rfl⟩

theorem gbGuest_taken : ImagesTaken gbGuest smallHost.vm.phys := smallGuest_taken

theorem gbGuest_apart : ImagesApart gbGuest := smallGuest_apart

/-- The page of the test program is not free there. -/
theorem gbGuest_test : TestApart gbGuest smallHost.vm.phys := by
  have hnot : ∀ pos, ¬ FirstFree smallHost.vm.phys pos testFrame :=
    fun pos hfirst => absurd hfirst.2.1 (by decide)
  exact Or.inr ⟨hnot 256, Or.inr fun root _ => hnot (root + 1)⟩

/-- Its tables map its 1GB, whatever the memory holds. -/
theorem ept_covers_ram_gb : (∃ r h', virtPgTableSetup gbGuest smallHost = .ok (r, h')) ∧
    ∀ mem r h', virtPgTableSetup gbGuest { smallHost with mem } = .ok (r, h') →
      CoversExactly h'.mem r.1 512 := by
  have hentries : gbGuest.pdtEntries = 512 := by decide +kernel
  obtain ⟨r, h', hrun⟩ := gbGuest_setup
  have hcovers := (ept_covers_ram gbGuest_taken gbGuest_apart hrun).1
  rw [hentries] at hcovers
  exact ⟨⟨r, h', hrun⟩, hcovers ⟨rfl, gbGuest_test⟩⟩

/-- The small guest's tables map more than its 2MB when the frame of the PDT held a large page in its
last word before. -/
theorem ept_covers_more : ∃ r h',
    virtPgTableSetup smallGuest { smallHost with mem := staleMemory smallHost.mem } = .ok (r, h') ∧
      ¬ CoversExactly h'.mem r.1 smallGuest.pdtEntries := by
  obtain ⟨r, h', hrun, _⟩ := smallGuest_setup
  obtain ⟨h₁, hrun₁, hnot⟩ :=
    not_coversExactly_stale smallGuest_taken smallGuest_apart hrun (by decide)
  exact ⟨r, h₁, hrun₁, hnot⟩

/-! ## Where the data is -/

/-- The number of bytes of guest memory. -/
def VmStruct.ramBytes (vm : VmStruct) : Nat := vm.pdtEntries * largePgSize

/-- The guest-physical bytes from `g` on, as far as they are guest memory, are the host's bytes from `a`
on. -/
def LeadsTo (m : Bytes) (ept ram g a size : Nat) : Prop :=
  ∀ k < size, g + k < ram → EptMaps m ept (g + k) (a + k)

/-- The addresses handed to Linux lead to the data: the kernel at its entry point, the ramdisk, the zero
page, the GDT and the command line. -/
structure DataAgrees (vm : VmStruct) (m : Bytes) (ept : Nat) : Prop where
  kernel : LeadsTo m ept vm.ramBytes linuxEntryPoint vm.imgPaddr.toNat vm.imgSize.toNat
  ramdisk : LeadsTo m ept vm.ramBytes (m.loadLE (vm.input.toNat + ramdiskImageOff) 4)
    vm.extraPaddr.toNat vm.extraSize.toNat
  zeroPage : LeadsTo m ept vm.ramBytes vm.input.toNat vm.input.toNat pgSize
  gdt : LeadsTo m ept vm.ramBytes vm.gdtr.toNat vm.gdtr.toNat 32
  cmdLine : LeadsTo m ept vm.ramBytes (m.loadLE (vm.input.toNat + cmdLinePtrOff) 4)
    (m.loadLE (vm.input.toNat + cmdLinePtrOff) 4) 5

/-- With guest memory, its address 1MB does not lead to the kernel. -/
theorem not_dataAgrees {vm : VmStruct} {h h' : Host} {r : Nat × VmStruct}
    (htaken : ImagesTaken vm h.vm.phys) (hrun : virtPgTableSetup vm h = .ok (r, h'))
    (hram : vm.pdtEntries ≠ 0) : ¬ DataAgrees r.2 h'.mem r.1 := by
  intro hagrees
  obtain ⟨⟨himg, hsize, hsame⟩, root, pdpt, pdt, O, ⟨hroot, _⟩, hbuilt⟩ := eptBuilt_of_run htaken hrun
  have hbytes : linuxEntryPoint + 0 < r.2.ramBytes := by
    rw [VmStruct.ramBytes, VmStruct.pdtEntries, hsame]
    change 0x100000 + 0 < vm.pdtEntries * 0x200000
    omega
  have hmaps := hagrees.kernel 0 (Nat.pos_of_ne_zero hsize) hbytes
  rw [hroot] at hmaps
  exact hbuilt.entryPoint_not_aligned (Nat.pos_of_ne_zero hram) hmaps himg

/-- **Whether the addresses handed to Linux lead to its data.** For every guest, every memory and every
state of the allocator in which the images' frames are not free, if `virt_pg_table_setup` returns:
exactly when the guest has less than 2MB, so that nothing is mapped. -/
theorem guest_data_iff {vm : VmStruct} {h h' : Host} {r : Nat × VmStruct}
    (htaken : ImagesTaken vm h.vm.phys) (hrun : virtPgTableSetup vm h = .ok (r, h')) :
    DataAgrees r.2 h'.mem r.1 ↔ vm.ramSize.toNat < 2 := by
  have hzero : vm.pdtEntries = 0 ↔ vm.ramSize.toNat < 2 := by
    rw [VmStruct.pdtEntries, Nat.shiftRight_eq_div_pow]
    omega
  rw [← hzero]
  constructor
  · intro hagrees
    by_contra hram
    exact not_dataAgrees htaken hrun hram hagrees
  · intro hram
    have hsame := (eptBuilt_of_run htaken hrun).1.2.2
    have hbytes : r.2.ramBytes = 0 := by
      rw [VmStruct.ramBytes, VmStruct.pdtEntries, hsame]
      change vm.pdtEntries * _ = 0
      rw [hram, Nat.zero_mul]
    have hnone : ∀ g a size, LeadsTo h'.mem r.1 r.2.ramBytes g a size := by
      intro g a size k _ hlt
      rw [hbytes] at hlt
      exact absurd hlt (Nat.not_lt_zero _)
    exact ⟨hnone _ _ _, hnone _ _ _, hnone _ _ _, hnone _ _ _, hnone _ _ _⟩

/-- The small guest. -/
theorem guest_data_small : ∃ r h', virtPgTableSetup smallGuest smallHost = .ok (r, h') ∧
    (DataAgrees r.2 h'.mem r.1 ↔ smallGuest.ramSize.toNat < 2) := by
  obtain ⟨r, h', hrun, _⟩ := smallGuest_setup
  exact ⟨r, h', hrun, guest_data_iff smallGuest_taken hrun⟩

/-- The small guest's kernel is not where its entry point leads to. -/
theorem guest_data_astray : ∃ r h', virtPgTableSetup smallGuest smallHost = .ok (r, h') ∧
    ¬ DataAgrees r.2 h'.mem r.1 := by
  obtain ⟨r, h', hrun, _⟩ := smallGuest_setup
  exact ⟨r, h', hrun, not_dataAgrees smallGuest_taken hrun (by decide)⟩

end Rtv.Virt
