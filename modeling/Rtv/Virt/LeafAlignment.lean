import Rtv.Virt.Places

/-!
# The large pages are aligned

When every entry with `EPT_PG` that `virt_pg_table_setup` writes to a page directory is an aligned large
page with the flags for it, when it is written and in the end, for every run that returns.

The cursors of the loops start at `img_paddr` + 1MB and at `extra_paddr`, which are the old places of
the images; only the new places are aligned. So the entries are right if the old places are, too, or if
no entry of that image is written. And the test program goes to the page at 4GB + 1MB, which may be the
first page directory itself.
-/

namespace Rtv.Virt

open Rtv.Lib Rtv.Utils Rtv.Mm

/-- The entries that the run from `h` writes to its page directories are as they should be: the values
that it writes, and what the page directories hold there when it returns. -/
def LeavesFormed (vm : VmStruct) (h : Host) : Prop :=
  ∀ r log h', logSetup vm h = .ok ((r, log), h') →
    ∀ w ∈ log, EntryFormed w.entry ∧ EntryFormed (h'.mem.loadLE w.addr 8)

/-- Where the cursor for the kernel starts. -/
def VmStruct.kernelStart (vm : VmStruct) : Nat := add64 vm.imgPaddr.toNat 0x100000

/-- Each image has an old place that is aligned as its entries need it, or has no entry; and the first
page directory, which comes from the allocator `s`, is not the page of the test program. -/
structure LeavesFit (vm : VmStruct) (kernelSize newImg newExtra : Nat) (s : Physical) : Prop where
  kernel : vm.imgPaddr.toNat % largePgSize = 0x100000 ∨ vm.pdtEntries < 2 ∨
    newImg + kernelSize ≤ vm.kernelStart
  ramdisk : FlagsCover vm.extraPaddr.toNat ∨
    vm.pdtEntries < leafCount vm.kernelStart (newImg + kernelSize) + 2 ∨
    newExtra + vm.extraSize.toNat ≤ vm.extraPaddr.toNat
  test : vm.pdtEntries = 0 ∨ ¬ FirstFree s 256 testFrame

/-- The image is at a page, so that its bits 20 to 12 decide. -/
theorem flagsCover_kernelStart {vm : VmStruct} (haligned : vm.imgPaddr.toNat % pgSize = 0) :
    FlagsCover vm.kernelStart ↔ vm.imgPaddr.toNat % largePgSize = 0x100000 := by
  have hmod : vm.kernelStart % largePgSize = (vm.imgPaddr.toNat + 0x100000) % largePgSize := by
    unfold VmStruct.kernelStart add64 largePgSize
    omega
  constructor
  · intro hcover
    have hle : vm.kernelStart % largePgSize ≤ eptLargePage 0 := by
      conv_rhs => rw [← show _ = eptLargePage 0 from hcover]
      exact Nat.left_le_or
    have hflags : eptLargePage 0 < pgSize := by decide
    rw [hmod] at hle
    unfold pgSize largePgSize at *
    omega
  · intro himg
    apply flagsCover_aligned
    rw [hmod]
    unfold largePgSize at *
    omega

/-- **When all large pages are as they should be.** For every guest and every host for which
`virt_pg_table_setup` returns: exactly if the old place of the kernel is 1MB into a large page, or no
entry is written for the kernel; and the address of the ramdisk has only bits that are flags below its
large page, or no entry is written for the ramdisk; and the lowest free page from 1MB on, when the images
have been moved and the memory was reported, is not the one at 4GB + 1MB, or no entry is written at all. -/
theorem leaves_formed_iff {vm : VmStruct} {h h' : Host} {r : Nat × VmStruct}
    (hrun : virtPgTableSetup vm h = .ok (r, h')) : LeavesFormed vm h ↔
      ∀ newImg newExtra s, places vm (kernelLength vm h.mem) h.vm.phys = .ok ((newImg, newExtra), s) →
        LeavesFit vm (kernelLength vm h.mem) newImg newExtra s := by
  obtain ⟨log, hlog⟩ := (logSetup_erases vm).exists_log hrun
  obtain ⟨haligned, newImg, newExtra, s, hplaces, ⟨c, hlogged⟩, hwords⟩ :=
    logSetup_places vm h.mem h.vm.phys (pdptEntries_le hrun) h _ h' ⟨rfl, rfl⟩ hlog
  have hvalues := hlogged.formed_iff
  change (_ ↔ (_ ∨ FlagsCover vm.kernelStart ∨ _) ∧ _) at hvalues
  rw [flagsCover_kernelStart haligned] at hvalues
  have hformed : (∀ w ∈ log, EntryFormed w.entry ∧ EntryFormed (h'.mem.loadLE w.addr 8)) ↔
      (∀ w ∈ log, EntryFormed w.entry) ∧ (vm.pdtEntries = 0 ∨ ¬ FirstFree s 256 testFrame) := by
    by_cases hzero : vm.pdtEntries = 0
    · rw [if_pos hzero] at hwords
      obtain rfl : log = [] := hwords
      exact ⟨fun _ => ⟨nofun, Or.inl hzero⟩, fun _ => nofun⟩
    · rw [if_neg hzero] at hwords
      obtain ⟨f, hfirst, hstanding⟩ := hwords
      have htest : f ≠ testFrame ↔ ¬ FirstFree s 256 testFrame :=
        not_congr ⟨fun heq => heq ▸ hfirst, fun htest => hfirst.eq htest⟩
      rw [hstanding.formed_iff, htest]
      exact and_congr_right fun _ => (or_iff_right hzero).symm
  constructor
  · intro hleaves newImg' newExtra' s' hplaces'
    obtain ⟨heq, rfl⟩ := Prod.mk.inj (Except.ok.inj (hplaces.symm.trans hplaces'))
    obtain ⟨rfl, rfl⟩ := Prod.mk.inj heq
    obtain ⟨hall, htest⟩ := hformed.mp (hleaves r log h' hlog)
    obtain ⟨hkernel, hramdisk⟩ := hvalues.mp hall
    exact ⟨or_left_comm.mp hkernel, or_left_comm.mp hramdisk, htest⟩
  · intro hfit r' log' h'' hlog'
    obtain ⟨hkernel, hramdisk, htest⟩ := hfit newImg newExtra s hplaces
    have hsame := Except.ok.inj (hlog.symm.trans hlog')
    obtain rfl : log = log' := congrArg (fun x => x.1.2) hsame
    obtain rfl : h' = h'' := congrArg (fun x => x.2) hsame
    exact hformed.mpr ⟨hvalues.mpr ⟨or_left_comm.mpr hkernel, or_left_comm.mpr hramdisk⟩, htest⟩

/-- The guest with 1GB: both images move down, below their old places, and the memory of the host ends
below 4GB. -/
theorem leaves_formed_gb : (∃ r h', virtPgTableSetup gbGuest smallHost = .ok (r, h')) ∧
    LeavesFormed gbGuest smallHost := by
  obtain ⟨r, h', hrun⟩ := gbGuest_setup
  refine ⟨⟨r, h', hrun⟩, (leaves_formed_iff hrun).mpr fun newImg newExtra s hplaces => ?_⟩
  have hat : (places gbGuest (kernelLength gbGuest smallHost.mem) smallHost.vm.phys).map
      (fun r => (r.1, decide (r.2.Free testFrame))) = .ok ((0x200000, 0x400000), false) := by
    decide +kernel
  rw [hplaces] at hat
  obtain ⟨hnew, htest⟩ := Prod.mk.inj (Except.ok.inj hat)
  obtain ⟨rfl, rfl⟩ := Prod.mk.inj hnew
  exact ⟨Or.inr (Or.inr (by decide +kernel)), Or.inr (Or.inr (by decide)),
    Or.inr fun hfirst => of_decide_eq_false htest hfirst.2.1⟩

/-- A guest with two large pages and its kernel at a large page. -/
def alignedGuest : VmStruct := ⟨0x600000, 513, 4, 0, 0x100000, 0, 0x680000, 1⟩

/-- A host for it: the windows are empty, and two large pages behind the images are free. -/
def alignedHost : Host where
  vm := ⟨fun _ => 0#64, ⟨⟨fun i =>
    if i.val = 2 ∨ i.val = 4 ∨ 32 ≤ i.val ∧ i.val < 48 then ~~~0#64 else 0#64⟩, 3072, 48, rfl⟩⟩
  mem := Bytes.storeLE ⟨fun _ => 0⟩ 0x600202 4 linuxHeaderMagic.toNat

/-- Its kernel's large page is entered with an address that is 1MB into a large page. -/
theorem leaves_misaligned : ¬ ∀ (vm : VmStruct) (h h' : Host) (r : Nat × VmStruct),
    virtPgTableSetup vm h = .ok (r, h') → LeavesFormed vm h := by
  intro hall
  have hrun : (logSetup alignedGuest alignedHost).map (fun r => decide (∀ w ∈ r.1.2, EntryFormed w.entry)) =
      .ok false := by
    decide +kernel
  cases hlog : logSetup alignedGuest alignedHost with
  | error e =>
    rw [hlog] at hrun
    cases hrun
  | ok r =>
    obtain ⟨⟨r, log⟩, h'⟩ := r
    rw [hlog] at hrun
    have hformed := hall _ _ _ _ ((logSetup_erases _).run hlog) r log h' hlog
    exact of_decide_eq_false (Except.ok.inj hrun) fun w hw => (hformed w hw).1

end Rtv.Virt
