import Rtv.Mm.Presence
import Rtv.Virt.Setup

/-!
# The temporary mappings of the guest setup

Which mappings `virt_setup_linux` and `virt_pg_table_setup` leave behind. Each call that maps adds a
set of entries to the live ones and each call that unmaps takes one away, and apart from these calls
nothing changes an entry: `Live` is carried through both functions, with the list of what is mapped
at each point.

The copy of the ramdisk is what remains: the mapping of the kernel's copy is undone, that of the
ramdisk's copy is not. **The law** (`setup_gives_back_mappings`): the two windows are as before if and
only if the copy of the ramdisk was mapped past the end of the 2MB window.
-/

namespace Rtv.Virt

open Rtv.Lib Rtv.Utils Rtv.Mm

/-! ## What does not map -/

/-- A computation that leaves the entries of the page tables alone. -/
def KeepsEntries {α : Type} (x : HostM α) : Prop :=
  ∀ e, Triple (fun h => h.vm.entry = e) x fun _ h => h.vm.entry = e

section Keeps

variable {α β : Type} {x : HostM α}

theorem KeepsEntries.bind {f : α → HostM β} (hx : KeepsEntries x)
    (hf : ∀ a, KeepsEntries (f a)) : KeepsEntries (x >>= f) :=
  fun e => (hx e).bind fun a => hf a e

theorem keepsEntries_pure (a : α) : KeepsEntries (pure a : HostM α) :=
  fun _ => Triple.pure fun _ h => h

theorem keepsEntries_foldlM {f : β → α → HostM β} (hf : ∀ b a, KeepsEntries (f b a)) (xs : List α)
    (b : β) : KeepsEntries (xs.foldlM f b) :=
  fun s₀ => Triple.foldlM (fun b a => hf b a s₀) xs b

theorem keepsEntries_onPhys (f : Physical → Exec (α × Physical)) : KeepsEntries (onPhys f) := by
  intro e h a h' hentry hrun
  obtain ⟨⟨a', phys⟩, _, hrun⟩ := Exec.bind_eq_ok.mp hrun
  cases hrun
  exact hentry

theorem keepsEntries_require (func msg : String) (c : Prop) [Decidable c] :
    KeepsEntries (require func msg c) := by
  intro e
  unfold require
  apply Triple.ite
  · exact fun _ => Triple.pure fun _ h => h
  · intro _ h a h' _ hrun
    cases hrun

theorem keepsEntries_store (p : Ptr) (off n v : Nat) : KeepsEntries (store p off n v) := by
  intro e h a h' hentry hrun
  obtain ⟨_, hrun⟩ := Exec.guard_eq_ok.mp hrun
  cases hrun
  exact hentry

theorem keepsEntries_load (p : Ptr) (off n : Nat) : KeepsEntries (load p off n) := by
  intro e h a h' hentry hrun
  obtain ⟨_, hrun⟩ := Exec.guard_eq_ok.mp hrun
  cases hrun
  exact hentry

theorem keepsEntries_copy (dst : Ptr) (dstOff : Nat) (src : Ptr) (srcOff n : Nat) :
    KeepsEntries (copy dst dstOff src srcOff n) := by
  intro e h a h' hentry hrun
  obtain ⟨_, hrun⟩ := Exec.guard_eq_ok.mp hrun
  cases hrun
  exact hentry

theorem keepsEntries_setupE820 (zeroVirt : Ptr) (kernelSize : Nat) :
    KeepsEntries (setupE820 zeroVirt kernelSize) := by
  have hload := keepsEntries_load zeroVirt
  have hhdr : KeepsEntries (loadSetupHeader zeroVirt) :=
    (hload _ _).bind fun _ => (hload _ _).bind fun _ => (hload _ _).bind fun _ =>
      (hload _ _).bind fun _ => (hload _ _).bind fun _ => (hload _ _).bind fun _ =>
        (hload _ _).bind fun _ => (hload _ _).bind fun _ => keepsEntries_pure _
  have hstore := keepsEntries_store zeroVirt
  refine hhdr.bind fun hdr => (keepsEntries_onPhys _).bind fun table => ?_
  exact keepsEntries_foldlM
    (fun _ row => (hstore _ _ _).bind fun _ => (hstore _ _ _).bind fun _ => hstore _ _ _) table ()

end Keeps

/-! ## Calls that map and unmap -/

section Calls

variable {s₀ : Vm} {ls post : List (Set (BitVec 64))} {α : Type} {x : HostM α}

/-- The state between the calls. -/
def LiveAt (s₀ : Vm) (ls : List (Set (BitVec 64))) (h : Host) : Prop := Live s₀ ls h.vm

theorem KeepsEntries.live (hx : KeepsEntries x) : Triple (LiveAt s₀ ls) x fun _ => LiveAt s₀ ls :=
  fun h a h' hlive hrun => hlive.congr (hx h.vm.entry h a h' rfl hrun)

/-- What a check adds to a fact about the state. -/
theorem require_live {P : Host → Prop} (func msg : String) (c : Prop) [Decidable c] :
    Triple P (require func msg c) fun _ h => c ∧ P h := by
  unfold require
  apply Triple.ite
  · exact fun hc => Triple.pure fun _ hP => ⟨hc, hP⟩
  · intro _ h a h' _ hrun
    cases hrun

theorem mapPage_live {frame : Nat} {flags : BitVec 64} (hflags : flags &&& pgtP ≠ 0#64) :
    Triple (LiveAt s₀ ls) (mapPage frame flags) fun p h =>
      PageVa p.va ∧ LiveAt s₀ (pageSlots p.va :: ls) h := by
  intro h p h' hlive hrun
  obtain ⟨va, vm, hmap, rfl, rfl⟩ := onVm_map_eq_ok hrun
  obtain ⟨r, hr, hout⟩ := vmMapPage_spec h.vm (BitVec.ofNat 64 frame) flags
  obtain rfl := Except.ok.inj (hmap.symm.trans hr)
  rcases hout with heq | ⟨k, vm', heq, _, hin, habs, ⟨_, hframe⟩, hget⟩
  · obtain ⟨rfl, rfl⟩ := Prod.mk.inj heq
    refine ⟨Or.inl rfl, hlive.push (fun a ha => absurd rfl ha.1) (fun _ _ => rfl) ?_⟩
    exact fun a ha => absurd rfl ha.1
  · obtain ⟨rfl, rfl⟩ := Prod.mk.inj heq
    have hk : k < pgTableEntries := hin
    have hslot := pageSlot_va hk
    refine ⟨Or.inr ⟨k, hk, rfl⟩, hlive.push ?_ ?_ ?_⟩
    · rintro a ⟨_, rfl⟩
      refine ⟨?_, ?_⟩
      · intro hnull
        have hval := congrArg BitVec.toNat (hslot.symm.trans hnull)
        rw [slot_page hk] at hval
        simp only [nullSlot, BitVec.toNat_ofNat] at hval
        omega
      · rw [hslot]
        exact Vm.absent_iff.mp (habs 0 Nat.one_pos)
    · intro a ha
      apply hframe a
      intro t ht
      obtain rfl : t = 0 := by omega
      rintro rfl
      exact ha ⟨Nat.ne_of_gt (Window.page.va_pos (Nat.zero_le k)), hslot.symm⟩
    · rintro a ⟨_, rfl⟩
      have hentry := hget 0 Nat.one_pos
      rw [hslot, Vm.Present]
      rw [Vm.get, Nat.add_zero] at hentry
      rw [hentry]
      exact or_present _ hflags

theorem unmapPage_live (pre : List (Set (BitVec 64))) {p : Ptr} (hva : PageVa p.va) :
    Triple (LiveAt s₀ (pre ++ pageSlots p.va :: post)) (unmapPage p) fun _ =>
      LiveAt s₀ (pre ++ post) := by
  intro h a h' hlive hrun
  obtain ⟨_, vm, hunmap, -, rfl⟩ := onVm_map_eq_ok hrun
  obtain ⟨_, hframe, hzero⟩ := vmUnmapPage_run hva hunmap
  apply Live.pop hlive
  · intro a ha hnull
    apply hframe a
    rintro rfl
    refine ha ⟨?_, rfl⟩
    rintro hzero
    rw [hzero] at hnull
    exact hnull rfl
  · rintro a ⟨_, rfl⟩
    rw [Vm.Present, not_not]
    change vm.entry (pageSlot p.va) &&& pgtP = 0#64
    rw [hzero, BitVec.zero_and]

theorem slot_large_inj {i j : Nat} (hi : i < pdtReach) (hj : j < pdtReach)
    (h : slot Window.largePage.table i = slot Window.largePage.table j) : i = j := by
  have hval := congrArg BitVec.toNat h
  rw [slot_large hi, slot_large hj] at hval
  omega

theorem slot_large_ne_null {i : Nat} (hi : i < pdtReach) :
    slot Window.largePage.table i ≠ nullSlot := by
  intro h
  have hval := congrArg BitVec.toNat h
  rw [slot_large hi] at hval
  simp only [nullSlot, BitVec.toNat_ofNat] at hval
  omega

theorem mem_largeSlots {k n j : Nat} (hk : k + n ≤ pdtReach) (hj : j < pdtReach) :
    slot Window.largePage.table j ∈ largeSlots k n ↔ k ≤ j ∧ j < k + n := by
  constructor
  · rintro ⟨t, ht, heq⟩
    obtain rfl := slot_large_inj hj (by omega) heq
    omega
  · rintro ⟨hle, hlt⟩
    refine ⟨j - k, by omega, ?_⟩
    rw [Nat.add_sub_cancel' hle]

theorem mapLargePages_live {frame num : Nat} {flags : BitVec 64} (hflags : flags &&& pgtP ≠ 0#64)
    (hnum : num < 2 ^ 32) :
    Triple (LiveAt s₀ ls) (mapLargePages frame num flags) fun p h => p.va = 0 ∨
      ∃ k, (p.va = k <<< largePgBits ∧ ∃ s, Live s₀ ls s ∧ s.FoundAt num k) ∧
        LiveAt s₀ (largeSlots k num :: ls) h := by
  intro h p h' hlive hrun
  obtain ⟨va, vm, hmap, rfl, rfl⟩ := onVm_map_eq_ok hrun
  rcases vmMapLargePages_run hflags hnum hmap with heq | ⟨k, vm', heq, hfound, _, hframe, hset⟩
  · exact Or.inl (congrArg Prod.fst heq)
  · obtain ⟨hva, hvm⟩ := Prod.mk.inj heq
    subst hvm
    have hreach := hfound.reach
    refine Or.inr ⟨k, ⟨hva, h.vm, hlive, hfound⟩, hlive.push ?_ ?_ ?_⟩
    · rintro a ⟨t, ht, rfl⟩
      exact ⟨slot_large_ne_null (by omega), Vm.absent_iff.mp (hfound.free t ht)⟩
    · intro a ha
      apply hframe a
      rintro t ht rfl
      exact ha ⟨t, ht, rfl⟩
    · rintro a ⟨t, ht, rfl⟩
      exact hset t ht

theorem unmapLargePages_live (pre : List (Set (BitVec 64))) {p : Ptr} {k num : Nat} (hva : p.va = k <<< largePgBits)
    (hk : k + num ≤ pdtReach) :
    Triple (LiveAt s₀ (pre ++ largeSlots k num :: post)) (unmapLargePages p num) fun _ =>
      LiveAt s₀ (pre ++ post) := by
  intro h a h' hlive hrun
  obtain ⟨_, vm, hunmap, -, rfl⟩ := onVm_map_eq_ok hrun
  rw [hva] at hunmap
  obtain ⟨_, hframe, hzero⟩ := vmUnmapLargePages_run hk hunmap
  apply Live.pop hlive
  · intro a ha _
    apply hframe a
    rintro t ht rfl
    exact ha ⟨t, ht, rfl⟩
  · rintro a ⟨t, ht, rfl⟩
    rw [Vm.Present, not_not]
    change vm.entry _ &&& pgtP = 0#64
    rw [hzero t ht, BitVec.zero_and]

end Calls

/-! ## Sequences -/

section Sequences

variable {s₀ : Vm} {ls post : List (Set (BitVec 64))} {α β : Type} {x : HostM α}
  {Q : β → Host → Prop}

theorem KeepsEntries.live_bind {f : α → HostM β} (hx : KeepsEntries x)
    (hf : ∀ a, Triple (LiveAt s₀ ls) (f a) Q) : Triple (LiveAt s₀ ls) (x >>= f) Q :=
  hx.live.bind hf

theorem mapPage_bind {frame : Nat} {f : Ptr → HostM β}
    (hf : ∀ p, PageVa p.va → Triple (LiveAt s₀ (pageSlots p.va :: ls)) (f p) Q) :
    Triple (LiveAt s₀ ls) (mapPage frame (pgtP ||| pgtRw) >>= f) Q :=
  (mapPage_live (by decide)).bind fun p => Triple.intro (hf p)

theorem unmapPage_bind (pre : List (Set (BitVec 64))) {p : Ptr} (hva : PageVa p.va) {f : Unit → HostM β}
    (hf : ∀ a, Triple (LiveAt s₀ (pre ++ post)) (f a) Q) :
    Triple (LiveAt s₀ (pre ++ pageSlots p.va :: post)) (unmapPage p >>= f) Q :=
  (unmapPage_live pre hva).bind hf

/-- A mapping of large pages that is checked. -/
theorem mapLargePages_bind {frame num : Nat} {flags : BitVec 64} (hflags : flags &&& pgtP ≠ 0#64)
    (hnum : num < 2 ^ 32) {func msg : String} {f : Ptr → HostM β}
    (hf : ∀ p k, p.va = k <<< largePgBits → (∃ s, Live s₀ ls s ∧ s.FoundAt num k) →
      Triple (LiveAt s₀ (largeSlots k num :: ls)) (f p) Q) :
    Triple (LiveAt s₀ ls) (mapLargePages frame num flags >>= fun p =>
      require func msg (p.va ≠ 0) >>= fun _ => f p) Q := by
  refine (mapLargePages_live hflags hnum).bind fun p => (require_live func msg _).bind fun _ => ?_
  refine Triple.intro fun hva => ?_
  have hmapped : Triple (fun h => ∃ k, (p.va = k <<< largePgBits ∧
      ∃ s, Live s₀ ls s ∧ s.FoundAt num k) ∧ LiveAt s₀ (largeSlots k num :: ls) h) (f p) Q :=
    Triple.exists_intro fun k => Triple.intro fun hk => hf p k hk.1 hk.2
  exact hmapped.mono (fun _ hP => hP.resolve_left hva) fun _ _ hQ => hQ

end Sequences

/-! ## Moving the kernel and the ramdisk -/

/-- The number of large pages of a range of addresses. -/
def sourcePages (start size : Nat) : Nat :=
  largePages (sub64 (add64 size start) (start &&& largePgMask.toNat))

/-- How many large pages a number of bytes needs. -/
theorem largePages_eq {size : Nat} (_ : size < 2 ^ 64) :
    largePages size = (size + (2 ^ 21 - 1)) / 2 ^ 21 % 256 := by
  rw [largePages, ceiling64, largePgBits, largePgSize, Nat.shiftRight_eq_div_pow, sub64, add64]
  omega

/-- The large pages from that of the first byte on. -/
theorem sourcePages_count {start size : Nat} (hstart : start < 2 ^ 64) :
    sourcePages start size = ((size + start % 2 ^ 21) % 2 ^ 64 + (2 ^ 21 - 1)) / 2 ^ 21 % 256 := by
  have hbytes : sub64 (add64 size start) (start &&& largePgMask.toNat) =
      (size + start % 2 ^ 21) % 2 ^ 64 := by
    rw [and_largePgMask hstart, largePgSize, sub64, add64]
    omega
  rw [sourcePages, hbytes, largePages_eq (Nat.mod_lt _ (by decide))]

/-- The source needs as many large pages as the copy, or one more. -/
theorem sourcePages_eq {start size : Nat} (hstart : start < 2 ^ 64) (hsize : size < 2 ^ 64)
    (hpos : 1 ≤ sourcePages start size) :
    sourcePages start size = largePages size ∨ sourcePages start size = largePages size + 1 := by
  have hsrc := @sourcePages_count start size hstart
  have hdst := largePages_eq hsize
  omega

section Relocate

variable {s₀ s : Vm} {ls : List (Set (BitVec 64))} {k n : Nat}

/-- No large page is among the mappings. -/
def NoLarge (ls : List (Set (BitVec 64))) : Prop :=
  ∀ A ∈ ls, ∀ j < pdtReach, slot Window.largePage.table j ∉ A

/-- Then the entries of large pages are as before. -/
theorem NoLarge.absent_iff (hls : NoLarge ls) (h : Live s₀ ls s) {j : Nat} (hj : j < pdtReach) :
    s.Absent Window.largePage.table j ↔ s₀.Absent Window.largePage.table j := by
  rw [Vm.absent_iff, Vm.absent_iff, h.present_iff _ (slot_large_ne_null hj)]
  refine not_congr (or_iff_left ?_)
  rintro ⟨A, hA, ha⟩
  exact hls A hA j hj ha

/-- A search depends on the entries of large pages only. -/
theorem foundAt_congr (hsame : ∀ j < pdtReach, s.Absent Window.largePage.table j ↔
    s₀.Absent Window.largePage.table j) (h : s.FoundAt n k) : s₀.FoundAt n k where
  lo := h.lo
  pos := h.pos
  reach := h.reach
  free t ht := (hsame (k + t) (by have := h.reach; omega)).mp (h.free t ht)
  short := h.short
  long hn := by
    have hreach := h.reach
    have htail : s₀.windowTail = s.windowTail :=
      tailRun_congr (fun i hi => (hsame i (by unfold pdtReach; omega)).symm) _ _
    rw [htail]
    refine (h.long hn).imp_right fun ⟨hk, hnone⟩ => ⟨hk, fun t ht hrun => ?_⟩
    have hlt := windowTail_lt ht
    apply hnone t ht
    intro u hu
    exact (hsame (t + u) (by omega)).mpr (hrun u hu)

/-- Where the copy is mapped, when it has been moved in a state like `s₀`. -/
structure CopyMapped (s₀ : Vm) (start size : Nat) (r : Nat × Ptr × Nat) (k : Nat) : Prop where
  va : r.2.1.va = k <<< largePgBits
  pages : r.2.2 = largePages size
  found : 6 ≤ k ∧ 1 ≤ r.2.2 ∧ k + r.2.2 ≤ pdtReach
  outside : 16 ≤ k ↔ CopyOutside s₀ (sourcePages start size) (largePages size)

/-- Moving the kernel or the ramdisk leaves the mapping of the copy behind. -/
theorem relocate_live {what : String} {start size oldStart oldSize : Nat} (hstart : start < 2 ^ 64)
    (hsize : size < 2 ^ 64) (hls : NoLarge ls) :
    Triple (LiveAt s₀ ls) (relocate what start size oldStart oldSize) fun r h =>
      ∃ k, CopyMapped s₀ start size r k ∧ LiveAt s₀ (largeSlots k r.2.2 :: ls) h := by
  have hsmall : ∀ x, largePages x < 2 ^ 32 := by
    intro x
    unfold largePages
    omega
  unfold relocate
  dsimp only
  refine mapLargePages_bind (by decide) (hsmall _) ?_
  rintro src ks hsrc ⟨s₁, hlive₁, hs⟩
  replace hs : s₀.FoundAt (sourcePages start size) ks := foundAt_congr (fun j hj => hls.absent_iff hlive₁ hj) hs
  have hreach := hs.reach
  refine (keepsEntries_onPhys _).live_bind fun newFrames => ?_
  refine (keepsEntries_require _ _ _).live_bind fun _ => ?_
  refine mapLargePages_bind (by decide) (hsmall _) ?_
  rintro dst kd hdst ⟨s₂, hlive₂, hd⟩
  have hbetween : ∀ j < pdtReach, s₂.Absent Window.largePage.table j ↔
      s₀.Absent Window.largePage.table j ∧ ¬ (ks ≤ j ∧ j < ks + sourcePages start size) := by
    intro j hj
    rw [Vm.absent_iff, Vm.absent_iff, hlive₂.present_iff _ (slot_large_ne_null hj), not_or]
    refine and_congr_right fun _ => not_congr ?_
    rw [← mem_largeSlots hreach hj]
    constructor
    · rintro ⟨A, hA, ha⟩
      rcases List.mem_cons.mp hA with rfl | hA
      · exact ha
      · exact absurd ha (hls A hA j hj)
    · exact fun ha => ⟨_, List.mem_cons_self, ha⟩
  have hout := secondSearch_outside (sourcePages_eq hstart hsize hs.pos) hs hd hbetween
  refine (keepsEntries_copy _ _ _ _ _).live_bind fun _ => ?_
  refine Triple.bind (unmapLargePages_live [largeSlots kd (largePages size)] hsrc hreach)
    fun _ => ?_
  refine (keepsEntries_onPhys _).live_bind fun _ => ?_
  refine Triple.pure fun h hlive => ⟨kd, ⟨hdst, rfl, ⟨hd.lo, hd.pos, hd.reach⟩, hout⟩, hlive⟩

end Relocate

/-! ## `virt_setup_linux` -/

section SetupLinux

variable {s₀ : Vm} {ls : List (Set (BitVec 64))}

/-- A page is no large page. -/
theorem NoLarge.page {va : Nat} (hva : PageVa va) (hls : NoLarge ls) :
    NoLarge (pageSlots va :: ls) := by
  intro A hA j hj ha
  rcases List.mem_cons.mp hA with rfl | hA
  · obtain ⟨hne, heq⟩ := ha
    obtain ⟨i, hi, rfl⟩ := hva.resolve_left hne
    have hval := congrArg BitVec.toNat (heq.trans (pageSlot_va hi))
    rw [slot_large hj, slot_page hi] at hval
    unfold pgTableEntries at hi
    omega
  · exact hls A hA j hj ha

theorem copySetupHeader_live (vm : VmStruct) (zeroVirt : Ptr) :
    Triple (LiveAt s₀ ls) (copySetupHeader vm zeroVirt) fun _ => LiveAt s₀ ls := by
  unfold copySetupHeader
  refine (keepsEntries_require _ _ _).live_bind fun _ => ?_
  refine mapPage_bind fun linuxVirt hva => ?_
  refine (keepsEntries_require _ _ _).live_bind fun _ => ?_
  refine (keepsEntries_load _ _ _).live_bind fun _ => ?_
  refine (keepsEntries_require _ _ _).live_bind fun _ => ?_
  refine (keepsEntries_copy _ _ _ _ _).live_bind fun _ => ?_
  exact unmapPage_live [] hva

theorem setupCmdPage_live (zeroVirt : Ptr) :
    Triple (LiveAt s₀ ls) (setupCmdPage zeroVirt) fun _ => LiveAt s₀ ls := by
  unfold setupCmdPage
  refine (keepsEntries_onPhys _).live_bind fun cmdFrame => ?_
  refine mapPage_bind fun gdt hva => ?_
  refine (keepsEntries_store _ _ _ _).live_bind fun _ => ?_
  refine (keepsEntries_store _ _ _ _).live_bind fun _ => ?_
  refine (keepsEntries_store _ _ _ _).live_bind fun _ => ?_
  refine (keepsEntries_store _ _ _ _).live_bind fun _ => ?_
  refine (keepsEntries_store _ _ _ _).live_bind fun _ => ?_
  refine unmapPage_bind [] hva fun _ => ?_
  exact (keepsEntries_store _ _ _ _).live_bind fun _ => Triple.pure fun _ h => h

/-- Where the mapping of the ramdisk's copy is left. -/
structure RamdiskLeft (s₀ : Vm) (vm : VmStruct) (k n : Nat) : Prop where
  lo : 6 ≤ k
  pos : 1 ≤ n
  reach : k + n ≤ pdtReach
  outside : 16 ≤ k ↔ CopyOutside s₀ (sourcePages vm.extraPaddr.toNat vm.extraSize.toNat)
    (largePages vm.extraSize.toNat)

/-- `virt_setup_linux` leaves one mapping behind. -/
theorem virtSetupLinux_live (vm : VmStruct) (hls : NoLarge ls) :
    Triple (LiveAt s₀ ls) (virtSetupLinux vm) fun _ h =>
      ∃ k n, RamdiskLeft s₀ vm k n ∧ LiveAt s₀ (largeSlots k n :: ls) h := by
  have hadd : ∀ a b, add64 a b < 2 ^ 64 := fun a b => Nat.mod_lt _ (by decide)
  have hsub : ∀ a b, sub64 a b < 2 ^ 64 := fun a b => Nat.mod_lt _ (by decide)
  unfold virtSetupLinux
  refine (keepsEntries_onPhys _).live_bind fun zeroFrame => ?_
  refine (keepsEntries_require _ _ _).live_bind fun _ => ?_
  refine mapPage_bind fun zeroVirt hzero => ?_
  refine (keepsEntries_require _ _ _).live_bind fun _ => ?_
  refine (keepsEntries_store _ _ _ _).live_bind fun _ => ?_
  refine (copySetupHeader_live vm zeroVirt).bind fun _ => ?_
  refine (keepsEntries_load _ _ _).live_bind fun setupSects => ?_
  -- the kernel: the mapping of its copy is undone
  refine (relocate_live (hadd _ _) (hsub _ _) (hls.page hzero)).bind fun ⟨newImg, dst, dstPages⟩ => ?_
  refine Triple.exists_intro fun k => Triple.intro fun hcopy => ?_
  refine (unmapLargePages_live [] hcopy.va hcopy.found.2.2).bind fun _ => ?_
  refine (setupCmdPage_live zeroVirt).bind fun cmdFrame => ?_
  refine (keepsEntries_store _ _ _ _).live_bind fun _ => ?_
  refine (keepsEntries_load _ _ _).live_bind fun loadflags => ?_
  refine (keepsEntries_store _ _ _ _).live_bind fun _ => ?_
  refine (keepsEntries_store _ _ _ _).live_bind fun _ => ?_
  -- the ramdisk: the mapping of its copy stays
  refine (relocate_live vm.extraPaddr.toNat_lt vm.extraSize.toNat_lt (hls.page hzero)).bind
    fun ⟨newExtra, dst', dstPages'⟩ => ?_
  refine Triple.exists_intro fun k => Triple.intro fun hcopy => ?_
  refine (keepsEntries_store _ _ _ _).live_bind fun _ => ?_
  refine (keepsEntries_store _ _ _ _).live_bind fun _ => ?_
  refine (keepsEntries_setupE820 _ _).live_bind fun _ => ?_
  refine unmapPage_bind [largeSlots k dstPages'] hzero fun _ => ?_
  refine Triple.pure fun h hlive => ⟨k, dstPages', ⟨hcopy.found.1, hcopy.found.2.1,
    hcopy.found.2.2, hcopy.outside⟩, hlive⟩

end SetupLinux

/-! ## `virt_pg_table_setup` -/

section PgTableSetup

variable {s₀ : Vm} {ls : List (Set (BitVec 64))}

theorem storeTest_live (frame : Nat) :
    Triple (LiveAt s₀ ls) (storeTest frame) fun _ => LiveAt s₀ ls := by
  unfold storeTest
  refine mapPage_bind fun testAddr hva => ?_
  refine (keepsEntries_store _ _ _ _).live_bind fun _ => ?_
  refine (keepsEntries_store _ _ _ _).live_bind fun _ => ?_
  refine (keepsEntries_store _ _ _ _).live_bind fun _ => ?_
  refine (keepsEntries_store _ _ _ _).live_bind fun _ => ?_
  refine (keepsEntries_store _ _ _ _).live_bind fun _ => ?_
  refine (keepsEntries_store _ _ _ _).live_bind fun _ => ?_
  exact unmapPage_live [] hva

theorem fillPt_live (ptVirt : Ptr) : ∀ num k,
    Triple (LiveAt s₀ ls) (fillPt ptVirt num k) fun _ => LiveAt s₀ ls := by
  intro num
  induction num with
  | zero => exact fun k => Triple.pure fun _ h => h
  | succ num ih =>
    intro k
    rw [fillPt]
    refine (keepsEntries_store _ _ _ _).live_bind fun _ => ?_
    split
    · exact (storeTest_live _).bind fun _ => ih (k + 1)
    · exact ih (k + 1)

theorem storeFirst_live (pdtVirt : Ptr) (j : Nat) :
    Triple (LiveAt s₀ ls) (storeFirst pdtVirt j) fun _ => LiveAt s₀ ls := by
  unfold storeFirst
  refine (keepsEntries_onPhys _).live_bind fun ptFrame => ?_
  refine (keepsEntries_require _ _ _).live_bind fun _ => ?_
  refine (keepsEntries_store _ _ _ _).live_bind fun _ => ?_
  refine mapPage_bind fun ptVirt hva => ?_
  refine (keepsEntries_require _ _ _).live_bind fun _ => ?_
  refine (fillPt_live ptVirt _ _).bind fun _ => ?_
  exact unmapPage_live [] hva

theorem storePdtEntry_live (vm : VmStruct) (pdtVirt : Ptr) (i j : Nat) (c : Cursors) :
    Triple (LiveAt s₀ ls) (storePdtEntry vm pdtVirt i j c) fun _ => LiveAt s₀ ls := by
  have hentry : ∀ e (c : Cursors), Triple (LiveAt s₀ ls)
      (store pdtVirt (8 * j) 8 e >>= fun _ => pure c) fun _ => LiveAt s₀ ls :=
    fun e c => (keepsEntries_store _ _ _ _).live_bind fun _ => Triple.pure fun _ h => h
  unfold storePdtEntry
  apply Triple.ite
  · exact fun _ => (storeFirst_live pdtVirt j).bind fun _ => Triple.pure fun _ h => h
  · intro _
    apply Triple.ite
    · exact fun _ => hentry _ _
    · exact fun _ => Triple.ite (fun _ => hentry _ _) fun _ => hentry _ _

theorem fillPdt_live (vm : VmStruct) (bound i : Nat) (pdtVirt : Ptr) : ∀ num j c,
    Triple (LiveAt s₀ ls) (fillPdt vm bound i pdtVirt num j c) fun _ => LiveAt s₀ ls := by
  intro num
  induction num with
  | zero => exact fun j c => Triple.pure fun _ h => h
  | succ num ih =>
    intro j c
    rw [fillPdt]
    refine (storePdtEntry_live vm pdtVirt i j c).bind fun c => ?_
    exact Triple.ite (fun _ => Triple.pure fun _ h => h) fun _ => ih (j + 1) _

theorem storePdt_live (vm : VmStruct) (bound : Nat) (pdptVirt : Ptr) (c : Cursors) (i : Nat) :
    Triple (LiveAt s₀ ls) (storePdt vm bound pdptVirt c i) fun _ => LiveAt s₀ ls := by
  unfold storePdt
  refine (keepsEntries_onPhys _).live_bind fun frame => ?_
  refine (keepsEntries_require _ _ _).live_bind fun _ => ?_
  refine (keepsEntries_store _ _ _ _).live_bind fun _ => ?_
  refine mapPage_bind fun pdtVirt hva => ?_
  refine (keepsEntries_require _ _ _).live_bind fun _ => ?_
  refine (fillPdt_live vm bound i pdtVirt _ _ c).bind fun _ => ?_
  exact unmapPage_bind [] hva fun _ => Triple.pure fun _ h => h

/-- The whole setup leaves one mapping behind, that of the ramdisk's copy. -/
theorem virtPgTableSetup_live (vm : VmStruct) :
    Triple (LiveAt s₀ []) (virtPgTableSetup vm) fun _ h =>
      ∃ k n, RamdiskLeft s₀ vm k n ∧ LiveAt s₀ [largeSlots k n] h := by
  have hnone : NoLarge [] := nofun
  unfold virtPgTableSetup
  dsimp only
  refine (keepsEntries_onPhys _).live_bind fun pml4tPhy => ?_
  refine (keepsEntries_require _ _ _).live_bind fun _ => ?_
  refine mapPage_bind fun pml4tVirt hpml4t => ?_
  refine (keepsEntries_require _ _ _).live_bind fun _ => ?_
  refine (keepsEntries_onPhys _).live_bind fun pdptPhy => ?_
  refine (keepsEntries_require _ _ _).live_bind fun _ => ?_
  refine mapPage_bind fun pdptVirt hpdpt => ?_
  refine (keepsEntries_require _ _ _).live_bind fun _ => ?_
  refine (keepsEntries_store _ _ _ _).live_bind fun _ => ?_
  refine (keepsEntries_store _ _ _ _).live_bind fun _ => ?_
  refine (keepsEntries_store _ _ _ _).live_bind fun _ => ?_
  refine (virtSetupLinux_live vm ((hnone.page hpml4t).page hpdpt)).bind fun vm' => ?_
  refine Triple.exists_intro fun k => Triple.exists_intro fun n => Triple.intro fun hleft => ?_
  refine (Triple.foldlM (P := fun _ => LiveAt s₀
    [largeSlots k n, pageSlots pdptVirt.va, pageSlots pml4tVirt.va])
    (storePdt_live vm' _ pdptVirt) _ _).bind fun _ => ?_
  refine unmapPage_bind [largeSlots k n, pageSlots pdptVirt.va] hpml4t fun _ => ?_
  refine unmapPage_bind [largeSlots k n] hpdpt fun _ => ?_
  exact Triple.pure fun h hlive => ⟨k, n, hleft, hlive⟩

end PgTableSetup

/-! ## The windows afterwards -/

/-- The same entries of both windows are present. -/
def SameWindows (s s' : Vm) : Prop :=
  ∀ (w : Window) (i : Nat), w.lo ≤ i → i < w.hi →
    (s'.Present (slot w.table i) ↔ s.Present (slot w.table i))

theorem slot_window_ne_null (w : Window) {i : Nat} (hi : i < pgTableEntries) :
    slot w.table i ≠ nullSlot := by
  cases w with
  | page =>
    intro h
    have hval := congrArg BitVec.toNat h
    rw [slot_page hi] at hval
    simp only [nullSlot, BitVec.toNat_ofNat] at hval
    omega
  | largePage => exact slot_large_ne_null (lt_trans hi (by decide))

/-- Large pages past the 2MB window are in neither window. -/
theorem window_not_mem_largeSlots (w : Window) {i k n : Nat} (hi : i < w.hi) (hk : 16 ≤ k)
    (hreach : k + n ≤ pdtReach) : slot w.table i ∉ largeSlots k n := by
  cases w with
  | page =>
    rintro ⟨t, ht, heq⟩
    have hval := congrArg BitVec.toNat heq
    rw [slot_page hi, slot_large (by omega)] at hval
    have hi' : i < 512 := hi
    omega
  | largePage =>
    have hi' : i < 16 := hi
    rw [mem_largeSlots hreach (by unfold pdtReach; omega)]
    omega

/-- What is left decides whether the windows are as before. -/
theorem RamdiskLeft.sameWindows_iff {vm : VmStruct} {s₀ s : Vm} {k n : Nat}
    (h : RamdiskLeft s₀ vm k n) (hlive : Live s₀ [largeSlots k n] s) :
    SameWindows s₀ s ↔ 16 ≤ k := by
  have hreach := h.reach
  have hpos := h.pos
  constructor
  · intro hsame
    by_contra hin
    -- the first entry of the copy's mapping is in the window
    have hmem : slot Window.largePage.table k ∈ largeSlots k n := ⟨0, hpos, rfl⟩
    have hnull := slot_large_ne_null (show k < pdtReach by omega)
    have hpresent := (hlive.present_iff _ hnull).mpr (Or.inr ⟨_, List.mem_cons_self, hmem⟩)
    have hfresh := (hlive.fresh _ List.mem_cons_self _ hmem).2
    exact hfresh ((hsame .largePage k h.lo (not_le.mp hin)).mp hpresent)
  · intro hout w i _ hi
    have hnull := slot_window_ne_null w (lt_of_lt_of_le hi w.hi_le)
    have hnot := window_not_mem_largeSlots w hi hout hreach
    rw [hlive.present_iff _ hnull]
    simp [hnot]

/-- **Whether a guest setup gives back its mappings.** For every guest, every state of the page
tables and the allocator and every memory for which `virt_pg_table_setup` returns: the same entries
of the two windows are present before and after if and only if the ramdisk's copy, whose mapping is
not undone, was mapped past the end of the 2MB window. -/
theorem setup_gives_back_mappings {vm : VmStruct} {h h' : Host} {r : Nat × VmStruct}
    (hrun : virtPgTableSetup vm h = .ok (r, h')) : SameWindows h.vm h'.vm ↔
      CopyOutside h.vm (sourcePages vm.extraPaddr.toNat vm.extraSize.toNat)
        (largePages vm.extraSize.toNat) := by
  obtain ⟨k, n, hleft, hlive⟩ := virtPgTableSetup_live vm h r h' (.refl h.vm) hrun
  exact (hleft.sameWindows_iff hlive).trans hleft.outside

/-- A guest with the memory size that `boot_info.c` gives it, a kernel of one sector and one byte,
and a ramdisk of one byte. -/
def smallGuest : VmStruct := ⟨0x4000000, 513, 2, 0, 0x100000, 0, 0x4200000, 1⟩

/-- A host with both windows empty, some free pages below and above 1MB and two free large pages.
The guest's kernel has the magic number. -/
def smallHost : Host where
  vm := ⟨fun _ => 0#64, ⟨⟨fun i =>
    if i.val = 2 ∨ i.val = 4 ∨ 8 ≤ i.val ∧ i.val < 24 then ~~~0#64 else 0#64⟩, 1536, 24, rfl⟩⟩
  mem := Bytes.storeLE ⟨fun _ => 0⟩ 0x4000202 4 linuxHeaderMagic.toNat

/-- The setup of the small guest returns, and entry 7 of the page directory is present then. -/
theorem smallGuest_setup : ∃ r h', virtPgTableSetup smallGuest smallHost = .ok (r, h') ∧
    h'.vm.Present (slot Window.largePage.table 7) := by
  have hrun : (virtPgTableSetup smallGuest smallHost).map
      (fun r => decide (r.2.vm.Absent Window.largePage.table 7)) = .ok false := by
    decide +kernel
  cases h : virtPgTableSetup smallGuest smallHost with
  | error e =>
    rw [h] at hrun
    cases hrun
  | ok r =>
    rw [h] at hrun
    exact ⟨r.1, r.2, rfl, fun hz => of_decide_eq_false (Except.ok.inj hrun) hz⟩

theorem setup_gives_back_mappings_small : ∃ r h',
    virtPgTableSetup smallGuest smallHost = .ok (r, h') ∧
      (SameWindows smallHost.vm h'.vm ↔ CopyOutside smallHost.vm
        (sourcePages smallGuest.extraPaddr.toNat smallGuest.extraSize.toNat)
        (largePages smallGuest.extraSize.toNat)) := by
  obtain ⟨r, h', hrun, _⟩ := smallGuest_setup
  exact ⟨r, h', hrun, setup_gives_back_mappings hrun⟩

/-- The mapping of the small guest's ramdisk stays in the 2MB window. -/
theorem setup_leaves_mapping : ¬ ∀ (vm : VmStruct) (h h' : Host) (r : Nat × VmStruct),
    virtPgTableSetup vm h = .ok (r, h') → SameWindows h.vm h'.vm := by
  intro hall
  obtain ⟨r, h', hrun, hpresent⟩ := smallGuest_setup
  have hsame := hall smallGuest smallHost h' r hrun .largePage 7 (by decide) (by decide)
  exact hsame.mp hpresent BitVec.zero_and

end Rtv.Virt
