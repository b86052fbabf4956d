import Rtv.Virt.Images

/-!
# What the setup reads

Two runs of `virt_pg_table_setup` from the same page tables and the same allocator return the same, if
their memories agree below 1MB and in the pages of frames up to the last word of each. Of the memory
above 1MB, the setup reads the setup header of the kernel image only; what it copies from there it does
not read again.
-/

namespace Rtv.Virt

open Rtv.Lib Rtv.Utils Rtv.Mm

/-- The same page tables and the same allocator, and memories that agree on `G`. -/
def SameOn (G : Set Nat) (s t : Host) : Prop := t.vm = s.vm ∧ ∀ x ∈ G, t.mem x = s.mem x

/-- From two such states a computation returns the same and ends in two such states. -/
def DependsOn {α : Type} (G : Set Nat) (x : HostM α) : Prop :=
  Pair (SameOn G) x fun _ => SameOn G

section Rules

variable {G : Set Nat} {α β : Type} {x : HostM α}
  {T : β → Host → Host → Prop}

theorem DependsOn.bind {f : α → HostM β} (hx : DependsOn G x) (hf : ∀ a, Pair (SameOn G) (f a) T) :
    Pair (SameOn G) (x >>= f) T :=
  Pair.bind hx hf

theorem dependsOn_pure (a : α) : DependsOn G (pure a : HostM α) := Pair.pure fun _ _ h => h

theorem dependsOn_foldlM {f : β → α → HostM β} (hf : ∀ b a, DependsOn G (f b a)) (xs : List α) (b : β) :
    DependsOn G (xs.foldlM f b) :=
  Pair.foldlM hf xs b

theorem dependsOn_require (func msg : String) (c : Prop) [Decidable c] :
    DependsOn G (require func msg c) := by
  intro s t u s' hst hrun
  obtain ⟨hc, rfl⟩ := require_eq_ok hrun
  refine ⟨t, ?_, hst⟩
  rw [require, if_pos hc]
  rfl

theorem dependsOn_onVm (f : Vm → Exec (α × Vm)) : DependsOn G (onVm f) := by
  intro s t a s' hst hrun
  obtain ⟨vm, hvm, rfl⟩ := onVm_eq_ok hrun
  refine ⟨{ t with vm }, ?_, rfl, hst.2⟩
  rw [onVm, hst.1, hvm]
  rfl

theorem dependsOn_onPhys (f : Physical → Exec (α × Physical)) : DependsOn G (onPhys f) := by
  intro s t a s' hst hrun
  obtain ⟨phys, hphys, rfl⟩ := onPhys_eq_ok hrun
  refine ⟨{ t with vm := { t.vm with phys } }, ?_, ?_, hst.2⟩
  · rw [onPhys, hst.1, hphys]
    rfl
  · rw [hst.1]

theorem dependsOn_mapPage (frame : Nat) (flags : BitVec 64) : DependsOn G (mapPage frame flags) :=
  (dependsOn_onVm _).bind fun _ => dependsOn_pure _

theorem dependsOn_mapLargePages (frame num : Nat) (flags : BitVec 64) :
    DependsOn G (mapLargePages frame num flags) :=
  (dependsOn_onVm _).bind fun _ => dependsOn_pure _

theorem dependsOn_unmapPage (p : Ptr) : DependsOn G (unmapPage p) :=
  (dependsOn_onVm _).bind fun _ => dependsOn_pure _

theorem dependsOn_unmapLargePages (p : Ptr) (num : Nat) : DependsOn G (unmapLargePages p num) :=
  (dependsOn_onVm _).bind fun _ => dependsOn_pure _

theorem dependsOn_store (p : Ptr) (off n v : Nat) : DependsOn G (store p off n v) := by
  intro s t u s' hst hrun
  obtain ⟨hin, hrun⟩ := Exec.guard_eq_ok.mp hrun
  cases hrun
  refine ⟨{ t with mem := t.mem.storeLE (p.base + off) n v }, if_pos hin, hst.1, fun x hx => ?_⟩
  change (if _ then _ else t.mem x) = if _ then _ else s.mem x
  rw [hst.2 x hx]

theorem dependsOn_load {p : Ptr} {off n : Nat}
    (hin : off + n ≤ p.size → ∀ x, p.base + off ≤ x → x < p.base + off + n → x ∈ G) :
    DependsOn G (load p off n) := by
  intro s t v s' hst hrun
  obtain ⟨hsize, hrun⟩ := Exec.guard_eq_ok.mp hrun
  cases hrun
  refine ⟨t, ?_, hst⟩
  rw [load, if_pos hsize, Bytes.loadLE_congr fun x hlo hhi => hst.2 x (hin hsize x hlo hhi)]

/-- A copy to where nothing is known needs nothing of its source. -/
theorem dependsOn_copy {dst src : Ptr} {dstOff srcOff n : Nat}
    (hin : dstOff + n ≤ dst.size → ∀ k < n, dst.base + dstOff + k ∈ G → src.base + srcOff + k ∈ G) :
    DependsOn G (copy dst dstOff src srcOff n) := by
  intro s t u s' hst hrun
  obtain ⟨hsize, hrun⟩ := Exec.guard_eq_ok.mp hrun
  cases hrun
  refine ⟨{ t with mem := copied t.mem (dst.base + dstOff) (src.base + srcOff) n }, if_pos hsize, hst.1,
    fun x hx => ?_⟩
  change (if _ then _ else t.mem x) = if _ then _ else s.mem x
  split
  · next hrange =>
    apply hst.2
    apply hin hsize.1 (x - (dst.base + dstOff)) (by omega)
    rwa [Nat.add_sub_cancel' hrange.1]
  · exact hst.2 x hx

theorem require_dependsOn {func msg : String} {c : Prop} [Decidable c] {k : Unit → HostM β}
    (hk : c → Pair (SameOn G) (k ()) T) : Pair (SameOn G) (require func msg c >>= k) T :=
  Pair.bind_of (dependsOn_require func msg c) (fun _ _ _ hrun => (require_eq_ok hrun).1) fun _ hc =>
    hk hc

theorem mapPage_dependsOn {frame : Nat} {flags : BitVec 64} {k : Ptr → HostM β}
    (hk : ∀ p : Ptr, p.size ≤ pgSize → p.base = pageBase frame pgSize → Pair (SameOn G) (k p) T) :
    Pair (SameOn G) (mapPage frame flags >>= k) T :=
  Pair.bind_of (dependsOn_mapPage frame flags)
    (fun _ _ _ hrun => And.intro (mapPage_size hrun) (mapPage_ptr hrun).1) fun p hp => hk p hp.1 hp.2

end Rules

/-! ## The setup -/

/-- Below 1MB. -/
def lowMemory : Set Nat := {x | x < 2 ^ 20}

/-- Below 1MB, and in each page above that but the last word. -/
def notLastWords : Set Nat := {x | x < 2 ^ 20 ∨ x % pgSize < 4088}

/-- A new place of an image is above 1MB. -/
theorem newFrames_high {n : Nat} {h h₁ : Host} {frames : Nat} {dst : Ptr}
    (halloc : allocFramesAligned (n <<< (largePgBits - pgBits)) largePgSize h = .ok (frames, h₁))
    (hne : frames ≠ 0) (hbase : dst.base = pageBase frames largePgSize) (hn : 1 ≤ n) :
    2 ^ 20 ≤ dst.base := by
  obtain ⟨phys, hphys, _⟩ := onPhys_eq_ok halloc
  rcases allocPhysFramesAligned_spec (n := largePgBits) (by decide) hphys with
    heq | ⟨page, hpage, ⟨hlo, hdvd⟩, hfree, _⟩
  · exact absurd (congrArg Prod.fst heq) hne
  · have hcount : n <<< (largePgBits - pgBits) = n * 512 := Nat.shiftLeft_eq n 9
    have hlt : page < 2 ^ 24 := (hfree page le_rfl (by omega)).lt
    have hframes : frames = page * pgSize := hpage.trans (shiftLeft_pgBits page)
    rw [hbase, hframes, pageBase_large hdvd hlt]
    unfold pgSize
    omega

theorem dependsOn_relocate (what : String) (start size oldStart oldSize : Nat) :
    DependsOn lowMemory (relocate what start size oldStart oldSize) := by
  unfold relocate
  dsimp only
  refine (dependsOn_mapLargePages _ _ _).bind fun src => (dependsOn_require _ _ _).bind fun _ => ?_
  refine Pair.bind_of (p := fun frames => ∃ h h₁, allocFramesAligned _ _ h = .ok (frames, h₁))
    (dependsOn_onPhys _) (fun h frames h₁ halloc => ⟨h, h₁, halloc⟩) fun frames ⟨h, h₁, halloc⟩ => ?_
  refine require_dependsOn fun hne => ?_
  refine Pair.bind_of (dependsOn_mapLargePages _ _ _) (fun _ _ _ hmap => mapLargePages_ptr hmap)
    fun dst ⟨hbase, _, hpos⟩ => ?_
  refine require_dependsOn fun hva => ?_
  have hhigh := newFrames_high halloc hne hbase (hpos hva)
  refine (dependsOn_copy fun _ k _ hlow => ?_).bind fun _ => ?_
  · change _ < 2 ^ 20 at hlow
    omega
  · exact (dependsOn_unmapLargePages _ _).bind fun _ => (dependsOn_onPhys _).bind fun _ => dependsOn_pure _

/-- What is read of the kernel image is in the first half of its first page. -/
theorem dependsOn_copySetupHeader (vm : VmStruct) (zeroVirt : Ptr) :
    DependsOn notLastWords (copySetupHeader vm zeroVirt) := by
  unfold copySetupHeader
  refine (dependsOn_require _ _ _).bind fun _ => mapPage_dependsOn fun linuxVirt hsize hbase => ?_
  have hpage : linuxVirt.base % pgSize = 0 := by
    rw [hbase, pageBase, Nat.mul_mod_left]
  have hread : ∀ k < 4088, linuxVirt.base + k ∈ notLastWords := by
    intro k hk
    right
    unfold pgSize at *
    omega
  refine (dependsOn_require _ _ _).bind fun _ => (dependsOn_load fun _ x hlo hhi => ?_).bind fun _ => ?_
  · rw [← Nat.add_sub_cancel' (show linuxVirt.base ≤ x by omega)]
    apply hread
    unfold headerOff at *
    omega
  refine (dependsOn_require _ _ _).bind fun _ => (dependsOn_copy fun _ k hk _ => ?_).bind fun _ => ?_
  · rw [Nat.add_assoc]
    apply hread
    unfold linuxHeaderOffset
    unfold setupHeaderSize at hk
    omega
  · exact dependsOn_unmapPage _

section Writes

variable {G : Set Nat}

theorem dependsOn_setupCmdPage (zeroVirt : Ptr) : DependsOn G (setupCmdPage zeroVirt) := by
  have hstore := @dependsOn_store G
  refine (dependsOn_onPhys _).bind fun cmdFrame => (dependsOn_mapPage _ _).bind fun gdt => ?_
  refine (hstore _ _ _ _).bind fun _ => (hstore _ _ _ _).bind fun _ => ?_
  refine (hstore _ _ _ _).bind fun _ => (hstore _ _ _ _).bind fun _ => ?_
  refine (hstore _ _ _ _).bind fun _ => (dependsOn_unmapPage _).bind fun _ => ?_
  exact (hstore _ _ _ _).bind fun _ => dependsOn_pure _

theorem dependsOn_storeTest (frame : Nat) : DependsOn G (storeTest frame) := by
  have hstore := @dependsOn_store G
  refine (dependsOn_mapPage _ _).bind fun testAddr => ?_
  refine (hstore _ _ _ _).bind fun _ => (hstore _ _ _ _).bind fun _ => ?_
  refine (hstore _ _ _ _).bind fun _ => (hstore _ _ _ _).bind fun _ => ?_
  refine (hstore _ _ _ _).bind fun _ => (hstore _ _ _ _).bind fun _ => ?_
  exact dependsOn_unmapPage _

theorem dependsOn_fillPt (ptVirt : Ptr) (num k : Nat) : DependsOn G (fillPt ptVirt num k) := by
  induction num generalizing k with
  | zero => exact dependsOn_pure _
  | succ num ih =>
    unfold fillPt
    refine (dependsOn_store _ _ _ _).bind fun _ => ?_
    split
    · exact (dependsOn_storeTest _).bind fun _ => ih _
    · exact ih _

theorem dependsOn_storeFirst (pdtVirt : Ptr) (j : Nat) : DependsOn G (storeFirst pdtVirt j) := by
  refine (dependsOn_onPhys _).bind fun ptFrame => (dependsOn_require _ _ _).bind fun _ => ?_
  refine (dependsOn_store _ _ _ _).bind fun _ => (dependsOn_mapPage _ _).bind fun ptVirt => ?_
  refine (dependsOn_require _ _ _).bind fun _ => (dependsOn_fillPt _ _ _).bind fun _ => ?_
  exact dependsOn_unmapPage _

theorem dependsOn_storePdtEntry (vm : VmStruct) (pdtVirt : Ptr) (i j : Nat) (c : Cursors) :
    DependsOn G (storePdtEntry vm pdtVirt i j c) := by
  unfold storePdtEntry
  dsimp only
  split_ifs
  · exact (dependsOn_storeFirst _ _).bind fun _ => dependsOn_pure _
  · exact (dependsOn_store _ _ _ _).bind fun _ => dependsOn_pure _
  · exact (dependsOn_store _ _ _ _).bind fun _ => dependsOn_pure _
  · exact (dependsOn_store _ _ _ _).bind fun _ => dependsOn_pure _

theorem dependsOn_fillPdt (vm : VmStruct) (bound i : Nat) (pdtVirt : Ptr) (num j : Nat) (c : Cursors) :
    DependsOn G (fillPdt vm bound i pdtVirt num j c) := by
  induction num generalizing j c with
  | zero => exact dependsOn_pure _
  | succ num ih =>
    unfold fillPdt
    refine (dependsOn_storePdtEntry _ _ _ _ _).bind fun c => ?_
    dsimp only
    split
    · exact dependsOn_pure _
    · exact ih _ _

theorem dependsOn_storePdt (vm : VmStruct) (bound : Nat) (pdptVirt : Ptr) (c : Cursors) (i : Nat) :
    DependsOn G (storePdt vm bound pdptVirt c i) := by
  refine (dependsOn_onPhys _).bind fun frame => (dependsOn_require _ _ _).bind fun _ => ?_
  refine (dependsOn_store _ _ _ _).bind fun _ => (dependsOn_mapPage _ _).bind fun pdtVirt => ?_
  refine (dependsOn_require _ _ _).bind fun _ => (dependsOn_fillPdt _ _ _ _ _ _ _).bind fun c => ?_
  exact (dependsOn_unmapPage _).bind fun _ => dependsOn_pure _

end Writes

theorem dependsOn_setupE820 {zeroVirt : Ptr} (hzero : zeroVirt.base + zeroVirt.size ≤ 2 ^ 20)
    (kernelSize : Nat) : DependsOn lowMemory (setupE820 zeroVirt kernelSize) := by
  have hload : ∀ off n, DependsOn lowMemory (load zeroVirt off n) := fun off n =>
    dependsOn_load fun hsize x _ hhi => by
      change x < 2 ^ 20
      omega
  have hhdr : DependsOn lowMemory (loadSetupHeader zeroVirt) :=
    (hload _ _).bind fun _ => (hload _ _).bind fun _ => (hload _ _).bind fun _ =>
      (hload _ _).bind fun _ => (hload _ _).bind fun _ => (hload _ _).bind fun _ =>
        (hload _ _).bind fun _ => (hload _ _).bind fun _ => dependsOn_pure _
  have hstore := @dependsOn_store lowMemory
  refine hhdr.bind fun hdr => (dependsOn_onPhys _).bind fun table => ?_
  refine dependsOn_foldlM (fun _ row => ?_) table ()
  exact (hstore _ _ _ _).bind fun _ => (hstore _ _ _ _).bind fun _ => hstore _ _ _ _

/-- What `virt_setup_linux` reads. -/
theorem virtSetupLinux_reads (vm : VmStruct) :
    Pair (SameOn notLastWords) (virtSetupLinux vm) fun _ => SameOn lowMemory := by
  have hlow : ∀ s t, SameOn notLastWords s t → SameOn lowMemory s t := fun s t hst =>
    ⟨hst.1, fun x hx => hst.2 x (Or.inl hx)⟩
  unfold virtSetupLinux
  refine Pair.bind_of (dependsOn_onPhys _) (fun _ _ _ hrun => allocFrameLowmem_frame hrun) ?_
  rintro _ ⟨f, hf, rfl⟩
  refine (dependsOn_require _ _ _).bind fun _ => mapPage_dependsOn fun zeroVirt hsize hbase => ?_
  have hzero := low_of_mapPage hf hsize hbase
  have hload : ∀ off n, DependsOn lowMemory (load zeroVirt off n) := fun off n =>
    dependsOn_load fun hsize x _ hhi => by
      change x < 2 ^ 20
      omega
  have hstore := @dependsOn_store lowMemory zeroVirt
  refine (dependsOn_require _ _ _).bind fun _ => (dependsOn_store _ _ _ _).bind fun _ => ?_
  refine (dependsOn_copySetupHeader vm zeroVirt).bind fun _ => ?_
  refine Pair.mono ?_ hlow fun _ _ _ hst => hst
  refine (hload _ _).bind fun setupSects => (dependsOn_relocate _ _ _ _ _).bind fun ⟨newImg, dst, dstPages⟩ => ?_
  refine (dependsOn_unmapLargePages _ _).bind fun _ => (dependsOn_setupCmdPage _).bind fun cmdFrame => ?_
  refine (hstore _ _ _).bind fun _ => (hload _ _).bind fun loadflags => ?_
  refine (hstore _ _ _).bind fun _ => (hstore _ _ _).bind fun _ => ?_
  refine (dependsOn_relocate _ _ _ _ _).bind fun ⟨newExtra, _, _⟩ => ?_
  refine (hstore _ _ _).bind fun _ => (hstore _ _ _).bind fun _ => ?_
  refine (dependsOn_setupE820 hzero _).bind fun _ => (dependsOn_unmapPage _).bind fun _ => ?_
  exact dependsOn_pure _

/-- What `virt_pg_table_setup` reads. -/
theorem virtPgTableSetup_reads (vm : VmStruct) :
    Pair (SameOn notLastWords) (virtPgTableSetup vm) fun _ => SameOn lowMemory := by
  unfold virtPgTableSetup
  dsimp only
  refine (dependsOn_onPhys _).bind fun pml4tPhy => (dependsOn_require _ _ _).bind fun _ => ?_
  refine (dependsOn_mapPage _ _).bind fun pml4tVirt => (dependsOn_require _ _ _).bind fun _ => ?_
  refine (dependsOn_onPhys _).bind fun pdptPhy => (dependsOn_require _ _ _).bind fun _ => ?_
  refine (dependsOn_mapPage _ _).bind fun pdptVirt => (dependsOn_require _ _ _).bind fun _ => ?_
  refine (dependsOn_store _ _ _ _).bind fun _ => (dependsOn_store _ _ _ _).bind fun _ => ?_
  refine (dependsOn_store _ _ _ _).bind fun _ => (virtSetupLinux_reads vm).bind fun vm' => ?_
  refine (dependsOn_foldlM (dependsOn_storePdt _ _ _) _ _).bind fun _ => ?_
  refine (dependsOn_unmapPage _).bind fun _ => (dependsOn_unmapPage _).bind fun _ => ?_
  exact dependsOn_pure _

end Rtv.Virt
