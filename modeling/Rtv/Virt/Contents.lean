import Rtv.Mm.Presence
import Rtv.Virt.Ept

/-!
# What the frames hold

`Holds b m₀ J O W h`: the frames in use are the set `O`, and `W` says what words they hold; they are
not free, so that nothing that allocates gets them. `J` are frames that will be given back; none of
them is in use. Under the condition `b`, the last word of a frame that is free or in `J` is what it
was in the memory `m₀`.

Each operation of the setup has one rule: it leaves the words of the frames in use, it puts a frame
to use, or it writes words of a frame in use.
-/

namespace Rtv.Virt

open Rtv.Lib Rtv.Lib.PageTree Rtv.Utils Rtv.Mm

/-! ## Words -/

section Words

variable {m m' : Bytes} {f g i j v : Nat}

/-- A word depends on the bytes of its frame. -/
theorem word_congr (hi : i < 512)
    (h : ∀ x, f * pgSize ≤ x → x < f * pgSize + pgSize → m' x = m x) :
    word m' f i = word m f i := by
  refine Bytes.loadLE_congr fun x hlo hhi => h x ?_ ?_
  · exact le_trans (Nat.le_add_right _ _) hlo
  · unfold pgSize at *
    omega

/-- A write apart from a frame leaves its words. -/
theorem word_storeLE_apart {a n : Nat} (hi : i < 512)
    (h : a + n ≤ f * pgSize ∨ f * pgSize + pgSize ≤ a) :
    word (m.storeLE a n v) f i = word m f i := by
  apply Bytes.loadLE_storeLE_apart
  unfold pgSize at *
  omega

/-- Writing one word. -/
theorem word_storeLE (hi : i < 512) (hj : j < 512) :
    word (m.storeLE (f * pgSize + 8 * i) 8 v) g j =
      if g = f ∧ j = i then v % 2 ^ 64 else word m g j := by
  split
  · next h =>
    obtain ⟨rfl, rfl⟩ := h
    exact Bytes.loadLE_storeLE_same
  · next h =>
    apply Bytes.loadLE_storeLE_apart
    unfold pgSize
    omega

/-- The words of a cleared frame. -/
theorem word_clear (hi : i < 512) : word (m.storeLE (f * pgSize) pgSize 0) f i = 0 := by
  have hzero : ∀ n a, (∀ x, a ≤ x → x < a + n → m.storeLE (f * pgSize) pgSize 0 x = 0) →
      (m.storeLE (f * pgSize) pgSize 0).loadLE a n = 0 := by
    intro n
    induction n with
    | zero => exact fun _ _ => rfl
    | succ n ih =>
      intro a ha
      rw [Bytes.loadLE, ha a le_rfl (by omega), ih (a + 1) fun x hlo hhi => ha x (by omega) (by omega)]
      rfl
  apply hzero
  intro x hlo hhi
  have hin : x < f * pgSize + pgSize := by
    unfold pgSize at *
    omega
  rw [Bytes.storeLE_inside (le_trans (Nat.le_add_right _ _) hlo) hin, Nat.zero_div]
  rfl

end Words

/-! ## Frames in use -/

structure Holds (b : Prop) (m₀ : Bytes) (J O : Set Nat) (W : Words) (h : Host) : Prop where
  owned : ∀ f ∈ O, 256 ≤ f ∧ ¬ h.vm.phys.Free f ∧ f ∉ J ∧ ∀ i < 512, word h.mem f i = W f i
  fresh : b → ∀ f, 256 ≤ f → h.vm.phys.Free f ∨ f ∈ J → word h.mem f 511 = word m₀ f 511
  pending : b → ∀ f ∈ J, ¬ h.vm.phys.Free f

/-- A frame that may be written: it is below 1MB, or it is not in use and neither free nor about to
be. -/
def Spare (b : Prop) (J O : Set Nat) (s : Physical) (f : Nat) : Prop :=
  f < 256 ∨ f ∉ O ∧ (b → ¬ s.Free f ∧ f ∉ J)

section Holds

variable {b b' : Prop} {m₀ : Bytes} {J O : Set Nat} {W W' : Words} {h h' : Host} {α β : Type}
  {Q : β → Host → Prop}

theorem Holds.mono (hh : Holds b m₀ J O W h) (hb : b' → b) : Holds b' m₀ J O W h where
  owned := hh.owned
  fresh hb' := hh.fresh (hb hb')
  pending hb' := hh.pending (hb hb')

/-- Frames may be taken, and those that are spare may be written. -/
theorem Holds.congr (hh : Holds b m₀ J O W h)
    (hfree : ∀ f, h'.vm.phys.Free f → h.vm.phys.Free f)
    (hmem : ∀ f, ¬ Spare b J O h.vm.phys f → ∀ i < 512, word h'.mem f i = word h.mem f i) :
    Holds b m₀ J O W h' where
  owned f hf := by
    obtain ⟨hlo, htaken, hJ, hwords⟩ := hh.owned f hf
    refine ⟨hlo, fun hfr => htaken (hfree f hfr), hJ, ?_⟩
    intro i hi
    rw [hmem f _ i hi]
    · exact hwords i hi
    · rintro (hlt | ⟨hnot, _⟩)
      · omega
      · exact hnot hf
  fresh hb f hlo hf := by
    rw [hmem f _ 511 (by decide)]
    · exact hh.fresh hb f hlo (hf.imp_left (hfree f))
    · rintro (hlt | ⟨_, hspare⟩)
      · omega
      · obtain ⟨htaken, hJ⟩ := hspare hb
        exact hf.elim (fun hfr => htaken (hfree f hfr)) hJ
  pending hb f hf hfr := hh.pending hb f hf (hfree f hfr)

/-! ## What leaves memory alone -/

/-- A computation that leaves memory alone and gives no frame back. -/
def KeepsMemory (x : HostM α) : Prop :=
  ∀ h a h', x h = .ok (a, h') → h'.mem = h.mem ∧ ∀ f, h'.vm.phys.Free f → h.vm.phys.Free f

theorem KeepsMemory.holds {x : HostM α} (hx : KeepsMemory x) :
    Triple (Holds b m₀ J O W) x fun _ => Holds b m₀ J O W := by
  intro h a h' hh hrun
  obtain ⟨hmem, hfree⟩ := hx h a h' hrun
  exact hh.congr hfree fun f _ i _ => by rw [hmem]

theorem KeepsMemory.holds_bind {x : HostM α} (hx : KeepsMemory x) {f : α → HostM β}
    (hf : ∀ a, Triple (Holds b m₀ J O W) (f a) Q) : Triple (Holds b m₀ J O W) (x >>= f) Q :=
  hx.holds.bind hf

theorem KeepsMemory.bind {x : HostM α} (hx : KeepsMemory x) {f : α → HostM β}
    (hf : ∀ a, KeepsMemory (f a)) : KeepsMemory (x >>= f) := by
  intro h c h' hrun
  obtain ⟨a, h₁, hrun₁, hrun₂⟩ := run_bind_eq_ok.mp hrun
  obtain ⟨hmem₁, hfree₁⟩ := hx h a h₁ hrun₁
  obtain ⟨hmem₂, hfree₂⟩ := hf a h₁ c h' hrun₂
  exact ⟨hmem₂.trans hmem₁, fun f hfr => hfree₁ f (hfree₂ f hfr)⟩

theorem keepsMemory_pure (a : α) : KeepsMemory (pure a : HostM α) := by
  intro h c h' hrun
  cases hrun
  exact ⟨rfl, fun _ hf => hf⟩

theorem keepsMemory_load (p : Ptr) (off n : Nat) : KeepsMemory (load p off n) := by
  intro h a h' hrun
  obtain ⟨_, hrun⟩ := Exec.guard_eq_ok.mp hrun
  cases hrun
  exact ⟨rfl, fun _ hf => hf⟩

theorem keepsMemory_require (func msg : String) (c : Prop) [Decidable c] :
    KeepsMemory (require func msg c) := by
  intro h a h' hrun
  unfold require at hrun
  split at hrun
  · cases hrun
    exact ⟨rfl, fun _ hf => hf⟩
  · cases hrun

theorem keepsMemory_onVm {f : Vm → Exec (α × Vm)}
    (hf : ∀ s r, f s = .ok r → r.2.phys = s.phys) : KeepsMemory (onVm f) := by
  intro h a h' hrun
  obtain ⟨vm, hrun, rfl⟩ := onVm_eq_ok hrun
  have hphys : vm.phys = h.vm.phys := hf _ _ hrun
  exact ⟨rfl, fun f hfr => hphys ▸ hfr⟩

theorem keepsMemory_onPhys {f : Physical → Exec (α × Physical)}
    (hf : ∀ s r, f s = .ok r → ∀ p, r.2.Free p → s.Free p) : KeepsMemory (onPhys f) := by
  intro h a h' hrun
  obtain ⟨phys, hrun, rfl⟩ := onPhys_eq_ok hrun
  exact ⟨rfl, hf _ _ hrun⟩

/-! ## Mappings -/

/-- Mapping a page leaves memory and the allocator alone. -/
theorem mapPage_keeps {frame : Nat} {flags : BitVec 64} {p : Ptr}
    (hrun : mapPage frame flags h = .ok (p, h')) : h'.mem = h.mem ∧ h'.vm.phys = h.vm.phys := by
  obtain ⟨va, vm, hvm, rfl, rfl⟩ := onVm_map_eq_ok hrun
  obtain ⟨r, hr, hout⟩ := vmMapPage_spec h.vm (BitVec.ofNat 64 frame) flags
  obtain rfl := Except.ok.inj (hvm.symm.trans hr)
  refine ⟨rfl, ?_⟩
  rcases hout with heq | ⟨k, s', heq, _, _, _, hframe, _⟩
  · exact congrArg (fun x => x.2.phys) heq
  · exact (congrArg (fun x => x.2.phys) heq).trans hframe.1

theorem keepsMemory_mapPage (frame : Nat) (flags : BitVec 64) : KeepsMemory (mapPage frame flags) := by
  intro h p h' hrun
  obtain ⟨hmem, hphys⟩ := mapPage_keeps hrun
  exact ⟨hmem, fun f hf => hphys ▸ hf⟩

theorem keepsMemory_mapLargePages {frame num : Nat} {flags : BitVec 64}
    (hflags : flags &&& pgtP ≠ 0#64) (hnum : num < 2 ^ 32) :
    KeepsMemory (mapLargePages frame num flags) := by
  refine (keepsMemory_onVm fun s r hr => ?_).bind fun va => keepsMemory_pure _
  rcases vmMapLargePages_run hflags hnum hr with rfl | ⟨k, s', rfl, _, hfill⟩
  · rfl
  · exact hfill.1

theorem keepsMemory_unmapPage (p : Ptr) : KeepsMemory (unmapPage p) := by
  refine (keepsMemory_onVm fun s r hr => ?_).bind fun _ => keepsMemory_pure _
  obtain ⟨table, _, hr⟩ := Exec.bind_eq_ok.mp hr
  cases hr
  rfl

theorem unmapLoop_phys (table mask : BitVec 64) : ∀ (num : Nat) (s : Vm) (i : Nat) (frame : BitVec 64),
    (unmapLoop table mask num s i frame).2.phys = s.phys := by
  intro num
  induction num with
  | zero => exact fun _ _ _ => rfl
  | succ num ih =>
    intro s i frame
    rw [unmapLoop, ih]
    rfl

theorem keepsMemory_unmapLargePages (p : Ptr) (num : Nat) : KeepsMemory (unmapLargePages p num) := by
  refine (keepsMemory_onVm fun s r hr => ?_).bind fun _ => keepsMemory_pure _
  obtain ⟨table, _, hr⟩ := Exec.bind_eq_ok.mp hr
  cases hr
  exact unmapLoop_phys _ _ _ _ _ _

/-- Where a page of the 4KB window points to. -/
theorem mapPage_ptr {frame : Nat} {flags : BitVec 64} {p : Ptr} (hrun : mapPage frame flags h = .ok (p, h')) :
    p.base = pageBase frame pgSize ∧ p.size = if p.va = 0 then 0 else pgSize := by
  obtain ⟨va, h₁, _, hrun⟩ := run_bind_eq_ok.mp hrun
  cases hrun
  exact ⟨rfl, rfl⟩

/-- `NULL` points to no more than a page, either. -/
theorem mapPage_size {frame : Nat} {flags : BitVec 64} {p : Ptr} (hrun : mapPage frame flags h = .ok (p, h')) :
    p.size ≤ pgSize := by
  rw [(mapPage_ptr hrun).2]
  split
  · exact Nat.zero_le _
  · exact le_rfl

theorem mapPage_holds {frame : Nat} {flags : BitVec 64} {k : Ptr → HostM β}
    (hk : ∀ p : Ptr, p.size ≤ pgSize → p.base = pageBase frame pgSize →
      Triple (Holds b m₀ J O W) (k p) Q) :
    Triple (Holds b m₀ J O W) (mapPage frame flags >>= k) Q := by
  intro h a h' hh hrun
  obtain ⟨p, h₁, hmap, hrun⟩ := run_bind_eq_ok.mp hrun
  exact hk p (mapPage_size hmap) (mapPage_ptr hmap).1 h₁ a h'
    ((keepsMemory_mapPage frame flags).holds h p h₁ hh hmap) hrun

/-- A check that is passed changes nothing. -/
theorem require_eq_ok {func msg : String} {c : Prop} [Decidable c] {u : Unit}
    (hrun : require func msg c h = .ok (u, h')) : c ∧ h' = h := by
  unfold require at hrun
  split at hrun
  · next hc =>
    cases hrun
    exact ⟨hc, rfl⟩
  · cases hrun

theorem require_holds {func msg : String} {c : Prop} [Decidable c] {k : Unit → HostM β}
    (hk : c → Triple (Holds b m₀ J O W) (k ()) Q) :
    Triple (Holds b m₀ J O W) (require func msg c >>= k) Q := by
  intro h a h' hh hrun
  obtain ⟨_, h₁, hreq, hrest⟩ := run_bind_eq_ok.mp hrun
  obtain ⟨hc, heq⟩ := require_eq_ok hreq
  rw [heq] at hrest
  exact hk hc h a h' hh hrest

/-- The page of a frame of the allocator. -/
theorem pageBase_page {f : Nat} (hf : f < 2 ^ 24) : pageBase (f * pgSize) pgSize = f * pgSize := by
  unfold pageBase pgSize
  omega

/-- A frame that is mapped with a check. The allocator is left alone. -/
theorem mapFrame_at {f : Nat} (hf : f < 2 ^ 24) {s : Physical} {flags : BitVec 64} {func msg : String}
    {k : Ptr → HostM β}
    (hk : ∀ p : Ptr, p.base = f * pgSize → p.size = pgSize →
      Triple (fun h => Holds b m₀ J O W h ∧ h.vm.phys = s) (k p) Q) :
    Triple (fun h => Holds b m₀ J O W h ∧ h.vm.phys = s)
      (mapPage (f * pgSize) flags >>= fun p => require func msg (p.va ≠ 0) >>= fun _ => k p) Q := by
  rintro h a h' ⟨hh, hs⟩ hrun
  obtain ⟨p, h₁, hmap, hrun₁⟩ := run_bind_eq_ok.mp hrun
  obtain ⟨_, h₂, hreq, hrun₂⟩ := run_bind_eq_ok.mp hrun₁
  obtain ⟨hva, hsame⟩ := require_eq_ok hreq
  rw [hsame] at hrun₂
  obtain ⟨hbase, hsize⟩ := mapPage_ptr hmap
  rw [pageBase_page hf] at hbase
  rw [if_neg hva] at hsize
  have hh₁ := (keepsMemory_mapPage _ _).holds h p h₁ hh hmap
  exact hk p hbase hsize h₁ a h' ⟨hh₁, (mapPage_keeps hmap).2.trans hs⟩ hrun₂

/-- A frame that is mapped with a check. -/
theorem mapFrame_holds {f : Nat} (hf : f < 2 ^ 24) {flags : BitVec 64} {func msg : String}
    {k : Ptr → HostM β}
    (hk : ∀ p : Ptr, p.base = f * pgSize → p.size = pgSize → Triple (Holds b m₀ J O W) (k p) Q) :
    Triple (Holds b m₀ J O W)
      (mapPage (f * pgSize) flags >>= fun p => require func msg (p.va ≠ 0) >>= fun _ => k p) Q := by
  intro h a h' hh hrun
  refine mapFrame_at hf (fun p hbase hsize => ?_) h a h' ⟨hh, rfl⟩ hrun
  exact (hk p hbase hsize).mono (fun _ hh => hh.1) fun _ _ hQ => hQ

/-- Where large pages point to. -/
theorem mapLargePages_ptr {frame num : Nat} {flags : BitVec 64} {p : Ptr}
    (hrun : mapLargePages frame num flags h = .ok (p, h')) :
    p.base = pageBase frame largePgSize ∧ p.size = num * largePgSize ∧ (p.va ≠ 0 → 1 ≤ num) := by
  obtain ⟨va, h₁, hvm, hrun⟩ := run_bind_eq_ok.mp hrun
  cases hrun
  refine ⟨rfl, rfl, fun hva => ?_⟩
  -- a search for no page returns `NULL`
  by_contra hzero
  obtain rfl : num = 0 := by omega
  obtain ⟨vm, hvm, _⟩ := onVm_eq_ok hvm
  cases hvm
  exact hva rfl

/-- Large pages that are mapped with a check. -/
theorem mapLarge_holds {frame num : Nat} {flags : BitVec 64} (hflags : flags &&& pgtP ≠ 0#64)
    (hnum : num < 2 ^ 32) {func msg : String} {k : Ptr → HostM β}
    (hk : ∀ p, Triple (Holds b m₀ J O W) (k p) Q) :
    Triple (Holds b m₀ J O W)
      (mapLargePages frame num flags >>= fun p => require func msg (p.va ≠ 0) >>= fun _ => k p) Q :=
  (keepsMemory_mapLargePages hflags hnum).holds_bind fun p => require_holds fun _ => hk p

/-! ## Allocation -/

/-- An allocation takes frames only. -/
theorem free_of_allocated {At : Nat → Prop} {num : Nat} {s : Physical} {r : Nat × Physical}
    (h : Allocated At num s r) : ∀ p, r.2.Free p → s.Free p := by
  rcases h with rfl | ⟨page, _, _, _, hm⟩
  · exact fun _ hp => hp
  · exact fun p hp => ((hm.taken_iff p).mp hp).1

/-- A frame of low memory, or 0. -/
theorem allocFrameLowmem_frame {frame : Nat} (hrun : allocFrameLowmem h = .ok (frame, h')) :
    ∃ f < 256, frame = f * pgSize := by
  obtain ⟨phys, halloc, _⟩ := onPhys_eq_ok hrun
  rcases allocPhysFrameLowmem_spec halloc with heq | ⟨f, hframe, hf, _, _⟩
  · exact ⟨0, by decide, (congrArg Prod.fst heq).trans (Nat.zero_mul _).symm⟩
  · exact ⟨f, hf, hframe.trans (shiftLeft_pgBits f)⟩

/-- A frame of low memory, which is checked or not. -/
theorem allocFrameLowmem_holds {k : Nat → HostM β}
    (hk : ∀ f < 256, Triple (Holds b m₀ J O W) (k (f * pgSize)) Q) :
    Triple (Holds b m₀ J O W) (allocFrameLowmem >>= k) Q := by
  intro h a h' hh hrun
  obtain ⟨frame, h₁, halloc, hrun⟩ := run_bind_eq_ok.mp hrun
  have hh₁ := (keepsMemory_onPhys fun s r hr =>
    free_of_allocated (allocPhysFrameLowmem_spec hr)).holds h frame h₁ hh halloc
  obtain ⟨f, hf, rfl⟩ := allocFrameLowmem_frame halloc
  exact hk f hf h₁ a h' hh₁ hrun

/-- A frame that was free is taken into use. -/
theorem Holds.adopt (hh : Holds b m₀ J O W h) {f : Nat} (hlo : 256 ≤ f) (hJ : f ∉ J)
    (hfree : ∀ g, h'.vm.phys.Free g → h.vm.phys.Free g ∧ g ≠ f) (hmem : h'.mem = h.mem) :
    Holds b m₀ J (insert f O) (Function.update W f (word h.mem f)) h' where
  owned g hg := by
    by_cases heq : g = f
    · subst heq
      refine ⟨hlo, fun hgf => (hfree g hgf).2 rfl, hJ, fun i _ => ?_⟩
      rw [hmem, Function.update_self]
    · obtain ⟨hglo, htaken, hgJ, hwords⟩ := hh.owned g (hg.resolve_left heq)
      refine ⟨hglo, fun hgf => htaken (hfree g hgf).1, hgJ, fun i hi => ?_⟩
      rw [hmem, Function.update_of_ne heq]
      exact hwords i hi
  fresh hb g hglo hgf := by
    rw [hmem]
    exact hh.fresh hb g hglo (hgf.imp_left fun hgf => (hfree g hgf).1)
  pending hb g hgJ hgf := hh.pending hb g hgJ (hfree g hgf).1

/-- A new frame that is checked is the lowest free one, and in use from then on. -/
theorem allocFrame_at (hJ : b ∨ J = ∅) {s : Physical} {func msg : String} {k : Nat → HostM β}
    (hk : ∀ f s' W', FirstFree s 256 f → Marked s s' f 1 false → f ∉ O → (∀ g, g ≠ f → W' g = W g) →
      (b → W' f 511 = word m₀ f 511) →
        Triple (fun h => Holds b m₀ J (insert f O) W' h ∧ h.vm.phys = s') (k (f * pgSize)) Q) :
    Triple (fun h => Holds b m₀ J O W h ∧ h.vm.phys = s)
      (allocFrame >>= fun frame => require func msg (frame ≠ 0) >>= fun _ => k frame) Q := by
  rintro h a h' ⟨hh, rfl⟩ hrun
  obtain ⟨frame, h₁, halloc, hrun₁⟩ := run_bind_eq_ok.mp hrun
  obtain ⟨phys, hphys, hh₁⟩ := onPhys_eq_ok halloc
  obtain ⟨_, h₂, hreq, hrun₂⟩ := run_bind_eq_ok.mp hrun₁
  obtain ⟨hne, hsame⟩ := require_eq_ok hreq
  rw [hsame] at hrun₂
  dsimp only at hphys hh₁
  rcases allocPhysFrame_first hphys with heq | ⟨f, hframe, hfirst, hm⟩
  · exact absurd (congrArg Prod.fst heq) hne
  · obtain rfl : frame = f * pgSize := hframe.trans (shiftLeft_pgBits f)
    have hlo := hfirst.1
    have hfree := hfirst.2.1
    have hpend : f ∉ J := by
      rcases hJ with hb | rfl
      · exact fun hfJ => hh.pending hb f hfJ hfree
      · exact Set.notMem_empty f
    have hout : f ∉ O := fun hfO => (hh.owned f hfO).2.1 hfree
    have hnew : ∀ g, h₁.vm.phys.Free g → h.vm.phys.Free g ∧ g ≠ f := by
      intro g hg
      rw [hh₁] at hg
      obtain ⟨hgf, hnot⟩ := (hm.taken_iff g).mp hg
      exact ⟨hgf, fun heq => hnot ⟨heq ▸ le_rfl, heq ▸ Nat.lt_succ_self g⟩⟩
    have hmem : h₁.mem = h.mem := by rw [hh₁]
    refine hk f phys _ hfirst hm hout (fun g hg => Function.update_of_ne hg _ _) (fun hb => ?_) h₁ a h'
      ⟨hh.adopt hlo hpend hnew hmem, by rw [hh₁]⟩ hrun₂
    rw [Function.update_self]
    exact hh.fresh hb f hlo (Or.inl hfree)

/-- A new frame that is checked. -/
theorem allocFrame_holds (hJ : b ∨ J = ∅) {func msg : String} {k : Nat → HostM β}
    (hk : ∀ f W', f < 2 ^ 24 → f ∉ O → (∀ g, g ≠ f → W' g = W g) →
      (b → W' f 511 = word m₀ f 511) →
        Triple (Holds b m₀ J (insert f O) W') (k (f * pgSize)) Q) :
    Triple (Holds b m₀ J O W)
      (allocFrame >>= fun frame => require func msg (frame ≠ 0) >>= fun _ => k frame) Q := by
  intro h a h' hh hrun
  refine allocFrame_at hJ (fun f s' W' hfirst _ hout hsame hlast => ?_) h a h' ⟨hh, rfl⟩ hrun
  exact (hk f W' hfirst.2.1.lt hout hsame hlast).mono (fun _ hh => hh.1) fun _ _ hQ => hQ

/-! ## Writes -/

/-- A write below 1MB. -/
theorem storeLow_holds {p : Ptr} (hp : p.base + p.size ≤ 2 ^ 20) (off n v : Nat) :
    Triple (Holds b m₀ J O W) (store p off n v) fun _ => Holds b m₀ J O W := by
  intro h a h' hh hrun
  obtain ⟨hin, hrun⟩ := Exec.guard_eq_ok.mp hrun
  cases hrun
  refine hh.congr (fun _ hf => hf) fun f hf i hi => ?_
  have hhigh : 256 ≤ f := not_lt.mp fun hlt => hf (Or.inl hlt)
  apply word_storeLE_apart hi
  unfold pgSize
  omega

/-- A copy to below 1MB. -/
theorem copyLow_holds {dst src : Ptr} (hdst : dst.base + dst.size ≤ 2 ^ 20)
    (dstOff srcOff n : Nat) : Triple (Holds b m₀ J O W) (copy dst dstOff src srcOff n) fun _ =>
      Holds b m₀ J O W := by
  intro h a h' hh hrun
  obtain ⟨⟨hin, _⟩, hrun⟩ := Exec.guard_eq_ok.mp hrun
  cases hrun
  refine hh.congr (fun _ hf => hf) fun f hf i hi => word_congr hi fun x hlo _ => if_neg ?_
  have hhigh : 256 ≤ f := not_lt.mp fun hlt => hf (Or.inl hlt)
  unfold pgSize at hlo
  omega

/-- A write into a frame in use, from the words it makes. -/
theorem storeFrame_holds {p : Ptr} {f off n v : Nat} {W' : Words} (hf : f ∈ O)
    (hself : ∀ m, ∀ j < 512, word m f j = W f j → word (m.storeLE (p.base + off) n v) f j = W' f j)
    (hother : ∀ m g, g ≠ f → ∀ j < 512,
      word (m.storeLE (p.base + off) n v) g j = word m g j ∧ W' g j = W g j) :
    Triple (Holds b m₀ J O W) (store p off n v) fun _ => Holds b m₀ J O W' := by
  intro h a h' hh hrun
  obtain ⟨_, hrun⟩ := Exec.guard_eq_ok.mp hrun
  cases hrun
  obtain ⟨_, htaken, hJ, _⟩ := hh.owned f hf
  refine ⟨fun g hg => ?_, fun hb g hlo hgf => ?_, hh.pending⟩
  · obtain ⟨hlo, hgt, hgJ, hwords⟩ := hh.owned g hg
    refine ⟨hlo, hgt, hgJ, fun j hj => ?_⟩
    by_cases hsame : g = f
    · obtain rfl := hsame
      exact hself h.mem j hj (hwords j hj)
    · obtain ⟨hword, hW⟩ := hother h.mem g hsame j hj
      exact hword.trans ((hwords j hj).trans hW.symm)
  · have hne : g ≠ f := by
      rintro rfl
      exact hgf.elim htaken hJ
    exact (hother h.mem g hne 511 (by decide)).1.trans (hh.fresh hb g hlo hgf)

/-- A word of a frame in use. -/
theorem storeWord_holds {p : Ptr} {f i v : Nat} (hbase : p.base = f * pgSize) (hf : f ∈ O)
    (hi : i < 512) : Triple (Holds b m₀ J O W) (store p (8 * i) 8 v) fun _ =>
      Holds b m₀ J O (W.set f i (v % 2 ^ 64)) := by
  apply storeFrame_holds hf
  · intro m j hj hword
    rw [hbase, word_storeLE hi hj]
    by_cases hsame : j = i
    · rw [if_pos ⟨rfl, hsame⟩, hsame, set_self]
    · rw [if_neg fun hc => hsame hc.2, set_of_ne _ _ (Or.inr hsame), hword]
  · intro m g hg j hj
    rw [hbase, word_storeLE hi hj, if_neg fun hc => hg hc.1]
    exact ⟨rfl, set_of_ne _ _ (Or.inl hg)⟩

/-- Clearing a frame in use. -/
theorem clearPage_holds {p : Ptr} {f : Nat} (hbase : p.base = f * pgSize) (hf : f ∈ O) :
    Triple (Holds b m₀ J O W) (clearPage p) fun _ =>
      Holds b m₀ J O fun g i => if g = f then 0 else W g i := by
  apply storeFrame_holds hf
  · intro m j hj _
    rw [if_pos rfl, Nat.add_zero, hbase]
    exact word_clear hj
  · intro m g hg j hj
    refine ⟨word_storeLE_apart hj ?_, if_neg hg⟩
    rw [hbase]
    unfold pgSize
    omega

/-! ## Giving frames back -/

/-- The frames that a range of bytes touches. -/
def touched (start length : UInt64) : Set Nat :=
  { f | Touches start.toNat (start.toNat + length.toNat) f }

/-- Giving back the frames of a range that are not in use. -/
theorem freeRange_holds {start length : UInt64} :
    Triple (Holds b m₀ (touched start length ∪ J) O W) (freeRange start.toNat length.toNat) fun _ =>
      Holds (b ∧ Disjoint (touched start length) J) m₀ J O W := by
  intro h a h' hh hrun
  obtain ⟨phys, hphys, hh'⟩ := onPhys_eq_ok hrun
  dsimp only at hphys hh'
  subst hh'
  obtain ⟨s', hphys, hs'⟩ := Exec.bind_eq_ok.mp hphys
  cases hs'
  have hfree : ∀ p, phys.Free p → h.vm.phys.Free p ∨ p ∈ touched start length :=
    fun p hp => physicalFreeRange_touches start.toNat_lt length.toNat_lt hphys hp
  refine ⟨fun f hf => ?_, fun hb f hlo hf => ?_, fun hb f hfJ hf => ?_⟩
  · obtain ⟨hlo, htaken, hJ, hwords⟩ := hh.owned f hf
    rw [Set.mem_union, not_or] at hJ
    exact ⟨hlo, fun hff => (hfree f hff).elim htaken hJ.1, hJ.2, hwords⟩
  · apply hh.fresh hb.1 f hlo
    rcases hf with hff | hfJ
    · exact (hfree f hff).imp_right Or.inl
    · exact Or.inr (Or.inr hfJ)
  · rcases hfree f hf with hff | htouch
    · exact hh.pending hb.1 f (Or.inr hfJ) hff
    · exact Set.disjoint_left.mp hb.2 htouch hfJ

/-! ## The test program -/

/-- The word is as it was, or the test program was written over it. -/
def TestedAt (W W' : Words) (f i : Nat) : Prop :=
  W' f i = W f i ∨ f = testFrame ∧ (i = 0 ∧ W' f i = testWord ∨ i = 1 ∧ W' f i % 8 ≠ 0)

/-- Memory with the test program at an address. -/
def testProgram (m : Bytes) (a : Nat) : Bytes :=
  (((((m.storeLE a 2 0x05c7).storeLE (a + 2) 2 0x8000).storeLE (a + 4) 2 0x000b).storeLE
    (a + 6) 2 0x2f4f).storeLE (a + 8) 2 0x2f4b).storeLE (a + 10) 2 0xf4f4

theorem testProgram_outside (m : Bytes) {a x : Nat} (h : x < a ∨ a + 12 ≤ x) :
    testProgram m a x = m x := by
  unfold testProgram
  rw [Bytes.storeLE_outside, Bytes.storeLE_outside, Bytes.storeLE_outside, Bytes.storeLE_outside,
    Bytes.storeLE_outside, Bytes.storeLE_outside] <;> omega

/-- The first words of the test program. -/
theorem testProgram_words (m : Bytes) (f : Nat) :
    word (testProgram m (f * pgSize)) f 0 = testWord ∧
      word (testProgram m (f * pgSize)) f 1 % 8 ≠ 0 := by
  unfold word testProgram
  rw [Bytes.loadLE_add _ _ 2 6, Bytes.loadLE_add _ _ 2 4, Bytes.loadLE_add _ _ 2 2,
    Bytes.loadLE_add _ (f * pgSize + 8 * 1) 2 6]
  simp (disch := omega) only [Bytes.loadLE_storeLE_apart, Bytes.loadLE_storeLE_same, Nat.mul_zero,
    Nat.add_zero, Nat.mul_one, Nat.add_assoc, Nat.reduceAdd]
  refine ⟨by decide, ?_⟩
  omega

/-- What the memory holds after the test program was written. -/
theorem storeTest_run {frame : Nat} {u : Unit} (hrun : storeTest frame h = .ok (u, h')) :
    h'.mem = testProgram h.mem (pageBase frame pgSize) ∧
      ∀ f, h'.vm.phys.Free f → h.vm.phys.Free f := by
  obtain ⟨p, h₁, hmap, hrun⟩ := run_bind_eq_ok.mp hrun
  obtain ⟨hmem, hfree⟩ := keepsMemory_mapPage _ _ h p h₁ hmap
  obtain ⟨_, h₂, hstore, hrun⟩ := run_bind_eq_ok.mp hrun
  obtain ⟨_, hstore⟩ := Exec.guard_eq_ok.mp hstore
  cases hstore
  obtain ⟨_, h₃, hstore, hrun⟩ := run_bind_eq_ok.mp hrun
  obtain ⟨_, hstore⟩ := Exec.guard_eq_ok.mp hstore
  cases hstore
  obtain ⟨_, h₄, hstore, hrun⟩ := run_bind_eq_ok.mp hrun
  obtain ⟨_, hstore⟩ := Exec.guard_eq_ok.mp hstore
  cases hstore
  obtain ⟨_, h₅, hstore, hrun⟩ := run_bind_eq_ok.mp hrun
  obtain ⟨_, hstore⟩ := Exec.guard_eq_ok.mp hstore
  cases hstore
  obtain ⟨_, h₆, hstore, hrun⟩ := run_bind_eq_ok.mp hrun
  obtain ⟨_, hstore⟩ := Exec.guard_eq_ok.mp hstore
  cases hstore
  obtain ⟨_, h₇, hstore, hrun⟩ := run_bind_eq_ok.mp hrun
  obtain ⟨_, hstore⟩ := Exec.guard_eq_ok.mp hstore
  cases hstore
  obtain ⟨hmem', hfree'⟩ := keepsMemory_unmapPage p _ u h' hrun
  refine ⟨?_, fun f hf => hfree f (hfree' f hf)⟩
  rw [hmem', ← hmem, ← (mapPage_ptr hmap).1]
  rfl

/-- Writing the test program. -/
theorem storeTest_holds {frame : Nat} (hframe : pageBase frame pgSize = testFrame * pgSize) :
    Triple (Holds b m₀ J O W) (storeTest frame) fun _ h =>
      ∃ W', (∀ f i, TestedAt W W' f i) ∧ Holds b m₀ J O W' h := by
  intro h u h' hh hrun
  obtain ⟨hmem, hfree⟩ := storeTest_run hrun
  rw [hframe] at hmem
  obtain ⟨hfirst, hsecond⟩ := testProgram_words h.mem testFrame
  rw [← hmem] at hfirst hsecond
  have hrest : ∀ i, 2 ≤ i → i < 512 → word h'.mem testFrame i = word h.mem testFrame i := by
    intro i hlo hhi
    rw [hmem]
    refine Bytes.loadLE_congr fun x hx _ => testProgram_outside h.mem ?_
    omega
  have hsame : ∀ f, f ≠ testFrame → ∀ i < 512, word h'.mem f i = word h.mem f i := by
    intro f hf i hi
    refine word_congr hi fun x hlo hhi => ?_
    rw [hmem]
    apply testProgram_outside
    unfold pgSize at *
    omega
  refine ⟨Function.update W testFrame fun i => if i < 2 then word h'.mem testFrame i else W testFrame i,
    fun f i => ?_, ?_⟩
  · by_cases heq : f = testFrame
    · subst heq
      rw [TestedAt, Function.update_self]
      split
      · next hlt =>
        obtain rfl | rfl : i = 0 ∨ i = 1 := by omega
        · exact Or.inr ⟨rfl, Or.inl ⟨rfl, hfirst⟩⟩
        · exact Or.inr ⟨rfl, Or.inr ⟨rfl, hsecond⟩⟩
      · exact Or.inl rfl
    · rw [TestedAt, Function.update_of_ne heq]
      exact Or.inl rfl
  · refine ⟨fun f hf => ?_, fun hb f hlo hf => ?_, fun hb f hfJ hf => hh.pending hb f hfJ (hfree f hf)⟩
    · obtain ⟨hlo, htaken, hJ, hwords⟩ := hh.owned f hf
      refine ⟨hlo, fun hff => htaken (hfree f hff), hJ, fun i hi => ?_⟩
      by_cases heq : f = testFrame
      · subst heq
        rw [Function.update_self]
        split
        · rfl
        · next hge =>
          rw [hrest i (by omega) hi]
          exact hwords i hi
      · rw [Function.update_of_ne heq, hsame f heq i hi]
        exact hwords i hi
    · rw [← hh.fresh hb f hlo (hf.imp_left (hfree f))]
      by_cases heq : f = testFrame
      · subst heq
        exact hrest 511 (by decide) (by decide)
      · exact hsame f heq 511 (by decide)

end Holds

end Rtv.Virt
