import Rtv.Mm.HeapRuns
import Rtv.Mm.KernelSpace

/-!
# The pool in the address space

`malloc_init` maps the frames of the pool at `MALLOC_BASE` with two large pages. As long as no page has
been placed there, their entries are free (`Kernel.runs_free2M`), so that the calls return
(`mallocInit_places`). After that the pool stays where it is: outside the windows no call changes a
translation that is in place, but for the removal of the identity mapping (`Kernel.runs_stays`).
-/

namespace Rtv.Mm

open Rtv.Lib Rtv.Lib.PageTree

/-! ## `malloc_init` -/

namespace OnTables

/-- The loop of `malloc_init` that maps the pool. -/
def mapPool : List PoolMapping → MachineM Unit
  | [] => return ()
  | p :: ps => do
    (if p.large then vmMapLargePageUnrestricted else vmMapPageUnrestricted)
      (BitVec.ofNat 64 p.frame) p.flags (BitVec.ofNat 64 p.vaddr)
    mapPool ps

/-- The frames of the pool. -/
def newPool : MachineM (List PoolMapping) := fun M =>
  match poolFrames M.phys with
  | .ok (phys, mappings) => .ok mappings { M with phys }
  | .error e => .error e M

/-- `malloc_init`, the frames of the pool and their mapping. -/
def mallocInit : MachineM Unit := do
  let mappings ← newPool
  mapPool mappings

end OnTables

/-! ## Translations that stay -/

section Stays

variable {M M' : Machine} {vaddr : BitVec 64} {t : Nat}

/-- A page whose tables are there and whose entry is free is placed at once. -/
theorem MapUnrestricted.run_free (f : MapUnrestricted) (hM : TreeOk M) (frame flags : BitVec 64)
    (ht : hwTable M.mem M.cr3 vaddr f.level = some t)
    (hfree : M.mem t (hwIndex vaddr f.level) &&& pgtP = 0#64) :
    ∃ M', f.run frame flags vaddr M = .ok () M' ∧ M'.phys = M.phys := by
  have hdown : ensureTables f.name vaddr f.level 0 M = .ok () M := by
    have hlevel := f.level_le
    apply ensureTables_pass f.name hM.self (by omega)
    intro k _ hk
    exact shown_present ht (by omega)
  rw [f.run_ok frame flags hdown, installEntry_eq f.name hM.self f.level_le (shown_table ht),
    if_neg (not_not.mpr hfree)]
  exact ⟨_, rfl, rfl⟩

/-- A page that is translated, or a part of it, is not placed again. -/
theorem MapUnrestricted.not_maps (f : MapUnrestricted) {frame flags : BitVec 64} (hM : TreeOk M)
    (hlarge : NoLargePage M vaddr 0 f.level) (hrun : f.run frame flags vaddr M = .ok () M') :
    ¬ M.Maps f.level vaddr := by
  intro hmaps
  obtain ⟨t, ht, hp⟩ := hmaps.entry hlarge
  have hdown : ensureTables f.name vaddr f.level 0 M = .ok () M := by
    have hlevel := f.level_le
    apply ensureTables_pass f.name hM.self (by omega)
    intro k _ hk
    exact shown_present ht (by omega)
  rw [f.run_ok frame flags hdown, installEntry_eq f.name hM.self f.level_le (shown_table ht),
    if_pos hp] at hrun
  cases hrun

end Stays

namespace Kernel

variable {T : Window → Nat} {s s' : Kernel} {call : KernelCall} {va : BitVec 64} {pa : Nat}

/-- **A translation outside the windows stays**, if it is not part of the identity mapping. -/
theorem step_stays (h : s.Inv T) (hstep : KernelStep s call s') (hcanon : Canonical va)
    (hslot : hwIndex va 0 ≠ 511) (hout : ¬ InWindow va) (hid : ¬ identity.Has va.toNat)
    (hva : s.base va.toNat = some pa) : s'.base va.toNat = some pa := by
  cases hstep with
  | mapped | refused | unmapped | allocated | freed => exact hva
  | @placed _ c M hc hnone hblank hrun =>
    obtain ⟨vm, hshows, -⟩ := h.windows
    have hhas : ¬ c.region.Has va.toNat := by
      intro hhas
      have htrans := h.outside va hcanon hslot hout
      rw [hva] at htrans
      obtain ⟨-, k, e, hleaf, -⟩ := translate_eq_some.mp htrans
      exact c.func.not_maps hshows.tree (h.noLargePage hc hnone) hrun
        ⟨va, k, e, (hc.samePage_iff hcanon).mpr hhas, hleaf⟩
    exact (AddressSpace.map_of_not_has hhas).trans hva
  | identityRemoved => exact (AddressSpace.unmap_of_not_has hid).trans hva

theorem runs_stays (h : s.Inv T) {tr : List KernelCall} (hrun : Runs KernelStep s tr s')
    (hcanon : Canonical va) (hslot : hwIndex va 0 ≠ 511) (hout : ¬ InWindow va)
    (hid : ¬ identity.Has va.toNat) (hva : s.base va.toNat = some pa) :
    s'.base va.toNat = some pa := by
  have hinv : s'.Inv T ∧ s'.base va.toNat = some pa := by
    refine hrun.invariant (I := fun s => s.Inv T ∧ s.base va.toNat = some pa) ?_ ⟨h, hva⟩
    rintro s call s' ⟨hs, hs'⟩ hstep
    exact ⟨step_inv hs hstep, step_stays hs hstep hcanon hslot hout hid hs'⟩
  exact hinv.2

/-! ## Free entries -/

/-- The entry for the 2MB from `va` on, of the first 1GB, is free. -/
def Free2M (T : Window → Nat) (s : Kernel) (va : BitVec 64) : Prop :=
  s.machine.mem (T .largePage) (hwIndex va 2) &&& pgtP = 0#64

/-- An address of the first 1GB, outside the windows and the identity mapping. -/
structure Low (va : BitVec 64) : Prop where
  below : va.toNat < 2 ^ 30
  outside : ¬ InWindow va
  above : ¬ identity.Has va.toNat

theorem Low.canonical (h : Low va) : Canonical va := by
  have hbelow := h.below
  exact Or.inl (by omega)

theorem Low.indices (h : Low va) : hwIndex va 0 = 0 ∧ hwIndex va 1 = 0 := by
  have hbelow := h.below
  refine ⟨Fin.ext ?_, Fin.ext ?_⟩ <;> rw [hwIndex_val]
  · change va.toNat / 2 ^ 39 % 512 = 0
    omega
  · change va.toNat / 2 ^ 30 % 512 = 0
    omega

theorem Low.slot (h : Low va) : hwIndex va 0 ≠ 511 := by
  rw [h.indices.1]
  decide

/-- Its tables are those of the window of large pages. -/
theorem Inv.hwTable_low (h : s.Inv T) (hva : Low va) :
    hwTable s.machine.mem s.machine.cr3 va 2 = some (T .largePage) := by
  obtain ⟨vm, hshows, -⟩ := h.windows
  obtain ⟨h₀, h₁⟩ := hva.indices
  rw [← hshows.table .largePage]
  apply tableAt_congr
  intro j hj
  have hj : j < 2 := hj
  interval_cases j
  · rw [h₀]
    rfl
  · rw [h₁]
    rfl

/-- Nothing is translated under a free entry. -/
theorem Inv.space_free2M (h : s.Inv T) (hva : Low va) (hfree : Free2M T s va) :
    s.space va.toNat = none := by
  rw [← h.translate hva.canonical hva.slot]
  exact translate_none (h.hwTable_low hva) (decodeEntry_absent hfree)

/-- An entry stays free unless a page is placed there. -/
theorem step_free2M (h : s.Inv T) (hstep : KernelStep s call s') (hva : Low va)
    (hplace : ∀ c, call = .place c → ¬ ∀ j ≤ 2, hwIndex va j = hwIndex c.vaddr j)
    (hfree : Free2M T s va) : Free2M T s' va := by
  have ht := h.hwTable_low hva
  have hsame : ∀ {M : Machine}, SameWalk decodeEntry s.machine.mem s.machine.cr3 M.mem M.cr3
      (hwIndex va) → M.mem (T .largePage) (hwIndex va 2) &&& pgtP = 0#64 := by
    intro M hwalk
    rw [hwalk.word 2 _ ht]
    exact hfree
  cases hstep with
  | mapped hv _ hrun =>
    obtain ⟨-, -, -, -, -, -, hout⟩ := h.map hv hrun
    exact hsame (hout va hva.canonical hva.slot hva.outside)
  | refused hv hrun =>
    obtain ⟨-, -, -, -, -, -, hout⟩ := h.map hv hrun
    exact hsame (hout va hva.canonical hva.slot hva.outside)
  | unmapped hnames hrun =>
    obtain ⟨-, -, -, hout⟩ := h.unmap hnames hrun
    exact hsame (hout va hva.canonical hva.slot hva.outside)
  | @placed _ c M hc hnone hblank hrun =>
    obtain ⟨vm, hshows, -⟩ := h.windows
    obtain ⟨-, hkeeps, -, -⟩ :=
      c.func.placed hshows.tree hc.slot hc.page (h.noLargePage hc hnone) hblank hrun
    have hword := hkeeps.word (hwIndex va) 2 _ hva.slot ht (hplace c rfl)
    change M.mem (T .largePage) (hwIndex va 2) &&& pgtP = 0#64
    rw [hword]
    exact hfree
  | allocated | freed => exact hfree
  | identityRemoved hrun =>
    obtain ⟨vm, hshows, -⟩ := h.windows
    exact hsame (((hshows.removeIdentity hrun).2 va hva.canonical hva.slot).2 hva.above)

theorem runs_free2M (h : s.Inv T) {tr : List KernelCall} (hrun : Runs KernelStep s tr s')
    (hva : Low va) (hplace : ∀ c, .place c ∈ tr → ¬ ∀ j ≤ 2, hwIndex va j = hwIndex c.vaddr j)
    (hfree : Free2M T s va) : Free2M T s' va := by
  induction hrun with
  | nil => exact hfree
  | @snoc tr a b call hrun hstep ih =>
    refine step_free2M (runs_inv h hrun) hstep hva ?_
      (ih fun c hc => hplace c (List.mem_append_left _ hc))
    rintro c rfl
    exact hplace c (List.mem_append_right _ List.mem_cons_self)

/-- A large page is placed at a free entry. -/
theorem place_free2M (h : s.Inv T) {c : PlaceCall} (hc : c.Valid) (hfunc : c.func = .largePage)
    (hva : Low c.vaddr) (hfree : Free2M T s c.vaddr) :
    ∃ M, c.run s.machine = .ok () M ∧ M.phys = s.machine.phys ∧
      KernelStep s (.place c) ⟨M, s.live, s.base.map c.region⟩ := by
  obtain ⟨vm, hshows, -⟩ := h.windows
  have ht : hwTable s.machine.mem s.machine.cr3 c.vaddr c.func.level = some (T .largePage) := by
    rw [hfunc]
    exact h.hwTable_low hva
  have hentry : s.machine.mem (T .largePage) (hwIndex c.vaddr c.func.level) &&& pgtP = 0#64 := by
    rw [hfunc]
    exact hfree
  obtain ⟨M, hrun, hphys⟩ := c.func.run_free hshows.tree c.frame c.flags ht hentry
  refine ⟨M, hrun, hphys, .placed hc (h.space_free2M hva hfree) ?_ hrun⟩
  intro k t _ hk hkt hp
  obtain ⟨t', ht', hp'⟩ := shown_present ht hk
  rw [shown_table hkt] at ht'
  cases ht'
  exact absurd hp hp'

end Kernel

/-! ## The pool -/

/-- The first address of each large page of the pool. -/
def poolPage (k : Nat) : BitVec 64 := BitVec.ofNat 64 (mallocBase + k * largePgSize)

/-- The calls that place the pool, from the frame at `paddr` on. -/
def poolCall (paddr k : Nat) : PlaceCall where
  func := .largePage
  frame := BitVec.ofNat 64 (paddr + k * largePgSize)
  flags := pgtP ||| pgtRw ||| pgtXd ||| pdtPs
  vaddr := poolPage k

section Pool

variable {k paddr : Nat}

theorem poolPage_toNat (hk : k < 2) : (poolPage k).toNat = 0x600000 + k * 0x200000 := by
  rw [poolPage, BitVec.toNat_ofNat, mallocBase, largePgSize]
  omega

theorem poolPage_low (hk : k < 2) : Kernel.Low (poolPage k) := by
  have hva := poolPage_toNat hk
  refine ⟨by omega, ?_, ?_⟩
  · rintro ⟨w, hlo, -⟩
    have hstart : 0xA00000 ≤ w.start := by cases w <;> decide
    omega
  · rintro ⟨-, hlt⟩
    change _ < 0 + 0x200000 at hlt
    omega

/-- The calls are as they should be. -/
theorem poolCall_valid (hk : k < 2) (haligned : paddr % 0x200000 = 0)
    (hfits : paddr + 0x400000 ≤ 2 ^ 52) : (poolCall paddr k).Valid := by
  have hva := poolPage_toNat hk
  have hframe : (poolCall paddr k).frame.toNat = paddr + k * 0x200000 := by
    change (BitVec.ofNat 64 (paddr + k * 0x200000)).toNat = _
    rw [BitVec.toNat_ofNat]
    omega
  have hsize : (poolCall paddr k).size = 0x200000 := rfl
  have hlow := poolPage_low hk
  constructor
  · change (poolPage k).toNat % 0x200000 = 0
    omega
  · exact hlow.canonical
  · exact hlow.slot
  · exact hlow.outside
  · rw [hframe, hsize]
    omega
  · rw [hframe, hsize]
    omega
  · change (pgtP ||| pgtRw ||| pgtXd ||| pdtPs) &&& ~~~pgtBits = 0#64
    decide
  · change (pgtP ||| pgtRw ||| pgtXd ||| pdtPs) &&& pgtP ≠ 0#64
    decide
  · intro _
    change (pgtP ||| pgtRw ||| pgtXd ||| pdtPs) &&& pdtPs ≠ 0#64
    decide

/-- The two pages are the pool. -/
theorem pool_space (base : AddressSpace) (hfits : paddr + 0x400000 ≤ 2 ^ 52) {a : Nat}
    (ha : a < 0x400000) :
    (base.map (poolCall paddr 0).region).map (poolCall paddr 1).region (mallocBase + a) =
      some (paddr + a) := by
  have hregion : ∀ k < 2, (poolCall paddr k).region =
      ⟨0x600000 + k * 0x200000, paddr + k * 0x200000, 0x200000⟩ := by
    intro k hk
    have hframe : (poolCall paddr k).frame.toNat = paddr + k * 0x200000 := by
      change (BitVec.ofNat 64 (paddr + k * 0x200000)).toNat = _
      rw [BitVec.toNat_ofNat]
      omega
    rw [PlaceCall.region, hframe]
    change Region.mk (poolPage k).toNat _ _ = _
    rw [poolPage_toNat hk]
    rfl
  rw [hregion 0 (by decide), hregion 1 (by decide), mallocBase]
  by_cases hhalf : a < 0x200000
  · have hnot : ¬ (⟨0x600000 + 1 * 0x200000, paddr + 1 * 0x200000, 0x200000⟩ : Region).Has
        (0x600000 + a) := by
      rintro ⟨hle, -⟩
      dsimp only at hle
      omega
    refine (AddressSpace.map_of_not_has hnot).trans ((AddressSpace.map_has ?_).trans ?_)
    · constructor <;> dsimp only <;> omega
    · dsimp only
      exact congrArg some (by omega)
  · refine (AddressSpace.map_has ?_).trans ?_
    · constructor <;> dsimp only <;> omega
    · dsimp only
      exact congrArg some (by omega)

/-- The calls of `malloc_init` for the pool. -/
def poolCalls (paddr : Nat) : List KernelCall :=
  [.alloc (.framesAligned 1024 largePgSize), .place (poolCall paddr 0), .place (poolCall paddr 1)]

/-- What `poolFrames` makes of the frames it gets. -/
theorem poolFrames_eq {s s' : Physical}
    (halloc : allocPhysFramesAligned s 1024 largePgSize = .ok (paddr, s')) :
    poolFrames s = if paddr = 0 then .error (.panic "malloc_init" "out of physical memory")
      else .ok (s', poolMappings paddr mallocBase 2 largePgSize
        (pgtP ||| pgtRw ||| pgtXd ||| pdtPs) true) := by
  have hpages : 1 <<< (buddyMaxOrder - pgBits) = 1024 := rfl
  have hlarge : ¬ 1 <<< buddyMaxOrder < largePgSize := by decide
  simp only [poolFrames, if_neg hlarge, hpages]
  rw [halloc, Exec.ok_bind]
  rfl

/-- The loop places the two pages. -/
theorem mapPool_eq : OnTables.mapPool (poolMappings paddr mallocBase 2 largePgSize
      (pgtP ||| pgtRw ||| pgtXd ||| pdtPs) true) = (do
    (poolCall paddr 0).run
    (poolCall paddr 1).run
    return ()) := rfl

/-- **`malloc_init` places the pool**: it panics if there are no frames for it, and otherwise returns
after calls that map it from `paddr` on. -/
theorem mallocInit_places {T : Window → Nat} {s : Kernel} (h : s.Inv T)
    (hfree : ∀ k < 2, Kernel.Free2M T s (poolPage k)) {phys : Physical}
    (halloc : allocPhysFramesAligned s.machine.phys 1024 largePgSize = .ok (paddr, phys)) :
    (paddr = 0 ∧ OnTables.mallocInit s.machine =
        .error (.panic "malloc_init" "out of physical memory") s.machine) ∨
      ∃ M, OnTables.mallocInit s.machine = .ok () M ∧ paddr + 0x400000 ≤ 2 ^ 52 ∧
        Runs KernelStep s (poolCalls paddr) ⟨M, s.live,
          (s.base.map (poolCall paddr 0).region).map (poolCall paddr 1).region⟩ := by
  have hframes := poolFrames_eq halloc
  by_cases hzero : paddr = 0
  · rw [if_pos hzero] at hframes
    refine Or.inl ⟨hzero, ?_⟩
    have hpool : OnTables.newPool s.machine =
        .error (.panic "malloc_init" "out of physical memory") s.machine := by
      rw [OnTables.newPool, hframes]
    unfold OnTables.mallocInit
    simp only [bind, EStateM.bind, hpool]
  · rw [if_neg hzero] at hframes
    right
    have hvalid : (AllocCall.framesAligned 1024 largePgSize).Valid := ⟨by decide, 21, by decide, rfl⟩
    have hexec : (AllocCall.framesAligned 1024 largePgSize).exec s.machine.phys = .ok (paddr, phys) :=
      halloc
    obtain ⟨haligned, hfits⟩ : paddr % 0x200000 = 0 ∧ paddr + 0x400000 ≤ 2 ^ 52 := by
      rcases AllocCall.exec_spec hvalid hexec with heq | ⟨page, hpage, ⟨-, hdvd⟩, hpages, -⟩
      · cases heq
        exact absurd rfl hzero
      · have hlast := (hpages (page + 1023) (by omega) (Nat.lt_succ_self _)).lt
        have hshift : paddr = page <<< pgBits := hpage
        have hpage' : paddr = page * 4096 := by
          rw [hshift, Nat.shiftLeft_eq]
          rfl
        rw [← hshift] at hdvd
        unfold mmTableMax at hlast
        exact ⟨Nat.mod_eq_zero_of_dvd hdvd, by omega⟩
    -- the frames
    have hstep₀ : KernelStep s (.alloc (.framesAligned 1024 largePgSize))
        ⟨{ s.machine with phys }, s.live, s.base⟩ := .allocated hvalid hexec
    have h₀ := Kernel.step_inv h hstep₀
    -- the two pages
    have hcalls : ∀ k < 2, (poolCall paddr k).Valid := fun k hk => poolCall_valid hk haligned hfits
    obtain ⟨M₁, hrun₁, -, hstep₁⟩ := Kernel.place_free2M h₀ (hcalls 0 (by decide)) rfl
      (poolPage_low (by decide)) (hfree 0 (by decide))
    have h₁ := Kernel.step_inv h₀ hstep₁
    have hfree₁ : Kernel.Free2M T ⟨M₁, s.live, s.base.map (poolCall paddr 0).region⟩ (poolPage 1) := by
      refine Kernel.step_free2M h₀ hstep₁ (poolPage_low (by decide)) ?_ (hfree 1 (by decide))
      rintro c ⟨⟩ hsame
      have htwo : hwIndex (poolPage 1) 2 = hwIndex (poolPage 0) 2 := hsame 2 le_rfl
      revert htwo
      decide
    obtain ⟨M₂, hrun₂, -, hstep₂⟩ := Kernel.place_free2M h₁ (hcalls 1 (by decide)) rfl
      (poolPage_low (by decide)) hfree₁
    refine ⟨M₂, ?_, hfits, .cons hstep₀ (.cons hstep₁ (.single hstep₂))⟩
    have hpool : OnTables.newPool s.machine = .ok (poolMappings paddr mallocBase 2 largePgSize
        (pgtP ||| pgtRw ||| pgtXd ||| pdtPs) true) { s.machine with phys } := by
      rw [OnTables.newPool, hframes]
    unfold OnTables.mallocInit
    rw [bind_run hpool]
    have hrun₁' : (poolCall paddr 0).run { s.machine with phys } = .ok () M₁ := hrun₁
    have hrun₂' : (poolCall paddr 1).run M₁ = .ok () M₂ := hrun₂
    rw [mapPool_eq, bind_run hrun₁', bind_run hrun₂']
    rfl

end Pool

end Rtv.Mm
