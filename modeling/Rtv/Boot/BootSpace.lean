import Rtv.Boot.FirstTables
import Rtv.Mm.LargeRuns
import Rtv.Mm.PoolSpace

/-!
# The address space after the boot

From the tables of `boot.S` (`Rtv.Boot.FirstTables`) through `vm_init` into every run of the functions
of `vm.c` (`Rtv.Mm.KernelSpace`).

**The law** (`address_space_holds`): at every point of every such run the processor sends each address
outside the recursive entry where the ledger says, each live mapping leads to the memory it was made
for, and no call on the windows stops.

The runs are those of `KernelStep`: what their calls promise, and that a page is placed only where nothing
is mapped and with blank frames for the tables that are missing, is assumed of every step. The law says
nothing about a run in which `vm_map_page_unrestricted` makes a table of a frame with stale entries.

`malloc_init` places its pool in this space, once and for all (`pool_stays`): later calls do not touch
the translations in place outside the windows, except those that the removal of the identity mapping
is for.
-/

namespace Rtv.Boot

open Rtv.Lib Rtv.Lib.PageTree Rtv.Mm

/-! ## `vm_init` on the first tables -/

/-- The machine at the call of `vm_init`: the tables are as `_start` left them and the allocator knows
that they are taken. -/
structure Symbols.AtVmInit (y : Symbols) (m : Bytes) (M : Machine) : Prop where
  cr3 : M.cr3 = y.root
  tables : ∀ f, y.root ≤ f → f < y.root + 5 → M.mem f = Boot.frames m f
  taken : ∀ f, y.root ≤ f → f < y.root + 5 → ¬ M.phys.Free f
  fits : M.phys.entryEnd ≤ mmTableMax

section Init

variable {y : Symbols} {c c' : Cpu} {M M' : Machine}

theorem Symbols.AtVmInit.firstTables (hM : y.AtVmInit c'.mem M) (h : FirstTables y (Boot.frames c'.mem)) :
    FirstTables y M.mem := by
  have htables := hM.tables
  constructor
  · intro i
    rw [htables _ le_rfl (by omega)]
    exact h.pml4t i
  · intro i
    rw [htables _ (by omega) (by omega)]
    exact h.pdpt i
  · intro i
    rw [htables _ (by omega) (by omega)]
    exact h.pdt i
  · intro k hk
    rw [htables _ (by omega) (by omega)]
    exact h.pt k hk

/-- Nothing is mapped in the windows at first. -/
theorem Symbols.Linked.space_window (h : y.Linked) {va : BitVec 64} (hin : InWindow va) :
    y.space va.toNat = none := by
  obtain ⟨w, hlo, -⟩ := hin
  have hfit := h.fit
  have hstart : 0xA00000 ≤ w.start := by cases w <;> decide
  rw [y.space_high (by omega), if_neg (by omega), if_neg (by omega), if_neg (by omega)]

/-- **The kernel after `vm_init`.** It panics if there is no frame for its table. -/
theorem vmInit_kernel (hy : y.Loaded c) (hstart : start y c = .ok c') (hM : y.AtVmInit c'.mem M) :
    (∃ phys, allocPhysFrame M.phys = .ok (0, phys) ∧
      ∃ M', OnTables.vmInit M = .error (.panic "vm_init" (noFrame 2)) M') ∨
    ∃ T M' new, OnTables.vmInit M = .ok () M' ∧ Kernel.Inv T ⟨M', [], y.space⟩ ∧
      (∀ va, Kernel.Low va → (∀ i < 3, hwIndex va 2 ≠ Fin.ofNat 512 i) →
        Kernel.Free2M T ⟨M', [], y.space⟩ va) ∧
      allocPhysFrame M.phys = .ok (new, M'.phys) := by
  obtain ⟨mem, cr3, phys⟩ := M
  obtain rfl : cr3 = y.root := hM.cr3
  obtain ⟨-, hlt⟩ := hy.root
  have hfirst : FirstTables y mem := hM.firstTables (start_firstTables hy hstart)
  have htree : TreeOk ⟨mem, y.root, phys⟩ := hfirst.tree hy hM.taken hM.fits
  have ht : hwTable mem y.root (BitVec.ofNat 64 kernelMappingBase) 2 = some (y.root + 2) :=
    hfirst.hwTable_pdt hy (by decide) (by decide)
  have hfive : hwIndex (BitVec.ofNat 64 kernelMappingBase) 2 = 5 := by rfl
  have habs : mem (y.root + 2) (hwIndex (BitVec.ofNat 64 kernelMappingBase) 2) &&& pgtP = 0#64 := by
    rw [hfirst.pdt, hfive, if_neg (by decide), if_neg (by decide), if_neg (by decide)]
    decide
  have hlarge : ∀ i, Window.largePage.lo ≤ i → i < Window.largePage.hi →
      (decodeEntry 2 (mem (y.root + 2) (Fin.ofNat 512 i))).next = none := by
    intro i hlo hhi
    have hi : 6 ≤ i := hlo
    have hi' : i < 16 := hhi
    rw [hfirst.decode_pdt hlt]
    interval_cases i <;> rfl
  rcases OnTables.vmInit_spec htree ht habs hlarge with
    hpanic | ⟨T, M', vm, new, hrun, hT, hshows, hlive, hout, halloc⟩
  · exact Or.inl hpanic
  · refine Or.inr ⟨T, M', new, hrun, ⟨⟨vm, hshows, hlive⟩, fun m hm => absurd hm List.not_mem_nil,
      fun va hin => hy.linked.space_window hin, ?_⟩, ?_, halloc⟩
    · intro va hcanon hslot hin
      dsimp only
      rw [← hfirst.translate hy hcanon hslot]
      exact translate_congr fun k e => (hout va hcanon hslot hin).translates
    · intro va hlow hthree
      obtain ⟨h₀, h₁⟩ := hlow.indices
      have hword := (hout va hlow.canonical hlow.slot hlow.outside).word 2 (y.root + 2)
        (hfirst.hwTable_pdt hy h₀ h₁)
      change M'.mem (T .largePage) (hwIndex va 2) &&& pgtP = 0#64
      rw [hT, hword]
      dsimp only
      have hne₀ : hwIndex va 2 ≠ 0 := hthree 0 (by decide)
      have hne₁ : hwIndex va 2 ≠ 1 := hthree 1 (by decide)
      have hne₂ : hwIndex va 2 ≠ 2 := hthree 2 (by decide)
      rw [hfirst.pdt, if_neg hne₀, if_neg hne₁, if_neg hne₂]
      decide

/-- The pages of the pool are none of those that the kernel is loaded to. -/
theorem poolPage_index : ∀ k < 2, ∀ i < 3, hwIndex (poolPage k) 2 ≠ Fin.ofNat 512 i := by
  decide

end Init

/-- A loaded kernel of three pages. -/
def blankCpu : Cpu := ⟨0#32, 0#32, 0#32, 0#32, ⟨fun _ => 0⟩⟩

theorem threePages_loaded : threePages.Loaded blankCpu :=
  ⟨threePages_linked, by decide, fun _ _ _ => rfl⟩

/-- The frame at 1MB and the 4MB from 2MB on are free. -/
def roomy : Physical :=
  ⟨⟨fun i => if i.val = 4 then 1#64 else if 8 ≤ i.val ∧ i.val < 24 then BitVec.allOnes 64 else 0#64⟩,
    1536, 24, by decide⟩

theorem threePages_atVmInit (m : Bytes) :
    threePages.AtVmInit m ⟨Boot.frames m, threePages.root, roomy⟩ where
  cr3 := rfl
  tables _ _ _ := rfl
  taken f hlo hhi := by
    have hroot : threePages.root = 259 := by decide
    rw [hroot] at hlo hhi
    change ¬ roomy.Free f
    interval_cases f <;> decide
  fits := show roomy.entryEnd ≤ mmTableMax by decide

/-- A page of the window, for the text screen. -/
def screenCall : MapCall := .page 0xB8000#64 (pgtP ||| pgtRw)

theorem screenCall_valid : screenCall.Valid := ⟨by decide, by decide⟩

theorem screenCall_plain (va : Nat) : (screenCall.mapping va).Plain where
  aligned := show 0xB8000 % 0x1000 = 0 by decide
  fits := show 0xB8000 + 1 * 0x1000 ≤ 2 ^ 52 by decide
  flags := show (pgtP ||| pgtRw) &&& ~~~pgtBits = 0#64 by decide

/-- A large page that is placed behind the windows. -/
def behindCall : PlaceCall :=
  ⟨.largePage, 0xE0000000#64, pgtP ||| pgtRw ||| pdtPs, 0x2000000#64⟩

theorem behindCall_low : Kernel.Low behindCall.vaddr := by
  have hva : behindCall.vaddr.toNat = 0x2000000 := rfl
  refine ⟨by decide, ?_, ?_⟩
  · rintro ⟨w, -, hhi⟩
    have hstop : w.stop ≤ 0x2000000 := by cases w <;> decide
    omega
  · rintro ⟨-, hlt⟩
    change _ < 0 + 0x200000 at hlt
    omega

theorem behindCall_valid : behindCall.Valid where
  vaddr := by decide
  canonical := behindCall_low.canonical
  slot := behindCall_low.slot
  outside := behindCall_low.outside
  frame := by decide
  fits := by decide
  flags := by decide
  present := by decide
  large _ := by decide

/-- `vm_init` has a frame, and the screen and the large page are mapped after it. -/
theorem threePages_run : ∃ c' M₀ new va s, start threePages blankCpu = .ok c' ∧
    OnTables.vmInit ⟨Boot.frames c'.mem, threePages.root, roomy⟩ = .ok () M₀ ∧
    Runs KernelStep ⟨M₀, [], threePages.space⟩ [.map screenCall, .place behindCall] s ∧
    s.live = [screenCall.mapping va] ∧ s.base = threePages.space.map behindCall.region ∧
    allocPhysFrame roomy = .ok (new, s.machine.phys) ∧ ∃ T, s.Inv T := by
  obtain ⟨c', hstart, -⟩ := start_entries threePages threePages_linked blankCpu
  rcases vmInit_kernel threePages_loaded hstart (threePages_atVmInit c'.mem) with
    ⟨phys, halloc, -⟩ | ⟨T, M₀, new, hok, hinv, hfree, halloc⟩
  · have hfirst : (allocPhysFrame roomy).map Prod.fst = .ok 0x100000 := by decide +kernel
    rw [show allocPhysFrame roomy = .ok (0, phys) from halloc] at hfirst
    cases hfirst
  · -- the window is empty, so that the call finds a page
    obtain ⟨vm, va, vm', s₁, hwindows, hexec, hmap, hbase, hphys, hlive⟩ :=
      hinv.exists_map screenCall_valid screenCall_plain
    have hnull : va ≠ 0 := by
      refine vmMapPage_ne_null (k := 0) (by decide) ?_ hexec
      rw [Vm.Absent, hwindows.unused .page 0 (by decide) (by decide) (List.forall_mem_nil _)]
      rfl
    have hinv₁ := Kernel.step_inv hinv hmap
    have hfree₁ := Kernel.step_free2M hinv hmap behindCall_low (fun _ h => by cases h)
      (hfree behindCall.vaddr behindCall_low (by decide))
    obtain ⟨M₂, -, hphys₂, hplace⟩ := Kernel.place_free2M hinv₁ behindCall_valid rfl behindCall_low hfree₁
    refine ⟨c', M₀, new, va, _, hstart, hok, .cons hmap (.single hplace), ?_, ?_, ?_, T,
      Kernel.step_inv hinv₁ hplace⟩
    · exact hlive.trans (if_neg hnull)
    · exact congrArg (fun base => base.map behindCall.region) hbase
    · exact halloc.trans (by rw [hphys₂, hphys])

/-! ## The law -/

section Law

variable {y : Symbols} {c c' : Cpu} {M M₀ : Machine} {tr : List KernelCall} {s : Kernel}

/-- **The address space of the kernel.** At every point of every run of the functions of `vm.c` after
the boot: the processor translates every address outside the recursive entry as the ledger says;
every live mapping leads, byte for byte, to the memory it was made for; and no mapping call and no
unmapping of a live mapping stops. -/
theorem address_space_holds (hy : y.Loaded c) (hstart : start y c = .ok c')
    (hM : y.AtVmInit c'.mem M) (hinit : OnTables.vmInit M = .ok () M₀)
    (hrun : Runs KernelStep ⟨M₀, [], y.space⟩ tr s) :
    (∀ va, Canonical va → hwIndex va 0 ≠ 511 →
      translate s.machine.mem s.machine.cr3 va = s.space va.toNat) ∧
    (∀ m ∈ s.live, ∀ k < m.num * m.window.size, s.space (m.va + k) = some (m.frame.toNat + k)) ∧
    (∀ call : MapCall, call.Valid → ∃ va M', call.onTables s.machine = .ok va M') ∧
    ∀ m ∈ s.live, ∀ call : UnmapCall, call.Names m →
      ∃ frame M', call.onTables s.machine = .ok frame M' := by
  obtain ⟨T, hinv⟩ : ∃ T, s.Inv T := by
    rcases vmInit_kernel hy hstart hM with ⟨_, _, _, hpanic⟩ | ⟨T, M', new, hok, hinv, -⟩
    · rw [hinit] at hpanic
      cases hpanic
    · rw [hinit] at hok
      cases hok
      exact ⟨T, Kernel.runs_inv hinv hrun⟩
  obtain ⟨vm, hshows, hlive⟩ := hinv.windows
  refine ⟨fun va hcanon hslot => hinv.translate hcanon hslot, ?_, ?_, ?_⟩
  · intro m hm k hk
    have hhas : m.region.Has (m.va + k) := ⟨Nat.le_add_right m.va k, Nat.add_lt_add_left hk m.va⟩
    refine (AddressSpace.overlay_mem hlive.regions_apart (List.mem_map_of_mem hm) hhas).trans ?_
    exact congrArg (fun n => some (m.frame.toNat + n)) (Nat.add_sub_cancel_left m.va k)
  · intro call hcall
    obtain ⟨⟨va, vm'⟩, hexec, -⟩ := MapCall.exec_spec hcall vm
    obtain ⟨M', hok, -⟩ := MapCall.follows hcall hshows va vm' hexec
    exact ⟨va, M', hok⟩
  · intro m hm call hnames
    obtain ⟨hva, hlo, hpos, hhi⟩ := hnames.page (hlive.good m hm)
    obtain ⟨⟨frame, vm'⟩, hexec, -⟩ := call.exec_spec vm hva hlo hpos hhi
    obtain ⟨M', hok, -⟩ := call.follows hshows hva hlo hpos hhi frame vm' hexec
    exact ⟨frame, M', hok⟩

/-- The kernel image of three pages, with a page of the window and a large page mapped. -/
theorem address_space_holds_three_pages : ∃ M M₀ va s, OnTables.vmInit M = .ok () M₀ ∧
    Runs KernelStep ⟨M₀, [], threePages.space⟩ [.map screenCall, .place behindCall] s ∧
    s.space (va + 5) = some 0xB8005 ∧
    translate s.machine.mem s.machine.cr3 0x200123#64 = some 0x110123 ∧
    translate s.machine.mem s.machine.cr3 0x2000123#64 = some 0xE0000123 := by
  obtain ⟨c', M₀, new, va, s, hstart, hinit, hrun, hlive, hbase, -, T, hinv⟩ := threePages_run
  obtain ⟨htranslate, hbytes, -⟩ := address_space_holds threePages_loaded hstart
    (threePages_atVmInit c'.mem) hinit hrun
  have hpage := hbytes _ (hlive ▸ List.mem_singleton_self (screenCall.mapping va)) 5
    (show 5 < 1 * 0x1000 by decide)
  refine ⟨_, M₀, va, s, hinit, hrun, hpage, (htranslate 0x200123#64 (by decide) (by decide)).trans ?_,
    (htranslate 0x2000123#64 (by decide) (by decide)).trans ?_⟩
  · have hin : ¬ InWindow 0x200123#64 := by
      rintro ⟨w, hlo, -⟩
      have hstart : 0xA00000 ≤ w.start := by cases w <;> decide
      exact absurd (hstart.trans hlo) (by decide)
    rw [hinv.space_outside hin, hbase]
    decide
  · have hin : ¬ InWindow 0x2000123#64 := by
      rintro ⟨w, -, hhi⟩
      have hstop : w.stop ≤ 0x2000000 := by cases w <;> decide
      exact absurd (hhi.trans_le hstop) (by decide)
    rw [hinv.space_outside hin, hbase]
    decide

/-- **The pool stays.** After any run in which no page was placed where the pool goes, `malloc_init`
returns if there are frames for it. From then on, at every point of every further run, the pool leads
to those frames, one byte after the other; so does every byte that `malloc` has given out, in every
state of the heap. -/
theorem pool_stays (hy : y.Loaded c) (hstart : start y c = .ok c') (hM : y.AtVmInit c'.mem M)
    (hinit : OnTables.vmInit M = .ok () M₀) (hrun : Runs KernelStep ⟨M₀, [], y.space⟩ tr s)
    (hplace : ∀ call, .place call ∈ tr → ∀ k < 2, ¬ SamePage 2 call.vaddr (poolPage k))
    {paddr : Nat} {phys : Physical} (hne : paddr ≠ 0)
    (halloc : allocPhysFramesAligned s.machine.phys 1024 largePgSize = .ok (paddr, phys)) :
    ∃ s₁, OnTables.mallocInit s.machine = .ok () s₁.machine ∧
      Runs KernelStep s (poolCalls paddr) s₁ ∧
      ∀ tr₂ s₂, Runs KernelStep s₁ tr₂ s₂ →
        (∀ va : BitVec 64, mallocBase ≤ va.toNat → va.toNat < mallocEnd →
          translate s₂.machine.mem s₂.machine.cr3 va = some (paddr + (va.toNat - mallocBase))) ∧
        ∀ (t : Bsystem) (h₀ h : Heap) (phys' : Physical) (mappings : List PoolMapping)
          (calls : List HeapCall) (w : HeapWorld),
          mallocInit t h₀ s.machine.phys = .ok (h, phys', mappings) →
          Runs (HeapStep t) ⟨h, []⟩ calls w → ∀ a ∈ w.out, ∀ i < a.size,
            translate s₂.machine.mem s₂.machine.cr3 (BitVec.ofNat 64 (a.ptr + i)) =
              some (paddr + (a.ptr + i - mallocBase)) := by
  obtain ⟨T, hinv, hfree⟩ : ∃ T, s.Inv T ∧ ∀ k < 2, Kernel.Free2M T s (poolPage k) := by
    rcases vmInit_kernel hy hstart hM with ⟨_, _, _, hpanic⟩ | ⟨T, M', new, hok, hinv, hfree, -⟩
    · rw [hinit] at hpanic
      cases hpanic
    · rw [hinit] at hok
      cases hok
      exact ⟨T, Kernel.runs_inv hinv hrun, fun k hk =>
        Kernel.runs_free2M hinv hrun (poolPage_low hk) (fun call hc => hplace call hc k hk)
          (hfree (poolPage k) (poolPage_low hk) (poolPage_index k hk))⟩
  rcases mallocInit_places hinv hfree halloc with ⟨hzero, -⟩ | ⟨M₁, hok, hfits, hrun₁⟩
  · exact absurd hzero hne
  · refine ⟨_, hok, hrun₁, ?_⟩
    intro tr₂ s₂ hrun₂
    have hinv₁ := Kernel.runs_inv hinv hrun₁
    have hinv₂ := Kernel.runs_inv hinv₁ hrun₂
    have hend : mallocEnd = mallocBase + 0x400000 := by decide
    have hbase : mallocBase = 0x600000 := rfl
    have hpool : ∀ va : BitVec 64, mallocBase ≤ va.toNat → va.toNat < mallocEnd →
        translate s₂.machine.mem s₂.machine.cr3 va = some (paddr + (va.toNat - mallocBase)) := by
      intro va hlo hhi
      have hlow : Kernel.Low va := by
        refine ⟨by omega, ?_, ?_⟩
        · rintro ⟨w, hwlo, -⟩
          have hwstart : 0xA00000 ≤ w.start := by cases w <;> decide
          omega
        · rintro ⟨-, hlt⟩
          change _ < 0 + 0x200000 at hlt
          omega
      obtain ⟨a, ha⟩ := Nat.exists_eq_add_of_le hlo
      have hplaced := pool_space s.base hfits (show a < 0x400000 by omega)
      rw [← ha] at hplaced
      rw [hinv₂.outside va hlow.canonical hlow.slot hlow.outside, ha, Nat.add_sub_cancel_left, ← ha]
      exact Kernel.runs_stays hinv₁ hrun₂ hlow.canonical hlow.slot hlow.outside hlow.above hplaced
    refine ⟨hpool, ?_⟩
    intro t h₀ h phys' mappings calls w hheap hcalls a ha i hi
    obtain ⟨free, hw⟩ := heapRuns_inv hheap hcalls
    have hbuddy := hw.buddyHeap
    obtain ⟨hptr, hroom⟩ := hbuddy.room a ha
    obtain ⟨-, -, hlo, hhi⟩ := hbuddy.aligned a.block (Or.inl ⟨a, ha, rfl⟩)
    have hlast : blockLast a.block = blockAddr a.block + blockSize a.block.level - 1 := rfl
    have htoNat : (BitVec.ofNat 64 (a.ptr + i)).toNat = a.ptr + i := by
      rw [BitVec.toNat_ofNat]
      omega
    have hbyte := hpool (BitVec.ofNat 64 (a.ptr + i)) (by omega) (by omega)
    rwa [htoNat] at hbyte

/-- The pool of the kernel of three pages lies from 2MB on, also after the screen has been mapped again. -/
theorem pool_stays_three_pages : ∃ M M₀ s s₁ s₂, OnTables.vmInit M = .ok () M₀ ∧
    Runs KernelStep ⟨M₀, [], threePages.space⟩ [.map screenCall, .place behindCall] s ∧
    OnTables.mallocInit s.machine = .ok () s₁.machine ∧ Runs KernelStep s₁ [.map screenCall] s₂ ∧
    translate s₂.machine.mem s₂.machine.cr3 0x600008#64 = some 0x200008 := by
  obtain ⟨c', M₀, new, va, s, hstart, hinit, hrun, -, -, hframe, T, hinv⟩ := threePages_run
  have hfirst : (do
      let r ← allocPhysFrame roomy
      allocPhysFramesAligned r.2 1024 largePgSize).map Prod.fst = .ok 0x200000 := by decide +kernel
  rw [hframe, Exec.ok_bind] at hfirst
  obtain ⟨phys, halloc⟩ := Exec.exists_of_map_fst hfirst
  have hnone : ∀ call, KernelCall.place call ∈ [.map screenCall, .place behindCall] → ∀ k < 2,
      ¬ SamePage 2 call.vaddr (poolPage k) := by
    intro call hcall k hk hsame
    obtain rfl : call = behindCall := by simpa using hcall
    exact absurd (hsame 2 le_rfl) ((by decide : ∀ k < 2,
      hwIndex (poolPage k) 2 ≠ hwIndex behindCall.vaddr 2) k hk)
  obtain ⟨s₁, hok, hrun₁, hpool⟩ := pool_stays threePages_loaded hstart
    (threePages_atVmInit c'.mem) hinit hrun hnone (by decide) halloc
  have hinv₁ := Kernel.runs_inv hinv hrun₁
  obtain ⟨-, -, -, s₂, -, -, hmap, -⟩ := hinv₁.exists_map screenCall_valid screenCall_plain
  have hbyte := (hpool [.map screenCall] s₂ (.single hmap)).1 0x600008#64 (by decide) (by decide)
  exact ⟨_, M₀, s, s₁, s₂, hinit, hrun, hok, .single hmap, hbyte⟩

end Law

end Rtv.Boot
