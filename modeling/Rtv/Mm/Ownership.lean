import Mathlib.Order.Interval.Finset.Nat
import Rtv.Lib.Runs
import Rtv.Mm.PhysicalSpec

/-!
# Who owns a frame

Runs of the frame allocator, with the ledger a reader keeps beside them: every successful
allocation is a `Grant`, which holds its frames until they are given back. A free call may name
only frames that some grant holds; a call that leaves `mm_table` ends the run.

**The law** (`frames_owned_once`): at every point of every run, no frame is held by two grants,
and a page is free in `mm_table` exactly when it was free at the start and no grant holds it. So no
frame is handed out twice, lost or invented. Page 0 must not be free at the start, since its
address is the value that says an allocation failed.
-/

namespace Rtv.Mm

open Rtv.Lib Rtv.Utils

/-! ## Calls -/

/-- A call of one of the four allocators. -/
inductive AllocCall where
  | frame
  | frames (num : Nat)
  | framesAligned (num align : Nat)
  | frameLowmem
deriving DecidableEq, Repr

/-- The number of frames a call asks for. -/
def AllocCall.num : AllocCall → Nat
  | .frame => 1
  | .frames num => num
  | .framesAligned num _ => num
  | .frameLowmem => 1

/-- What the callers promise: they ask for at least one frame, and for an alignment that is a power
of two and at least one page. -/
def AllocCall.Valid : AllocCall → Prop
  | .frame => True
  | .frames num => 1 ≤ num
  | .framesAligned num align => 1 ≤ num ∧ ∃ n, pgBits ≤ n ∧ align = 2 ^ n
  | .frameLowmem => True

/-- A call asks for at least one frame. -/
theorem AllocCall.Valid.num_pos {c : AllocCall} (h : c.Valid) : 1 ≤ c.num := by
  cases c with
  | frame => exact Nat.le_refl 1
  | frames num => exact h
  | framesAligned num align => exact h.1
  | frameLowmem => exact Nat.le_refl 1

/-- The call itself. -/
def AllocCall.exec : AllocCall → Physical → Exec (Nat × Physical)
  | .frame, s => allocPhysFrame s
  | .frames num, s => allocPhysFrames s num
  | .framesAligned num align, s => allocPhysFramesAligned s num align
  | .frameLowmem, s => allocPhysFrameLowmem s

/-- Where the frames of a call lie, as the address of the first one: below 1MB for the lowmem
allocator, from 1MB on for the others, at a multiple of the alignment for the aligned one. -/
def AllocCall.At : AllocCall → Nat → Prop
  | .frame, addr => 0x100000 ≤ addr
  | .frames _, addr => 0x100000 ≤ addr
  | .framesAligned _ align, addr => 0x100000 ≤ addr ∧ align ∣ addr
  | .frameLowmem, addr => addr + pgSize ≤ 0x100000

/-- A call of one of the two deallocators. -/
inductive FreeCall where
  | frame (addr : Nat)
  | frames (addr num : Nat)
deriving DecidableEq, Repr

/-- The number of frames a call gives back. -/
def FreeCall.num : FreeCall → Nat
  | .frame _ => 1
  | .frames _ num => num

/-- The address of the first frame a call gives back. -/
def FreeCall.addr : FreeCall → Nat
  | .frame addr => addr
  | .frames addr _ => addr

/-- The call itself. -/
def FreeCall.exec : FreeCall → Physical → Exec Physical
  | .frame addr, s => freePhysFrame s addr
  | .frames addr num, s => freePhysFrames s addr num

/-- The `num` pages from the address `addr` on. -/
def framesAt (addr num : Nat) : Finset Nat :=
  Finset.Ico (addr >>> pgBits) ((addr >>> pgBits) + num)

theorem mem_framesAt {addr num p : Nat} :
    p ∈ framesAt addr num ↔ addr >>> pgBits ≤ p ∧ p < (addr >>> pgBits) + num :=
  Finset.mem_Ico

/-! ## The ledger -/

/-- A successful allocation: the call, the address it returned, and the frames that have not been
given back. -/
structure Grant where
  call : AllocCall
  addr : Nat
  held : Finset Nat

/-- A new grant holds all its frames. -/
def Grant.fresh (call : AllocCall) (addr : Nat) : Grant := ⟨call, addr, framesAt addr call.num⟩

/-- A grant after the frames of `back` were given back. -/
def Grant.release (g : Grant) (back : Finset Nat) : Grant := { g with held := g.held \ back }

/-- The allocator and the ledger of its run. -/
structure World where
  phys : Physical
  grants : List Grant

/-- Some grant holds the page. -/
def World.Outstanding (w : World) (p : Nat) : Prop := ∃ g ∈ w.grants, p ∈ g.held

/-- A label of a run. -/
inductive Call where
  | alloc (call : AllocCall)
  | free (call : FreeCall)

/-- One call. An allocation that returns 0 grants nothing. -/
inductive Step : World → Call → World → Prop
  | granted {w : World} {c : AllocCall} {addr : Nat} {s : Physical} :
      c.Valid → c.exec w.phys = .ok (addr, s) → addr ≠ 0 →
      Step w (.alloc c) ⟨s, .fresh c addr :: w.grants⟩
  | refused {w : World} {c : AllocCall} {s : Physical} :
      c.Valid → c.exec w.phys = .ok (0, s) → Step w (.alloc c) ⟨s, w.grants⟩
  | freed {w : World} {c : FreeCall} {s : Physical} :
      (∀ p ∈ framesAt c.addr c.num, w.Outstanding p) → c.exec w.phys = .ok s →
      Step w (.free c) ⟨s, w.grants.map fun g => g.release (framesAt c.addr c.num)⟩

/-! ## What one call does -/

/-- The four allocators differ in where their frames lie. -/
theorem AllocCall.exec_spec {c : AllocCall} {s : Physical} {r : Nat × Physical} (hv : c.Valid)
    (h : c.exec s = .ok r) : Allocated (fun page => c.At (page <<< pgBits)) c.num s r := by
  have hpos : ∀ page, page <<< pgBits = page * pgSize := fun page => Nat.shiftLeft_eq page 12
  cases c with
  | frame =>
    obtain hzero | ⟨page, hr, hlo, hrest⟩ := allocPhysFrame_spec h
    · exact Or.inl hzero
    refine Or.inr ⟨page, hr, ?_, hrest⟩
    simp only [AllocCall.At, hpos, pgSize]
    omega
  | frames num =>
    obtain hzero | ⟨page, hr, hlo, hrest⟩ := allocPhysFrames_spec h
    · exact Or.inl hzero
    refine Or.inr ⟨page, hr, ?_, hrest⟩
    simp only [AllocCall.At, hpos, pgSize]
    omega
  | framesAligned num align =>
    obtain ⟨_, n, hn, rfl⟩ := hv
    obtain hzero | ⟨page, hr, ⟨hlo, hdvd⟩, hrest⟩ := allocPhysFramesAligned_spec hn h
    · exact Or.inl hzero
    refine Or.inr ⟨page, hr, ?_, hrest⟩
    have hdvd' : 2 ^ n ∣ page * pgSize := by
      rw [show 2 ^ n = 2 ^ (n - pgBits) * pgSize from (pow_sub_mul_pow 2 hn).symm]
      exact Nat.mul_dvd_mul_right hdvd _
    simp only [AllocCall.At, hpos]
    exact ⟨by unfold pgSize; omega, hdvd'⟩
  | frameLowmem =>
    obtain hzero | ⟨page, hr, hhi, hrest⟩ := allocPhysFrameLowmem_spec h
    · exact Or.inl hzero
    refine Or.inr ⟨page, hr, ?_, hrest⟩
    simp only [AllocCall.At, hpos, pgSize]
    omega

/-- Both deallocators mark the named frames free. -/
theorem FreeCall.exec_spec {c : FreeCall} {s s' : Physical} (h : c.exec s = .ok s') :
    Marked s s' (c.addr >>> pgBits) c.num true := by
  cases c with
  | frame addr => exact freePhysFrame_spec h
  | frames addr num => exact freePhysFrames_spec h

/-! ## The invariant -/

/-- The ledger and `mm_table` agree, given the table at the start. -/
structure Owned (s₀ : Physical) (w : World) : Prop where
  /-- No frame belongs to two grants. -/
  disjoint : w.grants.Pairwise fun g g' => Disjoint g.held g'.held
  /-- A page is free when it was so at the start and nobody holds it. -/
  free_iff : ∀ p, w.phys.Free p ↔ s₀.Free p ∧ ¬ w.Outstanding p
  /-- Only frames that were free at the start are ever granted, and only those of the request. -/
  granted : ∀ g ∈ w.grants, g.held ⊆ framesAt g.addr g.call.num ∧
    ∀ p ∈ framesAt g.addr g.call.num, s₀.Free p
  /-- Every grant starts where its allocator may hand out frames. -/
  placed : ∀ g ∈ w.grants, g.call.At g.addr

theorem Owned.init (s₀ : Physical) : Owned s₀ ⟨s₀, []⟩ where
  disjoint := .nil
  free_iff p := by simp [World.Outstanding]
  granted g hg := by cases hg
  placed g hg := by cases hg

/-- Page 0 is never free, so an allocation that takes pages never returns 0. -/
theorem Owned.ne_zero {s₀ : Physical} {w : World} (hw : Owned s₀ w) (h₀ : ¬ s₀.Free 0) {page : Nat}
    (hfree : w.phys.Free page) : page <<< pgBits ≠ 0 := by
  intro hz
  have hpage : page = 0 := by
    rw [Nat.shiftLeft_eq] at hz
    unfold pgBits at hz
    omega
  exact h₀ (hpage ▸ ((hw.free_iff page).mp hfree).1)

/-- What an allocation does to the ledger. -/
theorem Owned.alloc {s₀ : Physical} {w : World} {c : AllocCall} {page : Nat} {s : Physical}
    (hw : Owned s₀ w) (hAt : c.At (page <<< pgBits))
    (hfree : ∀ p, page ≤ p → p < page + c.num → w.phys.Free p)
    (hm : Marked w.phys s page c.num false) :
    Owned s₀ ⟨s, .fresh c (page <<< pgBits) :: w.grants⟩ := by
  have hframes : framesAt (page <<< pgBits) c.num = Finset.Ico page (page + c.num) := by
    unfold framesAt
    rw [Nat.shiftLeft_shiftRight]
  have hnew : ∀ p ∈ framesAt (page <<< pgBits) c.num, s₀.Free p ∧ ¬ w.Outstanding p := by
    intro p hp
    rw [hframes, Finset.mem_Ico] at hp
    exact (hw.free_iff p).mp (hfree p hp.1 hp.2)
  refine ⟨List.pairwise_cons.mpr ⟨fun g hg => ?_, hw.disjoint⟩, fun p => ?_, ?_, ?_⟩
  · rw [Finset.disjoint_left]
    intro p hp hp'
    exact (hnew p hp).2 ⟨g, hg, hp'⟩
  · rw [hm.taken_iff, hw.free_iff]
    have hp : p ∈ framesAt (page <<< pgBits) c.num ↔ page ≤ p ∧ p < page + c.num := by
      rw [hframes, Finset.mem_Ico]
    simp only [World.Outstanding, List.exists_mem_cons_iff, Grant.fresh, hp, not_or]
    tauto
  · intro g hg
    rcases List.mem_cons.mp hg with rfl | hg
    · exact ⟨Finset.Subset.refl _, fun p hp => (hnew p hp).1⟩
    · exact hw.granted g hg
  · intro g hg
    rcases List.mem_cons.mp hg with rfl | hg
    · exact hAt
    · exact hw.placed g hg

/-- What giving back held frames does to the ledger. -/
theorem Owned.free {s₀ : Physical} {w : World} {back : Finset Nat} {s : Physical}
    (hw : Owned s₀ w) (hback : ∀ p ∈ back, w.Outstanding p)
    (hm : ∀ p, s.Free p ↔ p ∈ back ∨ w.phys.Free p) :
    Owned s₀ ⟨s, w.grants.map fun g => g.release back⟩ := by
  refine ⟨List.pairwise_map.mpr (hw.disjoint.imp fun h => ?_), fun p => ?_, ?_, ?_⟩
  · exact h.mono Finset.sdiff_subset Finset.sdiff_subset
  · have hheld : (⟨s, w.grants.map fun g => g.release back⟩ : World).Outstanding p ↔
        w.Outstanding p ∧ p ∉ back := by
      simp only [World.Outstanding, List.mem_map, exists_exists_and_eq_and, Grant.release,
        Finset.mem_sdiff, ← and_assoc, exists_and_right]
    have hstart : p ∈ back → s₀.Free p := by
      intro hp
      obtain ⟨g, hg, hpg⟩ := hback p hp
      obtain ⟨hsub, hfree⟩ := hw.granted g hg
      exact hfree p (hsub hpg)
    rw [hm, hw.free_iff, hheld]
    tauto
  · intro g hg
    obtain ⟨g', hg', rfl⟩ := List.mem_map.mp hg
    obtain ⟨hsub, hfree⟩ := hw.granted g' hg'
    exact ⟨Finset.sdiff_subset.trans hsub, hfree⟩
  · intro g hg
    obtain ⟨g', hg', rfl⟩ := List.mem_map.mp hg
    exact hw.placed g' hg'

/-- Every call keeps the ledger and the table in agreement. -/
theorem step_owned {s₀ : Physical} (h₀ : ¬ s₀.Free 0) {w w' : World} {c : Call} (hw : Owned s₀ w)
    (h : Step w c w') : Owned s₀ w' := by
  cases h with
  | granted hv hexec hne =>
    rcases AllocCall.exec_spec hv hexec with heq | ⟨page, rfl, hAt, hfree, hm⟩
    · cases heq
      exact absurd rfl hne
    · exact hw.alloc hAt hfree hm
  | refused hv hexec =>
    rcases AllocCall.exec_spec hv hexec with heq | ⟨page, hz, hAt, hfree, hm⟩
    · cases heq
      exact hw
    · -- the request is for at least one page, so the page whose address is 0 would be free
      have hnum := hv.num_pos
      exact absurd hz.symm (hw.ne_zero h₀ (hfree page (Nat.le_refl _) (by omega)))
  | freed hback hexec =>
    refine hw.free hback fun p => ?_
    rw [(FreeCall.exec_spec hexec).free_iff, mem_framesAt]

theorem runs_owned {s₀ : Physical} (h₀ : ¬ s₀.Free 0) {tr : List Call} {w : World}
    (h : Runs Step ⟨s₀, []⟩ tr w) : Owned s₀ w :=
  h.invariant (fun _ _ _ hw hstep => step_owned h₀ hw hstep) (Owned.init s₀)

/-- **Frame ownership over whole runs.** At every point of every run from a table in which page 0
is not free: no frame is held by two grants; a page is free exactly when it was free at the start
and no grant holds it; every grant consists of frames that were free at the start; and every grant
starts where its allocator may hand out frames. -/
theorem frames_owned_once {s₀ : Physical} (h₀ : ¬ s₀.Free 0) {tr : List Call} {w : World}
    (h : Runs Step ⟨s₀, []⟩ tr w) :
    (w.grants.Pairwise fun g g' => Disjoint g.held g'.held) ∧
      (∀ p, w.phys.Free p ↔ s₀.Free p ∧ ¬ w.Outstanding p) ∧
      (∀ g ∈ w.grants, g.held ⊆ framesAt g.addr g.call.num ∧
        ∀ p ∈ framesAt g.addr g.call.num, s₀.Free p) ∧
      ∀ g ∈ w.grants, g.call.At g.addr := by
  have hw := runs_owned h₀ h
  exact ⟨hw.disjoint, hw.free_iff, hw.granted, hw.placed⟩

/-- A machine whose one free page is the first one at 1MB. -/
def oneFrame : Physical := ⟨⟨fun i => if i.val = 4 then 1#64 else 0#64⟩, 257, 5, rfl⟩

/-- Its ordinary allocator hands out that page. -/
theorem oneFrame_alloc : ∃ s, allocPhysFrame oneFrame = .ok (0x100000, s) :=
  Exec.exists_of_map_fst (by decide +kernel)

/-- A machine with page 3 free below 1MB, and the first three pages above. -/
def fewFrames : Physical :=
  ⟨⟨fun i => if i.val = 0 then 8#64 else if i.val = 4 then 7#64 else 0#64⟩, 259, 5, rfl⟩

/-- Two frames at once, one of which is given back, one below 1MB, and one that is the one given back. -/
def fewCalls : List Call :=
  [.alloc (.frames 2), .alloc .frameLowmem, .free (.frame 0x101000), .alloc .frame]

/-- The run of these calls on that machine: the page that was given back is held by the last grant alone. -/
theorem frames_owned_once_few_frames : ∃ w, Runs Step ⟨fewFrames, []⟩ fewCalls w ∧
    w.grants.map Grant.addr = [0x101000, 0x3000, 0x100000] ∧
    (w.grants.Pairwise fun g g' => Disjoint g.held g'.held) ∧ ¬ w.phys.Free 257 ∧
    ∀ g ∈ w.grants, g.call.At g.addr := by
  have hfirst : (allocPhysFrames fewFrames 2).map Prod.fst = .ok 0x100000 := by decide +kernel
  have hlow : (do
      let r ← allocPhysFrames fewFrames 2
      allocPhysFrameLowmem r.2).map Prod.fst = .ok 0x3000 := by decide +kernel
  have hagain : (do
      let r ← allocPhysFrames fewFrames 2
      let r ← allocPhysFrameLowmem r.2
      let s ← freePhysFrame r.2 0x101000
      allocPhysFrame s).map Prod.fst = .ok 0x101000 := by decide +kernel
  obtain ⟨s₁, h₁⟩ := Exec.exists_of_map_fst hfirst
  rw [h₁, Exec.ok_bind] at hlow hagain
  obtain ⟨s₂, h₂⟩ := Exec.exists_of_map_fst hlow
  rw [h₂, Exec.ok_bind] at hagain
  obtain ⟨s₄, h₄⟩ := Exec.exists_of_map_fst hagain
  obtain ⟨s₃, h₃, h₄⟩ := Exec.bind_eq_ok.mp h₄
  have hback : ∀ p ∈ framesAt 0x101000 1, p ∈ framesAt 0x100000 2 := by decide
  have hrun : Runs Step ⟨fewFrames, []⟩ fewCalls _ :=
    .cons (.granted (c := .frames 2) (show 1 ≤ 2 by decide) h₁ (by decide))
      (.cons (.granted (c := .frameLowmem) trivial h₂ (by decide))
        (.cons (.freed (c := .frame 0x101000) (fun p hp =>
            ⟨_, List.mem_cons_of_mem _ List.mem_cons_self, hback p hp⟩) h₃)
          (.single (.granted (c := .frame) trivial h₄ (by decide)))))
  obtain ⟨hdisjoint, hfree, _, hplaced⟩ := frames_owned_once (show ¬ fewFrames.Free 0 by decide) hrun
  have hheld : 257 ∈ (Grant.fresh .frame 0x101000).held := by decide
  exact ⟨_, hrun, rfl, hdisjoint,
    fun h => ((hfree 257).mp h).2 ⟨_, List.mem_cons_self, hheld⟩, hplaced⟩

end Rtv.Mm
