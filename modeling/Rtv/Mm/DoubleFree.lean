import Rtv.Mm.Requests

/-!
# Freeing twice

What `free` makes of a pointer that has been freed already and whose block no outstanding block has
taken over.

It takes the byte eight before the pointer for the entry of the block, and the block for free unless
the last byte of a block of that entry is `USED`. But nothing writes that first byte when a block is
freed: where a free block begins with it, it is the low byte of the link to the next block on the
list (`first_eq_link`), and elsewhere it is what was left there. So the entry may be past the table,
and the other byte may be anything (`double_free_detected_iff`).
-/

namespace Rtv.Mm

open Rtv.Lib Rtv.Utils

/-- A second `free` is detected and harmless: it prints its message and changes nothing. -/
def Detected (t : Bsystem) (h : Heap) (ptr : Nat) : Prop := free t h ptr = .ok (some ⟨"free", ptr⟩, h)

/-- The marks at an address are those of a block that is not in use: an entry of the table, and a last
byte other than `USED`. -/
def ShowsFree (h : Heap) (addr : Nat) : Prop :=
  (h.mem addr).toNat < buddyEntries ∧ (h.mem (addr + blockSize (h.mem addr).toNat - 1)).toNat ≠ used

section Detection

variable {t : Bsystem} {h : Heap} {U : Set Block} {free₀ : Nat → List Nat} {b c : Block}

/-- `free` detects what the marks show. -/
theorem detected_iff (hi : HeapInv t h U free₀) (hb : b ≤ Block.whole topEntry) :
    Detected t h (blockAddr b + 8) ↔ ShowsFree h (blockAddr b) := by
  have haddr := sub64_blockAddr hb
  rw [Detected, ShowsFree, free]
  simp only [haddr, Heap.bucket]
  by_cases hentry : (h.mem (blockAddr b)).toNat < buddyEntries
  · rw [if_pos hentry, Exec.ok_bind, hi.lists.size _ hentry]
    by_cases hlast : (h.mem (blockAddr b + blockSize (h.mem (blockAddr b)).toNat - 1)).toNat ≠ used
    · rw [if_pos hlast]
      exact ⟨fun _ => ⟨hentry, hlast⟩, fun _ => rfl⟩
    · rw [if_neg hlast]
      refine ⟨fun hdetected => ?_, fun hshows => absurd hshows.2 hlast⟩
      -- without the message the result is another one
      exfalso
      obtain ⟨⟨merges, h'⟩, -, hret⟩ := Exec.bind_eq_ok.mp hdetected
      simp only at hret
      split at hret <;> cases hret
  · rw [if_neg hentry, Exec.error_bind]
    refine ⟨fun hdetected => ?_, fun hshows => absurd hshows.1 hentry⟩
    cases hdetected

/-- The first byte of a free block is the low byte of the link to the next one on its list. -/
theorem first_eq_link (m : Bytes) (a : Nat) : (m a).toNat = nextOf m a % 2 ^ 8 := by
  have hlt := (m a).toNat_lt
  rw [nextOf, Bytes.loadLE, Nat.add_mul_mod_self_left, Nat.mod_eq_of_lt hlt]

/-- **A free block with another one behind it on its list** shows that it is free exactly when the
other one is at a multiple of 256 and, unless it is a smallest block itself, byte 31 is not `USED`. -/
theorem showsFree_listed (hi : HeapInv t h U free₀) (hb : b ∈ freeSet free₀)
    (hnext : nextOf h.mem (blockAddr b) = blockAddr c) :
    ShowsFree h (blockAddr b) ↔ blockAddr c % 2 ^ 8 = 0 ∧
      (b.level = 0 ∨ (h.mem (blockAddr b + 31)).toNat ≠ used) := by
  have hfirst := first_eq_link h.mem (blockAddr b)
  rw [hnext] at hfirst
  have hlast : blockAddr b + blockSize 0 - 1 = blockAddr b + 31 := rfl
  have hmark : b.level = 0 → (h.mem (blockAddr b + 31)).toNat ≠ used := by
    intro hzero
    have hfree := hi.marks.free b hb
    rw [blockLast, hzero, hlast] at hfree
    rw [hfree]
    decide
  -- a block starts at a multiple of 32, so an entry of the table can only be 0
  have hmod : blockAddr c % 2 ^ 8 < buddyEntries ↔ blockAddr c % 2 ^ 8 = 0 := by
    have hbase : mallocBase = 32 * 196608 := by decide
    have hentries : buddyEntries = 18 := by decide
    rw [blockAddr_eq, hbase, hentries]
    omega
  rw [ShowsFree, hfirst, hmod]
  refine and_congr_right fun hzero => ?_
  rw [hzero, hlast]
  exact ⟨Or.inr, fun hor => hor.elim hmark id⟩

end Detection

/-- The block of an allocation that was freed in a run lies in the pool, eight bytes before its
pointer. -/
theorem freed_block {t : Bsystem} {h₀ h : Heap} {s s' : Physical} {mappings : List PoolMapping}
    (hinit : mallocInit t h₀ s = .ok (h, s', mappings)) {tr : List HeapCall} {w : HeapWorld}
    (hrun : Runs (HeapStep t) ⟨h, []⟩ tr w) {a : Allocation} (ha : .free a ∈ tr) :
    a.ptr = blockAddr a.block + 8 ∧ a.block ≤ Block.whole topEntry := by
  obtain ⟨before, u, v, hbefore, hstep⟩ := hrun.step_of_mem ha
  obtain ⟨free₁, hi⟩ := heapRuns_inv hinit hbefore
  cases hstep with
  | free hmem _ => exact ⟨hi.ptr a hmem, hi.heap.lists.tiling.le_whole _ (Or.inl ⟨a, hmem, rfl⟩)⟩

/-- A block of the pool that no outstanding block has a byte of lies in a free one. -/
theorem exists_free_of_apart {t : Bsystem} {w : HeapWorld} {free₀ : Nat → List Nat}
    (hi : w.Inv t free₀) {b : Block} (hb : b ≤ Block.whole topEntry)
    (hapart : ∀ u ∈ w.outstanding, ∀ i, InBlock b i → ¬InBlock u i) :
    ∃ f ∈ freeBlocks t w.heap, b ≤ f := by
  rw [hi.freeBlocks_eq]
  apply hi.heap.coalesced.exists_le hi.heap.lists.tiling hb
  by_contra hmeets
  obtain ⟨u, hu, i, hbi, hui⟩ := exists_common_of_not_apart hmeets
  exact hapart u hu i hbi hui

/-- **When a double free is detected and harmless**, at any point of any run, for any allocation freed
before whose block meets no outstanding one: exactly when the marks at its address show a block that
is not in use. Where a free block begins there, with another one behind it on its list, that is when
the other one is at a multiple of 256 and the block is a smallest one or byte 31 of it is not
`USED`. -/
theorem double_free_detected_iff (t : Bsystem) (h₀ h : Heap) (s s' : Physical)
    (mappings : List PoolMapping) (hinit : mallocInit t h₀ s = .ok (h, s', mappings))
    (tr : List HeapCall) (w : HeapWorld) (hrun : Runs (HeapStep t) ⟨h, []⟩ tr w) (a : Allocation)
    (ha : .free a ∈ tr) (hapart : ∀ u ∈ w.outstanding, ∀ i, InBlock a.block i → ¬InBlock u i) :
    (Detected t w.heap a.ptr ↔ ShowsFree w.heap (a.ptr - 8)) ∧
      ∃ f ∈ freeBlocks t w.heap, a.block ≤ f ∧ (blockAddr f = a.ptr - 8 →
        ∀ c : Block, nextOf w.heap.mem (blockAddr f) = blockAddr c →
          (ShowsFree w.heap (a.ptr - 8) ↔ blockAddr c % 2 ^ 8 = 0 ∧
            (f.level = 0 ∨ (w.heap.mem (a.ptr - 8 + 31)).toNat ≠ used))) := by
  obtain ⟨free₁, hi⟩ := heapRuns_inv hinit hrun
  obtain ⟨hptr, hwhole⟩ := freed_block hinit hrun ha
  obtain ⟨f, hf, hle⟩ := exists_free_of_apart hi hwhole hapart
  have hfree : f ∈ freeSet free₁ := hi.freeBlocks_eq ▸ hf
  rw [hptr, Nat.add_sub_cancel]
  refine ⟨detected_iff hi.heap hwhole, f, hf, hle, fun haddr c hnext => ?_⟩
  rw [← haddr]
  exact showsFree_listed hi.heap hfree hnext

/-- A run on a machine with 16MB: the whole pool is handed out and freed again. A second `free`
reads an entry that is past the table. -/
theorem bootHeap_free_run : ∃ w a, Runs (HeapStep someTable) ⟨bootHeap, []⟩ [.malloc 4000000, .free a] w ∧
    w.out = [] ∧ free someTable w.heap a.ptr = .error .fault := by
  have hok : (malloc someTable bootHeap 4000000 >>= fun r => free someTable r.2 r.1).isOk = true := by
    decide +kernel
  have htwice : (malloc someTable bootHeap 4000000 >>= fun r => free someTable r.2 r.1 >>= fun r' =>
      (free someTable r'.2 r.1).map fun _ => ()) = (.error .fault : Exec Unit) := by
    decide +kernel
  obtain ⟨_, hr⟩ := Exec.exists_of_isOk hok
  obtain ⟨⟨ptr, h₁⟩, hmalloc, hr⟩ := Exec.bind_eq_ok.mp hr
  obtain ⟨⟨report, h₂⟩, hfree⟩ : ∃ r, free someTable h₁ ptr = .ok r := ⟨_, hr⟩
  have hfault : free someTable h₂ ptr = .error .fault := by
    rw [hmalloc, Exec.ok_bind, hfree, Exec.ok_bind] at htwice
    cases hlast : free someTable h₂ ptr with
    | error e =>
      rw [hlast] at htwice
      cases htwice
      rfl
    | ok r =>
      rw [hlast] at htwice
      cases htwice
  have hstep₁ : HeapStep someTable ⟨bootHeap, []⟩ (.malloc 4000000) ⟨h₁, [⟨ptr, 4000000⟩]⟩ :=
    .malloc (by decide) hmalloc
  have hstep₂ := HeapStep.free (t := someTable) (w := ⟨h₁, [⟨ptr, 4000000⟩]⟩)
    (List.mem_singleton.mpr rfl) hfree
  rw [List.erase_cons_head] at hstep₂
  exact ⟨⟨h₂, []⟩, ⟨ptr, 4000000⟩, .cons hstep₁ (.single hstep₂), rfl, hfault⟩

/-- That block, which nothing has taken over. -/
theorem bootHeap_free_apart {w : HeapWorld} (hout : w.out = []) (a : Allocation) :
    ∀ u ∈ w.outstanding, ∀ i, InBlock a.block i → ¬InBlock u i := by
  rintro u ⟨x, hx, -⟩
  rw [hout] at hx
  exact absurd hx List.not_mem_nil

/-- On that machine, after that run. -/
theorem double_free_detected_boot : ∃ w a,
    Runs (HeapStep someTable) ⟨bootHeap, []⟩ [.malloc 4000000, .free a] w ∧
      (Detected someTable w.heap a.ptr ↔ ShowsFree w.heap (a.ptr - 8)) := by
  obtain ⟨s, mappings, hinit⟩ := bootHeap_init
  obtain ⟨w, a, hrun, hout, -⟩ := bootHeap_free_run
  exact ⟨w, a, hrun, (double_free_detected_iff someTable blankHeap bootHeap allFree s mappings hinit _ w
    hrun a (by simp) (bootHeap_free_apart hout a)).1⟩

/-- The second `free` is not detected. -/
theorem double_free_past_table : ∃ s mappings w a,
    mallocInit someTable blankHeap allFree = .ok (bootHeap, s, mappings) ∧
      Runs (HeapStep someTable) ⟨bootHeap, []⟩ [.malloc 4000000, .free a] w ∧
      (∀ u ∈ w.outstanding, ∀ i, InBlock a.block i → ¬InBlock u i) ∧
      ¬Detected someTable w.heap a.ptr := by
  obtain ⟨s, mappings, hinit⟩ := bootHeap_init
  obtain ⟨w, a, hrun, hout, hfault⟩ := bootHeap_free_run
  refine ⟨s, mappings, w, a, hinit, hrun, bootHeap_free_apart hout a, fun hdetected => ?_⟩
  rw [Detected, hfault] at hdetected
  cases hdetected

end Rtv.Mm
