import Mathlib.Data.List.Pairwise
import Mathlib.Data.List.Perm.Basic
import Rtv.Lib.Runs
import Rtv.Mm.Window

/-!
# Live mappings

Runs of the eight functions on the two mapping windows, from the state `vm_init` leaves, with the
list of live mappings beside them. A mapping call adds what it mapped, or nothing if it returns
`NULL`; an unmapping call names exactly one live mapping and removes it.

**The law** (`live_mappings_hold`): at every point of every run the live mappings lie inside their
windows and do not overlap, every page of a live mapping has the entry it was created with, all
other entries of the windows are 0, and a mapping call that fails changes nothing.
-/

namespace Rtv.Mm

open Rtv.Lib

/-! ## Calls -/

/-- A call of a mapping function. -/
inductive MapCall where
  | page (frame flags : BitVec 64)
  | pages (frame : BitVec 64) (num : Nat) (flags : BitVec 64)
  | largePage (frame flags : BitVec 64)
  | largePages (frame : BitVec 64) (num : Nat) (flags : BitVec 64)
deriving DecidableEq, Repr

/-- A call of an unmapping function. -/
inductive UnmapCall where
  | page (va : Nat)
  | pages (va num : Nat)
  | largePage (va : Nat)
  | largePages (va num : Nat)
deriving DecidableEq, Repr

/-- A mapping: its window, its address and its number of pages, and what it was created with. -/
structure Mapping where
  window : Window
  va : Nat
  num : Nat
  frame : BitVec 64
  flags : BitVec 64
deriving DecidableEq, Repr

namespace MapCall

/-- The window of the function. -/
def window : MapCall → Window
  | page .. | pages .. => .page
  | largePage .. | largePages .. => .largePage

/-- The number of pages a call asks for. -/
def num : MapCall → Nat
  | page .. | largePage .. => 1
  | pages _ num _ | largePages _ num _ => num

/-- The first frame to map. -/
def frame : MapCall → BitVec 64
  | page frame _ | pages frame _ _ | largePage frame _ | largePages frame _ _ => frame

/-- The flags of the entries. -/
def flags : MapCall → BitVec 64
  | page _ flags | pages _ _ flags | largePage _ flags | largePages _ _ flags => flags

/-- The mapping a call has made when it returns an address. -/
def mapping (c : MapCall) (va : Nat) : Mapping := ⟨c.window, va, c.num, c.frame, c.flags⟩

/-- What the callers promise: an aligned frame, flags with `PGT_P` (and `PDT_PS` for large pages),
and a number of pages from 1 to 512, or to 17 for large pages. -/
def Valid : MapCall → Prop
  | page frame flags => frame &&& ~~~pgMask = 0#64 ∧ flags &&& pgtP ≠ 0#64
  | pages frame num flags =>
    frame &&& ~~~pgMask = 0#64 ∧ flags &&& pgtP ≠ 0#64 ∧ 1 ≤ num ∧ num ≤ 512
  | largePage frame flags =>
    frame &&& ~~~largePgMask = 0#64 ∧ flags &&& pgtP ≠ 0#64 ∧ flags &&& pdtPs ≠ 0#64
  | largePages frame num flags =>
    frame &&& ~~~largePgMask = 0#64 ∧ flags &&& pgtP ≠ 0#64 ∧ flags &&& pdtPs ≠ 0#64 ∧
      1 ≤ num ∧ num ≤ 17

/-- The call itself. -/
def exec : MapCall → Vm → Exec (Nat × Vm)
  | page frame flags, s => vmMapPage s frame flags
  | pages frame num flags, s => vmMapPages s frame num flags
  | largePage frame flags, s => vmMapLargePage s frame flags
  | largePages frame num flags, s => vmMapLargePages s frame num flags

/-- Every valid call returns, with the outcome of its window. -/
theorem exec_spec {c : MapCall} (hv : c.Valid) (s : Vm) :
    ∃ r, c.exec s = .ok r ∧ MapOutcome s c.window c.num c.frame c.flags r := by
  cases c with
  | page frame flags => exact vmMapPage_spec s frame flags
  | pages frame num flags => exact vmMapPages_spec s frame flags hv.2.2.1 hv.2.2.2
  | largePage frame flags => exact vmMapLargePage_spec s frame flags
  | largePages frame num flags => exact vmMapLargePages_spec s frame flags hv.2.2.2.1 hv.2.2.2.2

/-- A valid call maps at least one page, and its entries are present. -/
theorem Valid.num_flags {c : MapCall} (hv : c.Valid) : 1 ≤ c.num ∧ c.flags &&& pgtP ≠ 0#64 := by
  cases c with
  | page frame flags => exact ⟨Nat.le_refl 1, hv.2⟩
  | pages frame num flags => exact ⟨hv.2.2.1, hv.2.1⟩
  | largePage frame flags => exact ⟨Nat.le_refl 1, hv.2.1⟩
  | largePages frame num flags => exact ⟨hv.2.2.2.1, hv.2.1⟩

end MapCall

namespace UnmapCall

/-- The window of the function. -/
def window : UnmapCall → Window
  | page .. | pages .. => .page
  | largePage .. | largePages .. => .largePage

/-- The address of the first page. -/
def va : UnmapCall → Nat
  | page va | pages va _ | largePage va | largePages va _ => va

/-- The number of pages. -/
def num : UnmapCall → Nat
  | page _ | largePage _ => 1
  | pages _ num | largePages _ num => num

/-- A call names a mapping exactly. -/
def Names (c : UnmapCall) (m : Mapping) : Prop :=
  m.window = c.window ∧ m.va = c.va ∧ m.num = c.num

/-- The call itself. -/
def exec : UnmapCall → Vm → Exec (BitVec 64 × Vm)
  | page va, s => vmUnmapPage s va
  | pages va num, s => vmUnmapPages s va num
  | largePage va, s => vmUnmapLargePage s va
  | largePages va num, s => vmUnmapLargePages s va num

/-- A call on pages of its window returns and clears their entries. -/
theorem exec_spec (c : UnmapCall) (s : Vm) {i : Nat} (hva : c.va = c.window.va i)
    (hlo : c.window.lo ≤ i) (hnum : 1 ≤ c.num) (hhi : i + c.num ≤ c.window.hi) :
    ∃ r, c.exec s = .ok r ∧ UnmapOutcome s c.window c.va c.num r.2 := by
  cases c with
  | page va =>
    simp only [UnmapCall.va, window, UnmapCall.num] at hva hlo hhi hnum
    rw [hva]
    exact vmUnmapPage_spec s hhi
  | pages va num =>
    simp only [UnmapCall.va, window, UnmapCall.num] at hva hlo hhi hnum
    rw [hva]
    exact vmUnmapPages_spec s hnum hhi
  | largePage va =>
    simp only [UnmapCall.va, window, UnmapCall.num] at hva hlo hhi hnum
    rw [hva]
    exact vmUnmapLargePage_spec s hlo hhi
  | largePages va num =>
    simp only [UnmapCall.va, window, UnmapCall.num] at hva hlo hhi hnum
    rw [hva]
    obtain ⟨r, hr, hout⟩ := vmUnmapLargePages_spec s hnum hlo hhi
    exact ⟨r, hr, hout⟩

end UnmapCall

/-! ## Runs -/

/-- The tables and the live mappings. -/
structure Windows where
  vm : Vm
  live : List Mapping

/-- A label of a run. -/
inductive MappingCall where
  | map (call : MapCall)
  | unmap (call : UnmapCall)

/-- One call. -/
inductive MappingStep : Windows → MappingCall → Windows → Prop
  | mapped {s : Windows} {c : MapCall} {va : Nat} {vm : Vm} :
      c.Valid → c.exec s.vm = .ok (va, vm) → va ≠ 0 →
      MappingStep s (.map c) ⟨vm, c.mapping va :: s.live⟩
  | refused {s : Windows} {c : MapCall} {vm : Vm} :
      c.Valid → c.exec s.vm = .ok (0, vm) → MappingStep s (.map c) ⟨vm, s.live⟩
  | unmapped {vm : Vm} {before after : List Mapping} {m : Mapping} {c : UnmapCall}
      {r : BitVec 64 × Vm} :
      c.Names m → c.exec vm = .ok r →
      MappingStep ⟨vm, before ++ m :: after⟩ (.unmap c) ⟨r.2, before ++ after⟩

/-! ## The invariant -/

/-- The first entry of a mapping. -/
def Mapping.index (m : Mapping) : Nat := entryIndex m.va m.window.bits

/-- The entries of two mappings do not overlap. -/
def Mapping.Apart (m m' : Mapping) : Prop :=
  m.window = m'.window → m.index + m.num ≤ m'.index ∨ m'.index + m'.num ≤ m.index

theorem Mapping.Apart.symm {m m' : Mapping} (h : m.Apart m') : m'.Apart m :=
  fun heq => (h heq.symm).symm

/-- A mapping that lies inside its window, with entries that are present. -/
structure Mapping.Good (m : Mapping) : Prop where
  lo : m.window.lo ≤ m.index
  hi : m.index + m.num ≤ m.window.hi
  va : m.va = m.window.va m.index
  num : 1 ≤ m.num
  flags : m.flags &&& pgtP ≠ 0#64

/-- The entry is one of the mapping's. -/
def Mapping.Covers (m : Mapping) (w : Window) (i : Nat) : Prop :=
  m.window = w ∧ m.index ≤ i ∧ i < m.index + m.num

/-- The tables hold the live mappings and nothing else. -/
structure Windows.Inv (s : Windows) : Prop where
  good : ∀ m ∈ s.live, m.Good
  apart : s.live.Pairwise Mapping.Apart
  entries : ∀ m ∈ s.live, ∀ k < m.num,
    s.vm.get m.window.table (m.index + k) = mapped m.window m.frame m.flags k
  unused : ∀ (w : Window) (i : Nat), w.lo ≤ i → i < w.hi → (∀ m ∈ s.live, ¬ m.Covers w i) →
    s.vm.get w.table i = 0#64

/-- Entries of a mapping are present. -/
theorem mapped_present (w : Window) (frame : BitVec 64) {flags : BitVec 64}
    (h : flags &&& pgtP ≠ 0#64) (k : Nat) :
    mapped w frame flags k &&& pgtP ≠ 0#64 := by
  intro hz
  apply h
  have hbits : ∀ j, (mapped w frame flags k &&& pgtP).getLsbD j = false := fun j => by rw [hz]; simp
  refine BitVec.eq_of_getLsbD_eq fun j hj => ?_
  have := hbits j
  simp only [mapped, BitVec.getLsbD_and, BitVec.getLsbD_or, Bool.and_eq_false_iff,
    Bool.or_eq_false_iff] at this
  rw [BitVec.getLsbD_and]
  rcases this with ⟨_, hf⟩ | hp
  · simp [hf]
  · simp [hp]

theorem Windows.Inv.init {vm₀ vm : Vm} (h : vmInit vm₀ = .ok vm) : Windows.Inv ⟨vm, []⟩ where
  good m hm := by cases hm
  apart := .nil
  entries m hm := by cases hm
  unused w _ hlo hhi _ := vmInit_spec h w hlo hhi

/-- Entries that are not present belong to no live mapping. -/
theorem Windows.Inv.apart_of_absent {s : Windows} (hs : s.Inv) {m m' : Mapping} (hm : m ∈ s.live)
    (hnum : 1 ≤ m'.num)
    (habs : ∀ t < m'.num, s.vm.Absent m'.window.table (m'.index + t)) : m'.Apart m := by
  intro hw
  by_contra hover
  obtain ⟨hover, hover'⟩ := not_or.mp hover
  have hgood := (hs.good m hm).num
  -- the larger of the two first entries belongs to both
  obtain ⟨k, t, hk, ht, heq⟩ : ∃ k t, k < m.num ∧ t < m'.num ∧ m.index + k = m'.index + t := by
    rcases Nat.le_total m.index m'.index with hle | hle
    · exact ⟨m'.index - m.index, 0, by omega, by omega, by omega⟩
    · exact ⟨0, m.index - m'.index, by omega, by omega, by omega⟩
  have hpresent := mapped_present m.window m.frame (hs.good m hm).flags k
  rw [← hs.entries m hm k hk, heq, ← hw] at hpresent
  exact hpresent (habs t ht)

/-- A mapping call that maps. -/
theorem Windows.Inv.map {s : Windows} (hs : s.Inv) {m : Mapping} {vm : Vm} (hm : m.Good)
    (habs : ∀ t < m.num, s.vm.Absent m.window.table (m.index + t))
    (hframe : s.vm.Frame vm m.window m.index m.num)
    (hget : ∀ t < m.num, vm.get m.window.table (m.index + t) = mapped m.window m.frame m.flags t) :
    Windows.Inv ⟨vm, m :: s.live⟩ := by
  have hapart : ∀ m' ∈ s.live, m.Apart m' := fun m' hm' => hs.apart_of_absent hm' hm.num habs
  have hhi := Nat.le_trans hm.hi m.window.hi_le
  refine ⟨fun m' hm' => ?_, List.pairwise_cons.mpr ⟨hapart, hs.apart⟩, fun m' hm' k hk => ?_,
    fun w i hlo hi hcov => ?_⟩
  · rcases List.mem_cons.mp hm' with rfl | hm'
    · exact hm
    · exact hs.good m' hm'
  · rcases List.mem_cons.mp hm' with rfl | hm'
    · exact hget k hk
    · have hhi' := Nat.le_trans (hs.good m' hm').hi m'.window.hi_le
      rw [hframe.get hhi (by omega) fun hw => by have := hapart m' hm' hw.symm; omega]
      exact hs.entries m' hm' k hk
  · have hout : w = m.window → i < m.index ∨ m.index + m.num ≤ i := by
      intro hw
      have := hcov m List.mem_cons_self
      simp only [Mapping.Covers, hw, true_and] at this
      omega
    rw [hframe.get hhi (Nat.lt_of_lt_of_le hi w.hi_le) hout]
    exact hs.unused w i hlo hi fun m' hm' => hcov m' (List.mem_cons_of_mem m hm')

/-- An unmapping call. -/
theorem Windows.Inv.unmap {vm vm' : Vm} {before after : List Mapping} {m : Mapping}
    (hs : Windows.Inv ⟨vm, before ++ m :: after⟩) (hcleared : Cleared vm vm' m.window m.index m.num) :
    Windows.Inv ⟨vm', before ++ after⟩ := by
  obtain ⟨hframe, hzero⟩ := hcleared
  have hsub : ∀ m' ∈ before ++ after, m' ∈ before ++ m :: after := by
    intro m' hm'
    simp only [List.mem_append, List.mem_cons] at hm' ⊢
    tauto
  have hperm : (before ++ m :: after).Perm (m :: (before ++ after)) := List.perm_middle
  obtain ⟨hapart, hrest⟩ := List.pairwise_cons.mp
    ((hperm.pairwise_iff fun h => Mapping.Apart.symm h).mp hs.apart)
  have hm := hs.good m (by simp)
  have hhi := Nat.le_trans hm.hi m.window.hi_le
  refine ⟨fun m' hm' => hs.good m' (hsub m' hm'), hrest, fun m' hm' k hk => ?_,
    fun w i hlo hi hcov => ?_⟩
  · have hhi' := Nat.le_trans (hs.good m' (hsub m' hm')).hi m'.window.hi_le
    rw [hframe.get hhi (by omega) fun hw => by have := hapart m' hm' hw.symm; omega]
    exact hs.entries m' (hsub m' hm') k hk
  · by_cases hin : m.Covers w i
    · obtain ⟨rfl, hle, hlt⟩ := hin
      have := hzero (i - m.index) (by omega)
      rwa [Nat.add_sub_cancel' hle] at this
    · have hout : w = m.window → i < m.index ∨ m.index + m.num ≤ i := by
        intro hw
        simp only [Mapping.Covers, hw, true_and] at hin
        omega
      rw [hframe.get hhi (Nat.lt_of_lt_of_le hi w.hi_le) hout]
      refine hs.unused w i hlo hi fun m' hm' => ?_
      rcases List.mem_cons.mp (hperm.mem_iff.mp hm') with rfl | hm'
      · exact hin
      · exact hcov m' hm'

/-- Every call keeps the invariant. -/
theorem mappingStep_inv {s s' : Windows} {c : MappingCall} (hs : s.Inv) (h : MappingStep s c s') :
    s'.Inv := by
  cases h with
  | @mapped _ c va vm hv hexec hne =>
    obtain ⟨r, hr, hout⟩ := MapCall.exec_spec hv s.vm
    obtain rfl := Except.ok.inj (hexec.symm.trans hr)
    obtain ⟨hnum, hflags⟩ := hv.num_flags
    rcases hout with heq | ⟨k, vm', heq, hlo, hhi, habs, hframe, hget⟩
    · cases heq
      exact absurd rfl hne
    · obtain ⟨rfl, rfl⟩ := Prod.mk.inj heq
      have hindex : (c.mapping (c.window.va k)).index = k :=
        Window.entryIndex_va _ (show k < c.window.hi by omega)
      have hgood : (c.mapping (c.window.va k)).Good :=
        ⟨by rw [hindex]; exact hlo, by rw [hindex]; exact hhi, by rw [hindex]; rfl, hnum, hflags⟩
      refine hs.map hgood ?_ ?_ ?_ <;> rw [hindex]
      · exact habs
      · exact hframe
      · exact hget
  | @refused _ c vm hv hexec =>
    obtain ⟨r, hr, hout⟩ := MapCall.exec_spec hv s.vm
    obtain rfl := Except.ok.inj (hexec.symm.trans hr)
    rcases hout with heq | ⟨k, vm', heq, hlo, _⟩
    · cases heq
      exact hs
    · exact absurd (Prod.mk.inj heq).1 (Nat.ne_of_lt (Window.va_pos _ hlo))
  | @unmapped vm before after m c r hnames hexec =>
    obtain ⟨hw, hva, hnum⟩ := hnames
    have hm := hs.good m (by simp)
    obtain ⟨r', hr, hout⟩ := c.exec_spec vm (i := m.index) (by rw [← hva, ← hw, ← hm.va])
      (hw ▸ hm.lo) (hnum ▸ hm.num) (hnum ▸ hw ▸ hm.hi)
    obtain rfl := Except.ok.inj (hexec.symm.trans hr)
    rw [← hw, ← hva, ← hnum] at hout
    exact hs.unmap hout

theorem runs_mappings_inv {vm₀ vm : Vm} (h : vmInit vm₀ = .ok vm) {tr : List MappingCall}
    {s : Windows} (hrun : Runs MappingStep ⟨vm, []⟩ tr s) : s.Inv :=
  hrun.invariant (fun _ _ _ hs hstep => mappingStep_inv hs hstep) (Windows.Inv.init h)

/-! ## What the invariant says about addresses -/

/-- The first address of a window. -/
def Window.start : Window → Nat
  | .page => kernelMappingBase
  | .largePage => lgPgBase

/-- The address after the last one of a window. -/
def Window.stop : Window → Nat
  | .page => kernelMappingBase + 0x200000
  | .largePage => lgPgLimit

/-- The address after the last one of a mapping. -/
def Mapping.stop (m : Mapping) : Nat := m.va + m.num * m.window.size

/-- The entry of an address of a window, found as the functions of `vm.c` find it. -/
def Vm.entryOf (s : Vm) (w : Window) (va : Nat) : Exec (BitVec 64) := do
  let table ← getPagingStructVaddr (BitVec.ofNat 64 va) w.level
  return s.get table (entryIndex va w.bits)

theorem Vm.entryOf_va (s : Vm) (w : Window) {i : Nat} (hlo : w.lo ≤ i) (hhi : i < w.hi) :
    s.entryOf w (w.va i) = .ok (s.get w.table i) := by
  unfold Vm.entryOf
  rw [w.getPagingStructVaddr_va hlo hhi, w.entryIndex_va hhi, Exec.ok_bind]
  rfl

/-- The addresses of the pages from `lo` to `hi` fill the window. -/
theorem Window.start_stop (w : Window) : w.va w.lo = w.start ∧ w.va w.hi = w.stop := by
  cases w <;> decide

/-- Page addresses keep the order of the entries. -/
theorem Window.va_le_va (w : Window) {i j : Nat} (h : i ≤ j) : w.va i ≤ w.va j := by
  rw [va_eq, va_eq]
  exact Nat.add_le_add_left (Nat.mul_le_mul_right _ h) _

theorem Mapping.Good.stop_eq {m : Mapping} (h : m.Good) :
    m.stop = m.window.va (m.index + m.num) := by
  rw [Mapping.stop, Window.va_add, ← h.va]

/-- A mapping lies inside its window. -/
theorem Mapping.Good.inside {m : Mapping} (h : m.Good) :
    m.window.start ≤ m.va ∧ m.stop ≤ m.window.stop := by
  obtain ⟨hstart, hstop⟩ := m.window.start_stop
  rw [h.stop_eq, h.va, ← hstart, ← hstop]
  exact ⟨m.window.va_le_va h.lo, m.window.va_le_va h.hi⟩

/-- Mappings with different entries have different addresses. -/
theorem Mapping.Good.disjoint {m m' : Mapping} (h : m.Good) (h' : m'.Good) (hapart : m.Apart m') :
    m.stop ≤ m'.va ∨ m'.stop ≤ m.va := by
  by_cases hw : m.window = m'.window
  · rw [h.stop_eq, h'.stop_eq, h.va, h'.va, ← hw]
    exact (hapart hw).imp (m.window.va_le_va ·) (m.window.va_le_va ·)
  · obtain ⟨hlo, hhi⟩ := h.inside
    obtain ⟨hlo', hhi'⟩ := h'.inside
    have hends : m.window.stop ≤ m'.window.start ∨ m'.window.stop ≤ m.window.start := by
      generalize m.window = w at hw
      generalize m'.window = w' at hw
      cases w <;> cases w' <;> first | exact absurd rfl hw | decide
    omega

/-- **The live mappings hold.** At every point of every run from the state `vm_init` leaves: every
live mapping lies inside its window; no two overlap; each page of a live mapping has the entry it
was created with; every entry of a window whose page belongs to no live mapping is 0; and a
mapping call returns, without having changed anything if it returns `NULL`. -/
theorem live_mappings_hold {vm₀ vm : Vm} (h : vmInit vm₀ = .ok vm) {tr : List MappingCall}
    {s : Windows} (hrun : Runs MappingStep ⟨vm, []⟩ tr s) :
    (∀ m ∈ s.live, m.window.start ≤ m.va ∧ m.stop ≤ m.window.stop) ∧
      (s.live.Pairwise fun m m' => m.stop ≤ m'.va ∨ m'.stop ≤ m.va) ∧
      (∀ m ∈ s.live, ∀ k < m.num, s.vm.entryOf m.window (m.va + k * m.window.size) =
        .ok ((m.frame + BitVec.ofNat 64 (k * m.window.size)) ||| m.flags)) ∧
      (∀ (w : Window) (i : Nat), w.lo ≤ i → i < w.hi →
        (∀ m ∈ s.live, ¬ (m.va ≤ w.va i ∧ w.va i < m.stop)) →
        s.vm.entryOf w (w.va i) = .ok 0#64) ∧
      ∀ c : MapCall, c.Valid → ∃ r, c.exec s.vm = .ok r ∧ (r.1 = 0 → r.2 = s.vm) := by
  have hs := runs_mappings_inv h hrun
  refine ⟨fun m hm => (hs.good m hm).inside, ?_, fun m hm k hk => ?_, fun w i hlo hhi hout => ?_,
    fun c hc => ?_⟩
  · refine hs.apart.imp_of_mem fun hm hm' hapart => ?_
    exact (hs.good _ hm).disjoint (hs.good _ hm') hapart
  · have hm' := hs.good m hm
    have hhi := hm'.hi
    have hlo := hm'.lo
    rw [hm'.va, ← Window.va_add, s.vm.entryOf_va m.window (by omega) (by omega), hs.entries m hm k hk]
    rfl
  · rw [s.vm.entryOf_va w hlo hhi, hs.unused w i hlo hhi fun m hm hcov => hout m hm ?_]
    obtain ⟨rfl, hle, hlt⟩ := hcov
    have hm' := hs.good m hm
    have hnext := m.window.va_le_va (show i + 1 ≤ m.index + m.num from hlt)
    have hsize : 0 < m.window.size := by cases m.window <;> decide
    rw [Window.va_add] at hnext
    rw [hm'.stop_eq, hm'.va]
    exact ⟨m.window.va_le_va hle, by omega⟩
  · obtain ⟨r, hr, hout⟩ := MapCall.exec_spec hc s.vm
    refine ⟨r, hr, fun hz => ?_⟩
    rcases hout with rfl | ⟨k, vm', rfl, hlo, _⟩
    · rfl
    · exact absurd hz.symm (Nat.ne_of_lt (Window.va_pos _ hlo))

/-- Page tables in which every entry is present. -/
def allPresent : Vm := ⟨fun _ => 1#64, .boot⟩

/-- Two frames mapped right after `vm_init`: the mapping is live at the start of the 4KB window, and
its second page has the entry of the second frame. -/
theorem live_mappings_hold_two_pages : ∃ vm s, vmInit allPresent = .ok vm ∧
    Runs MappingStep ⟨vm, []⟩ [.map (.pages 0x5000#64 2 1#64)] s ∧
    s.vm.entryOf .page 0xA01000 = .ok 0x6001#64 := by
  have hfirst : (do
      let vm ← vmInit allPresent
      vmMapPages vm 0x5000#64 2 1#64).map Prod.fst = .ok 0xA00000 := by decide +kernel
  cases hvm : vmInit allPresent with
  | error e =>
    rw [hvm] at hfirst
    cases hfirst
  | ok vm =>
    rw [hvm, Exec.ok_bind] at hfirst
    obtain ⟨vm', hmap⟩ := Exec.exists_of_map_fst hfirst
    have hrun : Runs MappingStep ⟨vm, []⟩ [.map (.pages 0x5000#64 2 1#64)] _ :=
      .single (.mapped (c := .pages 0x5000#64 2 1#64) ⟨by decide, by decide, by decide, by decide⟩ hmap
        (by decide))
    obtain ⟨_, _, hentries, _⟩ := live_mappings_hold hvm hrun
    exact ⟨vm, _, rfl, hrun, hentries _ List.mem_cons_self 1 (by decide)⟩

end Rtv.Mm
