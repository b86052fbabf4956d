import Rtv.Lib.AddressSpace
import Rtv.Mm.RoundTrip
import Rtv.Mm.PlacedPages

/-!
# The address space of the kernel

What the processor makes of addresses while the kernel runs the functions of `vm.c`, in any order.

`Kernel` is the machine with a ledger beside it: the live mappings of the two windows, and the address
space under them, which `vm_map_page_unrestricted`, `vm_map_large_page_unrestricted` and the removal
of the identity mapping change. The recursive entry is left out of it.

A run is made of calls that keep their promises (`MapCall.Valid`, `PlaceCall.Valid`, `UnmapCall.Names`).
A page is placed where nothing is mapped, and a table that is missing on the way is made of a frame that
holds no entry with `PGT_P` set (`NewTablesBlank`). `vm.c` sees to neither: it takes a large page above for
a table, and a new frame as it is, so that stale words in it become entries
(`map_unrestricted_changes_only`). Frames that are freed are no tables.

**The law** (`address_space_holds`): at every point of every run, whatever is allocated and freed in
between, the processor translates every address outside the recursive entry as the ledger says.
-/

namespace Rtv.Mm

open Rtv.Lib Rtv.Lib.PageTree

/-- An address with no entry on its walk. -/
theorem translate_none {m : Memory} {cr3 level t : Nat} {va : BitVec 64}
    (ht : hwTable m cr3 va level = some t)
    (habs : decodeEntry level (m t (hwIndex va level)) = .absent) : translate m cr3 va = none := by
  rw [← Option.not_isSome_iff_eq_none, Option.isSome_iff_exists]
  rintro ⟨pa, hpa⟩
  obtain ⟨-, k, e, htrans, -⟩ := translate_eq_some.mp hpa
  exact not_translates_of_absent ht habs htrans

/-! ## Pages of the windows -/

section Pages

variable {T : Window → Nat} {M : Machine} {s : Vm} {w : Window} {i : Nat} {va : BitVec 64}

/-- An address in a page of a window is walked like the page. -/
theorem Window.samePage (hlo : w.lo ≤ i) (hhi : i < w.hi)
    (hin : w.va i ≤ va.toNat ∧ va.toNat < w.va i + w.size) :
    SamePage w.level (BitVec.ofNat 64 (w.va i)) va ∧ Canonical va ∧
      va.toNat % pageBytes w.level = va.toNat - w.va i := by
  have hva : (BitVec.ofNat 64 (w.va i)).toNat = w.base + i * w.size := by
    rw [toNat_va hhi, va_eq]
  rw [va_eq] at hin
  have hcanon : va.toNat / 2 ^ 47 = 0 := by
    cases w
    · change i < 512 at hhi
      simp only [base, size, kernelMappingBase, pgSize] at hin
      omega
    · change i < 16 at hhi
      simp only [base, size, largePgSize] at hin
      omega
  refine ⟨fun j hj => ?_, Or.inl hcanon, ?_⟩
  · rw [Fin.ext_iff, hwIndex_val, hwIndex_val, hva]
    cases w
    · simp only [base, size, kernelMappingBase, pgSize, level] at hin hj ⊢
      interval_cases j <;> omega
    · simp only [base, size, largePgSize, level] at hin hj ⊢
      interval_cases j <;> omega
  · rw [va_eq]
    cases w
    · change va.toNat % 2 ^ 12 = _
      simp only [base, size, kernelMappingBase, pgSize] at hin ⊢
      omega
    · change va.toNat % 2 ^ 21 = _
      simp only [base, size, largePgSize] at hin ⊢
      omega

/-- The processor translates an address of a window by the entry of its page. -/
theorem Shows.translate_page (h : Shows T M s) (hlo : w.lo ≤ i) (hhi : i < w.hi)
    (hin : w.va i ≤ va.toNat ∧ va.toNat < w.va i + w.size) :
    translate M.mem M.cr3 va =
      if s.Absent w.table i then none else some (pageAddr va w.level (s.get w.table i)) := by
  obtain ⟨hsame, hcanon, -⟩ := Window.samePage hlo hhi hin
  obtain ⟨-, hindex, -⟩ := Window.hwIndex_va hlo hhi
  have htable : hwTable M.mem M.cr3 va w.level = some (T w) := by
    rw [← h.table_va hlo hhi]
    exact tableAt_congr fun j hj => hsame j (Nat.le_of_lt hj)
  have hword : M.mem (T w) (hwIndex va w.level) = s.get w.table i := by
    rw [hsame w.level le_rfl, hindex, h.entry w i hlo hhi]
  have hleaf := h.leaf w i hlo hhi
  rw [← h.entry w i hlo hhi] at hleaf
  have hlevel : w.level ≠ 0 := by cases w <;> decide
  by_cases habs : s.get w.table i &&& pgtP = 0#64
  · rw [if_pos (show s.Absent w.table i from habs)]
    apply translate_none htable
    rw [hword]
    exact decodeEntry_absent habs
  · rw [if_neg (show ¬ s.Absent w.table i from habs), translate_eq_some]
    refine ⟨hcanon, w.level, _, ⟨T w, htable, hword, ?_⟩, rfl⟩
    cases hentry : decodeEntry w.level (s.get w.table i) with
    | page => rfl
    | table t =>
      rw [hentry] at hleaf
      cases hleaf
    | absent =>
      unfold decodeEntry at hentry
      rw [if_neg habs] at hentry
      split_ifs at hentry

end Pages

/-! ## Mappings of physical memory -/

/-- A mapping of memory that is there, with flags of `vm.h`: aligned frames within the 52 bits of a
physical address. -/
structure Mapping.Plain (m : Mapping) : Prop where
  aligned : m.frame.toNat % m.window.size = 0
  fits : m.frame.toNat + m.num * m.window.size ≤ 2 ^ 52
  flags : m.flags &&& ~~~pgtBits = 0#64

/-- The region of a mapping. -/
def Mapping.region (m : Mapping) : Region := ⟨m.va, m.frame.toNat, m.num * m.window.size⟩

/-- Flags leave the address bits of an entry alone. -/
theorem or_flags_toNat {frame flags : BitVec 64} (hframe : frame.toNat % 2 ^ 12 = 0)
    (hfits : frame.toNat < 2 ^ 52) (hflags : flags &&& ~~~pgtBits = 0#64) :
    (frame ||| flags).toNat % 2 ^ 52 / 2 ^ 12 = frame.toNat / 2 ^ 12 := by
  have hlow : flags.toNat % 2 ^ 52 < 2 ^ 12 := by
    have hand := congrArg BitVec.toNat (and_of_aligned hflags)
    rw [BitVec.toNat_and] at hand
    rw [← hand, Nat.and_mod_two_pow]
    exact lt_of_le_of_lt Nat.and_le_right (by decide)
  have hshift : frame.toNat = (frame.toNat / 2 ^ 12) <<< 12 := by
    rw [Nat.shiftLeft_eq]
    omega
  rw [BitVec.toNat_or, Nat.or_mod_two_pow, Nat.mod_eq_of_lt hfits, hshift,
    ← Nat.shiftLeft_add_eq_or_of_lt hlow, Nat.shiftLeft_eq]
  omega

/-- Where an entry of an aligned frame and such flags leads. -/
theorem pageAddr_or {level : Nat} (hlevel : level ≤ 3) {frame flags : BitVec 64}
    (haligned : frame.toNat % pageBytes level = 0) (hfits : frame.toNat < 2 ^ 52)
    (hflags : flags &&& ~~~pgtBits = 0#64) (va : BitVec 64) :
    pageAddr va level (frame ||| flags) = frame.toNat + va.toNat % pageBytes level := by
  have hpage : pageBytes level % 2 ^ 12 = 0 := by interval_cases level <;> rfl
  have hlow : frame.toNat % 2 ^ 12 = 0 := Nat.mod_eq_zero_of_dvd
    ((Nat.dvd_of_mod_eq_zero hpage).trans (Nat.dvd_of_mod_eq_zero haligned))
  have hframe : entryFrame (frame ||| flags) * 2 ^ 12 = frame.toNat := by
    have hor := or_flags_toNat hlow hfits hflags
    rw [entryFrame]
    omega
  rw [pageAddr, hframe, Nat.div_mul_cancel (Nat.dvd_of_mod_eq_zero haligned)]

/-- The entries of a mapping lead to its frames. -/
theorem Mapping.Plain.pageAddr {m : Mapping} (h : m.Plain) {k : Nat} (hk : k < m.num)
    (va : BitVec 64) :
    Mm.pageAddr va m.window.level (mapped m.window m.frame m.flags k) =
      m.frame.toNat + k * m.window.size + va.toNat % pageBytes m.window.level := by
  have hbytes : pageBytes m.window.level = m.window.size := by cases m.window <;> rfl
  have hlevel : m.window.level ≤ 3 := by cases m.window <;> decide
  have hpos : 0 < m.window.size := by cases m.window <;> decide
  have hnext : (k + 1) * m.window.size ≤ m.num * m.window.size := Nat.mul_le_mul_right _ hk
  have hfits := h.fits
  rw [Nat.add_mul, Nat.one_mul] at hnext
  have hval : (m.frame + BitVec.ofNat 64 (k * m.window.size)).toNat =
      m.frame.toNat + k * m.window.size := by
    rw [BitVec.toNat_add, BitVec.toNat_ofNat, Nat.mod_eq_of_lt (show k * m.window.size < 2 ^ 64 by omega),
      Nat.mod_eq_of_lt (by omega)]
  rw [mapped, pageAddr_or hlevel ?_ (by omega) h.flags, hval]
  rw [hval, hbytes, Nat.add_mul_mod_self_right, h.aligned]

/-- A page to be placed at an address. -/
structure PlaceCall where
  func : MapUnrestricted
  frame : BitVec 64
  flags : BitVec 64
  vaddr : BitVec 64

namespace PlaceCall

/-- The bytes of the page. -/
def size (c : PlaceCall) : Nat := pageBytes c.func.level

/-- The region of the page. -/
def region (c : PlaceCall) : Region := ⟨c.vaddr.toNat, c.frame.toNat, c.size⟩

/-- The call itself. -/
def run (c : PlaceCall) : MachineM Unit := c.func.run c.frame c.flags c.vaddr

/-- What the callers promise: an aligned address outside the windows and the recursive entry, an
aligned frame, and flags of `vm.h` with `PGT_P`, and `PDT_PS` for a large page. -/
structure Valid (c : PlaceCall) : Prop where
  vaddr : c.vaddr.toNat % c.size = 0
  canonical : Canonical c.vaddr
  slot : hwIndex c.vaddr 0 ≠ 511
  outside : ¬ InWindow c.vaddr
  frame : c.frame.toNat % c.size = 0
  fits : c.frame.toNat + c.size ≤ 2 ^ 52
  flags : c.flags &&& ~~~pgtBits = 0#64
  present : c.flags &&& pgtP ≠ 0#64
  large : c.func = .largePage → c.flags &&& pdtPs ≠ 0#64

variable {c : PlaceCall} {va : BitVec 64}

/-- The entry of the page is a page. -/
theorem Valid.page (h : c.Valid) : decodeEntry c.func.level (c.frame ||| c.flags) = .page := by
  have hor : ∀ bit : BitVec 64, c.flags &&& bit ≠ 0#64 → (c.frame ||| c.flags) &&& bit ≠ 0#64 := by
    intro bit hbit
    rw [BitVec.and_or_distrib_right]
    exact fun hzero => hbit (BitVec.or_eq_zero_iff.mp hzero).2
  unfold decodeEntry
  rw [if_neg (hor _ h.present)]
  cases hfunc : c.func with
  | page => rfl
  | largePage =>
    rw [if_neg (hor _ (h.large hfunc))]
    rfl

/-- The addresses of the page are those that the processor walks like the first one. -/
theorem Valid.samePage_iff (h : c.Valid) (hcanon : Canonical va) :
    SamePage c.func.level c.vaddr va ↔ c.region.Has va.toNat := by
  have haligned := h.vaddr
  have hcanonical := h.canonical
  have hlt := c.vaddr.isLt
  have hlt' := va.isLt
  unfold Canonical at hcanon hcanonical
  unfold Region.Has region size at *
  dsimp only
  constructor
  · intro hsame
    have hindex : ∀ j ≤ c.func.level, va.toNat / 2 ^ (39 - 9 * j) % 512 =
        c.vaddr.toNat / 2 ^ (39 - 9 * j) % 512 := by
      intro j hj
      have hval := Fin.ext_iff.mp (hsame j hj)
      rwa [hwIndex_val, hwIndex_val] at hval
    have h0 := hindex 0 (Nat.zero_le _)
    cases hfunc : c.func with
    | page =>
      rw [hfunc] at hindex haligned
      have h1 := hindex 1 (by decide)
      have h2 := hindex 2 (by decide)
      have h3 := hindex 3 (by decide)
      simp only [MapUnrestricted.level, pageBytes] at *
      omega
    | largePage =>
      rw [hfunc] at hindex haligned
      have h1 := hindex 1 (by decide)
      have h2 := hindex 2 (by decide)
      simp only [MapUnrestricted.level, pageBytes] at *
      omega
  · rintro ⟨hle, hlt⟩ j hj
    rw [Fin.ext_iff, hwIndex_val, hwIndex_val]
    cases hfunc : c.func with
    | page =>
      rw [hfunc] at hj hlt haligned
      simp only [MapUnrestricted.level, pageBytes] at hj hlt haligned
      interval_cases j <;> omega
    | largePage =>
      rw [hfunc] at hj hlt haligned
      simp only [MapUnrestricted.level, pageBytes] at hj hlt haligned
      interval_cases j <;> omega

/-- The whole page is outside the windows. -/
theorem Valid.not_inWindow (h : c.Valid) (hin : c.region.Has va.toNat) : ¬ InWindow va := by
  rintro ⟨w, hlo, hhi⟩
  refine h.outside ⟨w, ?_⟩
  have haligned := h.vaddr
  have hstart : w.start % 0x200000 = 0 := by cases w <;> rfl
  have hsize : c.size = 0x1000 ∨ c.size = 0x200000 := by
    unfold size
    cases c.func
    · exact Or.inl rfl
    · exact Or.inr rfl
  have hle : c.vaddr.toNat ≤ va.toNat := hin.1
  have hlt : va.toNat < c.vaddr.toNat + c.size := hin.2
  rcases hsize with hsize | hsize <;> rw [hsize] at haligned hlt <;> omega

end PlaceCall

/-! ## The kernel -/

/-- The machine, the live mappings of the windows, and the address space under them. -/
structure Kernel where
  machine : Machine
  live : List Mapping
  base : AddressSpace

/-- Where the ledger says an address leads. -/
def Kernel.space (s : Kernel) : AddressSpace := s.base.overlay (s.live.map Mapping.region)

/-- The first 2MB, which the tables of `boot.S` map to themselves. -/
def identity : Region := ⟨0, 0, 0x200000⟩

/-- `*((uint64_t *) 0xFFFFFFFFC0000000) = 0` in `kernel_main`. -/
def removeIdentity : MachineM Unit := writeEntry 0xFFFFFFFFC0000000#64 0 0#64

/-- A label of a run. -/
inductive KernelCall where
  | map (call : MapCall)
  | unmap (call : UnmapCall)
  | place (call : PlaceCall)
  | alloc (call : AllocCall)
  | free (call : FreeCall)
  | removeIdentity

/-- A call of the allocator leaves it alone, or marks frames taken. -/
theorem AllocCall.Valid.allocates {c : AllocCall} (hv : c.Valid) {s : Physical}
    {r : Nat × Physical} (h : c.exec s = .ok r) :
    r.2 = s ∨ ∃ page num, Marked s r.2 page num false := by
  rcases AllocCall.exec_spec hv h with rfl | ⟨page, -, -, -, hmark⟩
  · exact Or.inl rfl
  · exact Or.inr ⟨page, c.num, hmark⟩

/-- No frame of a call is a table. -/
def FreeCall.NoTable (c : FreeCall) (M : Machine) : Prop :=
  ∀ (w : Nat → Fin 512) k t, w 0 ≠ 511 → tableAt decodeEntry M.mem M.cr3 w k = some t →
    t ∉ framesAt c.addr c.num

/-- One call that returns. A page is placed where nothing is mapped, with blank frames for its tables, which
is assumed here and not seen to by the code. -/
inductive KernelStep : Kernel → KernelCall → Kernel → Prop
  | mapped {s : Kernel} {c : MapCall} {va : Nat} {M : Machine} :
      c.Valid → (c.mapping va).Plain → c.onTables s.machine = .ok va M → va ≠ 0 →
      KernelStep s (.map c) ⟨M, c.mapping va :: s.live, s.base⟩
  | refused {s : Kernel} {c : MapCall} {M : Machine} :
      c.Valid → c.onTables s.machine = .ok 0 M → KernelStep s (.map c) ⟨M, s.live, s.base⟩
  | unmapped {M M' : Machine} {base : AddressSpace} {before after : List Mapping} {m : Mapping}
      {c : UnmapCall} {frame : BitVec 64} :
      c.Names m → c.onTables M = .ok frame M' →
      KernelStep ⟨M, before ++ m :: after, base⟩ (.unmap c) ⟨M', before ++ after, base⟩
  | placed {s : Kernel} {c : PlaceCall} {M : Machine} :
      c.Valid → s.space c.vaddr.toNat = none → NewTablesBlank s.machine c.vaddr 0 c.func.level →
      c.run s.machine = .ok () M → KernelStep s (.place c) ⟨M, s.live, s.base.map c.region⟩
  | allocated {s : Kernel} {c : AllocCall} {r : Nat × Physical} :
      c.Valid → c.exec s.machine.phys = .ok r →
      KernelStep s (.alloc c) ⟨{ s.machine with phys := r.2 }, s.live, s.base⟩
  | freed {s : Kernel} {c : FreeCall} {phys : Physical} :
      c.NoTable s.machine → c.exec s.machine.phys = .ok phys →
      KernelStep s (.free c) ⟨{ s.machine with phys }, s.live, s.base⟩
  | identityRemoved {s : Kernel} {M : Machine} :
      removeIdentity s.machine = .ok () M →
      KernelStep s .removeIdentity ⟨M, s.live, s.base.unmap identity⟩

/-- The tables show the live mappings, and outside the windows the space of the ledger. -/
structure Kernel.Inv (T : Window → Nat) (s : Kernel) : Prop where
  windows : ∃ vm, Shows T s.machine vm ∧ Windows.Inv ⟨vm, s.live⟩
  plain : ∀ m ∈ s.live, m.Plain
  unused : ∀ va : BitVec 64, InWindow va → s.base va.toNat = none
  outside : ∀ va, Canonical va → hwIndex va 0 ≠ 511 → ¬ InWindow va →
    translate s.machine.mem s.machine.cr3 va = s.base va.toNat

/-- An address of a window lies in one of its pages. -/
theorem Window.exists_page {w : Window} {a : Nat} (hlo : w.start ≤ a) (hhi : a < w.stop) :
    ∃ i, w.lo ≤ i ∧ i < w.hi ∧ w.va i ≤ a ∧ a < w.va i + w.size := by
  refine ⟨(a - w.base) / w.size, ?_⟩
  rw [va_eq]
  cases w
  · change 0xA00000 ≤ a at hlo
    change a < 0xA00000 + 0x200000 at hhi
    change 0 ≤ (a - 0xA00000) / 0x1000 ∧ (a - 0xA00000) / 0x1000 < 512 ∧
      0xA00000 + (a - 0xA00000) / 0x1000 * 0x1000 ≤ a ∧
      a < 0xA00000 + (a - 0xA00000) / 0x1000 * 0x1000 + 0x1000
    omega
  · change 0xC00000 ≤ a at hlo
    change a < 0x2000000 at hhi
    change 6 ≤ (a - 0) / 0x200000 ∧ (a - 0) / 0x200000 < 16 ∧
      0 + (a - 0) / 0x200000 * 0x200000 ≤ a ∧
      a < 0 + (a - 0) / 0x200000 * 0x200000 + 0x200000
    omega

/-- The windows have no address in common. -/
theorem Window.eq_of_mem {w w' : Window} {a : Nat} (h : w.start ≤ a ∧ a < w.stop)
    (h' : w'.start ≤ a ∧ a < w'.stop) : w = w' := by
  by_contra hne
  have hends : w.stop ≤ w'.start ∨ w'.stop ≤ w.start := by
    cases w <;> cases w' <;> first | exact absurd rfl hne | decide
  omega

/-- The regions of live mappings do not meet. -/
theorem Windows.Inv.regions_apart {s : Windows} (h : s.Inv) :
    (s.live.map Mapping.region).Pairwise Region.Apart := by
  rw [List.pairwise_map]
  exact h.apart.imp_of_mem fun hm hm' hapart => (h.good _ hm).disjoint (h.good _ hm') hapart

/-- An address in the region of a good mapping is in its window. -/
theorem Mapping.Good.inWindow {m : Mapping} (h : m.Good) {va : BitVec 64}
    (hin : m.region.Has va.toNat) : InWindow va := by
  obtain ⟨hlo, hhi⟩ := h.inside
  exact ⟨m.window, hlo.trans hin.1, lt_of_lt_of_le hin.2 hhi⟩

/-- A mapping with an address of a page of a window covers the page. -/
theorem Mapping.Good.covers {m : Mapping} (h : m.Good) {w : Window} {i a : Nat} (hlo : w.lo ≤ i)
    (hhi : i < w.hi) (hpage : w.va i ≤ a ∧ a < w.va i + w.size) (hin : m.region.Has a) :
    m.Covers w i := by
  have hin' : m.va ≤ a ∧ a < m.stop := hin
  have hw : m.window = w := by
    obtain ⟨hstart, hstop⟩ := w.start_stop
    have hfirst := w.va_le_va hlo
    have hlast := w.va_le_va (Nat.succ_le_of_lt hhi)
    have hnext := w.va_add i 1
    have hinside := h.inside
    rw [hstart] at hfirst
    rw [hstop, hnext, Nat.one_mul] at hlast
    exact Window.eq_of_mem ⟨hinside.1.trans hin'.1, lt_of_lt_of_le hin'.2 hinside.2⟩
      ⟨hfirst.trans hpage.1, lt_of_lt_of_le hpage.2 hlast⟩
  subst hw
  have hpos : 0 < m.window.size := by cases m.window <;> decide
  rw [h.va, h.stop_eq, Window.va_eq, Window.va_eq] at hin'
  rw [Window.va_eq] at hpage
  refine ⟨rfl, Nat.lt_succ_iff.mp (Nat.lt_of_mul_lt_mul_right (a := m.window.size) ?_),
    Nat.lt_of_mul_lt_mul_right (a := m.window.size) ?_⟩
  · rw [Nat.succ_mul]
    omega
  · omega

/-- The addresses of the identity mapping are those that the processor walks like 0. -/
theorem identity_has_iff {va : BitVec 64} (hcanon : Canonical va) :
    (∀ j ≤ 2, hwIndex va j = hwIndex 0#64 j) ↔ identity.Has va.toNat := by
  unfold Canonical at hcanon
  have hlt := va.isLt
  simp only [Fin.ext_iff, hwIndex_val]
  change _ ↔ 0 ≤ va.toNat ∧ va.toNat < 0 + 0x200000
  constructor
  · intro hindex
    have h0 := hindex 0 (by decide)
    have h1 := hindex 1 (by decide)
    have h2 := hindex 2 (by decide)
    simp only [BitVec.toNat_ofNat] at h0 h1 h2
    omega
  · rintro ⟨-, hva⟩ j hj
    interval_cases j <;> simp only [BitVec.toNat_ofNat] <;> omega

/-- The write that removes the identity mapping. -/
theorem Shows.removeIdentity {T : Window → Nat} {M M' : Machine} {vm : Vm} (h : Shows T M vm)
    (hrun : Mm.removeIdentity M = .ok () M') :
    Shows T M' vm ∧ ∀ va, Canonical va → hwIndex va 0 ≠ 511 →
      (identity.Has va.toNat → ∀ k e, ¬ M'.Leaf va k e) ∧
      (¬ identity.Has va.toNat → SameWalk decodeEntry M.mem M.cr3 M'.mem M'.cr3 (hwIndex va)) := by
  have hslot : hwIndex 0#64 0 ≠ 511 := by decide
  have ht : hwTable M.mem M.cr3 0#64 2 = some (T .largePage) := by
    rw [← h.table .largePage]
    apply tableAt_congr
    intro j hj
    have hj : j < 2 := hj
    interval_cases j <;> rfl
  obtain ⟨table, htable, -, hwrite⟩ := access_shown h.tree.self (by decide) (shown_table ht)
  obtain rfl : table = 0xFFFFFFFFC0000000#64 := by
    have heval : getPagingStructVaddr 0#64 2 = .ok 0xFFFFFFFFC0000000#64 := by rfl
    rw [pagingStruct, heval] at htable
    cases htable
    rfl
  have hrun' : _ = EStateM.Result.ok () M' := (hwrite 0#64 M.phys).symm.trans hrun
  cases hrun'
  have hword : ∀ (w : Window) i, w.lo ≤ i → i < w.hi →
      M.mem.set (T .largePage) (hwIndex 0#64 2) 0#64 (T w) (Fin.ofNat 512 i) =
        M.mem (T w) (Fin.ofNat 512 i) := by
    intro w i hlo hhi
    apply set_of_ne
    by_cases hw : T w = T .largePage
    · obtain rfl := h.table_inj hw
      change 6 ≤ i at hlo
      change i < 16 at hhi
      have hzero : hwIndex 0#64 2 = 0 := by rfl
      refine Or.inr fun hi => ?_
      rw [hzero, Fin.ext_iff, Fin.val_ofNat, Nat.mod_eq_of_lt (by omega)] at hi
      exact absurd hi (by change ¬ i = 0; omega)
    · exact Or.inl hw
  refine ⟨⟨h.tree.clear hslot (by decide) ht, ?_, ?_, ?_, h.phys⟩, ?_⟩
  · intro w
    have hzero : hwIndex (BitVec.ofNat 64 w.start) 0 ≠ 511 := by cases w <;> decide
    refine (tableAt_set h.tree.own hslot hzero ht ?_).trans (h.table w)
    rintro ⟨-, hsame⟩
    have htwo := hsame 2 le_rfl
    revert htwo
    cases w <;> decide
  · intro w i hlo hhi
    dsimp only
    rw [hword w i hlo hhi]
    exact h.leaf w i hlo hhi
  · intro w i hlo hhi
    dsimp only
    rw [hword w i hlo hhi]
    exact h.entry w i hlo hhi
  · intro va hcanon hva
    rw [← identity_has_iff hcanon]
    exact ⟨fun hsame k e => not_translates_cleared h.tree.own hslot hva ht hsame
      (decodeEntry_absent (by decide)), sameWalk_set h.tree.own hslot hva ht⟩

/-- A call that names a live mapping is for pages of its window. -/
theorem UnmapCall.Names.page {c : UnmapCall} {m : Mapping} (h : c.Names m) (hm : m.Good) :
    c.va = c.window.va m.index ∧ c.window.lo ≤ m.index ∧ 1 ≤ c.num ∧
      m.index + c.num ≤ c.window.hi := by
  obtain ⟨hw, hva, hnum⟩ := h
  exact ⟨by rw [← hva, ← hw, ← hm.va], hw ▸ hm.lo, hnum ▸ hm.num, hnum ▸ hw ▸ hm.hi⟩

namespace Kernel

variable {T : Window → Nat} {s s' : Kernel}

/-- Outside the windows the ledger is the address space under them. -/
theorem Inv.space_outside (h : s.Inv T) {va : BitVec 64} (hin : ¬ InWindow va) :
    s.space va.toNat = s.base va.toNat := by
  obtain ⟨vm, -, hlive⟩ := h.windows
  apply AddressSpace.overlay_of_not_mem
  intro r hr hhas
  obtain ⟨m, hm, rfl⟩ := List.mem_map.mp hr
  exact hin ((hlive.good m hm).inWindow hhas)

/-- **The tables agree with the ledger.** -/
theorem Inv.translate (h : s.Inv T) {va : BitVec 64} (hcanon : Canonical va)
    (hslot : hwIndex va 0 ≠ 511) :
    translate s.machine.mem s.machine.cr3 va = s.space va.toNat := by
  obtain ⟨vm, hshows, hlive⟩ := h.windows
  by_cases hin : InWindow va
  · obtain ⟨w, hlo, hhi⟩ := hin
    obtain ⟨i, hlo', hhi', hpage⟩ := Window.exists_page hlo hhi
    rw [hshows.translate_page hlo' hhi' hpage]
    by_cases hcov : ∃ m ∈ s.live, m.Covers w i
    · obtain ⟨m, hm, rfl, hle, hlt⟩ := hcov
      have hgood := hlive.good m hm
      obtain ⟨k, rfl⟩ := Nat.exists_eq_add_of_le hle
      have hk : k < m.num := by omega
      have hentry : vm.get m.window.table (m.index + k) = mapped m.window m.frame m.flags k :=
        hlive.entries m hm k hk
      have hoffset := (Window.samePage hlo' hhi' hpage).2.2
      rw [Window.va_add, ← hgood.va] at hpage hoffset
      have hnext : (k + 1) * m.window.size ≤ m.num * m.window.size := Nat.mul_le_mul_right _ hk
      rw [Nat.add_mul, Nat.one_mul] at hnext
      have hhas : m.region.Has va.toNat := by
        change m.va ≤ va.toNat ∧ va.toNat < m.va + m.num * m.window.size
        omega
      have hpresent : ¬ vm.Absent m.window.table (m.index + k) := by
        rw [Vm.Absent, hentry]
        exact mapped_present m.window m.frame hgood.flags k
      rw [if_neg hpresent, hentry, (h.plain m hm).pageAddr hk, hoffset, space,
        AddressSpace.overlay_mem hlive.regions_apart (List.mem_map_of_mem hm) hhas]
      change some (m.frame.toNat + k * m.window.size + _) = some (m.frame.toNat + (va.toNat - m.va))
      congr 1
      omega
    · have hzero : vm.get w.table i = 0#64 :=
        hlive.unused w i hlo' hhi' fun m hm hc => hcov ⟨m, hm, hc⟩
      have habs : vm.Absent w.table i := by
        rw [Vm.Absent, hzero]
        rfl
      rw [if_pos habs, space, AddressSpace.overlay_of_not_mem ?_, h.unused va ⟨w, hlo, hhi⟩]
      intro r hr hhas
      obtain ⟨m, hm, rfl⟩ := List.mem_map.mp hr
      exact hcov ⟨m, hm, (hlive.good m hm).covers hlo' hhi' hpage hhas⟩
  · rw [h.outside va hcanon hslot hin, h.space_outside hin]

/-- A call on the windows. -/
theorem Inv.window (h : s.Inv T) {M : Machine} {vm : Vm} {live : List Mapping}
    (hshows : Shows T M vm) (hout : SameOutside s.machine M) (hlive : Windows.Inv ⟨vm, live⟩)
    (hplain : ∀ m ∈ live, m.Plain) : Kernel.Inv T ⟨M, live, s.base⟩ where
  windows := ⟨vm, hshows, hlive⟩
  plain := hplain
  unused := h.unused
  outside va hcanon hslot hin := by
    rw [← h.outside va hcanon hslot hin]
    exact translate_congr fun k e => (hout va hcanon hslot hin).translates

/-- A mapping call. -/
theorem Inv.map (h : s.Inv T) {c : MapCall} (hv : c.Valid) {va : Nat} {M : Machine}
    (hrun : c.onTables s.machine = .ok va M) :
    ∃ vm vm', Shows T s.machine vm ∧ Windows.Inv ⟨vm, s.live⟩ ∧ c.exec vm = .ok (va, vm') ∧
      Shows T M vm' ∧ SameOutside s.machine M := by
  obtain ⟨vm, hshows, hlive⟩ := h.windows
  obtain ⟨⟨va', vm'⟩, hexec, -⟩ := MapCall.exec_spec hv vm
  obtain ⟨M', hfollows, hshows', hout⟩ := MapCall.follows hv hshows va' vm' hexec
  rw [hrun] at hfollows
  cases hfollows
  exact ⟨vm, vm', hshows, hlive, hexec, hshows', hout⟩

/-- A mapping call is a step, whether it finds a page or not. -/
theorem Inv.exists_map (h : s.Inv T) {c : MapCall} (hv : c.Valid) (hplain : ∀ va, (c.mapping va).Plain) :
    ∃ vm va vm' s', Windows.Inv ⟨vm, s.live⟩ ∧ c.exec vm = .ok (va, vm') ∧ KernelStep s (.map c) s' ∧
      s'.base = s.base ∧ s'.machine.phys = s.machine.phys ∧
      s'.live = if va = 0 then s.live else c.mapping va :: s.live := by
  obtain ⟨vm, hshows, hlive⟩ := h.windows
  obtain ⟨⟨va, vm'⟩, hexec, hout⟩ := MapCall.exec_spec hv vm
  obtain ⟨M', hrun, hshows', -⟩ := MapCall.follows hv hshows va vm' hexec
  have hphys : M'.phys = s.machine.phys := by
    rw [← hshows'.phys, ← hshows.phys]
    rcases hout with heq | ⟨k, vm'', heq, -, -, -, hframe, -⟩
    · cases heq
      rfl
    · cases heq
      exact hframe.1
  by_cases hzero : va = 0
  · subst hzero
    exact ⟨vm, 0, vm', _, hlive, hexec, .refused hv hrun, rfl, hphys, rfl⟩
  · exact ⟨vm, va, vm', _, hlive, hexec, .mapped hv (hplain va) hrun hzero, rfl, hphys,
      (if_neg hzero).symm⟩

/-- An unmapping call. -/
theorem Inv.unmap {M M' : Machine} {base : AddressSpace} {before after : List Mapping} {m : Mapping}
    (h : Kernel.Inv T ⟨M, before ++ m :: after, base⟩) {c : UnmapCall} (hnames : c.Names m)
    {frame : BitVec 64} (hrun : c.onTables M = .ok frame M') :
    ∃ vm, Windows.Inv ⟨vm, before ++ after⟩ ∧ Shows T M' vm ∧ SameOutside M M' := by
  obtain ⟨vm, hshows, hlive⟩ := h.windows
  have hm := hlive.good m (List.mem_append_right before List.mem_cons_self)
  obtain ⟨hpage, hlo, hpos, hhi⟩ := hnames.page hm
  obtain ⟨⟨frame', vm'⟩, hexec, -⟩ := c.exec_spec vm hpage hlo hpos hhi
  obtain ⟨M₁, hfollows, hshows', hout⟩ := c.follows hshows hpage hlo hpos hhi frame' vm' hexec
  have hrun' : c.onTables M = .ok frame M' := hrun
  rw [hrun'] at hfollows
  cases hfollows
  exact ⟨vm', mappingStep_inv hlive (.unmapped hnames hexec), hshows', hout⟩

/-- Frames that are given out or taken back. -/
theorem Inv.frames (h : s.Inv T) {phys : Physical} (hfits : phys.entryEnd ≤ mmTableMax)
    (htaken : ∀ (w : Nat → Fin 512) k t, w 0 ≠ 511 →
      tableAt decodeEntry s.machine.mem s.machine.cr3 w k = some t → ¬ phys.Free t) :
    Kernel.Inv T ⟨{ s.machine with phys }, s.live, s.base⟩ := by
  obtain ⟨vm, hshows, hlive⟩ := h.windows
  exact ⟨⟨{ vm with phys }, hshows.frames hfits htaken, hlive.good, hlive.apart, hlive.entries,
    hlive.unused⟩, h.plain, h.unused, h.outside⟩

/-- Where a page is placed nothing has been translated. -/
theorem Inv.noLargePage (h : s.Inv T) {c : PlaceCall} (hc : c.Valid)
    (hnone : s.space c.vaddr.toNat = none) : NoLargePage s.machine c.vaddr 0 c.func.level := by
  intro k t _ _ ht hpage
  have htrans := translate_eq_some.mpr ⟨hc.canonical, k, _, ⟨t, ht, rfl, hpage⟩, rfl⟩
  rw [h.translate hc.canonical hc.slot, hnone] at htrans
  cases htrans

/-- A page placed outside the windows. -/
theorem Inv.place (h : s.Inv T) {c : PlaceCall} (hc : c.Valid)
    (hnone : s.space c.vaddr.toNat = none)
    (hblank : NewTablesBlank s.machine c.vaddr 0 c.func.level) {M : Machine}
    (hrun : c.run s.machine = .ok () M) : Kernel.Inv T ⟨M, s.live, s.base.map c.region⟩ := by
  obtain ⟨vm, hshows, hlive⟩ := h.windows
  obtain ⟨hM, hkeeps, hin, hout⟩ :=
    c.func.placed hshows.tree hc.slot hc.page (h.noLargePage hc hnone) hblank hrun
  refine ⟨⟨_, hshows.keeps hkeeps hM hc.canonical hc.outside, hlive.good, hlive.apart,
    hlive.entries, hlive.unused⟩, h.plain, ?_, ?_⟩
  · intro va hwindow
    exact (AddressSpace.map_of_not_has fun hhas => hc.not_inWindow hhas hwindow).trans
      (h.unused va hwindow)
  · intro va hcanon hslot hwindow
    dsimp only
    by_cases hhas : c.region.Has va.toNat
    · have hsame := (hc.samePage_iff hcanon).mpr hhas
      have haligned := hc.vaddr
      have hframe := hc.frame
      have hfits := hc.fits
      have hlo : c.vaddr.toNat ≤ va.toNat := hhas.1
      have hhi : va.toNat < c.vaddr.toNat + c.size := hhas.2
      have hpos : 0 < c.size := by
        unfold PlaceCall.size
        cases c.func <;> decide
      have hoffset : va.toNat % c.size = va.toNat - c.vaddr.toNat := by
        obtain ⟨d, hd⟩ := Nat.exists_eq_add_of_le hlo
        rw [hd, Nat.add_mod, haligned, Nat.zero_add, Nat.mod_mod, Nat.add_sub_cancel_left]
        exact Nat.mod_eq_of_lt (by omega)
      rw [AddressSpace.map_has hhas,
        translate_eq_some.mpr ⟨hcanon, c.func.level, _, hin va hsame, rfl⟩,
        pageAddr_or c.func.level_le hframe (by omega) hc.flags]
      exact congrArg (fun n => some (c.frame.toNat + n)) hoffset
    · have hother : ¬ SamePage c.func.level c.vaddr va :=
        fun hsame => hhas ((hc.samePage_iff hcanon).mp hsame)
      rw [AddressSpace.map_of_not_has hhas, ← h.outside va hcanon hslot hwindow]
      exact translate_congr fun k e => hout va k e hslot hother

/-- The removal of the identity mapping. -/
theorem Inv.removeIdentity (h : s.Inv T) {M : Machine}
    (hrun : Mm.removeIdentity s.machine = .ok () M) :
    Kernel.Inv T ⟨M, s.live, s.base.unmap identity⟩ := by
  obtain ⟨vm, hshows, hlive⟩ := h.windows
  obtain ⟨hshows', htrans⟩ := hshows.removeIdentity hrun
  refine ⟨⟨vm, hshows', hlive⟩, h.plain, ?_, ?_⟩
  · intro va hwindow
    exact AddressSpace.unmap_of_none (h.unused va hwindow)
  · intro va hcanon hslot hwindow
    dsimp only
    obtain ⟨hin, hout⟩ := htrans va hcanon hslot
    by_cases hhas : identity.Has va.toNat
    · rw [AddressSpace.unmap_has hhas, ← Option.not_isSome_iff_eq_none, Option.isSome_iff_exists]
      rintro ⟨pa, hpa⟩
      obtain ⟨-, k, e, hleaf, -⟩ := translate_eq_some.mp hpa
      exact hin hhas k e hleaf
    · rw [AddressSpace.unmap_of_not_has hhas, ← h.outside va hcanon hslot hwindow]
      exact translate_congr fun k e => (hout hhas).translates

/-- Every call keeps the invariant. -/
theorem step_inv (h : s.Inv T) {c : KernelCall} (hstep : KernelStep s c s') : s'.Inv T := by
  cases hstep with
  | @mapped _ c va M hv hplain hrun hne =>
    obtain ⟨vm, vm', -, hlive, hexec, hshows, hout⟩ := h.map hv hrun
    have hlive' := mappingStep_inv hlive (.mapped hv hexec hne)
    refine h.window hshows hout hlive' ?_
    intro m hm
    rcases List.mem_cons.mp hm with rfl | hm
    · exact hplain
    · exact h.plain m hm
  | refused hv hrun =>
    obtain ⟨vm, vm', -, hlive, hexec, hshows, hout⟩ := h.map hv hrun
    exact h.window hshows hout (mappingStep_inv hlive (.refused hv hexec)) h.plain
  | @unmapped M M' base before after m c frame hnames hrun =>
    obtain ⟨vm, hlive, hshows, hout⟩ := h.unmap hnames hrun
    refine h.window hshows hout hlive ?_
    intro m' hm'
    apply h.plain m'
    simp only [List.mem_append, List.mem_cons] at hm' ⊢
    tauto
  | placed hc hnone hblank hrun => exact h.place hc hnone hblank hrun
  | @allocated _ c r hc hexec =>
    obtain ⟨vm, hshows, -⟩ := h.windows
    have hfits := hshows.tree.fits
    rcases hc.allocates hexec with heq | ⟨page, n, hmark⟩
    · rw [heq]
      exact h
    · refine h.frames ?_ ?_
      · rw [hmark.entryEnd]
        exact hfits
      · intro w k t hw ht hfree
        exact hshows.tree.taken w k t hw ht ((hmark.taken_iff t).mp hfree).1
  | @freed _ c phys hno hexec =>
    obtain ⟨vm, hshows, -⟩ := h.windows
    have hmark := c.exec_spec hexec
    refine h.frames ?_ ?_
    · rw [hmark.entryEnd]
      exact hshows.tree.fits
    · intro w k t hw ht hfree
      rcases (hmark.free_iff t).mp hfree with hin | hold
      · exact hno w k t hw ht (mem_framesAt.mpr hin)
      · exact hshows.tree.taken w k t hw ht hold
  | identityRemoved hrun => exact h.removeIdentity hrun

theorem runs_inv (h : s.Inv T) {tr : List KernelCall} (hrun : Runs KernelStep s tr s') : s'.Inv T :=
  hrun.invariant (fun _ _ _ hs hstep => step_inv hs hstep) h

end Kernel

end Rtv.Mm
