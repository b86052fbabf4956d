import Rtv.Mm.Mappings
import Rtv.Mm.WindowBounds

/-!
# Unmapping after mapping

Each of the four mapping functions has an unmapping function beside it. Unmapping what a call has
mapped gives the tables back as they were. It returns the frame of the call only if the flags have
no `PGT_XD`, since `PG_MASK` and `LARGE_PG_MASK` keep that bit, and only if the frame is not 0 or the
call was for one page: the unmapping loops take the first masked entry that is not 0.
-/

namespace Rtv.Mm

open Rtv.Lib

/-! ## Masks -/

/-- `vm.h`: the bits `PGT_P` to `PGT_G` and `PGT_XD`. -/
def pgtBits : BitVec 64 := 0x80000000000001FF#64

/-- The mask that takes the frame out of an entry. -/
def Window.mask : Window → BitVec 64
  | page => pgMask
  | largePage => largePgMask

section Bits

variable {w : Window} {frame flags : BitVec 64}

theorem and_or_of_and (x y m : BitVec 64) : (x ||| y) &&& m = (x &&& m) ||| (y &&& m) := by
  apply BitVec.eq_of_getLsbD_eq
  intro j _
  simp only [BitVec.getLsbD_and, BitVec.getLsbD_or, Bool.and_or_distrib_right]

theorem and_of_aligned {x m : BitVec 64} (h : x &&& ~~~m = 0#64) : x &&& m = x := by
  apply BitVec.eq_of_getLsbD_eq
  intro j hj
  have hbit : (x &&& ~~~m).getLsbD j = false := by rw [h, BitVec.getLsbD_zero]
  rw [BitVec.getLsbD_and, BitVec.getLsbD_not] at hbit
  rw [BitVec.getLsbD_and]
  cases hx : x.getLsbD j with
  | false => rfl
  | true =>
    rw [hx] at hbit
    simpa [hj] using hbit

/-- A physical address has no bit 63. -/
theorem and_pgtXd_of_lt (h : frame.toNat < 2 ^ 52) : frame &&& pgtXd = 0#64 := by
  apply BitVec.eq_of_getLsbD_eq
  intro j _
  rw [BitVec.getLsbD_and, BitVec.getLsbD_zero, Bool.and_eq_false_iff]
  rcases Nat.lt_or_ge j 52 with hj | hj
  · have hxd : ∀ j < 52, pgtXd.getLsbD j = false := by decide
    exact Or.inr (hxd j hj)
  · have hle : 2 ^ 52 ≤ 2 ^ j := Nat.pow_le_pow_right (by decide) hj
    exact Or.inl (Nat.testBit_lt_two_pow (Nat.lt_of_lt_of_le h hle))

/-- Of the flags, the masks keep `PGT_XD`. -/
theorem flags_and_mask (h : flags &&& pgtBits = flags) : flags &&& w.mask = flags &&& pgtXd := by
  have hmask : pgtBits &&& w.mask = pgtXd := by cases w <;> decide
  rw [← h, BitVec.and_assoc, hmask, BitVec.and_assoc]
  rfl

/-- What the unmapping functions make of an entry. -/
theorem entry_and_mask (hframe : frame &&& w.mask = frame) (hflags : flags &&& pgtBits = flags) :
    (frame ||| flags) &&& w.mask = frame ||| (flags &&& pgtXd) := by
  rw [and_or_of_and, hframe, flags_and_mask hflags]

/-- It is the frame just if the flags have no `PGT_XD`. -/
theorem or_pgtXd_eq_iff (h : frame.toNat < 2 ^ 52) :
    frame ||| (flags &&& pgtXd) = frame ↔ flags &&& pgtXd = 0#64 := by
  constructor
  · intro heq
    have hbit := congrArg (· &&& pgtXd) heq
    simpa only [and_or_of_and, and_pgtXd_of_lt h, BitVec.and_assoc, BitVec.and_self,
      BitVec.zero_or] using hbit
  · intro hxd
    rw [hxd, BitVec.or_zero]

end Bits

/-! ## The loop of the unmapping functions -/

section Loop

variable {table mask frame : BitVec 64} {s : Vm} {i num : Nat}

/-- A frame that is not 0 stays. -/
theorem unmapLoop_kept (hframe : frame ≠ 0#64) :
    ∀ {num i : Nat} {s : Vm}, (unmapLoop table mask num s i frame).1 = frame := by
  intro num
  induction num with
  | zero => exact rfl
  | succ num ih =>
    intro i s
    rw [unmapLoop, if_neg hframe]
    exact ih

/-- The first masked entry, if it is not 0. -/
theorem unmapLoop_first (h : s.get table i &&& mask ≠ 0#64) :
    (unmapLoop table mask (num + 1) s i 0#64).1 = s.get table i &&& mask := by
  rw [unmapLoop, if_pos rfl]
  exact unmapLoop_kept h

/-- The second one, if the first is 0. -/
theorem unmapLoop_second {w : Window} (hin : i + 1 < pgTableEntries)
    (hzero : s.get w.table i &&& mask = 0#64) (h : s.get w.table (i + 1) &&& mask ≠ 0#64) :
    (unmapLoop w.table mask (num + 2) s i 0#64).1 = s.get w.table (i + 1) &&& mask := by
  have hget : (s.set w.table i 0#64).get w.table (i + 1) = s.get w.table (i + 1) :=
    (Vm.Frame.set s w i 0#64).get (by omega) hin fun _ => Or.inr (le_refl _)
  unfold pgTableEntries at hin
  rw [unmapLoop, if_pos rfl, hzero, add64_of_lt (by omega), unmapLoop_first (by rwa [hget]), hget]

end Loop

/-! ## The calls -/

/-- Clearing entries that were 0 before they were written gives the tables back. -/
theorem Cleared.restores {s s' s'' : Vm} {w : Window} {i num : Nat} (hframe : s.Frame s' w i num)
    (hclear : Cleared s' s'' w i num) (hzero : ∀ k < num, s.get w.table (i + k) = 0#64) :
    s'' = s := by
  obtain ⟨⟨hphys, hsame⟩, hcleared⟩ := hclear
  have hentry : s''.entry = s.entry := by
    funext a
    by_cases ha : ∃ k < num, a = slot w.table (i + k)
    · obtain ⟨k, hk, rfl⟩ := ha
      exact (hcleared k hk).trans (hzero k hk).symm
    · have hout : ∀ k < num, a ≠ slot w.table (i + k) := fun k hk heq => ha ⟨k, hk, heq⟩
      exact (hsame a hout).trans (hframe.2 a hout)
  cases s
  cases s''
  cases hentry
  cases hphys.trans hframe.1
  rfl

/-- The call that unmaps what a call has mapped. -/
def MapCall.undo (c : MapCall) (va : Nat) : UnmapCall :=
  match c with
  | page .. => .page va
  | pages _ num _ => .pages va num
  | largePage .. => .largePage va
  | largePages _ num _ => .largePages va num

/-- Each of the unmapping functions runs its loop over the entries of the mapping. -/
theorem MapCall.undo_exec (c : MapCall) (s : Vm) {i : Nat} (hlo : c.window.lo ≤ i)
    (hhi : i < c.window.hi) : (c.undo (c.window.va i)).exec s =
      .ok (unmapLoop c.window.table c.window.mask c.num s i 0#64) := by
  have htable := c.window.getPagingStructVaddr_va hlo hhi
  have hidx := c.window.entryIndex_va hhi
  cases c <;>
    simp only [window, Window.level, Window.bits, undo, UnmapCall.exec, vmUnmapPage, vmUnmapPages,
      vmUnmapLargePage, vmUnmapLargePages, unmapEntry] at htable hidx ⊢ <;>
    rw [htable, Exec.ok_bind, hidx] <;> rfl

/-- The frame of a valid call is aligned. -/
theorem MapCall.Valid.aligned {c : MapCall} (hv : c.Valid) : c.frame &&& c.window.mask = c.frame := by
  cases c with
  | page frame flags => exact and_of_aligned hv.1
  | pages frame num flags => exact and_of_aligned hv.1
  | largePage frame flags => exact and_of_aligned hv.1
  | largePages frame num flags => exact and_of_aligned hv.1

/-- The frame that the loop returns for a mapping in the entries from `k` on. -/
theorem unmapLoop_mapped_iff {w : Window} {s : Vm} {frame flags : BitVec 64} {k num : Nat}
    (haligned : frame &&& w.mask = frame) (hframe : frame.toNat < 2 ^ 52)
    (hflags : flags &&& pgtBits = flags) (hin : k + (num + 1) ≤ pgTableEntries)
    (hget : ∀ t < num + 1, s.get w.table (k + t) = mapped w frame flags t) :
    (unmapLoop w.table w.mask (num + 1) s k 0#64).1 = frame ↔
      flags &&& pgtXd = 0#64 ∧ (frame = 0#64 → num + 1 = 1) := by
  have hmapped : mapped w frame flags 0 = frame ||| flags := by simp [mapped]
  have hfirst : s.get w.table k &&& w.mask = frame ||| (flags &&& pgtXd) := by
    rw [← entry_and_mask haligned hflags, ← hmapped, ← hget 0 (Nat.succ_pos num), Nat.add_zero]
  by_cases hzero : frame ||| (flags &&& pgtXd) = 0#64
  · obtain ⟨rfl, hxd⟩ := BitVec.or_eq_zero_iff.mp hzero
    cases num with
    | zero =>
      rw [unmapLoop, unmapLoop, if_pos rfl, hfirst, hzero]
      exact iff_of_true rfl ⟨hxd, fun _ => rfl⟩
    | succ num =>
      -- the second entry holds the next frame
      have hsize : BitVec.ofNat 64 (1 * w.size) &&& w.mask = BitVec.ofNat 64 (1 * w.size) := by
        cases w <;> decide
      have hne : BitVec.ofNat 64 (1 * w.size) ≠ 0#64 := by
        cases w <;> decide
      have hsecond : s.get w.table (k + 1) &&& w.mask = BitVec.ofNat 64 (1 * w.size) := by
        rw [hget 1 (by omega), mapped, BitVec.zero_add, entry_and_mask hsize hflags, hxd,
          BitVec.or_zero]
      rw [unmapLoop_second (by omega) (hfirst.trans hzero) (hsecond ▸ hne), hsecond]
      refine iff_of_false hne ?_
      rintro ⟨_, hnum⟩
      exact absurd (hnum rfl) (by omega)
  · rw [unmapLoop_first (hfirst ▸ hzero), hfirst, or_pgtXd_eq_iff hframe]
    refine ⟨fun hxd => ⟨hxd, fun hframe => absurd ?_ hzero⟩, And.left⟩
    rw [hframe, hxd, BitVec.or_zero]

/-- **Unmapping what a call has mapped returns the frame of the call and gives the tables back just
if the flags have no `PGT_XD`, and the frame is not 0 or the call was for one page.** -/
theorem map_unmap_iff {s s' : Vm} {c : MapCall} {va : Nat} (hv : c.Valid)
    (hframe : c.frame.toNat < 2 ^ 52) (hflags : c.flags &&& pgtBits = c.flags)
    (hzero : ∀ i, c.window.lo ≤ i → i < c.window.hi → s.Absent c.window.table i →
      s.get c.window.table i = 0#64)
    (hmap : c.exec s = .ok (va, s')) (hva : va ≠ 0) :
    (c.undo va).exec s' = .ok (c.frame, s) ↔
      c.flags &&& pgtXd = 0#64 ∧ (c.frame = 0#64 → c.num = 1) := by
  obtain ⟨r, hr, hout⟩ := MapCall.exec_spec hv s
  cases hmap.symm.trans hr
  rcases hout with hnull | ⟨k, s'', heq, hlo, hin, habs, hs', hget⟩
  · exact absurd (congrArg Prod.fst hnull) hva
  · cases heq
    obtain ⟨num, hnum⟩ : ∃ n, c.num = n + 1 := ⟨c.num - 1, by have := hv.num_flags.1; omega⟩
    have hhi := c.window.hi_le
    have hback : (unmapLoop c.window.table c.window.mask c.num s' k 0#64).2 = s :=
      Cleared.restores hs' (unmapLoop_spec c.num k s' 0#64 (by omega)) fun t ht =>
        hzero (k + t) (by omega) (by omega) (habs t ht)
    rw [MapCall.undo_exec c s' hlo (by omega), Except.ok.injEq, Prod.ext_iff, and_iff_left hback]
    rw [hnum] at hin hget ⊢
    exact unmapLoop_mapped_iff hv.aligned hframe hflags (by omega) hget

/-- A page of the 4KB window, mapped in empty tables and unmapped. -/
theorem map_unmap_page : ∃ s, (MapCall.page 0x5000#64 3#64).exec blankTables = .ok (0xA00000, s) ∧
    ((MapCall.page 0x5000#64 3#64).undo 0xA00000).exec s = .ok (0x5000#64, blankTables) :=
  ⟨_, rfl, (map_unmap_iff (c := .page 0x5000#64 3#64) ⟨by decide, by decide⟩ (by decide) (by decide)
    (fun _ _ _ _ => rfl) rfl (by decide)).mpr ⟨by decide, by decide⟩⟩

/-- With `PGT_XD` the frame comes back with bit 63 set, and for two pages from the frame 0 on it is
the second frame that comes back. -/
theorem unmap_returns_other :
    (∃ s s', (MapCall.page 0x5000#64 (3#64 ||| pgtXd)).exec blankTables = .ok (0xA00000, s) ∧
      ((MapCall.page 0x5000#64 (3#64 ||| pgtXd)).undo 0xA00000).exec s =
        .ok (0x8000000000005000#64, s')) ∧
    ∃ s s', (MapCall.pages 0#64 2 3#64).exec blankTables = .ok (0xA00000, s) ∧
      ((MapCall.pages 0#64 2 3#64).undo 0xA00000).exec s = .ok (0x1000#64, s') :=
  ⟨⟨_, _, rfl, rfl⟩, _, _, rfl, rfl⟩

end Rtv.Mm
