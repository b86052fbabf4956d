import Mathlib.Tactic.IntervalCases
import Rtv.Mm.Paging

/-!
# The diagnosis of a page fault

`arch/x86_64/mm/vm.c: vm_check_mapping`, which `interrupt.c: exp_handler` calls for the faulting
address. It holds `pg_lock` while it reads the entry of each level through the recursive window and
prints it. Nothing looks at one entry before the next is read.

A read that the processor does not translate is a page fault inside the handler. The run then ends
there, so the state is kept beside the outcome: it tells what has been printed and whether the lock
is still held.

**The law** (`check_mapping_iff`): the four reads are of entries that the processor consults for the
address, and the function returns without the lock, exactly if the entries of the first three levels
are present and none of them is a large page.
-/

namespace Rtv.Mm

open Rtv.Lib Rtv.Lib.PageTree

/-! ## The code -/

/-- What the diagnosis changes: whether it holds `pg_lock`, and the entries it has printed. -/
structure Diagnosis where
  pgLock : Bool
  printed : List (BitVec 64)
deriving DecidableEq

/-- A part of the diagnosis: an outcome and the state at that point. -/
abbrev Diagnose := ExceptT Stop (StateM Diagnosis)

/-- The word at a physical address. -/
def Memory.load (m : Memory) (pa : Nat) : BitVec 64 := m (pa / 2 ^ 12) (Fin.ofNat 512 (pa / 8))

/-- `spin_lock(&pg_lock)`. A holder that is interrupted never gives it back. -/
def lockPg : Diagnose Unit := do
  let d ← get
  if d.pgLock then throw .hang
  else set { d with pgLock := true }

/-- `spin_unlock(&pg_lock)`. -/
def unlockPg : Diagnose Unit := modify fun d => { d with pgLock := false }

/-- The address of a level's table and the index in it, then the entry printed. -/
def printEntry (m : Memory) (cr3 : Nat) (addr : BitVec 64) (level : Nat) : Diagnose Unit := do
  let table ← getPagingStructVaddr addr level
  match translate m cr3 (slot table (pagingIndex addr level)) with
  | none => throw .fault
  | some pa => modify fun d => { d with printed := d.printed ++ [m.load pa] }

/-- `vm_check_mapping`, with the top-level table in frame `cr3`. -/
def vmCheckMapping (m : Memory) (cr3 : Nat) (addr : BitVec 64) : Diagnose Unit := do
  lockPg
  printEntry m cr3 addr 0
  printEntry m cr3 addr 1
  printEntry m cr3 addr 2
  printEntry m cr3 addr 3
  unlockPg

/-- The diagnosis of an address does not fault: every read is where the processor has its entry for
the address, in a table it reaches, and a call that finds the lock free leaves it free. -/
structure Diagnosed (m : Memory) (cr3 : Nat) (addr : BitVec 64) : Prop where
  reads : ∀ level ≤ 3, ∃ table frame, getPagingStructVaddr addr level = .ok table ∧
    hwTable m cr3 addr level = some frame ∧
    translate m cr3 (slot table (pagingIndex addr level)) =
      some (frame * 2 ^ 12 + 8 * hwIndex addr level)
  completes : ∀ d : Diagnosis, d.pgLock = false →
    ∃ d', vmCheckMapping m cr3 addr d = (.ok (), d') ∧ d'.pgLock = false

/-! ## The entries of an address -/

/-- An entry that points to a table. -/
def PointsOn (e : BitVec 64) : Prop := e &&& pgtP ≠ 0#64 ∧ e &&& pdtPs = 0#64

instance (e : BitVec 64) : Decidable (PointsOn e) := inferInstanceAs (Decidable (_ ∧ _))

section Entries

variable (m : Memory) (cr3 : Nat) (addr : BitVec 64)

/-- The PML4T entry. -/
def pml4Entry : BitVec 64 := m cr3 (hwIndex addr 0)

/-- The PDPT entry, in the table of the entry above. -/
def pdptEntry : BitVec 64 := m (entryFrame (pml4Entry m cr3 addr)) (hwIndex addr 1)

/-- The PDT entry. -/
def pdtEntry : BitVec 64 := m (entryFrame (pdptEntry m cr3 addr)) (hwIndex addr 2)

end Entries

variable {m : Memory} {cr3 level t : Nat} {addr : BitVec 64} {d : Diagnosis}

/-- The processor goes on to the table of an entry that points to one. -/
theorem hwTable_succ (h : hwTable m cr3 addr level = some t) (hlevel : level ≠ 3) :
    (∃ t', hwTable m cr3 addr (level + 1) = some t') ↔ PointsOn (m t (hwIndex addr level)) := by
  constructor
  · rintro ⟨t', ht'⟩
    obtain ⟨t₀, ht₀, hentry⟩ := tableAt_succ.mp ht'
    rw [hwTable, ht₀] at h
    cases h
    obtain ⟨-, hp, hps, -⟩ := decodeEntry_table.mp hentry
    exact ⟨hp, hps⟩
  · intro hpoints
    exact ⟨_, tableAt_succ.mpr ⟨t, h, decodeEntry_table.mpr ⟨hlevel, hpoints.1, hpoints.2, rfl⟩⟩⟩

/-- The table of the last level is there if the three entries above it point to tables. -/
theorem hwTable_three : (∃ t, hwTable m cr3 addr 3 = some t) ↔
    PointsOn (pml4Entry m cr3 addr) ∧ PointsOn (pdptEntry m cr3 addr) ∧
      PointsOn (pdtEntry m cr3 addr) := by
  have hstep : ∀ {level t}, hwTable m cr3 addr level = some t → level ≠ 3 →
      PointsOn (m t (hwIndex addr level)) →
      hwTable m cr3 addr (level + 1) = some (entryFrame (m t (hwIndex addr level))) :=
    fun ht hlevel h => tableAt_succ.mpr ⟨_, ht, decodeEntry_table.mpr ⟨hlevel, h.1, h.2, rfl⟩⟩
  have h₀ : hwTable m cr3 addr 0 = some cr3 := rfl
  constructor
  · rintro ⟨t, ht⟩
    have hone := (hwTable_succ h₀ (by decide)).mp (exists_tableAt ht (by decide))
    have h₁ := hstep h₀ (by decide) hone
    have htwo := (hwTable_succ h₁ (by decide)).mp (exists_tableAt ht (by decide))
    have h₂ := hstep h₁ (by decide) htwo
    have hthree := (hwTable_succ h₂ (by decide)).mp ⟨t, ht⟩
    exact ⟨hone, htwo, hthree⟩
  · rintro ⟨hone, htwo, hthree⟩
    exact ⟨_, hstep (hstep (hstep h₀ (by decide) hone) (by decide) htwo) (by decide) hthree⟩

/-! ## The reads -/

/-- Below an entry that is not present there is nothing to read. -/
theorem translate_below_absent (hself : SelfMapped m cr3) (hlevel : level + 1 ≤ 3)
    (ht : hwTable m cr3 addr level = some t) (habs : m t (hwIndex addr level) &&& pgtP = 0#64) :
    ∃ table, getPagingStructVaddr addr (level + 1) = .ok table ∧
      translate m cr3 (slot table (pagingIndex addr (level + 1))) = none := by
  obtain ⟨table, htable, haddr⟩ := getPagingStructVaddr_toNat addr hlevel
  have hi := (hwIndex addr (level + 1)).isLt
  refine ⟨table, htable, ?_⟩
  rw [pagingIndex_eq addr hlevel]
  obtain ⟨hones, hindex, -, hcanon⟩ := window_indices hlevel hi (slot_toNat haddr hi)
  have hwalk := hwWalk_window hself (Nat.le_add_left 1 level) hlevel hones hindex
    (Nat.lt_succ_self level) ht
  have hlast : 4 - (level + 1) + level = 3 := by omega
  have hread := hindex level (Nat.lt_succ_self level)
  rw [hlast] at hwalk hread
  rw [Nat.add_sub_cancel_left] at hwalk
  rw [translate, if_pos hcanon, hwalk, hwWalk, hread, decodeEntry, if_pos habs]

/-- A computation that cannot touch the state, inside the diagnosis. -/
theorem diagnose_lift {α : Type} {a : α} {f : α → Diagnose Unit} :
    ((liftM (.ok a : Exec α) : Diagnose α) >>= f) = f a := rfl

/-- Printing an entry, once the address of its table is known. -/
theorem printEntry_eq {table : BitVec 64} (htable : getPagingStructVaddr addr level = .ok table) :
    printEntry m cr3 addr level d =
      match translate m cr3 (slot table (pagingIndex addr level)) with
      | none => (.error .fault, d)
      | some pa => (.ok (), { d with printed := d.printed ++ [m.load pa] }) := by
  rw [printEntry, htable, diagnose_lift]
  cases translate m cr3 (slot table (pagingIndex addr level)) <;> rfl

theorem printEntry_ok (hself : SelfMapped m cr3) (hlevel : level ≤ 3)
    (ht : hwTable m cr3 addr level = some t) :
    printEntry m cr3 addr level d =
      (.ok (), { d with printed := d.printed ++ [m t (hwIndex addr level)] }) := by
  obtain ⟨table, htable, htrans⟩ := translate_entry hself hlevel ht
  have hi := (hwIndex addr level).isLt
  have hframe : (t * 2 ^ 12 + 8 * hwIndex addr level) / 2 ^ 12 = t := by omega
  have hindex : Fin.ofNat 512 ((t * 2 ^ 12 + 8 * hwIndex addr level) / 8) = hwIndex addr level := by
    apply Fin.ext
    rw [Fin.val_ofNat]
    omega
  have hload : m.load (t * 2 ^ 12 + 8 * hwIndex addr level) = m t (hwIndex addr level) := by
    rw [Memory.load, hframe, hindex]
  rw [printEntry_eq htable, htrans]
  dsimp only
  rw [hload]

theorem printEntry_fault (hself : SelfMapped m cr3) (hlevel : level + 1 ≤ 3)
    (ht : hwTable m cr3 addr level = some t) (habs : m t (hwIndex addr level) &&& pgtP = 0#64) :
    printEntry m cr3 addr (level + 1) d = (.error .fault, d) := by
  obtain ⟨table, htable, htrans⟩ := translate_below_absent hself hlevel ht habs
  rw [printEntry_eq htable, htrans]

/-- A part that returns is followed by the next one. -/
theorem diagnose_ok {x y : Diagnose Unit} {d' : Diagnosis} (h : x d = (.ok (), d')) :
    (x >>= fun _ => y) d = y d' := by
  change ExceptT.bindCont (fun _ => y) (x d).1 (x d).2 = y d'
  rw [h]
  rfl

/-- A part that faults ends the run. -/
theorem diagnose_error {x y : Diagnose Unit} {e : Stop} {d' : Diagnosis}
    (h : x d = (.error e, d')) : (x >>= fun _ => y) d = (.error e, d') := by
  change ExceptT.bindCont (fun _ => y) (x d).1 (x d).2 = (.error e, d')
  rw [h]
  rfl

theorem lockPg_free (h : d.pgLock = false) : lockPg d = (.ok (), { d with pgLock := true }) := by
  obtain ⟨pgLock, printed⟩ := d
  cases h
  rfl

/-- **A diagnosis that returns.** With all four tables there, the lock is given back. -/
theorem vmCheckMapping_returns (hself : SelfMapped m cr3) (ht : hwTable m cr3 addr 3 = some t)
    (hfree : d.pgLock = false) :
    ∃ d', vmCheckMapping m cr3 addr d = (.ok (), d') ∧ d'.pgLock = false := by
  obtain ⟨t₀, ht₀⟩ := exists_tableAt ht (Nat.zero_le 3)
  obtain ⟨t₁, ht₁⟩ := exists_tableAt ht (show 1 ≤ 3 by decide)
  obtain ⟨t₂, ht₂⟩ := exists_tableAt ht (show 2 ≤ 3 by decide)
  rw [vmCheckMapping, diagnose_ok (lockPg_free hfree),
    diagnose_ok (printEntry_ok hself (Nat.zero_le 3) ht₀),
    diagnose_ok (printEntry_ok hself (by decide) ht₁),
    diagnose_ok (printEntry_ok hself (by decide) ht₂), diagnose_ok (printEntry_ok hself le_rfl ht)]
  exact ⟨_, rfl, rfl⟩

/-- **A page fault in the diagnosis of a page fault.** Below an entry that is not present the next
read faults, and the lock is held. -/
theorem vmCheckMapping_faults (hself : SelfMapped m cr3) (hlevel : level + 1 ≤ 3)
    (ht : hwTable m cr3 addr level = some t) (habs : m t (hwIndex addr level) &&& pgtP = 0#64)
    (hfree : d.pgLock = false) :
    ∃ d', vmCheckMapping m cr3 addr d = (.error .fault, d') ∧ d'.pgLock = true := by
  obtain ⟨t₀, ht₀⟩ := exists_tableAt ht (Nat.zero_le level)
  rw [vmCheckMapping, diagnose_ok (lockPg_free hfree),
    diagnose_ok (printEntry_ok hself (Nat.zero_le 3) ht₀)]
  obtain rfl | rfl | rfl : level = 0 ∨ level = 1 ∨ level = 2 := by omega
  · exact ⟨_, diagnose_error (printEntry_fault hself hlevel ht habs), rfl⟩
  · rw [diagnose_ok (printEntry_ok hself (by decide) ht)]
    exact ⟨_, diagnose_error (printEntry_fault hself hlevel ht habs), rfl⟩
  · obtain ⟨t₁, ht₁⟩ := exists_tableAt ht (show 1 ≤ 2 by decide)
    rw [diagnose_ok (printEntry_ok hself (by decide) ht₁),
      diagnose_ok (printEntry_ok hself (by decide) ht)]
    exact ⟨_, diagnose_error (printEntry_fault hself hlevel ht habs), rfl⟩

/-- **The diagnosis does not fault** exactly if the entries of the address above the last level are
present and none of them is a large page. -/
theorem check_mapping_iff (m : Memory) (cr3 : Nat) (hself : SelfMapped m cr3) (addr : BitVec 64) :
    Diagnosed m cr3 addr ↔ PointsOn (pml4Entry m cr3 addr) ∧ PointsOn (pdptEntry m cr3 addr) ∧
      PointsOn (pdtEntry m cr3 addr) := by
  rw [← hwTable_three]
  constructor
  · intro h
    obtain ⟨-, frame, -, ht, -⟩ := h.reads 3 le_rfl
    exact ⟨frame, ht⟩
  · rintro ⟨t, ht⟩
    constructor
    · intro level hlevel
      obtain ⟨t', ht'⟩ := exists_tableAt ht hlevel
      obtain ⟨table, htable, htrans⟩ := translate_entry hself hlevel ht'
      exact ⟨table, t', htable, ht', htrans⟩
    · exact fun d hfree => vmCheckMapping_returns hself ht hfree

/-- Four tables, the last in frame 4 for the addresses from 2MB on. -/
def fourTables : Memory := fun f i => if f = 3 ∧ i = 1 then 0x4003#64 else threeTables f i

/-- An address whose last entry is missing. -/
theorem check_mapping_four : Diagnosed fourTables 1 0x200000#64 :=
  (check_mapping_iff fourTables 1 (by decide) 0x200000#64).mpr (by decide)

/-- **A fault at 2MB with no table for it.** The third entry is not present; the read of the fourth
one faults again. -/
theorem check_mapping_faults : ¬ ∀ m cr3 addr, SelfMapped m cr3 → Canonical addr →
    Diagnosed m cr3 addr := by
  intro hall
  have h := hall threeTables 1 0x200000#64 (by decide) (by decide)
  obtain ⟨d, hrun, -⟩ := h.completes ⟨false, []⟩ rfl
  obtain ⟨d', hrun', -⟩ := vmCheckMapping_faults (d := ⟨false, []⟩)
    (show SelfMapped threeTables 1 by decide) (show 2 + 1 ≤ 3 by decide)
    (show hwTable threeTables 1 0x200000#64 2 = some 3 by decide) (by decide) rfl
  rw [hrun] at hrun'
  cases hrun'

end Rtv.Mm
