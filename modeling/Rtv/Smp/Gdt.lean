import Mathlib.Data.List.Nodup
import Mathlib.Order.Fin.Basic
import Rtv.Lib.Runs

/-!
# Slots of the GDT

Two functions search the GDT for free slots. `cpu/percpu.c: percpu_init` looks for one, maps the
CPU's memory and then writes its descriptor there; `cpu/mmu.c: alloc_tss_desc` takes two adjacent
ones under `gdt_lock`. An AP runs the first before it sets `BOOT_STATUS`, so one AP at a time does,
and the second after it, when the next AP may already be booting.

The model is the interleaving of these steps over `n` APs that are booted one after the other. The
search of `percpu_init` and its write are two steps; `alloc_tss_desc` is one.

## What is proved

- `gdt_slots_apart`: as long as `alloc_tss_desc` is not called while an AP has found a slot that it
  has not written and the slot after it is free as well, no slot is owned twice and no present
  descriptor is written. A run that breaks this even once can be continued so that two CPUs own
  one slot.
- `gdt_slots_clash`: with two APs such a run exists.
-/

namespace Rtv.Smp

open Rtv.Lib

/-! ## The table -/

/-- `seg_desc`. -/
structure SegDesc where
  limit0 : BitVec 16
  base0 : BitVec 24
  type : BitVec 4
  s : Bool
  dpl : BitVec 2
  p : Bool
  limit1 : BitVec 4
  avl : Bool
  l : Bool
  db : Bool
  g : Bool
  base1 : BitVec 8
deriving DecidableEq, Repr

/-- The GDT, by slots. -/
abbrev Gdt := Nat → SegDesc

/-- `GDT_START`: skip the null, the code and the data descriptor. -/
def gdtStart : Nat := 3

/-- `GDT_ENTRY_NR`. -/
def gdtEntryNr : Nat := 512

/-- The search of `percpu_init`: the first slot that is not present. -/
def percpuScan (gdt : Gdt) : Option Nat :=
  (List.range' gdtStart (gdtEntryNr - gdtStart)).find? fun i => !(gdt i).p

/-- The descriptor that `percpu_init` writes. The base stays as it was: it goes to a register. -/
def percpuDesc (old : SegDesc) (limit : BitVec 64) : SegDesc :=
  { old with
    limit0 := limit.setWidth 16
    limit1 := (limit >>> 16).setWidth 4
    s := true
    type := 2
    dpl := 0
    p := true
    avl := false
    l := false
    db := true
    g := false }

/-- The search of `alloc_tss_desc`: the first two adjacent slots that are not present. -/
def tssScan (gdt : Gdt) : Option Nat :=
  (List.range' gdtStart (gdtEntryNr - 1 - gdtStart)).find? fun i => !(gdt i).p && !(gdt (i + 1)).p

/-- `sizeof(tss_t) - 1`. -/
def tssLimit : BitVec 32 := 103

/-- The first 8 bytes of the descriptor that `alloc_tss_desc` writes. -/
def tssDescLow (tss : BitVec 64) : SegDesc where
  limit0 := tssLimit.setWidth 16
  base0 := tss.setWidth 24
  type := 9
  s := false
  dpl := 0
  p := true
  limit1 := (tssLimit >>> 16).setWidth 4
  avl := false
  l := false
  db := false
  g := false
  base1 := (tss >>> 24).setWidth 8

/-- The second 8 bytes: the upper half of the address, and the bit that marks them used. -/
def tssDescHigh (tss : BitVec 64) : SegDesc where
  limit0 := (tss >>> 32).setWidth 16
  base0 := (tss >>> 48).setWidth 24
  type := 0
  s := false
  dpl := 0
  p := true
  limit1 := 0
  avl := false
  l := false
  db := false
  g := false
  base1 := 0

/-- What `alloc_tss_desc` leaves, having found slot `i`. -/
def writeTss (gdt : Gdt) (i : Nat) (tss : BitVec 64) : Gdt :=
  Function.update (Function.update gdt i (tssDescLow tss)) (i + 1) (tssDescHigh tss)

/-- The slot found is the first free one. -/
theorem percpuScan_spec {gdt : Gdt} {i : Nat} (h : percpuScan gdt = some i) :
    (gdt i).p = false ∧ gdtStart ≤ i ∧ i < gdtEntryNr ∧
      ∀ j, gdtStart ≤ j → j < i → (gdt j).p = true := by
  rw [percpuScan, List.find?_range'_eq_some] at h
  obtain ⟨hfree, hmem, hfirst⟩ := h
  have hbounds := List.mem_range'_1.mp hmem
  refine ⟨by simpa using hfree, hbounds.1, ?_, ?_⟩
  · have hlt := hbounds.2
    rw [gdtStart, gdtEntryNr] at hlt
    exact hlt
  · intro j hj hlt
    simpa using hfirst j hj hlt

/-- The two slots found are adjacent and free. -/
theorem tssScan_spec {gdt : Gdt} {i : Nat} (h : tssScan gdt = some i) :
    (gdt i).p = false ∧ (gdt (i + 1)).p = false ∧ gdtStart ≤ i ∧ i + 1 < gdtEntryNr := by
  rw [tssScan, List.find?_range'_eq_some] at h
  obtain ⟨hfree, hmem, -⟩ := h
  have hbounds := List.mem_range'_1.mp hmem
  rw [Bool.and_eq_true, Bool.not_eq_true', Bool.not_eq_true'] at hfree
  refine ⟨hfree.1, hfree.2, hbounds.1, ?_⟩
  have hlt := hbounds.2
  rw [gdtStart, gdtEntryNr] at hlt
  rw [gdtEntryNr]
  omega

/-- Nothing is found where no two adjacent slots are free. -/
theorem tssScan_eq_none {gdt : Gdt} (h : ∀ i, gdtStart ≤ i → i + 1 < gdtEntryNr →
    (gdt i).p = true ∨ (gdt (i + 1)).p = true) : tssScan gdt = none := by
  rw [tssScan, List.find?_eq_none]
  intro i hmem
  obtain ⟨hlo, hhi⟩ := List.mem_range'_1.mp hmem
  have hlast : i + 1 < gdtEntryNr := by
    rw [gdtStart, gdtEntryNr] at hhi
    rw [gdtEntryNr]
    omega
  rcases h i hlo hlast with hp | hp
  · simp [hp]
  · simp [hp]

/-- The slots that are written are free. -/
theorem writeTss_of_present {gdt : Gdt} {i j : Nat} (h : tssScan gdt = some i) (tss : BitVec 64)
    (hj : (gdt j).p = true) : writeTss gdt i tss j = gdt j := by
  obtain ⟨hi, hnext, -⟩ := tssScan_spec h
  have hne : j ≠ i := by
    rintro rfl
    rw [hi] at hj
    cases hj
  have hne' : j ≠ i + 1 := by
    rintro rfl
    rw [hnext] at hj
    cases hj
  rw [writeTss, Function.update_of_ne hne', Function.update_of_ne hne]

/-- A free slot before which everything is taken, with a free slot after it, is what
`alloc_tss_desc` finds. -/
theorem tssScan_eq {gdt : Gdt} {i : Nat} (hi : (gdt i).p = false) (hnext : (gdt (i + 1)).p = false)
    (hlo : gdtStart ≤ i) (hhi : i + 1 < gdtEntryNr)
    (hbefore : ∀ j, gdtStart ≤ j → j < i → (gdt j).p = true) : tssScan gdt = some i := by
  rw [tssScan, List.find?_range'_eq_some]
  refine ⟨by simp [hi, hnext], ?_, ?_⟩
  · apply List.mem_range'_1.mpr
    rw [gdtStart] at hlo
    rw [gdtEntryNr] at hhi
    rw [gdtStart, gdtEntryNr]
    omega
  · intro j hj hlt
    simp [hbefore j hj hlt]

/-! ## The machine -/

/-- How far an AP is, with the slots it has found or written: before `percpu_init`, between its
search and its write, before and after `BOOT_STATUS`, and after `alloc_tss_desc`. -/
inductive GdtPc where
  | waiting
  | scanned (slot : Nat)
  | written (seg : Nat)
  | running (seg : Nat)
  | loaded (seg tss : Nat)
deriving DecidableEq, Repr

/-- The steps, with the CPU that takes them and the data it writes. -/
inductive GdtAct (n : Nat) where
  | scan (k : Fin n)
  | write (k : Fin n) (limit : BitVec 64)
  | status (k : Fin n)
  | allocTss (k : Fin n) (tss : BitVec 64)
deriving DecidableEq, Repr

/-- The slots an AP has written. -/
def GdtPc.owns : GdtPc → List Nat
  | .waiting | .scanned _ => []
  | .written seg | .running seg => [seg]
  | .loaded seg tss => [seg, tss, tss + 1]

/-- Past `BOOT_STATUS`. -/
def GdtPc.booted : GdtPc → Bool
  | .waiting | .scanned _ | .written _ => false
  | .running _ | .loaded _ _ => true

/-- A slot found and not written is followed by a present one, or is the last. -/
def GdtPc.NextTaken (gdt : Gdt) : GdtPc → Prop
  | .scanned i => i + 1 < gdtEntryNr → (gdt (i + 1)).p = true
  | .waiting | .written _ | .running _ | .loaded _ _ => True

instance (gdt : Gdt) (p : GdtPc) : Decidable (p.NextTaken gdt) := by
  cases p <;> unfold GdtPc.NextTaken <;> infer_instance

/-- A call of `alloc_tss_desc`. -/
def GdtAct.isAllocTss {n : Nat} : GdtAct n → Bool
  | .allocTss _ _ => true
  | .scan _ | .write _ _ | .status _ => false

/-- The table and the APs. -/
structure GdtMachine (n : Nat) where
  gdt : Gdt
  pc : Fin n → GdtPc

namespace GdtMachine

variable {n : Nat}

/-- Before the first AP is booted. -/
def init (n : Nat) (gdt : Gdt) : GdtMachine n := ⟨gdt, fun _ => .waiting⟩

/-- AP `k` moves on to `p`, with the table left at `gdt`. -/
def goto (s : GdtMachine n) (k : Fin n) (p : GdtPc) (gdt : Gdt) : GdtMachine n :=
  ⟨gdt, Function.update s.pc k p⟩

@[simp] theorem goto_gdt (s : GdtMachine n) (k : Fin n) (p : GdtPc) (gdt : Gdt) :
    (s.goto k p gdt).gdt = gdt := rfl

@[simp] theorem goto_self (s : GdtMachine n) (k : Fin n) (p : GdtPc) (gdt : Gdt) :
    (s.goto k p gdt).pc k = p :=
  Function.update_self _ _ _

theorem goto_of_ne (s : GdtMachine n) {k l : Fin n} (h : l ≠ k) (p : GdtPc) (gdt : Gdt) :
    (s.goto k p gdt).pc l = s.pc l :=
  Function.update_of_ne h _ _

/-- One step. An AP is booted once all before it have set `BOOT_STATUS`. A search that finds
nothing panics, so there is no step. -/
def next (s : GdtMachine n) : GdtAct n → Option (GdtMachine n)
  | .scan k =>
    if s.pc k = .waiting ∧ ∀ l < k, (s.pc l).booted = true then
      (percpuScan s.gdt).map fun i => s.goto k (.scanned i) s.gdt
    else none
  | .write k limit =>
    match s.pc k with
    | .scanned i =>
      some (s.goto k (.written i) (Function.update s.gdt i (percpuDesc (s.gdt i) limit)))
    | _ => none
  | .status k =>
    match s.pc k with
    | .written seg => some (s.goto k (.running seg) s.gdt)
    | _ => none
  | .allocTss k tss =>
    match s.pc k with
    | .running seg => (tssScan s.gdt).map fun i => s.goto k (.loaded seg i) (writeTss s.gdt i tss)
    | _ => none

/-- One step of the machine. -/
def Step (s : GdtMachine n) (a : GdtAct n) (t : GdtMachine n) : Prop := s.next a = some t

/-- What a step does: where it starts, what its search finds, and what it leaves. -/
theorem step_cases {s t : GdtMachine n} {a : GdtAct n} (h : s.Step a t) :
    (∃ k i, a = .scan k ∧ s.pc k = .waiting ∧ (∀ l < k, (s.pc l).booted = true) ∧
      percpuScan s.gdt = some i ∧ t = s.goto k (.scanned i) s.gdt) ∨
    (∃ k limit i, a = .write k limit ∧ s.pc k = .scanned i ∧
      t = s.goto k (.written i) (Function.update s.gdt i (percpuDesc (s.gdt i) limit))) ∨
    (∃ k seg, a = .status k ∧ s.pc k = .written seg ∧ t = s.goto k (.running seg) s.gdt) ∨
    ∃ k tss seg i, a = .allocTss k tss ∧ s.pc k = .running seg ∧ tssScan s.gdt = some i ∧
      t = s.goto k (.loaded seg i) (writeTss s.gdt i tss) := by
  cases a with
  | scan k =>
    rw [Step, next, Option.ite_none_right_eq_some, Option.map_eq_some_iff] at h
    obtain ⟨⟨hp, hbefore⟩, i, hscan, rfl⟩ := h
    exact Or.inl ⟨k, i, rfl, hp, hbefore, hscan, rfl⟩
  | write k limit =>
    rw [Step, next] at h
    split at h
    · next i hp => exact Or.inr (Or.inl ⟨k, limit, i, rfl, hp, (Option.some.inj h).symm⟩)
    · cases h
  | status k =>
    rw [Step, next] at h
    split at h
    · next seg hp => exact Or.inr (Or.inr (Or.inl ⟨k, seg, rfl, hp, (Option.some.inj h).symm⟩))
    · cases h
  | allocTss k tss =>
    rw [Step, next] at h
    split at h
    · next seg hp =>
      obtain ⟨i, hscan, rfl⟩ := Option.map_eq_some_iff.mp h
      exact Or.inr (Or.inr (Or.inr ⟨k, tss, seg, i, rfl, hp, hscan, rfl⟩))
    · cases h

/-- No slot is owned twice. -/
def Disjoint (s : GdtMachine n) : Prop :=
  (∀ k, (s.pc k).owns.Nodup) ∧ ∀ k l, k ≠ l → (s.pc k).owns.Disjoint (s.pc l).owns

/-- From `s` to `t`, every present descriptor is left as it was. -/
def Keeps (s t : GdtMachine n) : Prop := ∀ i, (s.gdt i).p = true → t.gdt i = s.gdt i

/-- The step is not an `alloc_tss_desc` made while an AP is between its search and its write and
the slot after the one it has found is free as well. -/
def Apart (s : GdtMachine n) (a : GdtAct n) : Prop :=
  a.isAllocTss = true → ∀ k, (s.pc k).NextTaken s.gdt

instance (s : GdtMachine n) (a : GdtAct n) : Decidable (s.Apart a) :=
  inferInstanceAs (Decidable (_ → ∀ _, _))

/-- What holds between the steps: what is owned is present and owned once, the slot of a search
that is under way is the first free one, and only one search is. -/
structure Inv (s : GdtMachine n) : Prop where
  disjoint : s.Disjoint
  present : ∀ k, ∀ i ∈ (s.pc k).owns, (s.gdt i).p = true
  found : ∀ k i, s.pc k = .scanned i → (s.gdt i).p = false ∧ gdtStart ≤ i ∧
    ∀ j, gdtStart ≤ j → j < i → (s.gdt j).p = true
  turn : ∀ k l, l < k → s.pc k ≠ .waiting → (s.pc l).booted = true

theorem init_inv (n : Nat) (gdt : Gdt) : (init n gdt).Inv where
  disjoint := ⟨fun _ => List.nodup_nil, fun _ _ _ => List.disjoint_nil_left _⟩
  present _ _ h := by cases h
  found _ _ h := by cases h
  turn _ _ _ h := absurd rfl h

section Steps

variable {s t : GdtMachine n} {k l : Fin n} {i j : Nat} {p : GdtPc} {gdt : Gdt}

/-- Two APs do not search at once. -/
theorem Inv.scanned_unique (h : s.Inv) (hk : s.pc k = .scanned i) (hl : s.pc l = .scanned j) :
    k = l := by
  rcases lt_trichotomy k l with hlt | heq | hlt
  · have hbooted := h.turn l k hlt (by simp [hl])
    simp [hk, GdtPc.booted] at hbooted
  · exact heq
  · have hbooted := h.turn k l hlt (by simp [hk])
    simp [hl, GdtPc.booted] at hbooted

/-- An AP that comes to own free slots keeps the slots disjoint. -/
theorem Inv.disjoint_goto (h : s.Inv) (hp : p.owns.Nodup)
    (hnew : ∀ i ∈ p.owns, i ∈ (s.pc k).owns ∨ (s.gdt i).p = false) :
    (s.goto k p gdt).Disjoint := by
  have hother : ∀ l, l ≠ k → p.owns.Disjoint (s.pc l).owns := by
    intro l hl i hi hil
    rcases hnew i hi with hown | hfree
    · exact h.disjoint.2 k l hl.symm hown hil
    · have hpresent := h.present l i hil
      rw [hfree] at hpresent
      cases hpresent
  constructor
  · intro l
    by_cases hl : l = k
    · rw [hl, goto_self]
      exact hp
    · rw [goto_of_ne s hl]
      exact h.disjoint.1 l
  · intro l m hlm
    by_cases hl : l = k
    · rw [hl] at hlm ⊢
      rw [goto_self, goto_of_ne s hlm.symm]
      exact hother m hlm.symm
    · rw [goto_of_ne s hl]
      by_cases hm : m = k
      · rw [hm, goto_self]
        exact fun i hil hi => hother l hl hi hil
      · rw [goto_of_ne s hm]
        exact h.disjoint.2 l m hlm

/-- What was owned stays present when present slots are kept. -/
theorem Inv.present_goto (h : s.Inv) (hkeep : s.Keeps (s.goto k p gdt))
    (hnew : ∀ i ∈ p.owns, (gdt i).p = true) :
    ∀ l, ∀ i ∈ ((s.goto k p gdt).pc l).owns, ((s.goto k p gdt).gdt i).p = true := by
  intro l i hi
  by_cases hl : l = k
  · rw [hl, goto_self] at hi
    exact hnew i hi
  · rw [goto_of_ne s hl] at hi
    rw [hkeep i (h.present l i hi)]
    exact h.present l i hi

/-- A search that is under way elsewhere still has the first free slot, if that is left free. -/
theorem Inv.found_goto (h : s.Inv) (hkeep : s.Keeps (s.goto k p gdt)) (hp : ∀ i, p ≠ .scanned i)
    (hfree : ∀ l i, l ≠ k → s.pc l = .scanned i → (gdt i).p = false) :
    ∀ l i, (s.goto k p gdt).pc l = .scanned i → ((s.goto k p gdt).gdt i).p = false ∧
      gdtStart ≤ i ∧ ∀ j, gdtStart ≤ j → j < i → ((s.goto k p gdt).gdt j).p = true := by
  intro l i hl
  by_cases hlk : l = k
  · rw [hlk, goto_self] at hl
    exact absurd hl (hp i)
  · rw [goto_of_ne s hlk] at hl
    obtain ⟨-, hlo, hbefore⟩ := h.found l i hl
    refine ⟨hfree l i hlk hl, hlo, ?_⟩
    intro j hj hji
    rw [hkeep j (hbefore j hj hji)]
    exact hbefore j hj hji

/-- A step of an AP whose turn it was keeps the turns. -/
theorem Inv.turn_goto (h : s.Inv) (hk : ∀ l < k, (s.pc l).booted = true)
    (hp : (s.pc k).booted = true → p.booted = true) :
    ∀ l m, m < l → (s.goto k p gdt).pc l ≠ .waiting → ((s.goto k p gdt).pc m).booted = true := by
  intro l m hml hl
  have hbefore : (s.pc m).booted = true := by
    by_cases hlk : l = k
    · exact hk m (hlk ▸ hml)
    · rw [goto_of_ne s hlk] at hl
      exact h.turn l m hml hl
  by_cases hm : m = k
  · rw [hm, goto_self]
    exact hp (hm ▸ hbefore)
  · rw [goto_of_ne s hm]
    exact hbefore

/-- The slots that `alloc_tss_desc` takes are free, and neither is one that another AP has found. -/
theorem Inv.tss_ne_found (h : s.Inv) {tss : BitVec 64} (hapart : s.Apart (.allocTss k tss))
    (hscan : tssScan s.gdt = some i) (hl : s.pc l = .scanned j) : j ≠ i ∧ j ≠ i + 1 := by
  obtain ⟨hi, hnext, hlo, hhi⟩ := tssScan_spec hscan
  obtain ⟨-, -, hbefore⟩ := h.found l j hl
  constructor
  · rintro rfl
    have htaken := hapart rfl l
    rw [hl] at htaken
    rw [htaken hhi] at hnext
    cases hnext
  · -- slot `i` is free and comes before it
    rintro rfl
    have htaken := hbefore i hlo (Nat.lt_succ_self i)
    rw [hi] at htaken
    cases htaken

/-- An AP has found the first free slot. -/
theorem Inv.scanStep (h : s.Inv) (hk : s.pc k = .waiting) (hbefore : ∀ l < k, (s.pc l).booted = true)
    (hscan : percpuScan s.gdt = some i) :
    (s.goto k (.scanned i) s.gdt).Inv ∧ s.Keeps (s.goto k (.scanned i) s.gdt) := by
  have hkeep : s.Keeps (s.goto k (.scanned i) s.gdt) := fun _ _ => rfl
  obtain ⟨hfree, hlo, -, hfirst⟩ := percpuScan_spec hscan
  refine ⟨⟨?_, ?_, ?_, ?_⟩, hkeep⟩
  · exact h.disjoint_goto List.nodup_nil nofun
  · exact h.present_goto hkeep nofun
  · intro l j hl
    by_cases hlk : l = k
    · rw [hlk, goto_self] at hl
      cases hl
      exact ⟨hfree, hlo, hfirst⟩
    · rw [goto_of_ne s hlk] at hl
      exact h.found l j hl
  · exact h.turn_goto hbefore (by simp [hk, GdtPc.booted])

/-- The slot that an AP has found becomes its own. -/
theorem Inv.writeStep (h : s.Inv) (hk : s.pc k = .scanned i) (limit : BitVec 64) :
    (s.goto k (.written i) (Function.update s.gdt i (percpuDesc (s.gdt i) limit))).Inv ∧
      s.Keeps (s.goto k (.written i) (Function.update s.gdt i (percpuDesc (s.gdt i) limit))) := by
  obtain ⟨hfree, hlo, hfirst⟩ := h.found k i hk
  have hkeep : s.Keeps (s.goto k (.written i)
      (Function.update s.gdt i (percpuDesc (s.gdt i) limit))) := by
    intro j hj
    apply Function.update_of_ne
    rintro rfl
    rw [hfree] at hj
    cases hj
  refine ⟨⟨?_, ?_, ?_, ?_⟩, hkeep⟩
  · apply h.disjoint_goto (p := .written i) (List.nodup_singleton i)
    intro j hj
    rw [List.mem_singleton.mp hj]
    exact Or.inr hfree
  · apply h.present_goto hkeep
    intro j hj
    rw [List.mem_singleton.mp hj, Function.update_self]
    rfl
  · apply h.found_goto hkeep nofun
    intro l j hlk hl
    exact absurd (h.scanned_unique hl hk) hlk
  · exact h.turn_goto (fun l hl => h.turn k l hl (by simp [hk])) (by simp [hk, GdtPc.booted])

/-- An AP goes on with its slot. -/
theorem Inv.statusStep (h : s.Inv) {seg : Nat} (hk : s.pc k = .written seg) :
    (s.goto k (.running seg) s.gdt).Inv ∧ s.Keeps (s.goto k (.running seg) s.gdt) := by
  have hkeep : s.Keeps (s.goto k (.running seg) s.gdt) := fun _ _ => rfl
  have hown : (s.pc k).owns = [seg] := by rw [hk]; rfl
  refine ⟨⟨?_, ?_, ?_, ?_⟩, hkeep⟩
  · apply h.disjoint_goto (p := .running seg) (List.nodup_singleton seg)
    intro j hj
    exact Or.inl (hown ▸ hj)
  · apply h.present_goto hkeep
    intro j hj
    exact h.present k j (hown ▸ hj)
  · apply h.found_goto hkeep nofun
    intro l j _ hl
    exact (h.found l j hl).1
  · exact h.turn_goto (fun l hl => h.turn k l hl (by simp [hk])) (fun _ => rfl)

/-- An AP takes two slots for its TSS, and no other AP has found one of them. -/
theorem Inv.tssStep (h : s.Inv) {tss : BitVec 64} {seg : Nat} (hapart : s.Apart (.allocTss k tss))
    (hk : s.pc k = .running seg) (hscan : tssScan s.gdt = some i) :
    (s.goto k (.loaded seg i) (writeTss s.gdt i tss)).Inv ∧
      s.Keeps (s.goto k (.loaded seg i) (writeTss s.gdt i tss)) := by
  obtain ⟨hi, hnext, hlo, hhi⟩ := tssScan_spec hscan
  have hown : (s.pc k).owns = [seg] := by rw [hk]; rfl
  have hseg : (s.gdt seg).p = true := h.present k seg (hown ▸ List.mem_singleton_self seg)
  -- a present slot is none of the two
  have hne : ∀ j, (s.gdt j).p = true → j ≠ i ∧ j ≠ i + 1 := by
    intro j hj
    constructor
    · rintro rfl
      rw [hi] at hj
      cases hj
    · rintro rfl
      rw [hnext] at hj
      cases hj
  have hkeep : s.Keeps (s.goto k (.loaded seg i) (writeTss s.gdt i tss)) := fun j hj =>
    writeTss_of_present hscan tss hj
  refine ⟨⟨?_, ?_, ?_, ?_⟩, hkeep⟩
  · apply h.disjoint_goto
    · simp [GdtPc.owns, hne seg hseg]
    · intro j hj
      simp only [GdtPc.owns, List.mem_cons, List.not_mem_nil, or_false] at hj
      rcases hj with rfl | rfl | rfl
      · exact Or.inl (hown ▸ List.mem_singleton_self j)
      · exact Or.inr hi
      · exact Or.inr hnext
  · apply h.present_goto hkeep
    intro j hj
    simp only [GdtPc.owns, List.mem_cons, List.not_mem_nil, or_false] at hj
    rcases hj with rfl | rfl | rfl
    · have hsame := hkeep j hseg
      rw [goto_gdt] at hsame
      rw [hsame]
      exact hseg
    · rw [writeTss, Function.update_of_ne (Nat.ne_of_lt (Nat.lt_succ_self j)), Function.update_self]
      rfl
    · rw [writeTss, Function.update_self]
      rfl
  · apply h.found_goto hkeep nofun
    intro l j _ hl
    obtain ⟨hother, hother'⟩ := h.tss_ne_found hapart hscan hl
    rw [writeTss, Function.update_of_ne hother', Function.update_of_ne hother]
    exact (h.found l j hl).1
  · exact h.turn_goto (fun l hl => h.turn k l hl (by simp [hk])) (fun _ => rfl)

/-- **One step.** A step that the condition allows keeps the invariant and every present
descriptor. -/
theorem step_inv {a : GdtAct n} (h : s.Inv) (hapart : s.Apart a) (hstep : s.Step a t) :
    t.Inv ∧ s.Keeps t := by
  rcases step_cases hstep with ⟨k, i, rfl, hk, hbefore, hscan, rfl⟩ | ⟨k, limit, i, rfl, hk, rfl⟩ |
    ⟨k, seg, rfl, hk, rfl⟩ | ⟨k, tss, seg, i, rfl, hk, hscan, rfl⟩
  · exact h.scanStep hk hbefore hscan
  · exact h.writeStep hk limit
  · exact h.statusStep hk
  · exact h.tssStep hapart hk hscan

/-- An `alloc_tss_desc` against the condition takes the slot another AP has found, and that AP
then writes it. -/
theorem clash_of_step {a : GdtAct n} (h : s.Inv) (hapart : ¬ s.Apart a) (hstep : s.Step a t) :
    ∃ b u, t.Step b u ∧ ¬ u.Disjoint := by
  obtain ⟨halloc, hall⟩ := Classical.not_imp.mp hapart
  obtain ⟨k, hk'⟩ := not_forall.mp hall
  obtain ⟨i, hk⟩ : ∃ i, s.pc k = .scanned i := by
    cases hp : s.pc k with
    | scanned i => exact ⟨i, rfl⟩
    | waiting => exact absurd (hp ▸ trivial) hk'
    | written seg => exact absurd (hp ▸ trivial) hk'
    | running seg => exact absurd (hp ▸ trivial) hk'
    | loaded seg tss => exact absurd (hp ▸ trivial) hk'
  rw [hk] at hk'
  obtain ⟨hhi, hnext⟩ := Classical.not_imp.mp hk'
  rw [Bool.not_eq_true] at hnext
  obtain ⟨hfree, hlo, hbefore⟩ := h.found k i hk
  have hscan := tssScan_eq hfree hnext hlo hhi hbefore
  rcases step_cases hstep with ⟨_, _, rfl, -⟩ | ⟨_, _, _, rfl, -⟩ | ⟨_, _, rfl, -⟩ |
    ⟨l, tss, seg, i', rfl, hl, hscan', rfl⟩
  · cases halloc
  · cases halloc
  · cases halloc
  · rw [hscan] at hscan'
    cases hscan'
    have hne : k ≠ l := by
      rintro rfl
      rw [hk] at hl
      cases hl
    set t := s.goto l (.loaded seg i) (writeTss s.gdt i tss) with ht
    have htk : t.pc k = .scanned i := by rw [ht, goto_of_ne s hne, hk]
    refine ⟨.write k 0, t.goto k (.written i)
      (Function.update t.gdt i (percpuDesc (t.gdt i) 0)), ?_, ?_⟩
    · rw [Step, next, htk]
    · rintro ⟨-, hdisjoint⟩
      have hkl := hdisjoint k l hne
      rw [goto_self, goto_of_ne t hne.symm, ht, goto_self] at hkl
      exact hkl (List.mem_singleton_self i) (List.mem_cons_of_mem _ List.mem_cons_self)

end Steps

end GdtMachine

/-- **The slots of the GDT.** From any table, in every run whose `alloc_tss_desc` calls meet the
condition: no slot is owned twice, and the next step that meets it leaves every present descriptor
as it is. A step that does not meet it can be followed by one after which a slot is owned twice. -/
theorem gdt_slots_apart (n : Nat) (gdt : Gdt) (tr : List (GdtAct n)) (s : GdtMachine n)
    (hrun : Runs (fun a e b => GdtMachine.Apart a e ∧ GdtMachine.Step a e b)
      (GdtMachine.init n gdt) tr s) :
    s.Disjoint ∧ (∀ a t, s.Apart a → s.Step a t → s.Keeps t) ∧
      ∀ a t, ¬ s.Apart a → s.Step a t → ∃ b u, t.Step b u ∧ ¬ u.Disjoint := by
  have hinv : s.Inv := by
    apply hrun.invariant _ (GdtMachine.init_inv n gdt)
    intro a e b ha hstep
    exact (GdtMachine.step_inv ha hstep.1 hstep.2).1
  refine ⟨hinv.disjoint, ?_, ?_⟩
  · intro a t hapart hstep
    exact (GdtMachine.step_inv hinv hapart hstep).2
  · intro a t hapart hstep
    exact GdtMachine.clash_of_step hinv hapart hstep

/-- A table without a descriptor from `GDT_START` on. -/
def emptyGdt : Gdt := fun i => ⟨0, 0, 0, false, 0, decide (i < gdtStart), 0, false, false, false, false, 0⟩

/-- Two APs, the second one booted after the first one has its TSS. -/
theorem gdt_slots_apart_two_cpus : ∃ s, Runs GdtMachine.Step (GdtMachine.init 2 emptyGdt)
    [.scan 0, .write 0 0xfff, .status 0, .allocTss 0 0x1000, .scan 1, .write 1 0xfff] s ∧
      s.pc 0 = .loaded 3 4 ∧ s.pc 1 = .written 6 ∧ s.Disjoint := by
  have hsome : (follow (fun a e => if a.Apart e then a.next e else none) (GdtMachine.init 2 emptyGdt)
      [.scan 0, .write 0 0xfff, .status 0, .allocTss 0 0x1000, .scan 1, .write 1 0xfff]).any
      (fun t => decide (t.pc 0 = .loaded 3 4 ∧ t.pc 1 = .written 6)) = true := by decide
  obtain ⟨t, ht, hp⟩ := Option.any_eq_true _ _ |>.mp hsome
  have hrun := (runs_of_follow ht).mono fun _ _ _ h => Option.ite_none_right_eq_some.mp h
  obtain ⟨h0, h1⟩ := of_decide_eq_true hp
  exact ⟨t, hrun.mono fun _ _ _ h => h.2, h0, h1, (gdt_slots_apart 2 emptyGdt _ t hrun).1⟩

/-- **Two CPUs on one slot.** CPU 1 finds slot 4 free; before it writes it, CPU 0 takes slots 4
and 5 for its TSS. -/
theorem gdt_slots_clash : ¬ ∀ n gdt (tr : List (GdtAct n)) s,
    Runs GdtMachine.Step (GdtMachine.init n gdt) tr s → s.Disjoint := by
  intro h
  have hsome : (follow GdtMachine.next (GdtMachine.init 2 emptyGdt)
      [.scan 0, .write 0 0xfff, .status 0, .scan 1, .allocTss 0 0x1000, .write 1 0xfff]).any
      (fun t => decide (t.pc 0 = .loaded 3 4 ∧ t.pc 1 = .written 4)) = true := by decide
  obtain ⟨t, ht, hp⟩ := Option.any_eq_true _ _ |>.mp hsome
  obtain ⟨h0, h1⟩ := of_decide_eq_true hp
  have hdisjoint := (h 2 emptyGdt _ t (runs_of_follow ht)).2 0 1 (by decide)
  rw [h0, h1] at hdisjoint
  exact hdisjoint (List.mem_cons_of_mem _ List.mem_cons_self) (List.mem_singleton_self 4)

end Rtv.Smp
