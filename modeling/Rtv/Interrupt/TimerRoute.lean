import Mathlib.Data.Nat.Bitwise
import Rtv.Interrupt.Controllers

/-!
# The way of the timer interrupt

`kernel_main` calls `interrupt_init`, which sets up the PICs and the PIT, then `acpi_init`, which parses
the records of the MADT, and then `ioapic_init`, which masks the PICs and all entries of the I/O APIC
except that of the PIT.

**The law** (`timer_routed`): from whatever state the controllers are in, at each point of this an entry
of the redirection table is what it was at the start, or is masked, or is the PIT's as it is in the end;
and in the end the PICs are masked, and the only entry that is not is the one to which the records route
the PIT, with vector 0x20, sent to all CPUs, of the polarity and trigger mode that the records give. Where
the records route the PIT to an interrupt that the I/O APIC does not have, the kernel panics with all
entries masked.
-/

namespace Rtv.Interrupt

open Rtv.Lib Rtv.Boot

/-! ## What the records say -/

/-- What a record maps. -/
def override? : MadtRecord → Option IrqOverride
  | .interruptOverride _ irq gsi flags => some ⟨irq, flags, gsi⟩
  | _ => none

/-- The overrides in table order. -/
def overrides (rs : List MadtRecord) : List IrqOverride := rs.filterMap override?

/-- The first interrupt of an I/O APIC. -/
def gsiBase? : MadtRecord → Option Nat
  | .ioapic _ base => some base
  | _ => none

/-- The first interrupt of the I/O APIC, 0 without a record for it. -/
def gsiBase (rs : List MadtRecord) : Nat := rs.foldl (fun base r => (gsiBase? r).getD base) 0

/-- Where an interrupt line goes, and its flags: what the first override for it says. -/
def route (rs : List MadtRecord) (irq : UInt8) : Nat × Nat :=
  match (overrides rs).find? fun o => o.irq = irq with
  | some o => (o.gsi, o.flags)
  | none => (irq.toNat, 0)

/-- `acpi_parse_apic` has stored what the records say. -/
structure Stored (rs : List MadtRecord) (s : Acpi) : Prop where
  overrides : (List.range s.numOverrides).map s.irqMap = overrides rs
  base : s.gsiBase = gsiBase rs
  bound : s.numOverrides ≤ maxIrqOverrides

section Parsing

variable {rs : List MadtRecord} {r : MadtRecord} {s t : Acpi}

/-- A record that neither is an override nor is for an I/O APIC. -/
theorem Stored.skip (h : Stored rs s) (hoverride : override? r = none) (hbase : gsiBase? r = none)
    (hmap : t.irqMap = s.irqMap) (hcount : t.numOverrides = s.numOverrides)
    (hgsi : t.gsiBase = s.gsiBase) : Stored (rs ++ [r]) t := by
  constructor
  · rw [hmap, hcount, h.overrides, Interrupt.overrides, Interrupt.overrides, List.filterMap_append,
      List.filterMap_cons_none hoverride, List.filterMap_nil, List.append_nil]
  · rw [hgsi, h.base, gsiBase, gsiBase, List.foldl_append, List.foldl_cons, hbase]
    rfl
  · rw [hcount]
    exact h.bound

theorem stored_record (h : Stored rs s) (hrun : parseRecord s r = .ok t) : Stored (rs ++ [r]) t := by
  cases r with
  | lapic apicId flags =>
    simp only [parseRecord, acpiAddCpu] at hrun
    split_ifs at hrun <;> cases hrun <;> exact h.skip rfl rfl rfl rfl rfl
  | ioapic address base =>
    simp only [parseRecord, addIoapic] at hrun
    split_ifs at hrun
    cases hrun
    refine ⟨?_, ?_, h.bound⟩
    · rw [overrides, List.filterMap_append]
      exact h.overrides.trans (List.append_nil _).symm
    · rw [gsiBase, List.foldl_append]
      rfl
  | interruptOverride bus irq gsi flags =>
    simp only [parseRecord, addOverride] at hrun
    have hbound : s.numOverrides ≤ 32 := h.bound
    have hwrap : (s.numOverrides + 1) % 2 ^ 8 = s.numOverrides + 1 := by omega
    split_ifs at hrun with hbus hfull
    cases hrun
    refine ⟨?_, ?_, not_lt.mp hfull⟩
    · have hbefore : (List.range s.numOverrides).map
          (fun i => if i = s.numOverrides then (⟨irq, flags, gsi⟩ : IrqOverride) else s.irqMap i) =
          (List.range s.numOverrides).map s.irqMap :=
        List.map_congr_left fun i hi => if_neg (Nat.ne_of_lt (List.mem_range.mp hi))
      rw [hwrap, List.range_succ, List.map_append, hbefore, h.overrides, overrides, overrides,
        List.filterMap_append, List.map_singleton]
      simp [override?]
    · rw [gsiBase, List.foldl_append]
      exact h.base
  | other type length =>
    cases hrun
    exact h.skip rfl rfl rfl rfl rfl

theorem stored_parse {m : Bytes} {madt : Nat} (h : WellFormed m madt rs)
    (hrun : acpiParseApic m madt .loaded = .ok s) : Stored rs s := by
  rw [acpiParseApic_eq h] at hrun
  apply Exec.foldlM_inv _ _ hrun
  · exact ⟨rfl, rfl, Nat.zero_le _⟩
  · intro pre r a b ha hb
    exact stored_record ha hb

/-- `acpi_irq_to_gsi` finds the first override. -/
theorem Stored.acpiIrqToGsi_eq (h : Stored rs s) (irq : UInt8) : acpiIrqToGsi s irq = route rs irq := by
  rw [acpiIrqToGsi, route, ← h.overrides, List.find?_map]
  change _ = match ((List.range s.numOverrides).find? fun i => (s.irqMap i).irq = irq).map s.irqMap with
    | some o => (o.gsi, o.flags)
    | none => (irq.toNat, 0)
  cases (List.range s.numOverrides).find? fun i => (s.irqMap i).irq = irq <;> rfl

end Parsing

/-! ## What an entry says -/

/-- An entry of the redirection table as the I/O APIC reads it. -/
structure Redirection where
  vector : BitVec 8
  delivery : BitVec 3
  logical : Bool
  activeLow : Bool
  level : Bool
  masked : Bool
  dest : BitVec 8
deriving DecidableEq, Repr

/-- The fields of an entry. -/
def Redirection.decode (w : BitVec 64) : Redirection where
  vector := getField w 0 8
  delivery := getField w 8 3
  logical := w.getLsbD 11
  activeLow := w.getLsbD 13
  level := w.getLsbD 15
  masked := w.getLsbD 16
  dest := getField w 56 8

/-- Fixed delivery of vector 0x20 to all CPUs; bit 1 of the flags of an override is set for a line that is
active low, and bit 3 for one that is triggered by its level. -/
def timer (flags : Nat) : Redirection where
  vector := 0x20
  delivery := 0
  logical := false
  activeLow := flags.testBit 1
  level := flags.testBit 3
  masked := false
  dest := 0xFF

theorem and_two_pow_ne_zero (n k : Nat) : n &&& 2 ^ k ≠ 0 ↔ n.testBit k = true := by
  rw [Nat.and_two_pow]
  cases n.testBit k <;> simp

theorem decode_pitEntry (flags : Nat) : .decode (pitEntry flags ||| (0x20#8).setWidth 64) = timer flags := by
  have hlow : flags &&& 0x2 ≠ 0 ↔ flags.testBit 1 = true := and_two_pow_ne_zero flags 1
  have hlevel : flags &&& 0x8 ≠ 0 ↔ flags.testBit 3 = true := and_two_pow_ne_zero flags 3
  simp only [pitEntry, timer, hlow, hlevel]
  cases flags.testBit 1 <;> cases flags.testBit 3 <;> decide

/-! ## Writing an entry -/

/-- The entry is masked. -/
def Masked (w : BitVec 64) : Prop := w.getLsbD 16 = true

instance (w : BitVec 64) : Decidable (Masked w) := inferInstanceAs (Decidable (_ = _))

section Entry

variable {c : Controllers} {i : Nat} {w data : BitVec 64}

/-- The controllers with one entry and the selected register set. -/
def Controllers.set (c : Controllers) (reg : BitVec 8) (i : Nat) (w : BitVec 64) : Controllers :=
  { c with ioapic := ⟨reg, Function.update c.ioapic.table i w⟩ }

theorem set_select (reg : BitVec 8) (v : BitVec 32) :
    (c.set reg i w).write (.ioapic ioapicRegsel v) = c.set (v.setWidth 8) i w := rfl

theorem toNat_ioapicRedtbl (hi : i < 120) : (ioapicRedtbl i).toNat = 0x10 + 2 * i := by
  rw [ioapicRedtbl, BitVec.toNat_ofNat]
  omega

theorem toNat_ioapicRedtbl_high (hi : i < 120) :
    (((ioapicRedtbl i).setWidth 32 + 1).setWidth 8).toNat = 0x10 + 2 * i + 1 := by
  rw [BitVec.toNat_setWidth, BitVec.toNat_add, BitVec.toNat_setWidth, toNat_ioapicRedtbl hi]
  simp
  omega

/-- A write to one half of the entry. -/
theorem set_window {reg : BitVec 8} {half : Nat} (hreg : reg.toNat = 0x10 + 2 * i + half) (hhalf : half < 2)
    (v : BitVec 32) :
    (c.set reg i w).write (.ioapic ioapicWin v) = c.set reg i (setField w (32 * half) v) := by
  have hindex : (reg.toNat - 0x10) / 2 = i := by omega
  have hpart : (reg.toNat - 0x10) % 2 = half := by omega
  have hwindow : (⟨reg, Function.update c.ioapic.table i w⟩ : Ioapic).window v =
      ⟨reg, Function.update c.ioapic.table i (setField w (32 * half) v)⟩ := by
    rw [Ioapic.window, if_neg (by simp only; omega)]
    simp only [hindex, hpart]
    congr 1
    funext j
    by_cases hj : j = i
    · subst hj
      simp
    · simp [hj]
  rw [Controllers.set, Controllers.write, Ioapic.write, if_neg (by decide), if_pos rfl, hwindow]
  rfl

/-- Both halves. -/
theorem setField_halves (w data : BitVec 64) :
    setField (setField w 32 ((data >>> 32).setWidth 32)) 0 ((data &&& 0xFFFFFFFF).setWidth 32) = data := by
  refine BitVec.eq_of_getLsbD_eq fun j hj => ?_
  rw [getLsbD_setField _ _ _ hj, getLsbD_setField _ _ _ hj]
  have hmask : ∀ j < 32, (0xFFFFFFFF : BitVec 64).getLsbD j = true := by decide
  by_cases hlow : j < 32
  · rw [if_pos ⟨Nat.zero_le j, by omega⟩, Nat.sub_zero, BitVec.getLsbD_setWidth, BitVec.getLsbD_and,
      hmask j hlow, decide_eq_true hlow, Bool.true_and, Bool.and_true]
  · rw [if_neg (by omega), if_pos ⟨not_lt.mp hlow, hj⟩, BitVec.getLsbD_setWidth,
      BitVec.getLsbD_ushiftRight, Nat.add_sub_cancel' (not_lt.mp hlow), decide_eq_true (by omega),
      Bool.true_and]

/-- What the first write leaves is masked, and stays so while the upper half is written. -/
theorem masked_low (w : BitVec 64) : Masked (setField w 0 (0x10000 : BitVec 32)) := by
  rw [Masked, getLsbD_setField _ _ _ (by decide), if_pos (by decide)]
  rfl

theorem Masked.high (h : Masked w) (v : BitVec 32) : Masked (setField w 32 v) := by
  rw [Masked, getLsbD_setField _ _ _ (by decide), if_neg (by decide)]
  exact h

/-- **Writing an entry**: at each point it is as it was, masked or as it is in the end. -/
theorem along_ioapicWrite64 {P : Controllers → Prop} (hi : i < 120)
    (hP : ∀ reg w, w = c.ioapic.table i ∨ Masked w ∨ w = data → P (c.set reg i w)) :
    Along Controllers.write P c (ioapicWrite64 (ioapicRedtbl i) data) ∧
      after Controllers.write c (ioapicWrite64 (ioapicRedtbl i) data) = c.set (ioapicRedtbl i) i data := by
  have hsame : ((ioapicRedtbl i).setWidth 32).setWidth 8 = ioapicRedtbl i := by
    rw [BitVec.setWidth_setWidth_of_le _ (by decide), BitVec.setWidth_eq]
  have hlow : (ioapicRedtbl i).toNat = 0x10 + 2 * i + 0 := toNat_ioapicRedtbl hi
  have hhigh := toNat_ioapicRedtbl_high hi
  have hstart : c = c.set c.ioapic.regsel i (c.ioapic.table i) := by
    rw [Controllers.set, Function.update_eq_self]
  have hfirst : c.write (.ioapic ioapicRegsel ((ioapicRedtbl i).setWidth 32)) =
      c.set (ioapicRedtbl i) i (c.ioapic.table i) := by
    have hselect : (c.set c.ioapic.regsel i (c.ioapic.table i)).write
        (.ioapic ioapicRegsel ((ioapicRedtbl i).setWidth 32)) = _ := set_select _ _
    rwa [← hstart, hsame] at hselect
  have hmask := masked_low (c.ioapic.table i)
  have hupper := hmask.high ((data >>> 32).setWidth 32)
  have hfinal := setField_halves (setField (c.ioapic.table i) 0 (0x10000 : BitVec 32)) data
  have hnow : P c := by
    have hbefore := hP c.ioapic.regsel _ (.inl rfl)
    rwa [← hstart] at hbefore
  simp only [ioapicWrite64, Along, after_cons, after_nil, hfirst, set_select, hsame,
    set_window hlow two_pos, set_window hhigh one_lt_two, Nat.mul_zero, Nat.mul_one, hfinal, and_true]
  exact ⟨hnow, hP _ _ (.inl rfl), hP _ _ (.inr (.inl hmask)), hP _ _ (.inr (.inl hmask)),
    hP _ _ (.inr (.inl hupper)), hP _ _ (.inr (.inl hupper)), hP _ _ (.inr (.inr rfl))⟩

end Entry

/-! ## The whole -/

section Whole

variable {c c' : Controllers} {rs : List MadtRecord} {s : Acpi} {ver : BitVec 32}

/-- `interrupt_init` and `ioapic_init`. -/
def timerInit (s : Acpi) (ver : BitVec 32) : Logged IoWrite Unit := do
  ⟨picInit ++ pitInit, .ok ()⟩
  ioapicInit s ver

/-- The I/O APIC has the interrupt to which the records route the PIT. -/
def Routed (rs : List MadtRecord) (ver : BitVec 32) : Prop :=
  gsiBase rs ≤ (route rs pitIrq).1 ∧ (route rs pitIrq).1 < (gsiBase rs + numGsi ver) % 2 ^ 32

instance : Decidable (Routed rs ver) := inferInstanceAs (Decidable (_ ∧ _))

/-- Its entry. -/
def pin (rs : List MadtRecord) : Nat := (route rs pitIrq).1 - gsiBase rs

/-- The entries of a list are masked, and nothing else has changed. -/
structure MaskedIn (c : Controllers) (done : List Nat) (c' : Controllers) : Prop where
  pics : c'.pic1 = c.pic1 ∧ c'.pic2 = c.pic2 ∧ c'.pit = c.pit
  masked : ∀ j ∈ done, Masked (c'.ioapic.table j)
  same : ∀ j, j ∉ done → c'.ioapic.table j = c.ioapic.table j

theorem MaskedIn.set {done : List Nat} {i : Nat} {w : BitVec 64} (h : MaskedIn c done c') (reg : BitVec 8)
    (hw : Masked w) : MaskedIn c (done ++ [i]) (c'.set reg i w) := by
  refine ⟨h.pics, fun j hj => ?_, fun j hj => ?_⟩
  · change Masked (Function.update c'.ioapic.table i w j)
    by_cases hji : j = i
    · rwa [hji, Function.update_self]
    · rw [Function.update_of_ne hji]
      exact h.masked j ((List.mem_append.mp hj).resolve_right (mt List.mem_singleton.mp hji))
  · rw [List.mem_append, List.mem_singleton, not_or] at hj
    exact (Function.update_of_ne hj.2 _ _).trans (h.same j hj.1)

/-- An entry is as it was, or masked. -/
def Untouched (c c' : Controllers) : Prop :=
  ∀ j, c'.ioapic.table j = c.ioapic.table j ∨ Masked (c'.ioapic.table j)

theorem MaskedIn.untouched {done : List Nat} (h : MaskedIn c done c') : Untouched c c' := by
  intro j
  by_cases hj : j ∈ done
  · exact .inr (h.masked j hj)
  · exact .inl (h.same j hj)

theorem Untouched.set (h : Untouched c c') (reg : BitVec 8) {i : Nat} {w : BitVec 64}
    (hw : w = c'.ioapic.table i ∨ Masked w) : Untouched c (c'.set reg i w) := by
  intro j
  change Function.update c'.ioapic.table i w j = _ ∨ Masked (Function.update c'.ioapic.table i w j)
  by_cases hji : j = i
  · subst hji
    rw [Function.update_self]
    rcases hw with rfl | hw
    · exact h j
    · exact .inr hw
  · rw [Function.update_of_ne hji]
    exact h j

/-- Masking all entries. -/
theorem along_mask {k : Nat} (hk : k ≤ 120) :
    Along Controllers.write (Untouched c) c
        ((List.range k).flatMap fun i => ioapicWrite64 (ioapicRedtbl i) 0x10000) ∧
      MaskedIn c (List.range k) (after Controllers.write c
        ((List.range k).flatMap fun i => ioapicWrite64 (ioapicRedtbl i) 0x10000)) := by
  have hmask : Masked 0x10000 := by decide
  refine Along.flatMap ⟨⟨rfl, rfl, rfl⟩, nofun, fun _ _ => rfl⟩ (fun _ _ h => h.untouched) ?_
  intro done i d hi h
  have hlt : i < 120 := Nat.lt_of_lt_of_le (List.mem_range.mp hi) hk
  have hwrite : Along Controllers.write (Untouched c) d (ioapicWrite64 (ioapicRedtbl i) 0x10000) ∧
      after Controllers.write d (ioapicWrite64 (ioapicRedtbl i) 0x10000) = d.set (ioapicRedtbl i) i 0x10000 :=
    along_ioapicWrite64 hlt fun reg w hw =>
      h.untouched.set reg (hw.imp_right fun hw => hw.elim id fun hw => hw ▸ hmask)
  rw [hwrite.2]
  exact ⟨hwrite.1, h.set _ hmask⟩

/-- What is written before the I/O APIC. -/
def beforeIoapic : List IoWrite :=
  picInit ++ pitInit ++ [.outb pic1Data 0xFF, .outb pic2Data 0xFF, .ioapic ioapicRegsel 1]

theorem timerInit_log (hs : Stored rs s) : (timerInit s ver).log = beforeIoapic ++
    ((List.range (numGsi ver)).flatMap fun i => ioapicWrite64 (ioapicRedtbl i) 0x10000) ++
      (ioapicMapGsi (gsiBase rs) (numGsi ver) (route rs pitIrq).1 0x20 (pitEntry (route rs pitIrq).2)).log := by
  rw [timerInit, Logged.log_bind_ok rfl, ioapicInit, Logged.log_bind_ok rfl, Logged.log_bind_ok rfl,
    hs.acpiIrqToGsi_eq, hs.base, beforeIoapic]
  simp only [List.append_assoc]

theorem timerInit_outcome (hs : Stored rs s) : (timerInit s ver).outcome =
    (ioapicMapGsi (gsiBase rs) (numGsi ver) (route rs pitIrq).1 0x20 (pitEntry (route rs pitIrq).2)).outcome := by
  rw [← hs.acpiIrqToGsi_eq, ← hs.base]
  rfl

/-- The PICs are masked, and have the vectors from 0x20 on; the PIT counts down from `PIT_FREQ / HZ`. -/
structure LegacyDone (c : Controllers) : Prop where
  pic1 : c.pic1 = ⟨pic1BaseIrq, 0xFF, []⟩
  pic2 : c.pic2 = ⟨pic2BaseIrq, 0xFF, []⟩
  pit : c.pit = ⟨3, 2, none, some (.ofNat 16 (pitFreq / hz))⟩

theorem after_beforeIoapic (c : Controllers) :
    LegacyDone (after Controllers.write c beforeIoapic) ∧
      (after Controllers.write c beforeIoapic).ioapic.table = c.ioapic.table :=
  ⟨⟨rfl, rfl, rfl⟩, rfl⟩

/-- A write that is not through the window. -/
def keepsTable : IoWrite → Bool
  | .outb _ _ => true
  | .ioapic offset _ => offset = ioapicRegsel

theorem write_keepsTable {w : IoWrite} (hw : keepsTable w = true) :
    (c.write w).ioapic.table = c.ioapic.table := by
  cases w with
  | outb port val =>
    simp only [Controllers.write]
    split_ifs <;> rfl
  | ioapic offset data =>
    have hoffset : offset = ioapicRegsel := of_decide_eq_true hw
    rw [Controllers.write, Ioapic.write, if_pos hoffset]

theorem along_keepsTable {ws : List IoWrite} (hws : ∀ w ∈ ws, keepsTable w = true)
    (h : c'.ioapic.table = c.ioapic.table) : Along Controllers.write (Untouched c) c' ws := by
  have hnow : Untouched c c' := fun j => .inl (congrFun h j)
  induction ws generalizing c' with
  | nil => exact hnow
  | cons w ws ih =>
    have hnext : (c'.write w).ioapic.table = c.ioapic.table :=
      (write_keepsTable (hws w List.mem_cons_self)).trans h
    exact ⟨hnow, ih (fun v hv => hws v (List.mem_cons_of_mem w hv)) hnext fun j => .inl (congrFun hnext j)⟩

/-- An entry is as it was, or masked, or the PIT's as it is in the end. -/
def Safe (rs : List MadtRecord) (ver : BitVec 32) (c c' : Controllers) : Prop :=
  ∀ j, c'.ioapic.table j = c.ioapic.table j ∨ Masked (c'.ioapic.table j) ∨
    Routed rs ver ∧ j = pin rs ∧ .decode (c'.ioapic.table j) = timer (route rs pitIrq).2

/-- What is left in the end. -/
structure Done (rs : List MadtRecord) (ver : BitVec 32) (c : Controllers) : Prop where
  legacy : LegacyDone c
  pit : Routed rs ver → .decode (c.ioapic.table (pin rs)) = timer (route rs pitIrq).2
  masked : ∀ j < numGsi ver, ¬ (Routed rs ver ∧ j = pin rs) → Masked (c.ioapic.table j)

theorem Untouched.safe (h : Untouched c c') : Safe rs ver c c' := fun j => (h j).imp_right .inl

theorem Untouched.safe_set (h : Untouched c c') (hrouted : Routed rs ver) (reg : BitVec 8) {w : BitVec 64}
    (hw : w = c'.ioapic.table (pin rs) ∨ Masked w ∨ .decode w = timer (route rs pitIrq).2) :
    Safe rs ver c (c'.set reg (pin rs) w) := by
  intro j
  change Function.update c'.ioapic.table (pin rs) w j = _ ∨
    Masked (Function.update c'.ioapic.table (pin rs) w j) ∨ Routed rs ver ∧ j = pin rs ∧
      .decode (Function.update c'.ioapic.table (pin rs) w j) = timer (route rs pitIrq).2
  by_cases hj : j = pin rs
  · subst hj
    rw [Function.update_self]
    rcases hw with rfl | hw | hw
    · exact h.safe _
    · exact .inr (.inl hw)
    · exact .inr (.inr ⟨hrouted, rfl, hw⟩)
  · rw [Function.update_of_ne hj]
    exact h.safe j

theorem Routed.pin_lt (h : Routed rs ver) : pin rs < numGsi ver := by
  have hlt : (route rs pitIrq).1 < gsiBase rs + numGsi ver := Nat.lt_of_lt_of_le h.2 (Nat.mod_le _ _)
  have hle := h.1
  rw [pin]
  omega

/-- The last step, once all entries are masked. -/
theorem along_mapGsi (hver : numGsi ver ≤ 120) (h : Untouched c c') (hlegacy : LegacyDone c')
    (hmasked : ∀ j < numGsi ver, Masked (c'.ioapic.table j)) :
    let map := ioapicMapGsi (gsiBase rs) (numGsi ver) (route rs pitIrq).1 0x20 (pitEntry (route rs pitIrq).2)
    Along Controllers.write (Safe rs ver c) c' map.log ∧ Done rs ver (after Controllers.write c' map.log) ∧
      map.outcome = if Routed rs ver then .ok ()
        else .error (.panic "ioapic_map_gsi" "Unsupported GSI number") := by
  intro map
  by_cases hrouted : Routed rs ver
  · have hmap : map = ⟨ioapicWrite64 (ioapicRedtbl (pin rs))
        (pitEntry (route rs pitIrq).2 ||| (0x20#8).setWidth 64), .ok ()⟩ :=
      if_neg (not_or.mpr ⟨not_lt.mpr hrouted.1, not_le.mpr hrouted.2⟩)
    have hentry := decode_pitEntry (route rs pitIrq).2
    rw [hmap, if_pos hrouted]
    generalize pitEntry (route rs pitIrq).2 ||| (0x20#8).setWidth 64 = data at hentry
    have hpin : pin rs < 120 := Nat.lt_of_lt_of_le hrouted.pin_lt hver
    obtain ⟨halong, hafter⟩ := along_ioapicWrite64 (P := Safe rs ver c) hpin
      fun reg w hw => h.safe_set hrouted reg
        (hw.imp_right fun hw => hw.imp_right fun hw => (congrArg Redirection.decode hw).trans hentry)
    refine ⟨halong, ?_, rfl⟩
    rw [hafter]
    refine ⟨⟨hlegacy.pic1, hlegacy.pic2, hlegacy.pit⟩, fun _ => ?_, fun j hj hne => ?_⟩
    · change Redirection.decode (Function.update c'.ioapic.table (pin rs) data (pin rs)) = _
      rw [Function.update_self]
      exact hentry
    · have hne : j ≠ pin rs := fun heq => hne ⟨hrouted, heq⟩
      change Masked (Function.update c'.ioapic.table (pin rs) data j)
      rw [Function.update_of_ne hne]
      exact hmasked j hj
  · have hbad : (route rs pitIrq).1 < gsiBase rs ∨
        (route rs pitIrq).1 ≥ (gsiBase rs + numGsi ver) % 2 ^ 32 := by
      by_contra hnot
      obtain ⟨hge, hlt⟩ := not_or.mp hnot
      exact hrouted ⟨not_lt.mp hge, not_le.mp hlt⟩
    have hmap : map = ⟨[], .error (.panic "ioapic_map_gsi" "Unsupported GSI number")⟩ := if_pos hbad
    rw [hmap, if_neg hrouted]
    exact ⟨h.safe, ⟨hlegacy, fun h => absurd h hrouted, fun j hj _ => hmasked j hj⟩, rfl⟩

/-- **The way of the timer interrupt.** -/
theorem timer_routed {m : Bytes} {madt : Nat} (h : WellFormed m madt rs)
    (hrun : acpiParseApic m madt .loaded = .ok s) (hver : numGsi ver ≤ 120) (c : Controllers) :
    (∀ pre, pre <+: (timerInit s ver).log → Safe rs ver c (after Controllers.write c pre)) ∧
      Done rs ver (after Controllers.write c (timerInit s ver).log) ∧
      (timerInit s ver).outcome = if Routed rs ver then .ok ()
        else .error (.panic "ioapic_map_gsi" "Unsupported GSI number") := by
  have hs := stored_parse h hrun
  obtain ⟨hlegacy, htable⟩ := after_beforeIoapic c
  have hbefore : Along Controllers.write (Untouched c) c beforeIoapic := along_keepsTable (by decide) rfl
  obtain ⟨hmasking, hmasked⟩ := along_mask hver
  have hback : ∀ d, Untouched (after Controllers.write c beforeIoapic) d → Untouched c d := by
    intro d hd j
    rw [← htable]
    exact hd j
  have hlegacy' : LegacyDone (after Controllers.write (after Controllers.write c beforeIoapic)
      ((List.range (numGsi ver)).flatMap fun i => ioapicWrite64 (ioapicRedtbl i) 0x10000)) :=
    ⟨hmasked.pics.1.trans hlegacy.pic1, hmasked.pics.2.1.trans hlegacy.pic2,
      hmasked.pics.2.2.trans hlegacy.pit⟩
  obtain ⟨halong, hdone, houtcome⟩ := along_mapGsi hver (hback _ hmasked.untouched) hlegacy'
    fun j hj => hmasked.masked j (List.mem_range.mpr hj)
  rw [timerInit_log hs, timerInit_outcome hs, ← along_iff_prefix, List.append_assoc, after_append,
    after_append]
  refine ⟨?_, hdone, houtcome⟩
  exact (hbefore.mono fun d hd => hd.safe).append
    ((hmasking.mono fun d hd => (hback d hd).safe).append halong)

/-- A table at address 0 with an I/O APIC, and line 0 at its interrupt 2. -/
def pcTable : Bytes where
  byte a :=
    if a = 4 then 66
    else if a < madtSize then 0
    else [1, 12, 0, 0, 0, 0, 0xC0, 0xFE, 0, 0, 0, 0, 2, 10, 0, 0, 2, 0, 0, 0, 0, 0].getD (a - madtSize) 0

theorem timer_routed_pc : ∃ s, acpiParseApic pcTable 0 .loaded = .ok s ∧
    (timerInit s 0x170020).outcome = .ok () ∧
    ∀ c, .decode ((after Controllers.write c (timerInit s 0x170020).log).ioapic.table 2) = timer 0 := by
  have hwf : WellFormed pcTable 0 [.ioapic 0xFEC00000 0, .interruptOverride 0 0 2 0] := by decide
  have hrouted : Routed [.ioapic 0xFEC00000 0, .interruptOverride 0 0 2 0] 0x170020 := by decide
  obtain ⟨s, hs⟩ := Exec.exists_of_isOk (show (acpiParseApic pcTable 0 .loaded).isOk = true by decide)
  have hver : numGsi 0x170020 ≤ 120 := by decide
  have hfinal := timer_routed hwf hs hver
  have hzero : Controllers := ⟨⟨0, 0, []⟩, ⟨0, 0, []⟩, ⟨0, 0, none, none⟩, ⟨0, fun _ => 0⟩⟩
  exact ⟨s, hs, (hfinal hzero).2.2.trans (if_pos hrouted), fun c => (hfinal c).2.1.pit hrouted⟩

end Whole

end Rtv.Interrupt
