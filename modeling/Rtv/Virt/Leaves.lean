import Mathlib.Data.Nat.Bitwise
import Rtv.Virt.Guest

/-!
# The large pages of the guest

The entries of the PDTs, in the order in which `virt_pg_table_setup` writes them. The first one points to
a page table. The address in any other comes from one of three cursors: `kernel_phy` and `ramdisk_phy`,
which are read before the images are moved and count up in steps of 2MB to the ends of the moved images,
and the guest's own address.

`logSetup` is `virt_pg_table_setup` with the addresses and the values of these writes as a second result.
Without them it is `virt_pg_table_setup` (`logSetup_erases`).

**The law** (`logPdts_logged`): the entries of the kernel come first, those of the ramdisk next, and
within an image the place of a page in its 2MB does not change. What the words hold in the end is in
`Rtv.Virt.LeafWords`.
-/

namespace Rtv.Virt

open Rtv.Lib Rtv.Utils Rtv.Mm

/-! ## The loops with a log -/

/-- A write to an entry of a PDT: its address in physical memory, and the value. -/
structure PdtWrite where
  addr : Nat
  entry : Nat
deriving DecidableEq, Repr

/-- The write of entry `j` of the PDT mapped at `pdtVirt`. -/
def pdtWrite (pdtVirt : Ptr) (j entry : Nat) : PdtWrite := ⟨pdtVirt.base + 8 * j, entry⟩

/-- `storeFirst` with what it writes to the PDT. -/
def logFirst (pdtVirt : Ptr) (j : Nat) : HostM PdtWrite := do
  let ptFrame ← allocFrame
  require "virt_pg_table_setup" "Failed to allocate a PT frame" (ptFrame ≠ 0)
  store pdtVirt (8 * j) 8 (eptTable ptFrame)
  let ptVirt ← mapPage ptFrame (pgtP ||| pgtRw)
  require "virt_pg_table_setup" "Failed to map PT" (ptVirt.va ≠ 0)
  fillPt ptVirt pgTableEntries 0
  unmapPage ptVirt
  return pdtWrite pdtVirt j (eptTable ptFrame)

/-- `storePdtEntry` with the log. -/
def logPdtEntry (vm : VmStruct) (pdtVirt : Ptr) (i j : Nat) (c : Cursors) (log : List PdtWrite) :
    HostM (Cursors × List PdtWrite) :=
  let frameOffset := i * (pgSize * pgTableEntries * pgTableEntries) + j * (pgSize * pgTableEntries)
  if i = 0 ∧ j = 0 then do
    let first ← logFirst pdtVirt j
    return (c, log ++ [first])
  else if c.kernelPhy < (vm.imgSize + vm.imgPaddr).toNat then do
    store pdtVirt (8 * j) 8 (eptLargePage c.kernelPhy)
    return ({ c with kernelPhy := add64 c.kernelPhy largePgSize },
      log ++ [pdtWrite pdtVirt j (eptLargePage c.kernelPhy)])
  else if c.ramdiskPhy < (vm.extraSize + vm.extraPaddr).toNat then do
    store pdtVirt (8 * j) 8 (eptLargePage c.ramdiskPhy)
    return ({ c with ramdiskPhy := add64 c.ramdiskPhy largePgSize },
      log ++ [pdtWrite pdtVirt j (eptLargePage c.ramdiskPhy)])
  else do
    store pdtVirt (8 * j) 8 (eptLargePage (frameOffset + 0x100000000))
    return (c, log ++ [pdtWrite pdtVirt j (eptLargePage (frameOffset + 0x100000000))])

/-- `fillPdt` with the log. -/
def logPdt (vm : VmStruct) (bound i : Nat) (pdtVirt : Ptr) :
    Nat → Nat → Cursors → List PdtWrite → HostM (Cursors × List PdtWrite)
  | 0, _, c, log => return (c, log)
  | num + 1, j, c, log => do
    let (c, log) ← logPdtEntry vm pdtVirt i j c log
    let count := (c.count + pgTableEntries) % 2 ^ 32
    if count ≥ bound then
      return ({ c with count }, log)
    else
      logPdt vm bound i pdtVirt num (j + 1) { c with count } log

/-- `storePdt` with the log. -/
def logPdtRound (vm : VmStruct) (bound : Nat) (pdptVirt : Ptr) (c : Cursors × List PdtWrite) (i : Nat) :
    HostM (Cursors × List PdtWrite) := do
  let frame ← allocFrame
  require "virt_pg_table_setup" "Failed to allocate a PDT frame" (frame ≠ 0)
  store pdptVirt (8 * i) 8 (eptTable frame)
  let pdtVirt ← mapPage frame (pgtP ||| pgtRw)
  require "virt_pg_table_setup" "Failed to map PDT" (pdtVirt.va ≠ 0)
  let c ← logPdt vm bound i pdtVirt pgTableEntries 0 c.1 c.2
  unmapPage pdtVirt
  return c

/-- `virt_pg_table_setup` with the log. -/
def logSetup (vm : VmStruct) : HostM ((Nat × VmStruct) × List PdtWrite) := do
  let bound := vm.pdtEntries * pgTableEntries % 2 ^ 32
  let kernelPhy := add64 vm.imgPaddr.toNat 0x100000
  let ramdiskPhy := vm.extraPaddr.toNat
  let pml4tPhy ← allocFrame
  require "virt_pg_table_setup" "Failed to allocate a PML4T frame" (pml4tPhy ≠ 0)
  let pml4tVirt ← mapPage pml4tPhy (pgtP ||| pgtRw)
  require "virt_pg_table_setup" "Failed to map PML4T" (pml4tVirt.va ≠ 0)
  let pdptPhy ← allocFrame
  require "virt_pg_table_setup" "Failed to allocate a PDPT frame" (pdptPhy ≠ 0)
  let pdptVirt ← mapPage pdptPhy (pgtP ||| pgtRw)
  require "virt_pg_table_setup" "Failed to map PDPT" (pdptVirt.va ≠ 0)
  clearPage pml4tVirt
  clearPage pdptVirt
  store pml4tVirt 0 8 (eptTable pdptPhy)
  let vm ← virtSetupLinux vm
  let c ← (List.range vm.pdptEntries).foldlM (logPdtRound vm bound pdptVirt)
    (⟨kernelPhy, ramdiskPhy, 0⟩, [])
  unmapPage pml4tVirt
  unmapPage pdptVirt
  return ((pml4tPhy, vm), c.2)

/-! ## Without the log -/

section Erasing

variable {α β γ : Type}

/-- Without its log, `x` is `y`. -/
def Erases (x : HostM (α × List PdtWrite)) (y : HostM α) : Prop := Prod.fst <$> x = y

theorem Erases.pure (a : α) (log : List PdtWrite) : Erases (pure (a, log)) (pure a) := rfl

theorem Erases.bind {x : HostM (α × List PdtWrite)} {y : HostM α}
    {f : α × List PdtWrite → HostM (β × List PdtWrite)} {g : α → HostM β} (hx : Erases x y) (hf : ∀ a log, Erases (f (a, log)) (g a)) :
    Erases (x >>= f) (y >>= g) := by
  rw [Erases, ← hx, map_bind, bind_map_left]
  exact congrArg (x >>= ·) (funext fun p => hf p.1 p.2)

/-- A part without a log. -/
theorem Erases.seq {x : HostM γ} {f : γ → HostM (β × List PdtWrite)} {g : γ → HostM β}
    (hf : ∀ a, Erases (f a) (g a)) : Erases (x >>= f) (x >>= g) := by
  rw [Erases, map_bind]
  exact congrArg (x >>= ·) (funext hf)

theorem Erases.foldlM {f : α × List PdtWrite → γ → HostM (α × List PdtWrite)} {g : α → γ → HostM α}
    (hf : ∀ p c, Erases (f p c) (g p.1 c)) (xs : List γ) (p : α × List PdtWrite) :
    Erases (xs.foldlM f p) (xs.foldlM g p.1) := by
  induction xs generalizing p with
  | nil => exact Erases.pure p.1 p.2
  | cons c xs ih =>
    rw [List.foldlM_cons, List.foldlM_cons]
    exact (hf p c).bind fun a log => ih (a, log)

theorem logFirst_erases (pdtVirt : Ptr) (j : Nat) :
    (logFirst pdtVirt j >>= fun _ => pure ()) = storeFirst pdtVirt j := by
  simp only [logFirst, storeFirst, bind_assoc, pure_bind]
  rfl

theorem logPdtEntry_erases (vm : VmStruct) (pdtVirt : Ptr) (i j : Nat) (c : Cursors)
    (log : List PdtWrite) : Erases (logPdtEntry vm pdtVirt i j c log) (storePdtEntry vm pdtVirt i j c) := by
  unfold logPdtEntry storePdtEntry
  dsimp only
  split_ifs
  · rw [← logFirst_erases, bind_assoc]
    exact Erases.seq fun _ => Erases.pure c _
  · exact Erases.seq fun _ => Erases.pure _ _
  · exact Erases.seq fun _ => Erases.pure _ _
  · exact Erases.seq fun _ => Erases.pure c _

theorem logPdt_erases (vm : VmStruct) (bound i : Nat) (pdtVirt : Ptr) :
    ∀ (num j : Nat) (c : Cursors) (log : List PdtWrite),
      Erases (logPdt vm bound i pdtVirt num j c log) (fillPdt vm bound i pdtVirt num j c) := by
  intro num
  induction num with
  | zero => exact fun _ c log => Erases.pure c log
  | succ num ih =>
    intro j c log
    rw [logPdt, fillPdt]
    refine (logPdtEntry_erases vm pdtVirt i j c log).bind fun c' log' => ?_
    dsimp only
    split
    · exact Erases.pure _ log'
    · exact ih (j + 1) _ log'

theorem logPdtRound_erases (vm : VmStruct) (bound : Nat) (pdptVirt : Ptr) (c : Cursors × List PdtWrite)
    (i : Nat) : Erases (logPdtRound vm bound pdptVirt c i) (storePdt vm bound pdptVirt c.1 i) := by
  unfold logPdtRound storePdt
  refine Erases.seq fun frame => Erases.seq fun _ => Erases.seq fun _ => Erases.seq fun pdtVirt => ?_
  refine Erases.seq fun _ => (logPdt_erases vm bound i pdtVirt _ _ c.1 c.2).bind fun c' log => ?_
  exact Erases.seq fun _ => Erases.pure c' log

/-- **The log changes nothing.** -/
theorem logSetup_erases (vm : VmStruct) : Erases (logSetup vm) (virtPgTableSetup vm) := by
  unfold logSetup virtPgTableSetup
  dsimp only
  refine Erases.seq fun pml4tPhy => Erases.seq fun _ => Erases.seq fun _ => Erases.seq fun _ => ?_
  refine Erases.seq fun _ => Erases.seq fun _ => Erases.seq fun _ => Erases.seq fun _ => ?_
  refine Erases.seq fun _ => Erases.seq fun _ => Erases.seq fun _ => Erases.seq fun vm' => ?_
  refine (Erases.foldlM (logPdtRound_erases vm' _ _) _ (⟨_, _, 0⟩, [])).bind fun c log => ?_
  exact Erases.seq fun _ => Erases.seq fun _ => Erases.pure _ log

/-- A run has a log. -/
theorem Erases.exists_log {x : HostM (α × List PdtWrite)} {y : HostM α} (h : Erases x y) {s s' : Host}
    {a : α} (hrun : y s = .ok (a, s')) : ∃ log, x s = .ok ((a, log), s') := by
  rw [← h] at hrun
  obtain ⟨p, s₁, hx, hret⟩ := run_bind_eq_ok.mp ((map_eq_pure_bind Prod.fst x) ▸ hrun)
  cases hret
  exact ⟨p.2, hx⟩

/-- A run with a log is a run. -/
theorem Erases.run {x : HostM (α × List PdtWrite)} {y : HostM α} (h : Erases x y) {s s' : Host} {a : α}
    {log : List PdtWrite} (hrun : x s = .ok ((a, log), s')) : y s = .ok (a, s') := by
  rw [← h, map_eq_pure_bind]
  exact run_bind_eq_ok.mpr ⟨(a, log), s', hrun, rfl⟩

end Erasing

/-! ## What is on the log -/

/-- An entry for a large page as it should be: no address bits 20 to 12, and below them the flags. -/
def LeafFormed (e : Nat) : Prop := e / 2 ^ 12 % 2 ^ 9 = 0 ∧ e % 2 ^ 12 = eptLargePage 0

instance (e : Nat) : Decidable (LeafFormed e) := inferInstanceAs (Decidable (_ ∧ _))

/-- An entry of a PDT as it should be: if it has `EPT_PG`, it is a large page as it should be. -/
def EntryFormed (e : Nat) : Prop := e &&& eptPg ≠ 0 → LeafFormed e

instance (e : Nat) : Decidable (EntryFormed e) := inferInstanceAs (Decidable (_ → _))

/-- The flags of an entry cover what is left of an address in its 2MB. -/
def FlagsCover (x : Nat) : Prop := x % largePgSize ||| eptLargePage 0 = eptLargePage 0

instance (x : Nat) : Decidable (FlagsCover x) := inferInstanceAs (Decidable (_ = _))

theorem leafFormed_iff {x : Nat} : LeafFormed (eptLargePage x) ↔ FlagsCover x := by
  have hzero : eptLargePage 0 = 0xB7 := rfl
  have hmod : eptLargePage x % 2 ^ 21 = x % 2 ^ 21 ||| 0xB7 := by
    rw [eptLargePage_eq, Nat.or_mod_two_pow]
  have hsplit : LeafFormed (eptLargePage x) ↔ eptLargePage x % 2 ^ 21 = 0xB7 := by
    rw [LeafFormed, hzero]
    omega
  rw [hsplit, hmod]
  exact Iff.rfl

/-- `EPT_PG` is bit 7. -/
theorem and_eptPg (e : Nat) : e &&& eptPg ≠ 0 ↔ e.testBit 7 = true := by
  have hpg : eptPg = 2 ^ 7 := rfl
  rw [hpg, Nat.and_two_pow]
  cases e.testBit 7 with
  | false => decide
  | true => decide

theorem eptLargePage_eptPg (x : Nat) : eptLargePage x &&& eptPg ≠ 0 := by
  rw [and_eptPg, Nat.testBit_eq_decide_div_mod_eq, decide_eq_true_iff]
  exact (eptLargePage_isLargePage x).2

theorem eptTable_eptPg (page : Nat) : eptTable (page <<< pgBits) &&& eptPg = 0 := by
  by_contra hpg
  have hbit := (and_eptPg _).mp hpg
  rw [shiftLeft_pgBits, eptTable_frame, Nat.testBit_eq_decide_div_mod_eq, decide_eq_true_iff] at hbit
  unfold pgSize at hbit
  omega

theorem entryFormed_iff {x : Nat} : EntryFormed (eptLargePage x) ↔ FlagsCover x :=
  (forall_prop_of_true (eptLargePage_eptPg x)).trans leafFormed_iff

theorem FlagsCover.congr {x y : Nat} (h : x % largePgSize = y % largePgSize) :
    FlagsCover x ↔ FlagsCover y := by
  rw [FlagsCover, FlagsCover, h]

theorem flagsCover_aligned {x : Nat} (h : x % largePgSize = 0) : FlagsCover x := by
  rw [FlagsCover, h]
  rfl

/-- The entries for the kernel from `start` to `stop`. -/
def leafCount (start stop : Nat) : Nat := (stop - start + (largePgSize - 1)) / largePgSize

/-- The first `q` entries of the PDTs are written. `k₀` and `x₀` are the cursors at the start, `kEnd` and
`xEnd` the ends of the images. -/
structure Logged (k₀ x₀ kEnd xEnd q : Nat) (c : Cursors) (log : List PdtWrite) : Prop where
  kernel : c.kernelPhy = k₀ + largePgSize * min (q - 1) (leafCount k₀ kEnd)
  ramdisk : c.ramdiskPhy % largePgSize = x₀ % largePgSize
  first : q ≤ leafCount k₀ kEnd + 1 → c.ramdiskPhy = x₀
  begun : c.ramdiskPhy ≠ x₀ → x₀ < xEnd
  places : ∀ w ∈ log, w.entry &&& eptPg ≠ 0 → ∃ x, w.entry = eptLargePage x ∧
    (x % largePgSize = k₀ % largePgSize ∧ k₀ < kEnd ∧ 2 ≤ q ∨
      x % largePgSize = x₀ % largePgSize ∧ x₀ < xEnd ∧ leafCount k₀ kEnd + 2 ≤ q ∨
      x % largePgSize = 0)
  kernelMem : k₀ < kEnd → 2 ≤ q → ∃ w ∈ log, w.entry = eptLargePage k₀
  ramdiskMem : x₀ < xEnd → leafCount k₀ kEnd + 2 ≤ q → ∃ w ∈ log, w.entry = eptLargePage x₀

section Loops

variable {k₀ x₀ kEnd xEnd q n : Nat} {c : Cursors} {log : List PdtWrite} {p : Ptr} {j : Nat}

theorem leafCount_bounds (k₀ kEnd : Nat) : kEnd ≤ k₀ + largePgSize * leafCount k₀ kEnd ∧
    (∀ m, m < leafCount k₀ kEnd ↔ k₀ + largePgSize * m < kEnd) := by
  unfold leafCount largePgSize
  constructor
  · omega
  · intro m
    omega

theorem Logged.init (k₀ x₀ kEnd xEnd : Nat) : Logged k₀ x₀ kEnd xEnd 0 ⟨k₀, x₀, 0⟩ [] where
  kernel := by simp
  ramdisk := rfl
  first _ := rfl
  begun h := absurd rfl h
  places := nofun
  kernelMem _ h := absurd h (by decide)
  ramdiskMem _ h := absurd h (by omega)

/-- The next write goes on the log. -/
theorem mem_logged {e : Nat} (h : ∃ w ∈ log, w.entry = e) (w' : PdtWrite) :
    ∃ w ∈ log ++ [w'], w.entry = e := by
  obtain ⟨w, hw, he⟩ := h
  exact ⟨w, List.mem_append_left _ hw, he⟩

theorem mem_logged_last (log : List PdtWrite) (p : Ptr) (j e : Nat) :
    ∃ w ∈ log ++ [pdtWrite p j e], w.entry = e :=
  ⟨_, List.mem_append_right _ List.mem_cons_self, rfl⟩

/-- The entry for the first 2MB is not a large page. -/
theorem Logged.table (h : Logged k₀ x₀ kEnd xEnd 0 c log) {w : PdtWrite} (hw : w.entry &&& eptPg = 0) :
    Logged k₀ x₀ kEnd xEnd 1 c (log ++ [w]) where
  kernel := h.kernel
  ramdisk := h.ramdisk
  first _ := h.first (Nat.zero_le _)
  begun := h.begun
  places w' hw' hpg := by
    rcases List.mem_append.mp hw' with hlog | hlast
    · obtain ⟨x, hx, hplace⟩ := h.places w' hlog hpg
      exact ⟨x, hx, hplace.imp (fun hk => absurd hk.2.2 (by decide)) (Or.imp (fun hr => by omega) id)⟩
    · rw [List.mem_singleton.mp hlast] at hpg
      exact absurd hw hpg
  kernelMem _ h := absurd h (by decide)
  ramdiskMem _ h := absurd h (by omega)

/-- What is on the log stays right. -/
theorem Logged.places_succ (h : Logged k₀ x₀ kEnd xEnd q c log) : ∀ w ∈ log, w.entry &&& eptPg ≠ 0 →
    ∃ x, w.entry = eptLargePage x ∧
      (x % largePgSize = k₀ % largePgSize ∧ k₀ < kEnd ∧ 2 ≤ q + 1 ∨
        x % largePgSize = x₀ % largePgSize ∧ x₀ < xEnd ∧ leafCount k₀ kEnd + 2 ≤ q + 1 ∨
        x % largePgSize = 0) := by
  intro w hw hpg
  obtain ⟨x, he, hx⟩ := h.places w hw hpg
  refine ⟨x, he, ?_⟩
  rcases hx with ⟨hk, hlt, hq⟩ | ⟨hr, hlt, hq⟩ | hz
  · exact Or.inl ⟨hk, hlt, Nat.le_succ_of_le hq⟩
  · exact Or.inr (Or.inl ⟨hr, hlt, Nat.le_succ_of_le hq⟩)
  · exact Or.inr (Or.inr hz)

/-- A large page goes on the log. -/
theorem places_append {P : Nat → Prop} {x : Nat}
    (h : ∀ w ∈ log, w.entry &&& eptPg ≠ 0 → ∃ x, w.entry = eptLargePage x ∧ P x) (hx : P x) :
    ∀ w ∈ log ++ [pdtWrite p j (eptLargePage x)], w.entry &&& eptPg ≠ 0 →
      ∃ x, w.entry = eptLargePage x ∧ P x := by
  intro w hw hpg
  rcases List.mem_append.mp hw with hlog | hlast
  · exact h w hlog hpg
  · rw [List.mem_singleton.mp hlast]
    exact ⟨x, rfl, hx⟩

theorem add64_mod_large (x : Nat) : add64 x largePgSize % largePgSize = x % largePgSize := by
  unfold add64 largePgSize
  omega

/-- The entry for the next page of the kernel. -/
theorem Logged.addKernel (h : Logged k₀ x₀ kEnd xEnd q c log) (hq : 1 ≤ q)
    (hend : kEnd + largePgSize ≤ 2 ^ 64) (hlt : c.kernelPhy < kEnd) :
    Logged k₀ x₀ kEnd xEnd (q + 1) { c with kernelPhy := add64 c.kernelPhy largePgSize }
      (log ++ [pdtWrite p j (eptLargePage c.kernelPhy)]) := by
  obtain ⟨hreach, -⟩ := leafCount_bounds k₀ kEnd
  have hkernel := h.kernel
  have hmore : q - 1 < leafCount k₀ kEnd := by
    by_contra hge
    rw [Nat.min_eq_right (Nat.not_lt.mp hge)] at hkernel
    omega
  have hstart : k₀ < kEnd := by omega
  rw [Nat.min_eq_left (Nat.le_of_lt hmore)] at hkernel
  constructor
  · have hmin : min (q + 1 - 1) (leafCount k₀ kEnd) = q := by omega
    have hsucc : largePgSize * q = largePgSize * (q - 1) + largePgSize := by
      rw [← Nat.mul_succ, Nat.succ_eq_add_one, Nat.sub_add_cancel hq]
    rw [hmin, add64_of_lt (by omega), hkernel, hsucc, Nat.add_assoc]
  · exact h.ramdisk
  · exact fun _ => h.first (by omega)
  · exact h.begun
  · apply places_append h.places_succ
    refine Or.inl ⟨?_, hstart, Nat.succ_le_succ hq⟩
    rw [hkernel, Nat.add_mul_mod_self_left]
  · intro _ _
    by_cases hfirst : q = 1
    · subst hfirst
      rw [hkernel]
      exact mem_logged_last log p j _
    · exact mem_logged (h.kernelMem hstart (by omega)) _
  · intro hx hq
    exact absurd hq (by omega)

/-- All pages of the kernel have their entries. -/
theorem Logged.kernel_done (h : Logged k₀ x₀ kEnd xEnd q c log) (hge : ¬c.kernelPhy < kEnd) :
    leafCount k₀ kEnd ≤ q - 1 := by
  obtain ⟨-, hcount⟩ := leafCount_bounds k₀ kEnd
  have hkernel := h.kernel
  by_contra hlt
  rw [Nat.min_eq_left (by omega)] at hkernel
  have := (hcount (q - 1)).mp (Nat.not_le.mp hlt)
  omega

/-- The entry for the next page of the ramdisk. -/
theorem Logged.addRamdisk (h : Logged k₀ x₀ kEnd xEnd q c log) (hq : 1 ≤ q)
    (hge : ¬c.kernelPhy < kEnd) (hlt : c.ramdiskPhy < xEnd) :
    Logged k₀ x₀ kEnd xEnd (q + 1) { c with ramdiskPhy := add64 c.ramdiskPhy largePgSize }
      (log ++ [pdtWrite p j (eptLargePage c.ramdiskPhy)]) := by
  have hdone := h.kernel_done hge
  have hstart : x₀ < xEnd := by
    by_cases hfirst : c.ramdiskPhy = x₀
    · rwa [← hfirst]
    · exact h.begun hfirst
  constructor
  · have hmin : min (q + 1 - 1) (leafCount k₀ kEnd) = min (q - 1) (leafCount k₀ kEnd) := by omega
    rw [hmin]
    exact h.kernel
  · exact (add64_mod_large _).trans h.ramdisk
  · exact fun hle => absurd hle (by omega)
  · exact fun _ => hstart
  · apply places_append h.places_succ
    exact Or.inr (Or.inl ⟨h.ramdisk, hstart, by omega⟩)
  · intro hk _
    have hpos := ((leafCount_bounds k₀ kEnd).2 0).mpr hk
    exact mem_logged (h.kernelMem hk (by omega)) _
  · intro _ _
    by_cases hfirst : q = leafCount k₀ kEnd + 1
    · rw [h.first (le_of_eq hfirst)]
      exact mem_logged_last log p j _
    · exact mem_logged (h.ramdiskMem hstart (by omega)) _

/-- The entry for an address of the guest, from 4GB on. -/
theorem Logged.addOther (h : Logged k₀ x₀ kEnd xEnd q c log) (hq : 1 ≤ q)
    (hge : ¬c.kernelPhy < kEnd) (hge' : ¬c.ramdiskPhy < xEnd) {x : Nat} (hx : x % largePgSize = 0) :
    Logged k₀ x₀ kEnd xEnd (q + 1) c (log ++ [pdtWrite p j (eptLargePage x)]) := by
  have hdone := h.kernel_done hge
  constructor
  · have hmin : min (q + 1 - 1) (leafCount k₀ kEnd) = min (q - 1) (leafCount k₀ kEnd) := by omega
    rw [hmin]
    exact h.kernel
  · exact h.ramdisk
  · exact fun hle => absurd hle (by omega)
  · exact h.begun
  · exact places_append h.places_succ (Or.inr (Or.inr hx))
  · intro hk _
    have hpos := ((leafCount_bounds k₀ kEnd).2 0).mpr hk
    exact mem_logged (h.kernelMem hk (by omega)) _
  · intro hxlt _
    by_cases hfirst : q = leafCount k₀ kEnd + 1
    · rw [h.first (le_of_eq hfirst)] at hge'
      exact absurd hxlt hge'
    · exact mem_logged (h.ramdiskMem hxlt (by omega)) _

/-- The first entry points to a table. -/
theorem logFirst_table (pdtVirt : Ptr) (j : Nat) :
    Triple (fun _ => True) (logFirst pdtVirt j) fun w _ => w.entry &&& eptPg = 0 := by
  have hframe : Triple (fun _ => True) allocFrame fun frame _ => eptTable frame &&& eptPg = 0 := by
    intro h frame h' _ hrun
    obtain ⟨s, halloc, _⟩ := onPhys_eq_ok hrun
    rcases allocPhysFrame_first halloc with heq | ⟨page, heq, _⟩
    · rw [show frame = 0 from congrArg Prod.fst heq]
      rfl
    · rw [show frame = page <<< pgBits from heq]
      exact eptTable_eptPg page
  unfold logFirst
  refine hframe.bind fun frame => Triple.of_fact fun htable => ?_
  refine Triple.skip fun _ => Triple.skip fun _ => Triple.skip fun _ => Triple.skip fun _ => ?_
  exact Triple.skip fun _ => Triple.skip fun _ => Triple.pure fun _ _ => htable

/-- One entry of a PDT. -/
theorem logPdtEntry_logged (vm : VmStruct) (pdtVirt : Ptr) {i j : Nat}
    (hend : (vm.imgSize + vm.imgPaddr).toNat + largePgSize ≤ 2 ^ 64)
    (h : Logged k₀ x₀ (vm.imgSize + vm.imgPaddr).toNat (vm.extraSize + vm.extraPaddr).toNat
      (512 * i + j) c log) :
    Triple (fun _ => True) (logPdtEntry vm pdtVirt i j c log) fun r _ => r.1.count = c.count ∧
      Logged k₀ x₀ (vm.imgSize + vm.imgPaddr).toNat (vm.extraSize + vm.extraPaddr).toNat
        (512 * i + j + 1) r.1 r.2 := by
  have hwrite : ∀ (e : Nat) (c' : Cursors), c'.count = c.count →
      Logged k₀ x₀ (vm.imgSize + vm.imgPaddr).toNat (vm.extraSize + vm.extraPaddr).toNat
        (512 * i + j + 1) c' (log ++ [pdtWrite pdtVirt j e]) →
      Triple (fun _ => True)
        (store pdtVirt (8 * j) 8 e >>= fun _ => pure (c', log ++ [pdtWrite pdtVirt j e])) fun r _ =>
          r.1.count = c.count ∧
            Logged k₀ x₀ (vm.imgSize + vm.imgPaddr).toNat (vm.extraSize + vm.extraPaddr).toNat
              (512 * i + j + 1) r.1 r.2 :=
    fun e c' hcount hlog => Triple.skip fun _ => Triple.pure fun _ _ => ⟨hcount, hlog⟩
  unfold logPdtEntry
  dsimp only
  apply Triple.ite
  · rintro ⟨rfl, rfl⟩
    refine (logFirst_table pdtVirt 0).bind fun w => Triple.of_fact fun hw => ?_
    exact Triple.pure fun _ _ => ⟨rfl, h.table hw⟩
  · intro hfirst
    have hq : 1 ≤ 512 * i + j := by omega
    apply Triple.ite
    · exact fun hlt => hwrite _ _ rfl (h.addKernel hq hend hlt)
    · intro hge
      apply Triple.ite
      · exact fun hlt => hwrite _ _ rfl (h.addRamdisk hq hge hlt)
      · intro hge'
        refine hwrite _ _ rfl (h.addOther hq hge hge' ?_)
        unfold pgSize pgTableEntries largePgSize
        omega

/-- The loop over the entries of a PDT. -/
theorem logPdt_logged (vm : VmStruct) {bound i : Nat} (pdtVirt : Ptr) (hn : n ≤ 2 ^ 18)
    (hbound : bound = n * 512) (hend : (vm.imgSize + vm.imgPaddr).toNat + largePgSize ≤ 2 ^ 64) :
    ∀ (num j : Nat) (c : Cursors) (log : List PdtWrite), num + j = 512 →
      512 * i + j < n ∨ num = 0 ∧ 512 * i + 512 ≤ n → c.count = 512 * (512 * i + j) →
      Logged k₀ x₀ (vm.imgSize + vm.imgPaddr).toNat (vm.extraSize + vm.extraPaddr).toNat
        (512 * i + j) c log →
        Triple (fun _ => True) (logPdt vm bound i pdtVirt num j c log) fun r _ =>
          r.1.count = 512 * min n (512 * (i + 1)) ∧
            Logged k₀ x₀ (vm.imgSize + vm.imgPaddr).toNat (vm.extraSize + vm.extraPaddr).toNat
              (min n (512 * (i + 1))) r.1 r.2 := by
  intro num
  induction num with
  | zero =>
    intro j c log hj hin hcount h
    obtain rfl : j = 512 := by omega
    have hmin : min n (512 * (i + 1)) = 512 * i + 512 := by omega
    rw [hmin]
    exact Triple.pure fun _ _ => ⟨hcount, h⟩
  | succ num ih =>
    intro j c log hj hin hcount h
    rw [logPdt]
    refine (logPdtEntry_logged vm pdtVirt hend h).bind fun r => Triple.of_fact fun ⟨hsame, hr⟩ => ?_
    have hnext : (r.1.count + pgTableEntries) % 2 ^ 32 = 512 * (512 * i + j + 1) := by
      unfold pgTableEntries
      omega
    have hr' : ∀ count, Logged k₀ x₀ (vm.imgSize + vm.imgPaddr).toNat
        (vm.extraSize + vm.extraPaddr).toNat (512 * i + j + 1) { r.1 with count } r.2 := fun _ =>
      ⟨hr.kernel, hr.ramdisk, hr.first, hr.begun, hr.places, hr.kernelMem, hr.ramdiskMem⟩
    dsimp only
    rw [hnext]
    apply Triple.ite
    · intro hstop
      have hmin : min n (512 * (i + 1)) = 512 * i + j + 1 := by omega
      rw [hmin]
      exact Triple.pure fun _ _ => ⟨rfl, hr' _⟩
    · intro hstop
      exact ih (j + 1) _ r.2 (by omega) (by omega) rfl (hr' _)

/-- One round of the loop over the PDPT. -/
theorem logPdtRound_logged (vm : VmStruct) {bound i : Nat} (pdptVirt : Ptr) (hn : n ≤ 2 ^ 18)
    (hbound : bound = n * 512) (hend : (vm.imgSize + vm.imgPaddr).toNat + largePgSize ≤ 2 ^ 64)
    (hi : 512 * i < n) (hcount : c.count = 512 * (512 * i))
    (h : Logged k₀ x₀ (vm.imgSize + vm.imgPaddr).toNat (vm.extraSize + vm.extraPaddr).toNat
      (512 * i) c log) :
    Triple (fun _ => True) (logPdtRound vm bound pdptVirt (c, log) i) fun r _ =>
      r.1.count = 512 * min n (512 * (i + 1)) ∧
        Logged k₀ x₀ (vm.imgSize + vm.imgPaddr).toNat (vm.extraSize + vm.extraPaddr).toNat
          (min n (512 * (i + 1))) r.1 r.2 := by
  unfold logPdtRound
  refine Triple.skip fun frame => Triple.skip fun _ => Triple.skip fun _ => Triple.skip fun pdtVirt => ?_
  refine Triple.skip fun _ => ?_
  refine (logPdt_logged vm pdtVirt hn hbound hend pgTableEntries 0 c log rfl (Or.inl hi) hcount h).bind
    fun r => Triple.of_fact fun hr => ?_
  exact Triple.skip fun _ => Triple.pure fun _ _ => hr

/-- **The loop over the PDPT.** -/
theorem logPdts_logged (vm : VmStruct) {bound : Nat} (pdptVirt : Ptr) (hn : n ≤ 2 ^ 18)
    (hbound : bound = n * 512) (hend : (vm.imgSize + vm.imgPaddr).toNat + largePgSize ≤ 2 ^ 64)
    (k₀ x₀ : Nat) :
    Triple (fun _ => True)
      ((List.range (pdtCount n)).foldlM (logPdtRound vm bound pdptVirt) (⟨k₀, x₀, 0⟩, [])) fun r _ =>
        Logged k₀ x₀ (vm.imgSize + vm.imgPaddr).toNat (vm.extraSize + vm.extraPaddr).toNat n r.1 r.2 := by
  have hloop := Triple.foldlM_range (P := fun i (r : Cursors × List PdtWrite) (_ : Host) =>
      r.1.count = 512 * min n (512 * i) ∧
        Logged k₀ x₀ (vm.imgSize + vm.imgPaddr).toNat (vm.extraSize + vm.extraPaddr).toNat
          (min n (512 * i)) r.1 r.2)
    (f := logPdtRound vm bound pdptVirt) (k := pdtCount n)
    (fun i hlt r => Triple.of_fact fun h => by
      have hin := lt_pdtCount.mp hlt
      have hmin : min n (512 * i) = 512 * i := by omega
      rw [hmin] at h
      exact logPdtRound_logged vm pdptVirt hn hbound hend hin h.1 h.2) (⟨k₀, x₀, 0⟩, [])
  have hmin : min n (512 * pdtCount n) = n := by
    unfold pdtCount
    omega
  rw [hmin, Nat.mul_zero, Nat.min_zero] at hloop
  exact hloop.mono (fun _ _ => ⟨rfl, .init k₀ x₀ _ _⟩) fun _ _ hh => hh.2

/-- **When all values are as they should be.** -/
theorem Logged.formed_iff (h : Logged k₀ x₀ kEnd xEnd n c log) :
    (∀ w ∈ log, EntryFormed w.entry) ↔ (n < 2 ∨ FlagsCover k₀ ∨ kEnd ≤ k₀) ∧
      (n < leafCount k₀ kEnd + 2 ∨ FlagsCover x₀ ∨ xEnd ≤ x₀) := by
  have hcover : ∀ {x}, (∀ w ∈ log, EntryFormed w.entry) → (∃ w ∈ log, w.entry = eptLargePage x) →
      FlagsCover x := by
    rintro x hformed ⟨w, hw, he⟩
    have hentry := hformed w hw
    rwa [he, entryFormed_iff] at hentry
  constructor
  · intro hformed
    constructor
    · by_cases hn : n < 2
      · exact Or.inl hn
      · rcases Nat.lt_or_ge k₀ kEnd with hlt | hge
        · exact Or.inr (Or.inl (hcover hformed (h.kernelMem hlt (by omega))))
        · exact Or.inr (Or.inr hge)
    · by_cases hn : n < leafCount k₀ kEnd + 2
      · exact Or.inl hn
      · rcases Nat.lt_or_ge x₀ xEnd with hlt | hge
        · exact Or.inr (Or.inl (hcover hformed (h.ramdiskMem hlt (by omega))))
        · exact Or.inr (Or.inr hge)
  · rintro ⟨hkernel, hramdisk⟩ w hw hpg
    obtain ⟨x, he, hx⟩ := h.places w hw hpg
    rw [he, leafFormed_iff]
    rcases hx with ⟨hmod, hlt, hn⟩ | ⟨hmod, hlt, hn⟩ | hzero
    · rw [FlagsCover.congr hmod]
      exact (hkernel.resolve_left (by omega)).resolve_right (by omega)
    · rw [FlagsCover.congr hmod]
      exact (hramdisk.resolve_left (by omega)).resolve_right (by omega)
    · exact flagsCover_aligned hzero

end Loops

end Rtv.Virt
