import Rtv.Mm.Ranges
import Rtv.Virt.HandOver

/-!
# The walk over the free runs

`virt_setup_e820` searches a table that it changes while it walks. What it writes depends only on
the runs of free pages at the start: `HandsOver` says which rows the walk writes from a page on, one
run of free pages after the other, apart from the row of the ramdisk.

**The law** (`e820Loop_handsOver`): the rows of the walk are those of `HandsOver`, with the row of
the ramdisk among them once the walk has added it. It holds for every setup header and every kernel
size, also where the sizes wrap.
-/

namespace Rtv.Virt

open Rtv.Lib Rtv.Utils Rtv.Mm

/-! ## Rows of a run -/

/-- The first page at or after `p` that begins a large page. -/
def largeUp (p : Nat) : Nat := (p + 511) / 512 * 512

/-- The number of large pages that lie in the run `[p, p + num)`. -/
def largeIn (p num : Nat) : Nat := (p + num - largeUp p) / 512

/-- What the walk writes for the run `[p, p + num)` that it has found from page `c` on. -/
def runRow (kernelEnd c p num : Nat) : List E820Entry :=
  if kernelEnd ≤ p * pgSize then
    if largeIn p num = 0 then []
    else [⟨largeUp p * pgSize, largeIn p num * largePgSize, e820Ram⟩]
  else if linuxEntryPoint ≤ p * pgSize then []
  else if c = 0 then [⟨(p - 2) * pgSize, (num + 2) * pgSize, e820Ram⟩]
  else [⟨p * pgSize, num * pgSize, e820Ram⟩]

/-- The page from which it goes on. -/
def resumePage (kernelEnd p num : Nat) : Nat :=
  if kernelEnd ≤ p * pgSize then
    if largeIn p num = 0 then max (largeUp p) (p + num) else largeUp p + 512 * largeIn p num
  else p + num

section Arithmetic

variable {kernelEnd c p num : Nat}

theorem le_largeUp (p : Nat) : p ≤ largeUp p ∧ largeUp p < p + 512 := by
  unfold largeUp
  omega

theorem ceiling64_page (hp : p < 2 ^ 24) : ceiling64 (p * pgSize) largePgSize = largeUp p * pgSize := by
  rw [ceiling64_eq (by decide) (by unfold pgSize largePgSize; omega)]
  unfold largeUp pgSize largePgSize
  omega

theorem lt_resumePage (hnum : 0 < num) : p < resumePage kernelEnd p num := by
  have hup := le_largeUp p
  unfold resumePage
  split_ifs <;> omega

theorem resumePage_le (hnum : 0 < num) : resumePage kernelEnd p num ≤ p + num + 511 := by
  have hup := le_largeUp p
  unfold resumePage largeIn
  split_ifs <;> omega

end Arithmetic

/-! ## One round -/

/-- The rows of a walk so far are `rows`, and that of the ramdisk if the walk has added it. -/
def Walk.Holds (w : Walk) (hdr : SetupHeader) (rows : List E820Entry) : Prop :=
  (w.table.map Prod.snd).Perm (rows ++ if w.mergeRamdisk then [] else [ramdiskEntry hdr])

section Round

variable {hdr : SetupHeader} {w w' : Walk} {rows : List E820Entry} {kernelEnd c p num : Nat}

theorem Walk.Holds.addRamdisk (h : w.Holds hdr rows) : (w.addRamdisk hdr).Holds hdr rows := by
  unfold Walk.addRamdisk
  split_ifs with hcond
  · unfold Walk.Holds at h ⊢
    rw [hcond.2] at h
    simp only [Walk.add, List.map_append, List.map_cons, List.map_nil] at h ⊢
    exact (h.append_right _).trans (by simp [ramdiskEntry])
  · exact h

theorem Walk.addRamdisk_eq (w : Walk) (hdr : SetupHeader) : (w.addRamdisk hdr).phys = w.phys ∧
    (w.addRamdisk hdr).mmapStart = w.mmapStart ∧ (w.addRamdisk hdr).mmapSize = w.mmapSize := by
  unfold Walk.addRamdisk
  split_ifs <;> exact ⟨rfl, rfl, rfl⟩

/-- Another row behind those of a walk. -/
theorem Walk.Holds.append {i : Nat} {e : E820Entry}
    (h : w.Holds hdr rows) (htable : w'.table = w.table ++ [(i, e)])
    (hmerge : w'.mergeRamdisk = w.mergeRamdisk) : w'.Holds hdr (rows ++ [e]) := by
  unfold Walk.Holds at h ⊢
  rw [htable, hmerge, List.map_append, List.append_assoc]
  refine (h.append_right _).trans ?_
  rw [List.append_assoc]
  exact List.Perm.append_left _ List.perm_append_comm

/-- Writing the pages `[a, a + n)` as an entry and taking them. -/
theorem Walk.Holds.emit_run (h : w.Holds hdr rows) {a n : Nat} (hin : a + n ≤ 2 ^ 24) :
    ∃ w', w.emit (a * pgSize) (n * pgSize) = .ok w' ∧
      w'.Holds hdr (rows ++ [⟨a * pgSize, n * pgSize, e820Ram⟩]) ∧ w'.mmapStart = a * pgSize ∧
      w'.mmapSize = n * pgSize ∧ w'.phys.mmLimit = w.phys.mmLimit ∧
      ∀ q, a + n ≤ q → (w'.phys.Free q ↔ w.phys.Free q) := by
  obtain ⟨phys, hphys, hlimit, hfree⟩ := physicalTakeRange_spec w.phys (a * pgSize) (n * pgSize)
    (by unfold mmTableBytes mmTableMax pgSize; omega)
  unfold Walk.emit
  rw [hphys, Exec.ok_bind]
  refine ⟨_, rfl, h.append rfl rfl, rfl, rfl, hlimit, fun q hq => ?_⟩
  rw [hfree]
  refine and_iff_left ?_
  unfold Touches pgSize
  omega

/-- What the second part of a round makes of a run of free pages. -/
structure Walk.RunPlaced (w : Walk) (hdr : SetupHeader) (rows : List E820Entry) (kernelEnd c p num : Nat)
    (w' : Walk) : Prop where
  holds : w'.Holds hdr (rows ++ runRow kernelEnd c p num)
  cursor : w'.mmapStart + w'.mmapSize = resumePage kernelEnd p num * pgSize
  limit : w'.phys.mmLimit = w.phys.mmLimit
  free_iff : ∀ q, resumePage kernelEnd p num ≤ q → (w'.phys.Free q ↔ w.phys.Free q)

/-- A run above the kernel: the large pages in it are written, if there are any. -/
theorem Walk.Holds.placeRange_above (h : w.Holds hdr rows) (hstart : w.mmapStart = p * pgSize)
    (hsize : w.mmapSize = num * pgSize) (hpos : 0 < num) (hin : p + num ≤ 2 ^ 24)
    (habove : kernelEnd ≤ p * pgSize) :
    ∃ w', w.placeRange kernelEnd (c * pgSize) = .ok w' ∧ w.RunPlaced hdr rows kernelEnd c p num w' := by
  have hup := le_largeUp p
  have hceil := ceiling64_page (show p < 2 ^ 24 by omega)
  have htmp : sub64 (largeUp p * pgSize) (p * pgSize) = (largeUp p - p) * pgSize := by
    rw [sub64_of_le (Nat.mul_le_mul_right _ hup.1) (by unfold pgSize; omega), Nat.sub_mul]
  unfold Walk.placeRange
  rw [hstart, hsize]
  simp only [if_pos habove, hceil, htmp, ge_iff_le]
  -- a run without a large page adds no row, and the walk goes on behind it
  have hnothing : ∀ size, largeIn p num = 0 →
      largeUp p * pgSize + size = max (largeUp p) (p + num) * pgSize →
        w.RunPlaced hdr rows kernelEnd c p num
          { w with mmapStart := largeUp p * pgSize, mmapSize := size } := by
    intro size hnone hcursor
    have hrow : runRow kernelEnd c p num = [] := by rw [runRow, if_pos habove, if_pos hnone]
    have hresume : resumePage kernelEnd p num = max (largeUp p) (p + num) := by
      rw [resumePage, if_pos habove, if_pos hnone]
    refine ⟨?_, ?_, rfl, fun _ _ => Iff.rfl⟩
    · rw [hrow, List.append_nil]
      exact h
    · rw [hresume]
      exact hcursor
  by_cases hskip : num ≤ largeUp p - p
  · have hnone : largeIn p num = 0 := by
      unfold largeIn
      omega
    rw [if_pos (Nat.mul_le_mul_right _ hskip)]
    refine ⟨_, rfl, hnothing 0 hnone ?_⟩
    rw [max_eq_left (by omega), Nat.add_zero]
  · have hrest : sub64 (num * pgSize) ((largeUp p - p) * pgSize) = (p + num - largeUp p) * pgSize := by
      rw [sub64_of_le (Nat.mul_le_mul_right _ (by omega)) (by unfold pgSize; omega), ← Nat.sub_mul]
      congr 1
      omega
    have hmask : (p + num - largeUp p) * pgSize &&& largePgMask.toNat =
        512 * largeIn p num * pgSize := by
      rw [and_largePgMask (by unfold pgSize; omega)]
      unfold largeIn pgSize largePgSize
      omega
    rw [if_neg (by unfold pgSize; omega)]
    simp only [hrest, hmask]
    by_cases hnone : largeIn p num = 0
    · rw [hnone, if_pos (by decide)]
      refine ⟨_, rfl, hnothing _ hnone ?_⟩
      rw [max_eq_right (by omega), ← Nat.add_mul]
      congr 1
      omega
    · have hlarge : largeIn p num * largePgSize = 512 * largeIn p num * pgSize := by
        unfold pgSize largePgSize
        omega
      rw [if_neg (by unfold pgSize largePgSize; omega)]
      obtain ⟨w', hemit, hrows, hs, hz, hlimit, hfree⟩ := h.emit_run
        (show largeUp p + 512 * largeIn p num ≤ 2 ^ 24 by unfold largeIn; omega)
      have hresume : resumePage kernelEnd p num = largeUp p + 512 * largeIn p num := by
        rw [resumePage, if_pos habove, if_neg hnone]
      refine ⟨w', hemit, ?_, ?_, hlimit, hresume ▸ hfree⟩
      · rw [runRow, if_pos habove, if_neg hnone, hlarge]
        exact hrows
      · rw [hs, hz, hresume, Nat.add_mul]

/-- A run that begins below the end of the kernel: it is skipped or written as it is, the first one with
the two pages in front of it. -/
theorem Walk.Holds.placeRange_below (h : w.Holds hdr rows) (hstart : w.mmapStart = p * pgSize)
    (hsize : w.mmapSize = num * pgSize) (hin : p + num ≤ 2 ^ 24) (hfirst : c = 0 → 2 ≤ p)
    (hbelow : ¬ kernelEnd ≤ p * pgSize) :
    ∃ w', w.placeRange kernelEnd (c * pgSize) = .ok w' ∧ w.RunPlaced hdr rows kernelEnd c p num w' := by
  have hresume : resumePage kernelEnd p num = p + num := if_neg hbelow
  unfold Walk.placeRange
  rw [hstart, hsize, if_neg (by omega)]
  by_cases hkernel : linuxEntryPoint ≤ p * pgSize
  · rw [if_pos ⟨hkernel, by omega⟩]
    refine ⟨w, rfl, ?_, ?_, rfl, fun _ _ => Iff.rfl⟩
    · rw [runRow, if_neg hbelow, if_pos hkernel, List.append_nil]
      exact h
    · rw [hstart, hsize, hresume, Nat.add_mul]
  · rw [if_neg fun hcond => hkernel hcond.1]
    by_cases hzero : c = 0
    · have hp := hfirst hzero
      obtain ⟨haddr, hlen⟩ := two_pages_before hp
        (show (p + num) * pgSize ≤ mmTableBytes from Nat.mul_le_mul_right pgSize hin)
      rw [if_pos (by rw [hzero, Nat.zero_mul]), haddr, hlen]
      obtain ⟨w', hemit, hrows, hs, hz, hlimit, hfree⟩ := h.emit_run
        (show p - 2 + (num + 2) ≤ 2 ^ 24 by omega)
      refine ⟨w', hemit, ?_, ?_, hlimit, fun q hq => hfree q (by omega)⟩
      · rw [runRow, if_neg hbelow, if_neg hkernel, if_pos hzero]
        exact hrows
      · rw [hs, hz, hresume, ← Nat.add_mul, show p - 2 + (num + 2) = p + num by omega]
    · rw [if_neg (by unfold pgSize; omega)]
      obtain ⟨w', hemit, hrows, hs, hz, hlimit, hfree⟩ := h.emit_run hin
      refine ⟨w', hemit, ?_, ?_, hlimit, hresume ▸ hfree⟩
      · rw [runRow, if_neg hbelow, if_neg hkernel, if_neg hzero]
        exact hrows
      · rw [hs, hz, hresume, Nat.add_mul]

/-- The second part of a round, for a run of free pages. -/
theorem Walk.Holds.placeRange_run (h : w.Holds hdr rows) (hstart : w.mmapStart = p * pgSize)
    (hsize : w.mmapSize = num * pgSize) (hpos : 0 < num) (hin : p + num ≤ 2 ^ 24)
    (hfirst : c = 0 → 2 ≤ p) :
    ∃ w', w.placeRange kernelEnd (c * pgSize) = .ok w' ∧ w.RunPlaced hdr rows kernelEnd c p num w' := by
  by_cases habove : kernelEnd ≤ p * pgSize
  · exact h.placeRange_above hstart hsize hpos hin habove
  · exact h.placeRange_below hstart hsize hin hfirst habove

end Round

/-! ## The walk -/

/-- The rows that the walk writes from page `c` on, from the runs of free pages of a table: no free
page is left, or a run is found and the walk goes on behind it. -/
inductive HandsOver (s : Physical) (kernelEnd : Nat) : Nat → List E820Entry → Prop
  | done {c : Nat} : (∀ q, c ≤ q → q < s.mmLimit → ¬ s.Free q) → HandsOver s kernelEnd c []
  | next {c p num : Nat} {rows : List E820Entry} : FirstRun s c p num →
      HandsOver s kernelEnd (resumePage kernelEnd p num) rows →
        HandsOver s kernelEnd c (runRow kernelEnd c p num ++ rows)

/-- The walk at page `c`: the table is the one of the start from there on. -/
structure Walk.At (w : Walk) (s : Physical) (c : Nat) : Prop where
  cursor : w.mmapStart + w.mmapSize = c * pgSize
  bound : c ≤ 2 ^ 24 + 512
  limit : w.phys.mmLimit = s.mmLimit
  free_iff : ∀ q, c ≤ q → (w.phys.Free q ↔ s.Free q)

section Loop

variable {s : Physical} {hdr : SetupHeader} {w w' : Walk} {rows : List E820Entry} {kernelEnd c : Nat}

/-- A run of the table that is searched is a run of the table of the start. -/
theorem Walk.At.firstRun (h : w.At s c) {p num : Nat} (hrun : FirstRun w.phys c p num) :
    FirstRun s c p num where
  le := hrun.le
  skipped q hq hq' := fun hfree => hrun.skipped q hq hq' ((h.free_iff q hq).mpr hfree)
  free q hq hq' := (h.free_iff q (Nat.le_trans hrun.le hq)).mp (hrun.free q hq hq')
  stop hlt hfree := by
    have hle := hrun.le
    exact hrun.stop (h.limit ▸ hlt) ((h.free_iff _ (by omega)).mpr hfree)
  pos := hrun.pos

/-- One round: it is the last one, or it writes the rows of a run and goes on behind it. -/
theorem e820Round_run (hat : w.At s c) (hlow : c = 0 → ∀ q, s.Free q → 2 ≤ q)
    (hrows : w.Holds hdr rows) {r : Bool × Walk} (h : e820Round hdr kernelEnd w = .ok r) :
    r.2.Holds hdr rows ∧ r.1 = true ∧ (∀ q, c ≤ q → q < s.mmLimit → ¬ s.Free q) ∨
    r.1 = false ∧ ∃ p num, FirstRun s c p num ∧
      r.2.Holds hdr (rows ++ runRow kernelEnd c p num) ∧
      r.2.At s (resumePage kernelEnd p num) := by
  have hbound := hat.bound
  have hpage : (c * pgSize) >>> pgBits = c := by
    rw [Nat.shiftRight_eq_div_pow]
    exact Nat.mul_div_cancel c (by decide)
  unfold e820Round at h
  rw [add64_of_lt (by rw [hat.cursor]; unfold pgSize; omega), hat.cursor] at h
  obtain ⟨⟨start, size⟩, hnext, h⟩ := Exec.bind_eq_ok.mp h
  have hheld := (show Walk.Holds { w with mmapStart := start, mmapSize := size } hdr rows from
    hrows).addRamdisk
  obtain ⟨hphys, hstart, hsize⟩ :=
    Walk.addRamdisk_eq { w with mmapStart := start, mmapSize := size } hdr
  dsimp only at h hphys hstart hsize
  generalize Walk.addRamdisk { w with mmapStart := start, mmapSize := size } hdr = w₁ at *
  rcases physicalNextFreeRange_run hnext with ⟨p, num, heq, hrun⟩ | ⟨hzero, hnone⟩
  · rw [Prod.mk.injEq] at heq
    obtain ⟨rfl, rfl⟩ := heq
    rw [hpage] at hrun
    have hfirst := hat.firstRun hrun
    have hle := hrun.le
    have hpos := hrun.pos
    have hlt := (hrun.free (p + num - 1) (by omega) (by omega)).lt
    have hin : p + num ≤ 2 ^ 24 := by
      unfold mmTableMax at hlt
      omega
    rw [shiftLeft_pgBits] at hstart hsize
    rw [if_neg (by rw [hsize]; unfold pgSize; omega)] at h
    obtain ⟨w₂, hplace, h⟩ := Exec.bind_eq_ok.mp h
    cases h
    obtain ⟨w₃, hplace', hrows', hcursor, hlimit, hfree⟩ :=
      @Walk.Holds.placeRange_run _ _ _ kernelEnd c _ _ hheld hstart hsize hpos hin
        fun hzero => hlow hzero p (hfirst.free p (le_refl p) (by omega))
    cases hplace.symm.trans hplace'
    have hresume := @lt_resumePage kernelEnd p num hpos
    refine Or.inr ⟨rfl, p, num, hfirst, hrows', hcursor, ?_, ?_, ?_⟩
    · have := @resumePage_le kernelEnd p num hpos
      omega
    · rw [hlimit, hphys]
      exact hat.limit
    · intro q hq
      rw [hfree q hq, hphys]
      exact hat.free_iff q (by omega)
  · dsimp only at hzero
    rw [hsize, if_pos hzero] at h
    cases h
    refine Or.inl ⟨hheld, rfl, fun q hq hlt hq' => ?_⟩
    rw [hpage] at hnone
    exact hnone q hq (hat.limit ▸ hlt) ((hat.free_iff q hq).mpr hq')

/-- **The walk over the free runs.** Whatever the setup header and the kernel size are, the rows of
a walk that returns are those that its free runs give it, and that of the ramdisk once it has added
it. -/
theorem e820Loop_handsOver : ∀ {fuel c : Nat} {w w' : Walk} {rows : List E820Entry}, w.At s c →
    (c = 0 → ∀ q, s.Free q → 2 ≤ q) → w.Holds hdr rows → e820Loop hdr kernelEnd fuel w = .ok w' →
      ∃ rows', HandsOver s kernelEnd c rows' ∧ w'.Holds hdr (rows ++ rows') := by
  intro fuel
  induction fuel with
  | zero => exact nofun
  | succ fuel ih =>
    intro c w w' rows hat hlow hrows h
    rw [e820Loop] at h
    obtain ⟨⟨done, w₁⟩, hround, h⟩ := Exec.bind_eq_ok.mp h
    rcases e820Round_run hat hlow hrows hround with
      ⟨hheld, rfl, hnone⟩ | ⟨rfl, p, num, hrun, hheld, hat'⟩
    · cases h
      exact ⟨[], .done hnone, by rwa [List.append_nil]⟩
    · have hpos := @lt_resumePage kernelEnd p num hrun.pos
      obtain ⟨rows', hrest, hheld'⟩ := ih hat' (fun hzero => by omega) hheld h
      exact ⟨_, .next hrun hrest, by rwa [← List.append_assoc]⟩

/-- The rows of the walk from its start on. -/
theorem e820Loop_rows_handsOver (hlow : ∀ q, s.Free q → 2 ≤ q) {fuel : Nat}
    (h : e820Loop hdr kernelEnd fuel ⟨s, 0, 0, 0, true, []⟩ = .ok w) :
    ∃ rows, HandsOver s kernelEnd 0 rows ∧ w.Holds hdr rows := by
  have hat : Walk.At ⟨s, 0, 0, 0, true, []⟩ s 0 :=
    ⟨(Nat.zero_mul pgSize).symm, Nat.zero_le _, rfl, fun _ _ => Iff.rfl⟩
  have hheld : Walk.Holds ⟨s, 0, 0, 0, true, []⟩ hdr [] := List.Perm.refl _
  exact e820Loop_handsOver hat (fun _ => hlow) hheld h

/-- What `virt_setup_e820` has written when it returns. -/
theorem virtSetupE820_handsOver {kernelSize : Nat} (hlow : ∀ q, s.Free q → 2 ≤ q)
    {r : List (Nat × E820Entry) × Physical} (h : virtSetupE820 s hdr kernelSize = .ok r) :
    ∃ (rows : List E820Entry) (merged : Bool),
      HandsOver s (add64 linuxEntryPoint kernelSize) 0 rows ∧
        (r.1.map Prod.snd).Perm (rows ++ if merged then [] else [ramdiskEntry hdr]) := by
  unfold virtSetupE820 at h
  obtain ⟨w, hloop, h⟩ := Exec.bind_eq_ok.mp h
  cases h
  obtain ⟨rows, hrows, hheld⟩ := e820Loop_rows_handsOver hlow hloop
  exact ⟨rows, w.mergeRamdisk, hrows, hheld⟩

end Loop

end Rtv.Virt
