import Rtv.Mm.WindowTables

/-!
# Placing a page outside the windows

What a call of `vm_map_page_unrestricted` or `vm_map_large_page_unrestricted` that returns leaves:
the tables that were there are there still, with the same words except on the walk of the address
(`Keeps`). So the entries of the windows stay (`Shows.keeps`), and of the other addresses only those
of the page go somewhere else (`MapUnrestricted.placed`).
-/

namespace Rtv.Mm

open Rtv.Lib Rtv.Lib.PageTree

/-- The tables of `M` are tables of `M'`, and the words in them that the walk of `vaddr` does not read
are the same. -/
structure Keeps (vaddr : BitVec 64) (M M' : Machine) : Prop where
  table : ∀ (w : Nat → Fin 512) k t, w 0 ≠ 511 → tableAt decodeEntry M.mem M.cr3 w k = some t →
    tableAt decodeEntry M'.mem M'.cr3 w k = some t
  word : ∀ (w : Nat → Fin 512) k t, w 0 ≠ 511 → tableAt decodeEntry M.mem M.cr3 w k = some t →
    ¬ (∀ j ≤ k, w j = hwIndex vaddr j) → M'.mem t (w k) = M.mem t (w k)

section Keeping

variable {M M' M'' : Machine} {vaddr e : BitVec 64} {level leaf t : Nat} {func : String}

theorem Keeps.refl (vaddr : BitVec 64) (M : Machine) : Keeps vaddr M M :=
  ⟨fun _ _ _ _ ht => ht, fun _ _ _ _ _ _ => rfl⟩

theorem Keeps.trans (h : Keeps vaddr M M') (h' : Keeps vaddr M' M'') : Keeps vaddr M M'' where
  table w k t hw ht := h'.table w k t hw (h.table w k t hw ht)
  word w k t hw ht hout :=
    (h'.word w k t hw (h.table w k t hw ht) hout).trans (h.word w k t hw ht hout)

/-- Writing an entry of the walk that is not present. -/
theorem TreeOk.keeps_set (hM : TreeOk M) (hslot : hwIndex vaddr 0 ≠ 511)
    (ht : hwTable M.mem M.cr3 vaddr level = some t)
    (hp : M.mem t (hwIndex vaddr level) &&& pgtP = 0#64) (phys : Physical) :
    Keeps vaddr M { M with mem := M.mem.set t (hwIndex vaddr level) e, phys } := by
  constructor
  · intro w k t' hw hk
    dsimp only
    rw [tableAt_set hM.own hslot hw ht, hk]
    -- there is no table below the entry
    rintro ⟨hlt, hsame⟩
    have htw : tableAt decodeEntry M.mem M.cr3 w level = some t :=
      (tableAt_congr fun j hj => hsame j (Nat.le_of_lt hj)).trans ht
    rw [tableAt_below htw (by rw [hsame level le_rfl, decodeEntry_absent hp]; rfl) hlt] at hk
    cases hk
  · intro w k t' hw hk hout
    exact set_of_ne M.mem e (hM.own.word hslot hw ht hk fun hc => hout (hc.1 ▸ hc.2))

/-- One level on the way down leaves the next one as the law of the way down needs it. -/
theorem ensureTable_next (hM : TreeOk M) (hslot : hwIndex vaddr 0 ≠ 511) (hlevel : level < leaf)
    (hleaf : leaf ≤ 3) (ht : hwTable M.mem M.cr3 vaddr level = some t)
    (hlarge : NoLargePage M vaddr level leaf) (hblank : NewTablesBlank M vaddr level leaf)
    (hrun : ensureTable func vaddr level M = .ok () M') :
    TreeOk M' ∧ Keeps vaddr M M' ∧ (∃ t', hwTable M'.mem M'.cr3 vaddr (level + 1) = some t') ∧
      NoLargePage M' vaddr (level + 1) leaf ∧ NewTablesBlank M' vaddr (level + 1) leaf := by
  have hthree : level < 3 := lt_of_lt_of_le hlevel hleaf
  rcases ensureTable_cases func hM hthree ht (hlarge level t le_rfl hlevel ht) with
    ⟨t', ht', hpass⟩ | ⟨hp, ⟨M'', herror, -⟩ | ⟨f, phys, hne, hdiv, hfree, halloc, hmark, hnew⟩⟩
  · rw [hpass] at hrun
    cases hrun
    exact ⟨hM, .refl vaddr M, ⟨t', ht'⟩, fun k t hk => hlarge k t (Nat.le_of_succ_le hk),
      fun k t hk => hblank k t (Nat.le_of_succ_le hk)⟩
  · rw [herror] at hrun
    cases hrun
  · rw [hnew] at hrun
    cases hrun
    have hframes := hblank level t le_rfl hlevel ht hp
    have hleft : leaf - level = (leaf - (level + 1)) + 1 := by omega
    rw [hleft] at hframes
    obtain ⟨hempty, hrest⟩ := hframes _ _ halloc hne
    rw [hdiv] at hempty
    have hM' := hM.extend hthree ht hp hfree hslot hempty hmark
    refine ⟨hM', hM.keeps_set hslot ht hp phys, ⟨f, ?_⟩, ?_, ?_⟩
    · exact (installs_extend hM hthree ht hp hfree).tableAt_new hM.own hslot hslot fun _ _ => rfl
    · intro k t' hk _ ht' hpage
      have hword := (extend_tables hM hthree ht hp hfree hslot hempty hk ht').2.2 (hwIndex vaddr k)
      rw [decodeEntry_absent hword] at hpage
      cases hpage
    · intro k t' hk _ ht' _
      obtain ⟨rfl, -, -⟩ := extend_tables hM hthree ht hp hfree hslot hempty hk ht'
      refine BlankFrames.congr hM'.fits ?_ hrest
      intro g hg
      have hgt : g ≠ t := by
        rintro rfl
        exact hM.taken (hwIndex vaddr) level g hslot ht ((hmark.taken_iff g).mp hg).1
      funext i
      exact set_of_ne _ _ (Or.inl hgt)

/-- The whole way down. -/
theorem ensureTables_keeps {num : Nat} (hM : TreeOk M) (hslot : hwIndex vaddr 0 ≠ 511)
    (hnum : level + num = leaf) (hleaf : leaf ≤ 3) (ht : hwTable M.mem M.cr3 vaddr level = some t)
    (hlarge : NoLargePage M vaddr level leaf) (hblank : NewTablesBlank M vaddr level leaf)
    (hrun : ensureTables func vaddr num level M = .ok () M') : Keeps vaddr M M' := by
  induction num generalizing M level t with
  | zero =>
    cases hrun
    exact .refl vaddr _
  | succ num ih =>
    cases hstep : ensureTable func vaddr level M with
    | error e M₁ =>
      rw [ensureTables_error hstep] at hrun
      cases hrun
    | ok _ M₁ =>
      obtain ⟨hM₁, hkeeps, ⟨t₁, ht₁⟩, hlarge₁, hblank₁⟩ :=
        ensureTable_next hM hslot (by omega) hleaf ht hlarge hblank hstep
      rw [ensureTables_ok hstep] at hrun
      exact hkeeps.trans (ih hM₁ (by omega) ht₁ hlarge₁ hblank₁ hrun)

/-- **A page that has been placed**: the tables are kept, the addresses of the page go where the entry
says and all others outside the recursive entry where they went before. -/
theorem MapUnrestricted.placed (f : MapUnrestricted) {frame flags : BitVec 64} (hM : TreeOk M)
    (hslot : hwIndex vaddr 0 ≠ 511) (hpage : decodeEntry f.level (frame ||| flags) = .page)
    (hlarge : NoLargePage M vaddr 0 f.level) (hblank : NewTablesBlank M vaddr 0 f.level)
    (hrun : f.run frame flags vaddr M = .ok () M') :
    TreeOk M' ∧ Keeps vaddr M M' ∧
      (∀ va, SamePage f.level vaddr va → M'.Leaf va f.level (frame ||| flags)) ∧
      ∀ va k e', hwIndex va 0 ≠ 511 → ¬ SamePage f.level vaddr va →
        (M'.Leaf va k e' ↔ M.Leaf va k e') := by
  have hne : f.level ≠ 0 := by cases f <;> decide
  rcases ensureTables_spec f.name hslot hM (Nat.zero_add f.level) f.level_le rfl hlarge hblank with
    ⟨k, -, M₁, herror, -⟩ | ⟨M₁, t, hdown, hM₁, ht, htrans, -⟩
  · rw [f.run_error frame flags herror] at hrun
    cases hrun
  · have hkeeps := ensureTables_keeps hM hslot (Nat.zero_add f.level) f.level_le rfl hlarge hblank
      hdown
    rw [f.run_ok frame flags hdown,
      installEntry_eq f.name hM₁.self f.level_le (shown_table ht)] at hrun
    split at hrun
    · cases hrun
    · next hp =>
      rw [not_not] at hp
      cases hrun
      obtain ⟨hin, hout⟩ := hM₁.install hslot ht hpage
      refine ⟨hM₁.set_leaf hslot hne ht ?_ ?_, hkeeps.trans (hM₁.keeps_set hslot ht hp M₁.phys),
        hin, ?_⟩
      · rw [decodeEntry_absent hp]
        rfl
      · rw [hpage]
        rfl
      · intro va k e' hva hother
        exact (hout va k e' hva hother).trans (htrans (hwIndex va) k e' hva)

/-- Clearing an entry below the top level keeps the tree. -/
theorem TreeOk.clear (hM : TreeOk M) (hslot : hwIndex vaddr 0 ≠ 511) (hleaf : leaf ≠ 0)
    (ht : hwTable M.mem M.cr3 vaddr leaf = some t) :
    TreeOk { M with mem := M.mem.set t (hwIndex vaddr leaf) 0#64 } := by
  have hnone : (decodeEntry leaf 0#64).next = none := by
    rw [decodeEntry_absent (by decide)]
    rfl
  have hroot : ∀ i, M.mem.set t (hwIndex vaddr leaf) 0#64 M.cr3 i = M.mem M.cr3 i := fun i =>
    set_of_ne M.mem 0#64 (Or.inl (hM.ne_root hslot hleaf ht).symm)
  constructor
  · unfold SelfMapped
    dsimp only
    rw [hroot]
    exact hM.self
  · exact hM.own.clear hslot ht hnone
  · intro w k t' hw hk
    exact hM.taken w k t' hw (tableAt_of_clear hM.own hslot hw ht hnone hk)
  · intro i
    dsimp only
    rw [hroot]
    exact hM.top i
  · exact hM.fits

end Keeping

/-! ## The windows beside a placed page -/

section Windows

variable {T : Window → Nat} {M M' : Machine} {s : Vm} {vaddr : BitVec 64}

/-- The entries of the windows do not lie on the walk of an address outside them. -/
theorem Shows.keeps (h : Shows T M s) (hkeeps : Keeps vaddr M M') (hM' : TreeOk M')
    (hcanon : Canonical vaddr) (hout : ¬ InWindow vaddr) :
    Shows T M' { s with phys := M'.phys } := by
  have hword : ∀ (w : Window) i, w.lo ≤ i → i < w.hi →
      M'.mem (T w) (Fin.ofNat 512 i) = M.mem (T w) (Fin.ofNat 512 i) := by
    intro w i hlo hhi
    obtain ⟨-, hindex, hslot⟩ := Window.hwIndex_va hlo hhi
    have hother : ¬ ∀ j ≤ w.level, hwIndex (BitVec.ofNat 64 (w.va i)) j = hwIndex vaddr j :=
      fun hsame => Window.not_samePage hlo hhi hcanon hout fun j hj => (hsame j hj).symm
    have hkept := hkeeps.word _ w.level (T w) hslot (h.table_va hlo hhi) hother
    rwa [hindex] at hkept
  constructor
  · exact hM'
  · intro w
    have hzero : hwIndex (BitVec.ofNat 64 w.start) 0 ≠ 511 := by cases w <;> decide
    exact hkeeps.table _ w.level (T w) hzero (h.table w)
  · intro w i hlo hhi
    rw [hword w i hlo hhi]
    exact h.leaf w i hlo hhi
  · intro w i hlo hhi
    rw [hword w i hlo hhi]
    exact h.entry w i hlo hhi
  · rfl

/-- The tables do not change when frames are given out, or given back that are no tables. -/
theorem Shows.frames (h : Shows T M s) {phys : Physical} (hfits : phys.entryEnd ≤ mmTableMax)
    (htaken : ∀ (w : Nat → Fin 512) k t, w 0 ≠ 511 →
      tableAt decodeEntry M.mem M.cr3 w k = some t → ¬ phys.Free t) :
    Shows T { M with phys } { s with phys } where
  tree := ⟨h.tree.self, h.tree.own, htaken, h.tree.top, hfits⟩
  table := h.table
  leaf := h.leaf
  entry := h.entry
  phys := rfl

end Windows

end Rtv.Mm
