import Rtv.Lib.PageTree
import Rtv.Mm.Paging
import Rtv.Virt.Setup

/-!
# The guest's page tables

The EPT as the processor walks it: a tree of tables in physical memory (`Rtv.Lib.PageTree`), four
levels of 512 words. An entry with none of its three permissions is not present; bit 7 makes a page
of an entry of level 1 or 2.

`EptBuilt` is what `virt_pg_table_setup` builds, as far as a walk can see it. From it follow what is
mapped (`EptBuilt.coversExactly`, `EptBuilt.not_exact_of_tail`) and where the kernel's entry point leads
to (`EptBuilt.entryPoint_not_aligned`).
-/

namespace Rtv.Virt

open Rtv.Lib Rtv.Lib.PageTree Rtv.Mm

/-! ## The walk of the processor -/

/-- Word `i` of a frame. -/
def word (m : Bytes) (f i : Nat) : Nat := m.loadLE (f * pgSize + 8 * i) 8

/-- Physical memory as tables. -/
def eptTables (m : Bytes) : Tables (Fin 512) Nat := fun f i => word m f i

/-- How the processor reads an entry of the levels 0 to 3. -/
def decodeEpt (level e : Nat) : PageEntry :=
  if e % 8 = 0 then .absent
  else if level = 3 then .page
  else if e / 128 % 2 = 0 then .table (e / pgSize % 2 ^ 40)
  else if level = 0 then .absent
  else .page

/-- The index of a guest-physical address into the table of a level. -/
def eptIndex (g level : Nat) : Fin 512 := Fin.ofNat 512 (g / pageBytes level)

/-- The walk of a guest-physical address ends at a present leaf, the word `e` of a level. -/
def EptLeaf (m : Bytes) (ept g level e : Nat) : Prop :=
  Translates decodeEpt (eptTables m) (ept / pgSize) (eptIndex g) level e

/-- The walk of a guest-physical address succeeds. -/
def EptCovers (m : Bytes) (ept g : Nat) : Prop := ∃ level e, EptLeaf m ept g level e

/-- The addresses that are mapped are the first `n` large pages. -/
def CoversExactly (m : Bytes) (ept n : Nat) : Prop :=
  ∀ g < 2 ^ 48, EptCovers m ept g ↔ g < n * largePgSize

/-- The host-physical address in a page of an entry. -/
def eptAddr (g level e : Nat) : Nat :=
  e / pgSize % 2 ^ 40 * pgSize / pageBytes level * pageBytes level + g % pageBytes level

/-- A guest-physical address translates to a host-physical one. -/
def EptMaps (m : Bytes) (ept g a : Nat) : Prop :=
  ∃ level e, EptLeaf m ept g level e ∧ a = eptAddr g level e

/-! ## Entries -/

/-- An entry that points to a table, of the frame `f`. -/
theorem eptTable_frame (f : Nat) : eptTable (f * pgSize) = f * pgSize + 7 := by
  have h : ∀ k < 8, f * pgSize ||| k = f * pgSize + k := by
    intro k hk
    have := Nat.two_pow_add_eq_or_of_lt (i := 3) (b := k) hk (f * 512)
    unfold pgSize
    rw [show f * 4096 = 2 ^ 3 * (f * 512) by ring, ← this]
  unfold eptTable eptRdWr eptEx
  rw [Nat.or_assoc]
  exact h 7 (by decide)

theorem decodeEpt_table {f level : Nat} (hf : f < 2 ^ 40) (hlevel : level ≠ 3) :
    decodeEpt level (f * pgSize + 7) = .table f := by
  unfold decodeEpt pgSize
  rw [if_neg (by omega), if_neg hlevel, if_pos (by omega)]
  congr 1
  omega

/-- A large page. -/
def IsLargePage (e : Nat) : Prop := e % 8 ≠ 0 ∧ e / 128 % 2 = 1

theorem decodeEpt_largePage {e : Nat} (h : IsLargePage e) : decodeEpt 2 e = .page := by
  rw [decodeEpt, if_neg h.1, if_neg (by decide), if_neg (by rw [h.2]; decide), if_neg (by decide)]

theorem eptLargePage_eq (frame : Nat) : eptLargePage frame = frame ||| 0xB7 := by
  simp only [eptLargePage, eptRdWr, eptEx, eptPg, eptTpWb, Nat.or_assoc]
  rfl

/-- Whatever the frame is, the entry is a large page. -/
theorem eptLargePage_isLargePage (frame : Nat) : IsLargePage (eptLargePage frame) := by
  rw [eptLargePage_eq]
  constructor
  · have hlow := Nat.or_mod_two_pow (a := frame) (b := 0xB7) (n := 3)
    have hall : ∀ a < 8, a ||| 0xB7 % 2 ^ 3 ≠ 0 := by decide
    rw [show (8 : Nat) = 2 ^ 3 from rfl, hlow]
    exact hall _ (Nat.mod_lt _ (by decide))
  · have hbit : (frame ||| 0xB7).testBit 7 = true := by
      rw [Nat.testBit_or]
      simp [show (0xB7 : Nat).testBit 7 = true from rfl]
    rw [Nat.testBit_eq_decide_div_mod_eq] at hbit
    exact of_decide_eq_true hbit

/-- An entry of the page table for the first 2MB. -/
theorem eptFirstPage_present {k : Nat} (hk : k < 512) : eptFirstPage k % 8 ≠ 0 := by
  have h : ∀ k < 512, eptFirstPage k % 8 ≠ 0 := by decide +kernel
  exact h k hk

/-! ## What the setup builds -/

/-- The page of the test program, at 4GB + 1MB. -/
def testFrame : Nat := 0x100100

/-- The first word of the test program. -/
def testWord : Nat := 0x2F4F000B800005C7

/-- The test program was written over a frame of the EPT for `n` large pages. -/
def Hit (n f : Nat) : Prop := 0 < n ∧ f = testFrame

/-- The words of the frames. -/
abbrev Words := Tables Nat Nat

/-- A table's entry, unless the test program was written over it. -/
def Entry (W : Words) (n f i e : Nat) : Prop := W f i = e ∨ Hit n f ∧ i = 0 ∧ W f i = testWord

/-- The page table for the first 2MB, with the test program at 1MB. -/
structure FirstTable (W : Words) (p : Nat) : Prop where
  present : ∀ j < 512, W p j % 8 ≠ 0
  entryPoint : W p 256 = 0x100100037

theorem FirstTable.congr {W W' : Words} {p : Nat} (h : FirstTable W p)
    (hsame : ∀ j < 512, W' p j = W p j) : FirstTable W' p where
  present j hj := by
    rw [hsame j hj]
    exact h.present j hj
  entryPoint := (hsame 256 (by decide)).trans h.entryPoint

/-- The tables for `n` large pages, when `k` of the PDTs are there and `c` of the pages are in them:
the PML4T in frame `root`, the PDPT in `pdpt` and the PDTs in `pdt i`. All of them are among the
frames `O`, whose words are `W`. Under the condition `b`, the last word of a PDT that is not full is
what it was in the memory `m₀`. -/
structure EptBuilt (b : Prop) (m₀ : Bytes) (n root pdpt : Nat) (pdt : Nat → Nat) (k c : Nat)
    (O : Set Nat) (W : Words) : Prop where
  count : k ≤ 512 ∧ c ≤ 512 * k
  root_mem : root ∈ O
  pdpt_mem : pdpt ∈ O ∧ pdpt < 2 ^ 40 ∧ pdpt ≠ root
  pdt_mem : ∀ i < k, pdt i ∈ O ∧ pdt i < 2 ^ 40 ∧ pdt i ≠ root ∧ pdt i ≠ pdpt
  pdt_inj : ∀ i < k, ∀ j < k, pdt i = pdt j → i = j
  root_zero : Entry W n root 0 (pdpt * pgSize + 7)
  root_rest : ¬ Hit n root → ∀ i, 0 < i → i < 512 → W root i = 0
  pdpt_table : ∀ i < k, Entry W n pdpt i (pdt i * pgSize + 7)
  pdpt_rest : ∀ i, k ≤ i → i < 512 → (Hit n pdpt → 2 ≤ i) → W pdpt i = 0
  first : 0 < c → W (pdt 0) 0 = testWord ∨ ∃ p ∈ O, p < 2 ^ 40 ∧ p ≠ pdpt ∧ (∀ i < k, p ≠ pdt i) ∧
    W (pdt 0) 0 = p * pgSize + 7 ∧ FirstTable W p
  pages : ∀ i < k, ∀ j < 512, 0 < 512 * i + j → 512 * i + j < c → IsLargePage (W (pdt i) j)
  tail : b → ∀ i < k, c ≤ 512 * i + 511 → W (pdt i) 511 = word m₀ (pdt i) 511

/-- The number of PDTs for `n` large pages. -/
def pdtCount (n : Nat) : Nat := (n + 511) / 512

section Walks

variable {b : Prop} {m m₀ : Bytes} {n root pdpt : Nat} {pdt : Nat → Nat} {O : Set Nat}
  {g level t : Nat}

/-- The table that the walk of `g` reads at a level. -/
def eptTableAt (m : Bytes) (root g level : Nat) : Option Nat :=
  tableAt decodeEpt (eptTables m) root (eptIndex g) level

theorem eptTableAt_next {f : Nat} (ht : eptTableAt m root g level = some t) (hlevel : level ≠ 3)
    (hf : f < 2 ^ 40) (he : word m t (g / pageBytes level % 512) = f * pgSize + 7) :
    eptTableAt m root g (level + 1) = some f := by
  refine tableAt_succ.mpr ⟨t, ht, ?_⟩
  change decodeEpt level (word m t (g / pageBytes level % 512)) = .table f
  rw [he]
  exact decodeEpt_table hf hlevel

/-- A walk that comes to an entry that is a page. -/
theorem eptLeaf_of_page (ht : eptTableAt m root g level = some t)
    (he : decodeEpt level (word m t (g / pageBytes level % 512)) = .page) :
    EptLeaf m (root * pgSize) g level (word m t (g / pageBytes level % 512)) := by
  refine ⟨t, ?_, rfl, he⟩
  rw [Nat.mul_div_cancel root (by decide : 0 < pgSize)]
  exact ht

/-- A walk that comes to an entry that is not present. -/
theorem not_eptCovers_of_absent (ht : eptTableAt m root g level = some t)
    (he : decodeEpt level (word m t (g / pageBytes level % 512)) = .absent) :
    ¬ EptCovers m (root * pgSize) g := by
  rintro ⟨k, e, hleaf⟩
  rw [EptLeaf, Nat.mul_div_cancel root (by decide : 0 < pgSize)] at hleaf
  exact not_translates_of_absent ht he hleaf

theorem lt_pdtCount {i : Nat} : i < pdtCount n ↔ 512 * i < n := by
  unfold pdtCount
  omega

namespace EptBuilt

variable (h : EptBuilt b m₀ n root pdpt pdt (pdtCount n) n O (word m))

include h

/-- The walk below 512GB comes to the PDPT. -/
theorem tableAt_pdpt (he : word m root 0 = pdpt * pgSize + 7) (hg : g < 2 ^ 39) :
    eptTableAt m root g 1 = some pdpt := by
  have hindex : g / pageBytes 0 % 512 = 0 := by
    unfold pageBytes
    omega
  refine eptTableAt_next (t := root) rfl (by decide) h.pdpt_mem.2.1 ?_
  rw [hindex, he]

/-- The walk in a GB that has a PDT comes to it. -/
theorem tableAt_pdt (ht : eptTableAt m root g 1 = some pdpt) (hg : g < 2 ^ 39)
    (hn : 512 * (g / 2 ^ 30) < n)
    (he : word m pdpt (g / 2 ^ 30) = pdt (g / 2 ^ 30) * pgSize + 7) :
    eptTableAt m root g 2 = some (pdt (g / 2 ^ 30)) := by
  have hindex : g / pageBytes 1 % 512 = g / 2 ^ 30 := by
    unfold pageBytes
    omega
  refine eptTableAt_next ht (by decide) (h.pdt_mem _ (lt_pdtCount.mpr hn)).2.1 ?_
  rw [hindex, he]

/-- The first entry leads to a page for every address of the first 2MB. -/
theorem covers_first (ht : eptTableAt m root g 2 = some (pdt 0)) (hn : 0 < n) (hg : g < 2 ^ 21) :
    EptCovers m (root * pgSize) g := by
  have hindex : g / pageBytes 2 % 512 = 0 := by
    unfold pageBytes
    omega
  rcases h.first hn with htest | ⟨p, _, hp, _, _, hentry, htable⟩
  · refine ⟨2, _, eptLeaf_of_page ht ?_⟩
    rw [hindex, htest]
    decide
  · have ht' := eptTableAt_next ht (by decide) hp (by rw [hindex, hentry])
    have hindex' : g / pageBytes 3 % 512 < 512 := Nat.mod_lt _ (by decide)
    refine ⟨3, _, eptLeaf_of_page ht' ?_⟩
    rw [decodeEpt, if_neg (htable.present _ hindex'), if_pos rfl]

/-- **What is mapped**, when the number of large pages fills whole PDTs and the test program was not
written over the two upper tables: the memory of the guest and nothing else. -/
theorem coversExactly (hn : n ≤ 2 ^ 18) (hfull : n % 512 = 0) (hroot : ¬ Hit n root)
    (hpdpt : Hit n pdpt → 1024 ≤ n) : CoversExactly m (root * pgSize) n := by
  intro g hg
  have hentry : word m root 0 = pdpt * pgSize + 7 := h.root_zero.resolve_right fun hc => hroot hc.1
  unfold largePgSize
  by_cases hlow : g < 2 ^ 39
  · have ht := h.tableAt_pdpt hentry hlow
    have hindex : g / pageBytes 1 % 512 = g / 2 ^ 30 := by
      unfold pageBytes
      omega
    by_cases hin : 512 * (g / 2 ^ 30) < n
    · refine iff_of_true ?_ (by omega)
      rcases h.pdpt_table _ (lt_pdtCount.mpr hin) with htable | ⟨-, hzero, htest⟩
      · have ht' := h.tableAt_pdt ht hlow hin htable
        by_cases hfirst : g < 2 ^ 21
        · have hzero : g / 2 ^ 30 = 0 := by omega
          rw [hzero] at ht' hin
          exact h.covers_first ht' hin hfirst
        · have hpage := h.pages (g / 2 ^ 30) (lt_pdtCount.mpr hin) (g / 2 ^ 21 % 512) (by omega)
            (by omega) (by omega)
          exact ⟨2, _, eptLeaf_of_page ht' (decodeEpt_largePage hpage)⟩
      · -- the test program is a page of 1GB
        refine ⟨1, _, eptLeaf_of_page ht ?_⟩
        rw [hindex, htest]
        decide
    · refine iff_of_false (not_eptCovers_of_absent ht ?_) (by omega)
      have hle : pdtCount n ≤ g / 2 ^ 30 := not_lt.mp fun hlt => hin (lt_pdtCount.mp hlt)
      rw [hindex, h.pdpt_rest _ hle (by omega) fun hhit => by have := hpdpt hhit; omega]
      rfl
  · have hindex : g / pageBytes 0 % 512 = g / 2 ^ 39 := by
      unfold pageBytes
      omega
    have ht : eptTableAt m root g 0 = some root := rfl
    refine iff_of_false (not_eptCovers_of_absent ht ?_) (by omega)
    rw [hindex, h.root_rest hroot _ (by omega) (by omega)]
    rfl

/-- With a page in the last word of a PDT that is not full, an address past the guest's memory is
mapped, or the first one is not. -/
theorem not_exact_of_tail (hn : n ≤ 2 ^ 18) (hfull : n % 512 ≠ 0)
    (hb : b) (hlast : ∀ f ∈ O, IsLargePage (word m₀ f 511)) :
    ¬ CoversExactly m (root * pgSize) n := by
  intro hexact
  unfold CoversExactly largePgSize at hexact
  rcases h.root_zero with hentry | ⟨-, -, htest⟩
  · -- the address of the last word of the last PDT
    have hin : 512 * (n / 512) < n := by omega
    have hlow : (n / 512 * 512 + 511) * 2 ^ 21 < 2 ^ 39 := by omega
    have hgb : (n / 512 * 512 + 511) * 2 ^ 21 / 2 ^ 30 = n / 512 := by omega
    have ht := h.tableAt_pdpt hentry hlow
    have hcovers : EptCovers m (root * pgSize) ((n / 512 * 512 + 511) * 2 ^ 21) := by
      have hindex : (n / 512 * 512 + 511) * 2 ^ 21 / pageBytes 1 % 512 = n / 512 := by
        unfold pageBytes
        omega
      rcases h.pdpt_table _ (lt_pdtCount.mpr hin) with htable | ⟨-, -, htest⟩
      · have ht' := h.tableAt_pdt ht hlow (by rwa [hgb]) (by rwa [hgb])
        have hindex' : (n / 512 * 512 + 511) * 2 ^ 21 / pageBytes 2 % 512 = 511 := by
          unfold pageBytes
          omega
        rw [hgb] at ht'
        refine ⟨2, _, eptLeaf_of_page ht' (decodeEpt_largePage ?_)⟩
        rw [hindex', h.tail hb _ (lt_pdtCount.mpr hin) (by omega)]
        exact hlast _ (h.pdt_mem _ (lt_pdtCount.mpr hin)).1
      · refine ⟨1, _, eptLeaf_of_page ht ?_⟩
        rw [hindex, htest]
        decide
    have hlt := (hexact _ (by omega)).mp hcovers
    omega
  · have ht : eptTableAt m root 0 0 = some root := rfl
    refine not_eptCovers_of_absent ht ?_ ((hexact 0 (by decide)).mpr (by omega))
    rw [Nat.zero_div, Nat.zero_mod, htest]
    decide

/-- The guest's address 1MB, where the kernel should be, is not mapped to the begin of a large
page. -/
theorem entryPoint_not_aligned (hn : 0 < n) {a : Nat} (ha : EptMaps m (root * pgSize) 0x100000 a) :
    a % largePgSize ≠ 0 := by
  obtain ⟨level, e, hleaf, rfl⟩ := ha
  -- the walk ends at one entry only
  have hend : ∀ {k f}, EptLeaf m (root * pgSize) 0x100000 k f →
      eptAddr 0x100000 k f % largePgSize ≠ 0 →
        eptAddr 0x100000 level e % largePgSize ≠ 0 := by
    intro k f hleaf' hf
    obtain ⟨rfl, rfl⟩ := hleaf.unique hleaf'
    exact hf
  rcases h.root_zero with hentry | ⟨-, -, htest⟩
  · have ht : eptTableAt m root 0x100000 1 = some pdpt := h.tableAt_pdpt hentry (by decide)
    rcases h.pdpt_table 0 (lt_pdtCount.mpr hn) with htable | ⟨-, -, htest⟩
    · have ht' : eptTableAt m root 0x100000 2 = some (pdt 0) :=
        h.tableAt_pdt ht (by decide) hn htable
      rcases h.first hn with htest | ⟨p, _, hp, _, _, hpt, hfirst⟩
      · have hpage : decodeEpt 2 (word m (pdt 0) 0) = .page := by
          rw [htest]
          decide
        refine hend (eptLeaf_of_page ht' hpage) ?_
        rw [show 0x100000 / pageBytes 2 % 512 = 0 from rfl, htest]
        decide
      · have ht'' : eptTableAt m root 0x100000 3 = some p := eptTableAt_next ht' (by decide) hp hpt
        have hpage := hfirst.entryPoint
        have hpresent : decodeEpt 3 (word m p 256) = .page := by
          rw [hpage]
          decide
        refine hend (eptLeaf_of_page ht'' hpresent) ?_
        rw [show 0x100000 / pageBytes 3 % 512 = 256 from rfl, hpage]
        decide
    · have hpage : decodeEpt 1 (word m pdpt 0) = .page := by
        rw [htest]
        decide
      refine hend (eptLeaf_of_page ht hpage) ?_
      rw [show 0x100000 / pageBytes 1 % 512 = 0 from rfl, htest]
      decide
  · have habs : decodeEpt 0 (word m root 0) = .absent := by
      rw [htest]
      decide
    have ht : eptTableAt m root 0x100000 0 = some root := rfl
    exact absurd ⟨level, e, hleaf⟩ (not_eptCovers_of_absent ht habs)

end EptBuilt

end Walks

end Rtv.Virt
