import Rtv.Virt.Images

/-!
# Building the guest's page tables

The loops of `virt_pg_table_setup`, one lemma for each: they carry `EptBuilt` from an empty PDPT to
the tables for all large pages. The order is that of the source: a PDT is entered into the PDPT
before its entries are written, and the page table for the first 2MB into the PDT before its own,
in the middle of which the test program is written.
-/

namespace Rtv.Virt

open Rtv.Lib Rtv.Lib.PageTree Rtv.Utils Rtv.Mm

/-! ## What the steps do to the tables -/

namespace EptBuilt

variable {b : Prop} {m₀ : Bytes} {n root pdpt k c f i j v : Nat} {pdt : Nat → Nat} {O O' : Set Nat}
  {W W' : Words}

/-- Only the words of the frames in use matter. -/
theorem congr (h : EptBuilt b m₀ n root pdpt pdt k c O W) (hO : O ⊆ O')
    (hW : ∀ f ∈ O, ∀ i < 512, W' f i = W f i) : EptBuilt b m₀ n root pdpt pdt k c O' W' where
  count := h.count
  root_mem := hO h.root_mem
  pdpt_mem := ⟨hO h.pdpt_mem.1, h.pdpt_mem.2⟩
  pdt_mem i hi := ⟨hO (h.pdt_mem i hi).1, (h.pdt_mem i hi).2⟩
  pdt_inj := h.pdt_inj
  root_zero := by
    rw [Entry, hW root h.root_mem 0 (by decide)]
    exact h.root_zero
  root_rest hroot i hi hlt := by
    rw [hW root h.root_mem i hlt]
    exact h.root_rest hroot i hi hlt
  pdpt_table i hi := by
    have := h.count.1
    rw [Entry, hW pdpt h.pdpt_mem.1 i (by omega)]
    exact h.pdpt_table i hi
  pdpt_rest i hi hlt hhit := by
    rw [hW pdpt h.pdpt_mem.1 i hlt]
    exact h.pdpt_rest i hi hlt hhit
  first hc := by
    have hpdt := (h.pdt_mem 0 (by have := h.count.2; omega)).1
    rw [hW _ hpdt 0 (by decide)]
    refine (h.first hc).imp_right ?_
    rintro ⟨p, hp, hlt, hpdpt, hne, hentry, htable⟩
    exact ⟨p, hO hp, hlt, hpdpt, hne, hentry, htable.congr (hW p hp)⟩
  pages i hi j hj hpos hc := by
    rw [hW _ (h.pdt_mem i hi).1 j hj]
    exact h.pages i hi j hj hpos hc
  tail hb i hi hc := by
    rw [hW _ (h.pdt_mem i hi).1 511 (by decide)]
    exact h.tail hb i hi hc

/-- A new frame is entered into the PDPT as a PDT. -/
theorem addPdt (h : EptBuilt b m₀ n root pdpt pdt k (512 * k) O W) (hk : k < 512) (hf : f < 2 ^ 40)
    (hout : f ∉ O) (hlast : b → W f 511 = word m₀ f 511) :
    EptBuilt b m₀ n root pdpt (Function.update pdt k f) (k + 1) (512 * k) (insert f O)
      (W.set pdpt k (f * pgSize + 7)) := by
  have hne : ∀ g ∈ O, g ≠ f := fun g hg heq => hout (heq ▸ hg)
  have hold : ∀ i < k, Function.update pdt k f i = pdt i :=
    fun i hi => Function.update_of_ne (Nat.ne_of_lt hi) f pdt
  have hnew : Function.update pdt k f k = f := Function.update_self k f pdt
  have hset : ∀ g, g ≠ pdpt → ∀ i, W.set pdpt k (f * pgSize + 7) g i = W g i :=
    fun g hg i => set_of_ne W _ (Or.inl hg)
  have hroot : root ≠ pdpt := h.pdpt_mem.2.2.symm
  exact {
    count := ⟨hk, by omega⟩
    root_mem := Or.inr h.root_mem
    pdpt_mem := ⟨Or.inr h.pdpt_mem.1, h.pdpt_mem.2⟩
    pdt_mem := by
      intro i hi
      rcases Nat.lt_succ_iff_lt_or_eq.mp hi with hlt | rfl
      · rw [hold i hlt]
        exact ⟨Or.inr (h.pdt_mem i hlt).1, (h.pdt_mem i hlt).2⟩
      · rw [hnew]
        exact ⟨Or.inl rfl, hf, (hne root h.root_mem).symm, (hne pdpt h.pdpt_mem.1).symm⟩
    pdt_inj := by
      intro i hi j hj
      rcases Nat.lt_succ_iff_lt_or_eq.mp hi with hlt | rfl <;>
        rcases Nat.lt_succ_iff_lt_or_eq.mp hj with hlt' | rfl
      · rw [hold i hlt, hold j hlt']
        exact h.pdt_inj i hlt j hlt'
      · rw [hold i hlt, hnew]
        exact fun heq => absurd heq (hne _ (h.pdt_mem i hlt).1)
      · rw [hold j hlt', hnew]
        exact fun heq => absurd heq.symm (hne _ (h.pdt_mem j hlt').1)
      · exact fun _ => rfl
    root_zero := by
      rw [Entry, hset root hroot]
      exact h.root_zero
    root_rest := by
      intro hhit i hi hlt
      rw [hset root hroot]
      exact h.root_rest hhit i hi hlt
    pdpt_table := by
      intro i hi
      rcases Nat.lt_succ_iff_lt_or_eq.mp hi with hlt | rfl
      · rw [hold i hlt, Entry, set_of_ne W _ (Or.inr (Nat.ne_of_lt hlt))]
        exact h.pdpt_table i hlt
      · rw [hnew, Entry, set_self]
        exact Or.inl rfl
    pdpt_rest := by
      intro i hi hlt hhit
      rw [set_of_ne W _ (Or.inr (by omega))]
      exact h.pdpt_rest i (by omega) hlt hhit
    first := by
      intro hc
      have hpos : 0 < k := by omega
      rw [hold 0 hpos, hset _ (h.pdt_mem 0 hpos).2.2.2]
      refine (h.first hc).imp_right ?_
      rintro ⟨p, hp, hlt, hpdpt, hnep, hentry, htable⟩
      refine ⟨p, Or.inr hp, hlt, hpdpt, fun i hi => ?_, hentry, htable.congr fun j _ => hset p hpdpt j⟩
      rcases Nat.lt_succ_iff_lt_or_eq.mp hi with hlt | rfl
      · rw [hold i hlt]
        exact hnep i hlt
      · rw [hnew]
        exact hne p hp
    pages := by
      intro i hi j hj hpos hc
      have hlt : i < k := by omega
      rw [hold i hlt, hset _ (h.pdt_mem i hlt).2.2.2]
      exact h.pages i hlt j hj hpos hc
    tail := by
      intro hb i hi hc
      rcases Nat.lt_succ_iff_lt_or_eq.mp hi with hlt | rfl
      · rw [hold i hlt, hset _ (h.pdt_mem i hlt).2.2.2]
        exact h.tail hb i hlt hc
      · rw [hnew, hset f (hne pdpt h.pdpt_mem.1).symm]
        exact hlast hb }

/-- A large page is entered into the last PDT. -/
theorem addPage (h : EptBuilt b m₀ n root pdpt pdt (k + 1) c O W) (hc : c = 512 * k + j)
    (hpos : 0 < c) (hj : j < 512) (hv : IsLargePage v) :
    EptBuilt b m₀ n root pdpt pdt (k + 1) (c + 1) O (W.set (pdt k) j v) := by
  have hset : ∀ g, g ≠ pdt k → ∀ i, W.set (pdt k) j v g i = W g i :=
    fun g hg i => set_of_ne W v (Or.inl hg)
  have hmem := h.pdt_mem k (Nat.lt_succ_self k)
  have hword : ∀ i < k + 1, ∀ l, 512 * i + l ≠ c → l < 512 → W.set (pdt k) j v (pdt i) l = W (pdt i) l := by
    intro i hi l hne hl
    by_cases heq : pdt i = pdt k
    · obtain rfl := h.pdt_inj i hi k (Nat.lt_succ_self k) heq
      exact set_of_ne W v (Or.inr (by omega))
    · exact hset _ heq l
  exact {
    count := ⟨h.count.1, by omega⟩
    root_mem := h.root_mem
    pdpt_mem := h.pdpt_mem
    pdt_mem := h.pdt_mem
    pdt_inj := h.pdt_inj
    root_zero := by
      rw [Entry, hset root hmem.2.2.1.symm]
      exact h.root_zero
    root_rest := by
      intro hroot i hi hlt
      rw [hset root hmem.2.2.1.symm]
      exact h.root_rest hroot i hi hlt
    pdpt_table := by
      intro i hi
      rw [Entry, hset pdpt hmem.2.2.2.symm]
      exact h.pdpt_table i hi
    pdpt_rest := by
      intro i hi hlt hhit
      rw [hset pdpt hmem.2.2.2.symm]
      exact h.pdpt_rest i hi hlt hhit
    first := by
      intro _
      rw [hword 0 (Nat.succ_pos k) 0 (by omega) (by decide)]
      refine (h.first hpos).imp_right ?_
      rintro ⟨p, hp, hlt, hpdpt, hne, hentry, htable⟩
      exact ⟨p, hp, hlt, hpdpt, hne, hentry,
        htable.congr fun l _ => hset p (hne k (Nat.lt_succ_self k)) l⟩
    pages := by
      intro i hi l hl hpos hlc
      by_cases heq : 512 * i + l = c
      · obtain ⟨rfl, rfl⟩ : i = k ∧ l = j := by omega
        rw [set_self]
        exact hv
      · rw [hword i hi l heq hl]
        exact h.pages i hi l hl hpos (by omega)
    tail := by
      intro hb i hi hlc
      rw [hword i hi 511 (by omega) (by decide)]
      exact h.tail hb i hi (by omega) }

/-- The page table for the first 2MB is entered into the first PDT and filled, and meanwhile the test
program is written. -/
theorem addFirst (h : EptBuilt b m₀ n root pdpt pdt 1 0 O W) (hn : 0 < n) (hf : f < 2 ^ 40)
    (hout : f ∉ O)
    (hW : ∀ g, g ≠ f → ∀ i, TestedAt (W.set (pdt 0) 0 (f * pgSize + 7)) W' g i)
    (htable : FirstTable W' f) : EptBuilt b m₀ n root pdpt pdt 1 1 (insert f O) W' := by
  have hpdt := h.pdt_mem 0 Nat.one_pos
  have hne : ∀ g ∈ O, g ≠ f := fun g hg heq => hout (heq ▸ hg)
  have hword : ∀ g ∈ O, ∀ i, g ≠ pdt 0 ∨ i ≠ 0 → TestedAt W W' g i := by
    intro g hg i hother
    have hset := set_of_ne W (f * pgSize + 7) hother
    have := hW g (hne g hg) i
    rwa [TestedAt, hset] at this
  have hentry : ∀ g ∈ O, g ≠ pdt 0 → ∀ e, Entry W n g 0 e → Entry W' n g 0 e := by
    intro g hg hgp e he
    rcases hword g hg 0 (Or.inl hgp) with hsame | ⟨hhit, ⟨_, htest⟩ | ⟨hone, _⟩⟩
    · rw [Entry, hsame]
      exact he
    · exact Or.inr ⟨⟨hn, hhit⟩, rfl, htest⟩
    · exact absurd hone (by decide)
  have hzero : ∀ {i}, i < 1 → i = 0 := fun hi => Nat.lt_one_iff.mp hi
  exact {
    count := ⟨h.count.1, by decide⟩
    root_mem := Or.inr h.root_mem
    pdpt_mem := ⟨Or.inr h.pdpt_mem.1, h.pdpt_mem.2⟩
    pdt_mem := fun i hi => ⟨Or.inr (h.pdt_mem i hi).1, (h.pdt_mem i hi).2⟩
    pdt_inj := h.pdt_inj
    root_zero := hentry root h.root_mem hpdt.2.2.1.symm _ h.root_zero
    root_rest := by
      intro hhit i hi hlt
      rcases hword root h.root_mem i (Or.inr (by omega)) with hsame | ⟨htest, _⟩
      · rw [hsame]
        exact h.root_rest hhit i hi hlt
      · exact absurd ⟨hn, htest⟩ hhit
    pdpt_table := by
      intro i hi
      obtain rfl := hzero hi
      exact hentry pdpt h.pdpt_mem.1 hpdt.2.2.2.symm _ (h.pdpt_table 0 hi)
    pdpt_rest := by
      intro i hi hlt hhit
      rcases hword pdpt h.pdpt_mem.1 i (Or.inr (by omega)) with hsame | ⟨htest, hindex⟩
      · rw [hsame]
        exact h.pdpt_rest i hi hlt hhit
      · have := hhit ⟨hn, htest⟩
        omega
    first := by
      intro _
      rcases hW (pdt 0) (hne _ hpdt.1) 0 with hsame | ⟨_, ⟨_, htest⟩ | ⟨hone, _⟩⟩
      · rw [set_self] at hsame
        refine Or.inr ⟨f, Or.inl rfl, hf, (hne pdpt h.pdpt_mem.1).symm, fun i hi => ?_, hsame, htable⟩
        exact (hne _ (h.pdt_mem i hi).1).symm
      · exact Or.inl htest
      · exact absurd hone (by decide)
    pages := by
      intro i _ j _ hpos hlt
      omega
    tail := by
      intro hb i hi hc
      obtain rfl := hzero hi
      rcases hword (pdt 0) hpdt.1 511 (Or.inr (by decide)) with hsame | ⟨_, ⟨hindex, _⟩ | ⟨hindex, _⟩⟩
      · rw [hsame]
        exact h.tail hb 0 hi (by decide)
      · exact absurd hindex (by decide)
      · exact absurd hindex (by decide) }

end EptBuilt

/-! ## The loops -/

section Loops

variable {b : Prop} {m₀ : Bytes} {n root pdpt : Nat} {O : Set Nat} {W W₀ : Words}

/-- The page table for the first 2MB, when `k` of its entries are there. Elsewhere the test program was
written, or nothing. -/
structure Filling (W₀ : Words) (p k : Nat) (W : Words) : Prop where
  rest : ∀ g, g ≠ p → ∀ i, TestedAt W₀ W g i
  present : ∀ j < k, W p j % 8 ≠ 0
  entryPoint : 256 < k → W p 256 = 0x100100037

/-- Entering the next page. -/
theorem Filling.store {p k : Nat} (h : Filling W₀ p k W) (hk : k < 512) :
    Filling W₀ p (k + 1) (W.set p k (eptFirstPage k % 2 ^ 64)) where
  rest g hg i := by
    rw [TestedAt, set_of_ne W _ (Or.inl hg)]
    exact h.rest g hg i
  present j hj := by
    rcases Nat.lt_succ_iff_lt_or_eq.mp hj with hlt | rfl
    · rw [set_of_ne W _ (Or.inr (Nat.ne_of_lt hlt))]
      exact h.present j hlt
    · have hpage := eptFirstPage_present hk
      rw [set_self]
      omega
  entryPoint hlt := by
    rcases Nat.lt_succ_iff_lt_or_eq.mp hlt with hlt | rfl
    · rw [set_of_ne W _ (Or.inr (Nat.ne_of_lt hlt))]
      exact h.entryPoint hlt
    · rw [set_self]
      decide

/-- Writing the test program. -/
theorem Filling.test {p k : Nat} {W' : Words} (h : Filling W₀ p k W)
    (hW : ∀ f i, TestedAt W W' f i) : Filling W₀ p k W' where
  rest g hg i := by
    rcases hW g i with hsame | htest
    · rw [TestedAt, hsame]
      exact h.rest g hg i
    · exact Or.inr htest
  present j hj := by
    rcases hW p j with hsame | ⟨_, ⟨_, htest⟩ | ⟨_, htest⟩⟩
    · rw [hsame]
      exact h.present j hj
    · rw [htest]
      decide
    · exact htest
  entryPoint hlt := by
    rcases hW p 256 with hsame | ⟨_, ⟨hindex, _⟩ | ⟨hindex, _⟩⟩
    · rw [hsame]
      exact h.entryPoint hlt
    · exact absurd hindex (by decide)
    · exact absurd hindex (by decide)

/-- The loop over the page table for the first 2MB. -/
theorem fillPt_holds {ptVirt : Ptr} {p : Nat} (hbase : ptVirt.base = p * pgSize) (hp : p ∈ O) :
    ∀ (num k : Nat) (W : Words), num + k = 512 → Filling W₀ p k W →
      Triple (Holds b m₀ ∅ O W) (fillPt ptVirt num k) fun _ h =>
        ∃ W', Filling W₀ p 512 W' ∧ Holds b m₀ ∅ O W' h := by
  intro num
  induction num with
  | zero =>
    intro k W hk hfill
    obtain rfl : k = 512 := by omega
    exact Triple.pure fun h hh => ⟨W, hfill, hh⟩
  | succ num ih =>
    intro k W hk hfill
    have hnext := hfill.store (show k < 512 by omega)
    rw [fillPt]
    refine (storeWord_holds hbase hp (by omega)).bind fun _ => ?_
    split
    · next heq =>
      have hframe : pageBase (k * pgSize + 0x100000000) pgSize = testFrame * pgSize := by
        rw [heq]
        decide
      refine (storeTest_holds hframe).bind fun _ => Triple.exists_intro fun W' => ?_
      exact Triple.intro fun hW => ih (k + 1) W' (by omega) (hnext.test hW)
    · exact ih (k + 1) _ (by omega) hnext

/-- The tables are built so far. -/
def Built (b : Prop) (m₀ : Bytes) (n root pdpt : Nat) (pdt : Nat → Nat) (k c : Nat) (h : Host) : Prop :=
  ∃ O W, EptBuilt b m₀ n root pdpt pdt k c O W ∧ Holds b m₀ ∅ O W h

variable {pdt : Nat → Nat} {k c : Nat} {α : Type} {x : HostM α} {Q : α → Host → Prop}

theorem built_intro (hx : ∀ O W, EptBuilt b m₀ n root pdpt pdt k c O W →
    Triple (Holds b m₀ ∅ O W) x Q) : Triple (Built b m₀ n root pdpt pdt k c) x Q :=
  Triple.exists_intro fun O => Triple.exists_intro fun W => Triple.intro (hx O W)

theorem eptTable_word {f : Nat} (hf : f < 2 ^ 24) : eptTable (f * pgSize) % 2 ^ 64 = f * pgSize + 7 := by
  rw [eptTable_frame]
  unfold pgSize
  omega

theorem IsLargePage.mod {e : Nat} (h : IsLargePage e) : IsLargePage (e % 2 ^ 64) := by
  unfold IsLargePage at *
  omega

/-- The first entry of the first PDT. -/
theorem storeFirst_holds {pdtVirt : Ptr} (hn : 0 < n) (hbase : pdtVirt.base = pdt 0 * pgSize) :
    Triple (Built b m₀ n root pdpt pdt 1 0) (storeFirst pdtVirt 0) fun _ =>
      Built b m₀ n root pdpt pdt 1 1 := by
  refine built_intro fun O W h => ?_
  have hpdt := h.pdt_mem 0 Nat.one_pos
  unfold storeFirst
  refine allocFrame_holds (Or.inr rfl) fun f W₁ hf hout hsame _ => ?_
  refine (storeWord_holds hbase (Or.inr hpdt.1) (by decide)).bind fun _ => ?_
  refine mapFrame_holds hf fun ptVirt hpt _ => ?_
  rw [eptTable_word hf]
  have h₁ : EptBuilt b m₀ n root pdpt pdt 1 0 O W₁ :=
    h.congr subset_rfl fun g hg i _ => by rw [hsame g fun heq => hout (heq ▸ hg)]
  have hempty : Filling (W₁.set (pdt 0) 0 (f * pgSize + 7)) f 0
      (W₁.set (pdt 0) 0 (f * pgSize + 7)) := ⟨fun _ _ _ => Or.inl rfl, nofun, nofun⟩
  refine (fillPt_holds hpt (Or.inl rfl) pgTableEntries 0 _ rfl hempty).bind fun _ => ?_
  refine Triple.exists_intro fun W' => Triple.intro fun hfill => ?_
  refine (keepsMemory_unmapPage ptVirt).holds.mono (fun _ hh => hh) fun _ h' hh => ?_
  exact ⟨_, W', h₁.addFirst hn (lt_trans hf (by decide)) hout hfill.rest
    ⟨hfill.present, hfill.entryPoint (by decide)⟩, hh⟩

/-- One entry of a PDT. -/
theorem storePdtEntry_holds (vm : VmStruct) {pdtVirt : Ptr} {i j : Nat} (cur : Cursors) (hn : 0 < n)
    (hbase : pdtVirt.base = pdt i * pgSize) (hj : j < 512) :
    Triple (Built b m₀ n root pdpt pdt (i + 1) (512 * i + j)) (storePdtEntry vm pdtVirt i j cur)
      fun cur' h => cur'.count = cur.count ∧ Built b m₀ n root pdpt pdt (i + 1) (512 * i + j + 1) h := by
  have hpage : ∀ (e : Nat) (cur' : Cursors), IsLargePage e → cur'.count = cur.count → ¬ (i = 0 ∧ j = 0) →
      Triple (Built b m₀ n root pdpt pdt (i + 1) (512 * i + j))
        (store pdtVirt (8 * j) 8 e >>= fun _ => pure cur') fun cur' h =>
          cur'.count = cur.count ∧ Built b m₀ n root pdpt pdt (i + 1) (512 * i + j + 1) h := by
    intro e cur' he hcount hfirst
    refine built_intro fun O W h => ?_
    refine (storeWord_holds hbase (h.pdt_mem i (Nat.lt_succ_self i)).1 hj).bind fun _ => ?_
    exact Triple.pure fun h' hh => ⟨hcount, O, _, h.addPage rfl (by omega) hj he.mod, hh⟩
  unfold storePdtEntry
  dsimp only
  apply Triple.ite
  · rintro ⟨rfl, rfl⟩
    exact (storeFirst_holds hn hbase).bind fun _ => Triple.pure fun h hh => ⟨rfl, hh⟩
  · intro hfirst
    have hlarge := eptLargePage_isLargePage
    apply Triple.ite
    · exact fun _ => hpage _ _ (hlarge _) rfl hfirst
    · intro _
      apply Triple.ite
      · exact fun _ => hpage _ _ (hlarge _) rfl hfirst
      · exact fun _ => hpage _ _ (hlarge _) rfl hfirst

/-- The loop over the entries of a PDT ends with the PDT or with the last large page. -/
theorem fillPdt_holds (vm : VmStruct) {bound i : Nat} {pdtVirt : Ptr} (hn : n ≤ 2 ^ 18)
    (hbound : bound = n * 512) (hbase : pdtVirt.base = pdt i * pgSize) :
    ∀ (num j : Nat) (cur : Cursors), num + j = 512 → 512 * i + j < n ∨ num = 0 ∧ 512 * i + 512 ≤ n →
      cur.count = 512 * (512 * i + j) →
        Triple (Built b m₀ n root pdpt pdt (i + 1) (512 * i + j))
          (fillPdt vm bound i pdtVirt num j cur) fun cur' h =>
            cur'.count = 512 * min n (512 * (i + 1)) ∧
              Built b m₀ n root pdpt pdt (i + 1) (min n (512 * (i + 1))) h := by
  intro num
  induction num with
  | zero =>
    intro j cur hj hin hcount
    obtain rfl : j = 512 := by omega
    have hmin : min n (512 * (i + 1)) = 512 * i + 512 := by omega
    rw [hmin]
    exact Triple.pure fun h hh => ⟨hcount, hh⟩
  | succ num ih =>
    intro j cur hj hin hcount
    have hlt : 512 * i + j < n := by omega
    rw [fillPdt]
    refine (storePdtEntry_holds vm cur (by omega) hbase (by omega)).bind fun cur' => ?_
    refine Triple.intro fun hsame => ?_
    have hnext : (cur'.count + pgTableEntries) % 2 ^ 32 = 512 * (512 * i + j + 1) := by
      unfold pgTableEntries
      omega
    dsimp only
    rw [hnext]
    apply Triple.ite
    · intro hend
      have hmin : min n (512 * (i + 1)) = 512 * i + j + 1 := by omega
      rw [hmin]
      exact Triple.pure fun h hh => ⟨rfl, hh⟩
    · intro hend
      exact ih (j + 1) _ (by omega) (by omega) rfl

/-- One round of the loop over the PDPT. -/
theorem storePdt_holds (vm : VmStruct) {bound i : Nat} {pdptVirt : Ptr} (cur : Cursors) (hn : n ≤ 2 ^ 18)
    (hbound : bound = n * 512) (hbase : pdptVirt.base = pdpt * pgSize) (hi : 512 * i < n)
    (hcount : cur.count = 512 * (512 * i)) :
    Triple (fun h => ∃ pdt, Built b m₀ n root pdpt pdt i (512 * i) h) (storePdt vm bound pdptVirt cur i)
      fun cur' h => cur'.count = 512 * min n (512 * (i + 1)) ∧
        ∃ pdt, Built b m₀ n root pdpt pdt (i + 1) (min n (512 * (i + 1))) h := by
  refine Triple.exists_intro fun pdt => built_intro fun O W h => ?_
  unfold storePdt
  refine allocFrame_holds (Or.inr rfl) fun f W₁ hf hout hsame hlast => ?_
  refine (storeWord_holds hbase (Or.inr h.pdpt_mem.1) (by omega)).bind fun _ => ?_
  refine mapFrame_holds hf fun pdtVirt hpdt _ => ?_
  have h₁ : EptBuilt b m₀ n root pdpt pdt i (512 * i) O W₁ :=
    h.congr subset_rfl fun g hg j _ => by rw [hsame g fun heq => hout (heq ▸ hg)]
  have h₂ := h₁.addPdt (by omega) (lt_trans hf (by decide)) hout hlast
  have hpdt' : pdtVirt.base = Function.update pdt i f i * pgSize := by
    rw [Function.update_self]
    exact hpdt
  rw [eptTable_word hf]
  have hfill := @fillPdt_holds b m₀ n root pdpt (Function.update pdt i f) vm bound i pdtVirt hn hbound hpdt'
    pgTableEntries 0 cur rfl (Or.inl hi) hcount
  refine (hfill.mono (fun h' hh => ⟨_, _, h₂, hh⟩) fun _ _ hh => hh).bind fun cur' => ?_
  refine Triple.intro fun hcount' => built_intro fun O' W' h₃ => ?_
  refine (keepsMemory_unmapPage pdtVirt).holds_bind fun _ => ?_
  exact Triple.pure fun h' hh => ⟨hcount', _, O', W', h₃, hh⟩

/-- The loop over the PDPT. -/
theorem storePdts_holds (vm : VmStruct) {bound : Nat} {pdptVirt : Ptr} (cur : Cursors) (hn : n ≤ 2 ^ 18)
    (hbound : bound = n * 512) (hbase : pdptVirt.base = pdpt * pgSize) (hcount : cur.count = 0) :
    Triple (fun h => ∃ pdt, Built b m₀ n root pdpt pdt 0 0 h)
      ((List.range (pdtCount n)).foldlM (storePdt vm bound pdptVirt) cur) fun _ h =>
        ∃ pdt, Built b m₀ n root pdpt pdt (pdtCount n) n h := by
  have hloop := Triple.foldlM_range (P := fun i (cur : Cursors) h =>
      cur.count = 512 * min n (512 * i) ∧ ∃ pdt, Built b m₀ n root pdpt pdt i (min n (512 * i)) h)
    (f := storePdt vm bound pdptVirt) (k := pdtCount n)
    (fun i hlt cur => Triple.intro fun hcount => by
      have hin := lt_pdtCount.mp hlt
      have hmin : min n (512 * i) = 512 * i := by omega
      rw [hmin] at hcount ⊢
      exact storePdt_holds vm cur hn hbound hbase hin hcount) cur
  have hmin : min n (512 * pdtCount n) = n := by
    unfold pdtCount
    omega
  rw [hmin, Nat.mul_zero, Nat.min_zero] at hloop
  exact hloop.mono (fun h hh => ⟨hcount, hh⟩) fun _ h hh => hh.2

end Loops

/-! ## `virt_pg_table_setup` -/

/-- The frames of the two images are not free, as the boot code leaves them. -/
def ImagesTaken (vm : VmStruct) (s : Physical) : Prop :=
  ∀ f ∈ touched vm.imgPaddr vm.imgSize ∪ touched vm.extraPaddr vm.extraSize, ¬ s.Free f

/-- The two images have no frame in common. -/
def ImagesApart (vm : VmStruct) : Prop :=
  Disjoint (touched vm.imgPaddr vm.imgSize) (touched vm.extraPaddr vm.extraSize)

/-- The cleared tables, with the PDPT entered into the PML4T. -/
theorem EptBuilt.init {b : Prop} {m₀ : Bytes} {n root pdpt : Nat} {pdt : Nat → Nat} {O : Set Nat}
    {W : Words} (hroot : root ∈ O) (hpdpt : pdpt ∈ O ∧ pdpt < 2 ^ 40 ∧ pdpt ≠ root)
    (hzero : W root 0 = pdpt * pgSize + 7) (hrest : ∀ i, 0 < i → W root i = 0)
    (hclear : ∀ i, W pdpt i = 0) : EptBuilt b m₀ n root pdpt pdt 0 0 O W where
  count := ⟨by decide, by decide⟩
  root_mem := hroot
  pdpt_mem := hpdpt
  pdt_mem := nofun
  pdt_inj := nofun
  root_zero := Or.inl hzero
  root_rest _ i hi _ := hrest i hi
  pdpt_table := nofun
  pdpt_rest i _ _ _ := hclear i
  first := nofun
  pages := nofun
  tail := nofun

/-- What `virt_pg_table_setup` builds. -/
theorem virtPgTableSetup_built (vm : VmStruct) (m₀ : Bytes) (s : Physical)
    (hn : vm.pdtEntries ≤ 2 ^ 18) (htaken : ImagesTaken vm s) :
    Triple (fun h => h.mem = m₀ ∧ h.vm.phys = s) (virtPgTableSetup vm) fun r h =>
      (r.2.imgPaddr.toNat % largePgSize = 0 ∧ r.2.imgSize.toNat ≠ 0 ∧ r.2.ramSize = vm.ramSize) ∧
        ∃ root pdpt, (r.1 = root * pgSize ∧ FirstFree s 256 root ∧ FirstFree s (root + 1) pdpt) ∧
          ∃ pdt, Built (ImagesApart vm) m₀ vm.pdtEntries root pdpt pdt (pdtCount vm.pdtEntries)
            vm.pdtEntries h := by
  have hstart : ∀ h : Host, h.mem = m₀ ∧ h.vm.phys = s →
      Holds True m₀ (touched vm.imgPaddr vm.imgSize ∪ touched vm.extraPaddr vm.extraSize) ∅
        (fun _ _ => 0) h ∧ h.vm.phys = s := by
    rintro h ⟨rfl, rfl⟩
    exact ⟨⟨nofun, fun _ _ _ _ => rfl, fun _ => htaken⟩, rfl⟩
  refine Triple.mono ?_ hstart fun _ _ hh => hh
  unfold virtPgTableSetup
  dsimp only
  refine allocFrame_at (Or.inl trivial) fun root s₁ W₁ hroot hm _ _ _ => ?_
  refine mapFrame_at hroot.2.1.lt fun pml4tVirt hpml4t _ => ?_
  refine allocFrame_at (Or.inl trivial) fun pdpt s₂ W₂ hsecond _ hout _ _ => ?_
  have hpdpt := hsecond.2.1.lt
  refine mapFrame_at hpdpt fun pdptVirt hpdptVirt _ => ?_
  refine Triple.mono ?_ (fun h hh => hh.1) fun _ _ hh => hh
  have hne : pdpt ≠ root := fun heq => hout (Or.inl heq)
  refine (clearPage_holds hpml4t (Or.inr (Or.inl rfl))).bind fun _ => ?_
  refine (clearPage_holds hpdptVirt (Or.inl rfl)).bind fun _ => ?_
  refine Triple.bind (storeWord_holds (i := 0) hpml4t (Or.inr (Or.inl rfl)) (by decide)) fun _ => ?_
  rw [eptTable_word hpdpt]
  refine (virtSetupLinux_holds vm).bind fun vm' => Triple.intro fun hvm' => ?_
  obtain ⟨himg, hsize, hram⟩ := hvm'
  have hentries : vm'.pdptEntries = pdtCount vm.pdtEntries := by
    rw [VmStruct.pdptEntries, VmStruct.pdtEntries, hram]
    exact Nat.shiftRight_eq_div_pow _ 9
  rw [hentries]
  have hinit : ∀ h W, Holds (ImagesApart vm) m₀ ∅ (insert pdpt (insert root ∅)) W h →
      W root 0 = pdpt * pgSize + 7 → (∀ i, 0 < i → W root i = 0) → (∀ i, W pdpt i = 0) →
        ∃ pdt, Built (ImagesApart vm) m₀ vm.pdtEntries root pdpt pdt 0 0 h := by
    intro h W hh hzero hrest hclear
    exact ⟨fun _ => 0, _, W, .init (Or.inr (Or.inl rfl))
      ⟨Or.inl rfl, lt_trans hpdpt (by decide), hne⟩ hzero hrest hclear, hh⟩
  have hloop := @storePdts_holds (ImagesApart vm) m₀ vm.pdtEntries root pdpt vm'
    (vm.pdtEntries * pgTableEntries % 2 ^ 32) pdptVirt
    ⟨add64 vm.imgPaddr.toNat 0x100000, vm.extraPaddr.toNat, 0⟩ hn
    (by unfold pgTableEntries; omega) hpdptVirt rfl
  refine (hloop.mono (fun h hh => hinit h _ hh ?_ ?_ ?_) fun _ _ hh => hh).bind fun _ => ?_
  · exact set_self _ _ _ _
  · intro i hi
    rw [set_of_ne _ _ (Or.inr (by omega)), if_neg (Ne.symm hne), if_pos rfl]
  · intro i
    rw [set_of_ne _ _ (Or.inl hne), if_pos rfl]
  refine Triple.exists_intro fun pdt => built_intro fun O W hbuilt => ?_
  refine (keepsMemory_unmapPage pml4tVirt).holds_bind fun _ => ?_
  refine (keepsMemory_unmapPage pdptVirt).holds_bind fun _ => ?_
  exact Triple.pure fun h hh =>
    ⟨⟨himg, hsize, hram⟩, root, pdpt, ⟨rfl, hroot, hroot.next hm hsecond⟩, pdt, O, W, hbuilt, hh⟩

end Rtv.Virt
