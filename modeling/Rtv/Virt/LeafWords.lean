import Rtv.Virt.Leaves

/-!
# What the page directories hold in the end

The words that `logSetup` has written to the PDTs, when it returns. The frame of a PDT is taken for as
long as the loops go on, so that no later table is put there. Two kinds of writes can still reach it. The
PDPT may have been given back with the old place of an image and be one of the PDTs: its entries point to
tables. And the test program is written to the page at 4GB + 1MB, whether or not this is the first PDT.

**The law** (`logPdts_standing`): each word that was written holds the value of its write or is no large
page, but for the first word of the first PDT if that is the page of the test program, whose first word it
then is.
-/

namespace Rtv.Virt

open Rtv.Lib Rtv.Utils Rtv.Mm

/-! ## The words of the log -/

/-- The write is still there, or its word is no large page any more. -/
def Stands (m : Bytes) (w : PdtWrite) : Prop :=
  m.loadLE w.addr 8 = w.entry % 2 ^ 64 ∨ m.loadLE w.addr 8 &&& eptPg = 0

/-- The writes of a log that is not empty, with the first PDT in frame `f`. -/
structure Standing (f : Nat) (log : List PdtWrite) (h : Host) : Prop where
  first : ∃ w ∈ log, w.addr = f * pgSize
  owned : ∀ w ∈ log, ∃ g j, w.addr = g * pgSize + 8 * j ∧ j < 512 ∧ ¬ h.vm.phys.Free g
  stands : ∀ w ∈ log, Stands h.mem w ∨ w.addr = f * pgSize ∧ f = testFrame
  tested : f = testFrame → word h.mem f 0 = testWord

section Words

variable {f g i j e : Nat} {m : Bytes} {log : List PdtWrite} {h h' : Host}

theorem word_zero (m : Bytes) (f : Nat) : word m f 0 = m.loadLE (f * pgSize) 8 := by
  rw [word, Nat.mul_zero, Nat.add_zero]

theorem mod_and_eptPg (e : Nat) : e % 2 ^ 64 &&& eptPg = 0 ↔ e &&& eptPg = 0 := by
  rw [← not_iff_not, ← ne_eq, ← ne_eq, and_eptPg, and_eptPg, Nat.testBit_mod_two_pow]
  simp

theorem entryFormed_mod {e : Nat} : EntryFormed (e % 2 ^ 64) ↔ EntryFormed e := by
  have hleaf : LeafFormed (e % 2 ^ 64) ↔ LeafFormed e := by
    unfold LeafFormed
    omega
  unfold EntryFormed
  rw [ne_eq, mod_and_eptPg, hleaf]

/-- **The words are as they should be** if the values are, and the test program was not written over the
first one. -/
theorem Standing.formed_iff (h₀ : Standing f log h) :
    (∀ w ∈ log, EntryFormed w.entry ∧ EntryFormed (h.mem.loadLE w.addr 8)) ↔
      (∀ w ∈ log, EntryFormed w.entry) ∧ f ≠ testFrame := by
  constructor
  · intro hall
    refine ⟨fun w hw => (hall w hw).1, fun htest => ?_⟩
    obtain ⟨w, hw, haddr⟩ := h₀.first
    have hword := (hall w hw).2
    rw [haddr, ← word_zero, h₀.tested htest] at hword
    exact absurd hword (by decide)
  · rintro ⟨hformed, hne⟩ w hw
    refine ⟨hformed w hw, ?_⟩
    rcases (h₀.stands w hw).resolve_right fun hc => hne hc.2 with hsame | hnone
    · rw [hsame, entryFormed_mod]
      exact hformed w hw
    · exact fun hpg => absurd hnone hpg

/-- A word is reached by a write to another word only at its own address. -/
theorem loadLE_store_apart (hi : i < 512) (hj : j < 512)
    (hne : g * pgSize + 8 * j ≠ f * pgSize + 8 * i) :
    (m.storeLE (f * pgSize + 8 * i) 8 e).loadLE (g * pgSize + 8 * j) 8 =
      m.loadLE (g * pgSize + 8 * j) 8 := by
  refine (word_storeLE hi hj).trans (if_neg ?_)
  rintro ⟨rfl, rfl⟩
  exact hne rfl

/-- A step that leaves the memory alone and gives no frame back. -/
theorem Standing.congr (h₀ : Standing f log h) (hmem : h'.mem = h.mem)
    (hfree : ∀ g, h'.vm.phys.Free g → h.vm.phys.Free g) : Standing f log h' where
  first := h₀.first
  owned w hw := by
    obtain ⟨g, j, haddr, hj, htaken⟩ := h₀.owned w hw
    exact ⟨g, j, haddr, hj, fun hg => htaken (hfree g hg)⟩
  stands := hmem ▸ h₀.stands
  tested := hmem ▸ h₀.tested

/-- An entry of the PDPT behind the first one. -/
theorem Standing.storeTable (h₀ : Standing f log h) {page : Nat} (hi : 0 < i) (hi' : i < 512) :
    Standing f log { h with mem := h.mem.storeLE (g * pgSize + 8 * i) 8 (eptTable (page <<< pgBits)) } where
  first := h₀.first
  owned := h₀.owned
  stands w hw := by
    obtain ⟨g', j, haddr, hj, _⟩ := h₀.owned w hw
    by_cases hsame : w.addr = g * pgSize + 8 * i
    · refine Or.inl (Or.inr ?_)
      rw [hsame, Bytes.loadLE_storeLE_same, mod_and_eptPg]
      exact eptTable_eptPg page
    · rw [haddr] at hsame
      have hstands := h₀.stands w hw
      unfold Stands at *
      rwa [haddr, loadLE_store_apart hi' hj hsame, ← haddr]
  tested htest := by
    rw [← h₀.tested htest]
    exact (word_storeLE hi' (by decide)).trans (if_neg fun hc => Nat.ne_of_lt hi hc.2)

/-- No word of frame `g` from entry `j` on is on the log. -/
def Ahead (g j : Nat) (log : List PdtWrite) : Prop :=
  ∀ w ∈ log, ∀ i, j ≤ i → i < 512 → w.addr ≠ g * pgSize + 8 * i

/-- A frame that was free has none. -/
theorem Standing.ahead (h₀ : Standing f log h) (hfree : h.vm.phys.Free g) : Ahead g 0 log := by
  intro w hw i _ hi heq
  obtain ⟨g', j, haddr, hj, htaken⟩ := h₀.owned w hw
  obtain rfl : g' = g := by
    unfold pgSize at *
    omega
  exact htaken hfree

/-- While the PDT in frame `g` is filled, up to entry `j`. -/
structure InPdt (f g j : Nat) (log : List PdtWrite) (h : Host) : Prop where
  standing : Standing f log h
  taken : ¬ h.vm.phys.Free g
  ahead : Ahead g j log

theorem InPdt.congr (h₀ : InPdt f g j log h) (hmem : h'.mem = h.mem)
    (hfree : ∀ g, h'.vm.phys.Free g → h.vm.phys.Free g) : InPdt f g j log h' where
  standing := h₀.standing.congr hmem hfree
  taken hg := h₀.taken (hfree g hg)
  ahead := h₀.ahead

/-- Its next entry. -/
theorem InPdt.storeEntry (h₀ : InPdt f g j log h) (hj : j < 512) :
    InPdt f g (j + 1) (log ++ [⟨g * pgSize + 8 * j, e⟩])
      { h with mem := h.mem.storeLE (g * pgSize + 8 * j) 8 e } where
  standing := {
    first := by
      obtain ⟨w, hw, haddr⟩ := h₀.standing.first
      exact ⟨w, List.mem_append_left _ hw, haddr⟩
    owned := by
      intro w hw
      rcases List.mem_append.mp hw with hlog | hlast
      · exact h₀.standing.owned w hlog
      · obtain rfl := List.mem_singleton.mp hlast
        exact ⟨g, j, rfl, hj, h₀.taken⟩
    stands := by
      intro w hw
      rcases List.mem_append.mp hw with hlog | hlast
      · obtain ⟨g', j', haddr, hj', _⟩ := h₀.standing.owned w hlog
        have hne := h₀.ahead w hlog j le_rfl hj
        rw [haddr] at hne
        have hstands := h₀.standing.stands w hlog
        unfold Stands at *
        rwa [haddr, loadLE_store_apart hj hj' hne, ← haddr]
      · obtain rfl := List.mem_singleton.mp hlast
        exact Or.inl (Or.inl Bytes.loadLE_storeLE_same)
    tested := by
      intro htest
      obtain ⟨w, hw, haddr⟩ := h₀.standing.first
      have hne := h₀.ahead w hw j le_rfl hj
      rw [← h₀.standing.tested htest]
      refine (word_storeLE hj (by decide)).trans (if_neg ?_)
      rintro ⟨rfl, rfl⟩
      exact hne (by rw [haddr, Nat.mul_zero, Nat.add_zero]) }
  taken := h₀.taken
  ahead := by
    intro w hw i hlo hhi
    rcases List.mem_append.mp hw with hlog | hlast
    · exact h₀.ahead w hlog i (by omega) hhi
    · obtain rfl := List.mem_singleton.mp hlast
      dsimp only
      omega

end Words

/-! ## The loops -/

section Loops

variable {P : Host → Prop} {f g i j n : Nat} {log : List PdtWrite} {α β : Type} {Q : β → Host → Prop}

/-- A fact that is kept by steps that leave the memory alone and give no frame back. -/
def Stable (P : Host → Prop) : Prop :=
  ∀ h h' : Host, P h → h'.mem = h.mem → (∀ g, h'.vm.phys.Free g → h.vm.phys.Free g) → P h'

theorem KeepsMemory.stable {x : HostM α} (hx : KeepsMemory x) (hP : Stable P) :
    Triple P x fun _ => P := by
  intro h a h' hh hrun
  obtain ⟨hmem, hfree⟩ := hx h a h' hrun
  exact hP h h' hh hmem hfree

/-- A frame for a table. -/
theorem allocTable_bind {func msg : String} {k : Nat → HostM β}
    (hk : ∀ page, page < 2 ^ 24 → Triple (fun h' => ∃ h, P h ∧ FirstFree h.vm.phys 256 page ∧
      ¬ h'.vm.phys.Free page ∧ h'.mem = h.mem ∧ ∀ g, h'.vm.phys.Free g → h.vm.phys.Free g)
        (k (page <<< pgBits)) Q) :
    Triple P (allocFrame >>= fun frame => require func msg (frame ≠ 0) >>= fun _ => k frame) Q := by
  intro h b h' hh hrun
  obtain ⟨frame, h₁, halloc, hrun₁⟩ := run_bind_eq_ok.mp hrun
  obtain ⟨_, h₂, hreq, hrun₂⟩ := run_bind_eq_ok.mp hrun₁
  obtain ⟨hne, heq⟩ := require_eq_ok hreq
  rw [heq] at hrun₂
  obtain ⟨s, hs, heq⟩ := onPhys_eq_ok halloc
  rcases allocPhysFrame_first hs with hzero | ⟨page, hpage, hfirst, hmark⟩
  · exact absurd (congrArg Prod.fst hzero) hne
  · rw [show frame = page <<< pgBits from hpage] at hrun₂
    refine hk page hfirst.2.1.lt h₁ b h' ⟨h, hh, hfirst, ?_, ?_, ?_⟩ hrun₂
    · rw [show h₁ = _ from heq]
      exact fun hfree => ((hmark.taken_iff page).mp hfree).2 ⟨le_rfl, Nat.lt_succ_self page⟩
    · rw [show h₁ = _ from heq]
    · rw [show h₁ = _ from heq]
      exact fun g hfree => ((hmark.taken_iff g).mp hfree).1

/-- A table that is mapped with a check. -/
theorem Stable.mapTable (hP : Stable P) {page : Nat} (hpage : page < 2 ^ 24) {flags : BitVec 64}
    {func msg : String} {k : Ptr → HostM β} (hk : ∀ p : Ptr, p.base = page * pgSize → Triple P (k p) Q) :
    Triple P (mapPage (page <<< pgBits) flags >>= fun p =>
      require func msg (p.va ≠ 0) >>= fun _ => k p) Q := by
  intro h b h' hh hrun
  obtain ⟨p, h₁, hmap, hrun₁⟩ := run_bind_eq_ok.mp hrun
  obtain ⟨_, h₂, hreq, hrun₂⟩ := run_bind_eq_ok.mp hrun₁
  obtain ⟨_, heq⟩ := require_eq_ok hreq
  rw [heq] at hrun₂
  have hbase := (mapPage_ptr hmap).1
  rw [shiftLeft_pgBits, pageBase_page hpage] at hbase
  exact hk p hbase h₁ b h' ((keepsMemory_mapPage _ _).stable hP h p h₁ hh hmap) hrun₂

/-! ### The first entry -/

/-- The first word of the first PDT, up to entry `k` of the page table for the first 2MB. -/
def FirstWord (f v k : Nat) (h : Host) : Prop :=
  ¬ h.vm.phys.Free f ∧ word h.mem f 0 = if k ≤ 256 ∨ f ≠ testFrame then v else testWord

theorem stable_firstWord (f v k : Nat) : Stable (FirstWord f v k) :=
  fun _ _ hh hmem hfree => ⟨fun hf => hh.1 (hfree f hf), hmem ▸ hh.2⟩

/-- The test program reaches the word if the PDT is in its page. -/
theorem storeTest_firstWord {v : Nat} :
    Triple (FirstWord f v 256) (storeTest (256 * pgSize + 0x100000000)) fun _ => FirstWord f v 257 := by
  rintro h u h' ⟨htaken, hword⟩ hrun
  obtain ⟨hmem, hfree⟩ := storeTest_run hrun
  have hframe : pageBase (256 * pgSize + 0x100000000) pgSize = testFrame * pgSize := by decide
  rw [hframe] at hmem
  refine ⟨fun hf => htaken (hfree f hf), ?_⟩
  rw [if_pos (Or.inl le_rfl)] at hword
  by_cases htest : f = testFrame
  · rw [if_neg (by omega), htest, hmem]
    exact (testProgram_words h.mem testFrame).1
  · rw [if_pos (Or.inr htest), ← hword]
    refine word_congr (by decide) fun x hlo hhi => ?_
    rw [hmem]
    apply testProgram_outside
    unfold pgSize at *
    omega

/-- The loop over the page table. -/
theorem fillPt_firstWord {ptVirt : Ptr} {p v : Nat} (hbase : ptVirt.base = p * pgSize) (hne : f ≠ p) :
    ∀ (num k : Nat), num + k = 512 → Triple (FirstWord f v k) (fillPt ptVirt num k) fun _ =>
      FirstWord f v 512 := by
  intro num
  induction num with
  | zero =>
    intro k hk
    obtain rfl : k = 512 := by omega
    exact Triple.pure fun _ hh => hh
  | succ num ih =>
    intro k hk
    have hstore : Triple (FirstWord f v k) (store ptVirt (8 * k) 8 (eptFirstPage k)) fun _ =>
        FirstWord f v k := by
      rintro h u h' ⟨htaken, hword⟩ hrun
      obtain ⟨_, hrun⟩ := Exec.guard_eq_ok.mp hrun
      cases hrun
      refine ⟨htaken, ?_⟩
      rw [hbase, ← hword]
      exact (word_storeLE (by omega) (by decide)).trans (if_neg fun hc => hne hc.1)
    have hskip : k ≠ 256 → ∀ h, FirstWord f v k h → FirstWord f v (k + 1) h := by
      rintro hk h ⟨htaken, hword⟩
      have hnext : (k ≤ 256 ∨ f ≠ testFrame) ↔ (k + 1 ≤ 256 ∨ f ≠ testFrame) := by omega
      simp only [hnext] at hword
      exact ⟨htaken, hword⟩
    rw [fillPt]
    refine hstore.bind fun _ => ?_
    split
    · next heq =>
      obtain rfl : k = 256 := heq
      exact storeTest_firstWord.bind fun _ => ih 257 (by omega)
    · next hmid =>
      exact (ih (k + 1) (by omega)).mono (hskip hmid) fun _ _ hQ => hQ

/-- The first entry of the first PDT. -/
theorem logFirst_standing {pdtVirt : Ptr} (hbase : pdtVirt.base = f * pgSize) :
    Triple (fun h => ¬ h.vm.phys.Free f) (logFirst pdtVirt 0) fun w => InPdt f f 1 [w] := by
  unfold logFirst
  refine allocTable_bind fun page hpage => ?_
  refine Triple.bind (Q := fun _ h => f ≠ page ∧ FirstWord f (eptTable (page <<< pgBits) % 2 ^ 64) 0 h)
    ?_ fun _ => Triple.intro fun hne => ?_
  · rintro h u h' ⟨h₀, htaken, hfirst, _, _, hfree⟩ hrun
    obtain ⟨_, hrun⟩ := Exec.guard_eq_ok.mp hrun
    cases hrun
    refine ⟨fun heq => htaken (heq ▸ hfirst.2.1), fun hf => htaken (hfree f hf), ?_⟩
    rw [if_pos (Or.inl (Nat.zero_le _)), hbase]
    exact (word_storeLE (by decide) (by decide)).trans (if_pos ⟨rfl, rfl⟩)
  refine (stable_firstWord _ _ _).mapTable hpage fun ptVirt hpt => ?_
  refine (fillPt_firstWord hpt hne pgTableEntries 0 rfl).bind fun _ => ?_
  refine ((keepsMemory_unmapPage ptVirt).stable (stable_firstWord _ _ _)).bind fun _ => ?_
  refine Triple.pure fun h ⟨htaken, hword⟩ => ?_
  have haddr : (pdtWrite pdtVirt 0 (eptTable (page <<< pgBits))).addr = f * pgSize := by
    rw [pdtWrite, hbase, Nat.mul_zero, Nat.add_zero]
  constructor
  · refine ⟨⟨_, List.mem_cons_self, haddr⟩, fun w hw => ?_, fun w hw => ?_, fun htest => ?_⟩
    · obtain rfl := List.mem_singleton.mp hw
      exact ⟨f, 0, by rw [haddr, Nat.mul_zero, Nat.add_zero], by decide, htaken⟩
    · obtain rfl := List.mem_singleton.mp hw
      by_cases htest : f = testFrame
      · exact Or.inr ⟨haddr, htest⟩
      · rw [if_pos (Or.inr htest), word_zero, ← haddr] at hword
        exact Or.inl (Or.inl hword)
    · rw [hword, if_neg (by omega)]
  · exact htaken
  · intro w hw i hlo hhi
    obtain rfl := List.mem_singleton.mp hw
    unfold pdtWrite
    dsimp only
    omega

/-! ### The others -/

/-- Another entry. -/
theorem logPdtEntry_standing (vm : VmStruct) {pdtVirt : Ptr} (hbase : pdtVirt.base = g * pgSize)
    (hj : j < 512) (hfirst : ¬ (i = 0 ∧ j = 0)) (c : Cursors) :
    Triple (InPdt f g j log) (logPdtEntry vm pdtVirt i j c log) fun r => InPdt f g (j + 1) r.2 := by
  have hwrite : ∀ (e : Nat) (c' : Cursors), Triple (InPdt f g j log)
      (store pdtVirt (8 * j) 8 e >>= fun _ => pure (c', log ++ [pdtWrite pdtVirt j e])) fun r =>
        InPdt f g (j + 1) r.2 := by
    intro e c' h r h' hh hrun
    obtain ⟨_, h₁, hstore, hret⟩ := run_bind_eq_ok.mp hrun
    obtain ⟨_, hstore⟩ := Exec.guard_eq_ok.mp hstore
    cases hstore
    cases hret
    rw [pdtWrite, hbase]
    exact hh.storeEntry hj
  unfold logPdtEntry
  dsimp only
  rw [if_neg hfirst]
  exact Triple.ite (fun _ => hwrite _ _) fun _ => Triple.ite (fun _ => hwrite _ _) fun _ => hwrite _ _

/-- The rest of a PDT. -/
theorem logPdt_rest (vm : VmStruct) {bound : Nat} {pdtVirt : Ptr} (hbase : pdtVirt.base = g * pgSize) :
    ∀ (num j : Nat) (c : Cursors) (log : List PdtWrite), num + j = 512 → ¬ (i = 0 ∧ j = 0) →
      Triple (InPdt f g j log) (logPdt vm bound i pdtVirt num j c log) fun r => Standing f r.2 := by
  intro num
  induction num with
  | zero => exact fun j c log _ _ => Triple.pure fun _ hh => hh.standing
  | succ num ih =>
    intro j c log hj hfirst
    rw [logPdt]
    refine (logPdtEntry_standing vm hbase (by omega) hfirst c).bind fun r => Triple.ite (fun _ => ?_) fun _ => ?_
    · exact Triple.pure fun _ hh => hh.standing
    · exact ih (j + 1) _ r.2 (by omega) (by omega)

/-- The first PDT. -/
theorem logPdt_first (vm : VmStruct) {bound : Nat} {pdtVirt : Ptr} (hbase : pdtVirt.base = f * pgSize)
    (c : Cursors) : Triple (fun h => ¬ h.vm.phys.Free f)
      (logPdt vm bound 0 pdtVirt pgTableEntries 0 c []) fun r => Standing f r.2 := by
  have hentry : Triple (fun h => ¬ h.vm.phys.Free f) (logPdtEntry vm pdtVirt 0 0 c []) fun r =>
      InPdt f f 1 r.2 := by
    unfold logPdtEntry
    exact (logFirst_standing hbase).bind fun w => Triple.pure fun _ hh => hh
  change Triple _ (logPdt vm bound 0 pdtVirt (511 + 1) 0 c []) _
  rw [logPdt]
  refine hentry.bind fun r => Triple.ite (fun _ => ?_) fun _ => ?_
  · exact Triple.pure fun _ hh => hh.standing
  · exact logPdt_rest vm hbase 511 1 _ r.2 rfl (by decide)

/-- A PDT behind the first one. -/
theorem logPdtRound_standing (vm : VmStruct) {bound : Nat} {pdptVirt : Ptr} (hpdpt : pgSize ∣ pdptVirt.base)
    (hsize : pdptVirt.size = pgSize) (hi : 0 < i) (c : Cursors) :
    Triple (Standing f log) (logPdtRound vm bound pdptVirt (c, log) i) fun r => Standing f r.2 := by
  obtain ⟨q, hq⟩ := hpdpt
  unfold logPdtRound
  refine allocTable_bind fun page hpage => ?_
  refine Triple.bind (Q := fun _ => InPdt f page 0 log) ?_ fun _ => ?_
  · rintro h u h' ⟨h₀, hstanding, hfirst, htaken, hmem, hfree⟩ hrun
    obtain ⟨hin, hrun⟩ := Exec.guard_eq_ok.mp hrun
    cases hrun
    rw [hsize] at hin
    rw [hq, Nat.mul_comm]
    refine ⟨(hstanding.congr hmem hfree).storeTable hi ?_, htaken, hstanding.ahead hfirst.2.1⟩
    unfold pgSize at hin
    omega
  have hstable : Stable (InPdt f page 0 log) := fun _ _ hh hmem hfree => hh.congr hmem hfree
  refine hstable.mapTable hpage fun pdtVirt hbase => ?_
  refine (logPdt_rest vm hbase pgTableEntries 0 c log rfl (by omega)).bind fun r => ?_
  have hstable' : Stable (Standing f r.2) := fun _ _ hh hmem hfree => hh.congr hmem hfree
  exact ((keepsMemory_unmapPage pdtVirt).stable hstable').bind fun _ => Triple.pure fun _ hh => hh

/-- The round of the first PDT, in the lowest free frame from 1MB on. -/
theorem logPdtRound_first (vm : VmStruct) {bound : Nat} (pdptVirt : Ptr) (s : Physical) (c : Cursors) :
    Triple (fun h => h.vm.phys = s) (logPdtRound vm bound pdptVirt (c, []) 0) fun r h =>
      ∃ f, FirstFree s 256 f ∧ Standing f r.2 h := by
  unfold logPdtRound
  refine allocTable_bind fun page hpage => ?_
  have hstable : Stable fun h => FirstFree s 256 page ∧ ¬ h.vm.phys.Free page :=
    fun _ _ hh _ hfree => ⟨hh.1, fun hf => hh.2 (hfree page hf)⟩
  refine Triple.bind (Q := fun _ h => FirstFree s 256 page ∧ ¬ h.vm.phys.Free page) ?_ fun _ => ?_
  · rintro h u h' ⟨h₀, rfl, hfirst, htaken, _, _⟩ hrun
    obtain ⟨_, hrun⟩ := Exec.guard_eq_ok.mp hrun
    cases hrun
    exact ⟨hfirst, htaken⟩
  refine hstable.mapTable hpage fun pdtVirt hbase => Triple.intro fun hfirst => ?_
  refine (logPdt_first vm hbase c).bind fun r => ?_
  have hstable' : Stable (Standing page r.2) := fun _ _ hh hmem hfree => hh.congr hmem hfree
  refine ((keepsMemory_unmapPage pdtVirt).stable hstable').bind fun _ => ?_
  exact Triple.pure fun _ hh => ⟨page, hfirst, hh⟩

/-- **The loop over the PDPT.** -/
theorem logPdts_standing (vm : VmStruct) {bound : Nat} {pdptVirt : Ptr} (hpdpt : pgSize ∣ pdptVirt.base)
    (hsize : pdptVirt.size = pgSize) (s : Physical) (c : Cursors) :
    Triple (fun h => h.vm.phys = s) ((List.range n).foldlM (logPdtRound vm bound pdptVirt) (c, []))
      fun r h => if n = 0 then r.2 = [] else ∃ f, FirstFree s 256 f ∧ Standing f r.2 h := by
  have hloop := Triple.foldlM_range (P := fun i (r : Cursors × List PdtWrite) (h : Host) =>
      if i = 0 then r.2 = [] ∧ h.vm.phys = s else ∃ f, FirstFree s 256 f ∧ Standing f r.2 h)
    (f := logPdtRound vm bound pdptVirt) (k := n)
    (fun i _ r => by
      simp only [if_neg (Nat.succ_ne_zero i)]
      split
      · next hzero =>
        obtain ⟨c', log⟩ := r
        refine Triple.intro fun hlog => ?_
        dsimp only at hlog
        rw [hlog, hzero]
        exact logPdtRound_first vm pdptVirt s c'
      · next hpos =>
        refine Triple.exists_intro fun f => Triple.intro fun hfirst => ?_
        exact (logPdtRound_standing vm hpdpt hsize (Nat.pos_of_ne_zero hpos) r.1).mono
          (fun _ hh => hh) fun _ _ hh => ⟨f, hfirst, hh⟩) (c, [])
  refine hloop.mono (fun h hs => ?_) fun r h hh => ?_
  · rw [if_pos rfl]
    exact ⟨rfl, hs⟩
  · split at hh
    · next hzero =>
      rw [if_pos hzero]
      exact hh.1
    · next hpos =>
      rw [if_neg hpos]
      exact hh

end Loops

end Rtv.Virt
