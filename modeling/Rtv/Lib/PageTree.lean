import Mathlib.Data.Nat.Basic
import Mathlib.Logic.Function.Basic

/-!
# Trees of tables

A tree of tables in a memory: the word at an index of a table is nothing, a page or, at every level
but the last, another table. A walk with the indices `v` reads one word at each level. Which word
is what depends on the level and is a parameter, `decode`.

The memory may hold anything outside the tables, and a tree may point back into itself; the walks
that do are kept apart by their first index. For the other walks, `OwnTables` says that every
table is reached in one way only. Then writing the word that a walk ends at changes this walk and
the ones through the word, and no other:

- `tableAt_set` and `translates_set`: what one write does to the tables and to the pages.
- `translates_page` and `OwnTables.page`: a page written to a word is found there, and the tables
  stay owned.
- `Installs.translates` and `Installs.own`: a new table with nothing in it changes no page, and the
  tables stay owned.
-/

namespace Rtv.Lib

/-- What a word of a table says. -/
inductive PageEntry where
  | absent
  | page
  | table (t : Nat)
deriving DecidableEq, Repr

/-- The table a word points to. -/
def PageEntry.next : PageEntry → Option Nat
  | .table t => some t
  | .absent | .page => none

/-- Tables by number, words by index. -/
abbrev Tables (I W : Type*) := Nat → I → W

/-- Write one word. -/
def Tables.set {I W : Type*} [DecidableEq I] (mem : Tables I W) (t : Nat) (i : I) (e : W) :
    Tables I W :=
  Function.update mem t (Function.update (mem t) i e)

namespace PageTree

variable {I W : Type*}

section Set

variable [DecidableEq I]

@[simp] theorem set_self (mem : Tables I W) (t : Nat) (i : I) (e : W) : mem.set t i e t i = e := by
  rw [Tables.set, Function.update_self, Function.update_self]

theorem set_of_ne (mem : Tables I W) {t t' : Nat} {i i' : I} (e : W) (h : t' ≠ t ∨ i' ≠ i) :
    mem.set t i e t' i' = mem t' i' := by
  by_cases ht : t' = t
  · rw [Tables.set, ht, Function.update_self]
    exact Function.update_of_ne (h.resolve_left (not_not.mpr ht)) _ _
  · rw [Tables.set, Function.update_of_ne ht]

end Set

section Walks

variable (decode : Nat → W → PageEntry) (mem : Tables I W) (root : Nat) (v : Nat → I)

/-- The table that a walk reads at a level. -/
def tableAt : Nat → Option Nat
  | 0 => some root
  | level + 1 => (tableAt level).bind fun t => (decode level (mem t (v level))).next

/-- A walk ends at a page, with the word `e` at a level. -/
def Translates (level : Nat) (e : W) : Prop :=
  ∃ t, tableAt decode mem root v level = some t ∧ mem t (v level) = e ∧ decode level e = .page

end Walks

variable {decode : Nat → W → PageEntry} {mem : Tables I W} {root : Nat} {v w : Nat → I}
  {level k t t' : Nat} {e e' : W}

theorem tableAt_succ : tableAt decode mem root v (level + 1) = some t' ↔
    ∃ t, tableAt decode mem root v level = some t ∧ decode level (mem t (v level)) = .table t' := by
  rw [tableAt, Option.bind_eq_some_iff]
  apply exists_congr
  intro t
  apply and_congr_right
  intro _
  cases decode level (mem t (v level)) <;> simp [PageEntry.next]

/-- A walk has read a table at every level above. -/
theorem exists_tableAt (h : tableAt decode mem root v level = some t) (hk : k ≤ level) :
    ∃ t, tableAt decode mem root v k = some t := by
  induction level generalizing t with
  | zero =>
    rw [Nat.le_zero.mp hk]
    exact ⟨t, h⟩
  | succ level ih =>
    rcases Nat.le_succ_iff.mp hk with hle | rfl
    · obtain ⟨t₀, ht₀, -⟩ := tableAt_succ.mp h
      exact ih ht₀ hle
    · exact ⟨t, h⟩

/-- A table is found with the indices above it. -/
theorem tableAt_congr (h : ∀ j < level, v j = w j) :
    tableAt decode mem root v level = tableAt decode mem root w level := by
  induction level with
  | zero => rfl
  | succ level ih =>
    have hprefix := ih fun j hj => h j (Nat.lt_succ_of_lt hj)
    rw [tableAt, tableAt, hprefix, h level (Nat.lt_succ_self level)]

/-- A walk ends at one page. -/
theorem Translates.unique (h : Translates decode mem root v level e)
    (h' : Translates decode mem root v k e') : level = k ∧ e = e' := by
  -- nothing is read below a page
  have hlt : ∀ {j l : Nat} {f f' : W}, Translates decode mem root v j f →
      Translates decode mem root v l f' → ¬ j < l := by
    rintro j l f f' ⟨t, ht, rfl, hpage⟩ ⟨t', ht', -, -⟩ hjl
    obtain ⟨u, hu⟩ := exists_tableAt ht' hjl
    obtain ⟨t₀, ht₀, htable⟩ := tableAt_succ.mp hu
    rw [ht] at ht₀
    cases ht₀
    rw [hpage] at htable
    cases htable
  obtain rfl : level = k := le_antisymm (not_lt.mp (hlt h' h)) (not_lt.mp (hlt h h'))
  obtain ⟨t, ht, rfl, -⟩ := h
  obtain ⟨t', ht', rfl, -⟩ := h'
  rw [ht] at ht'
  cases ht'
  exact ⟨rfl, rfl⟩

/-- Where a walk meets nothing it does not end at a page. -/
theorem not_translates_of_absent (ht : tableAt decode mem root v level = some t)
    (habs : decode level (mem t (v level)) = .absent) : ¬ Translates decode mem root v k e := by
  rintro ⟨t', ht', rfl, hpage⟩
  rcases lt_trichotomy k level with hlt | rfl | hgt
  · obtain ⟨u, hu⟩ := exists_tableAt ht hlt
    obtain ⟨t₀, ht₀, htable⟩ := tableAt_succ.mp hu
    rw [ht'] at ht₀
    cases ht₀
    rw [htable] at hpage
    cases hpage
  · rw [ht] at ht'
    cases ht'
    rw [habs] at hpage
    cases hpage
  · obtain ⟨u, hu⟩ := exists_tableAt ht' hgt
    obtain ⟨t₀, ht₀, htable⟩ := tableAt_succ.mp hu
    rw [ht] at ht₀
    cases ht₀
    rw [habs] at htable
    cases htable

/-- Every table of the walks that do not begin with the index `loop` is reached in one way. -/
def OwnTables (decode : Nat → W → PageEntry) (mem : Tables I W) (root : Nat) (loop : I) : Prop :=
  ∀ (v w : Nat → I) k l t, v 0 ≠ loop → w 0 ≠ loop → tableAt decode mem root v k = some t →
    tableAt decode mem root w l = some t → k = l ∧ ∀ j < k, v j = w j

/-! ## Walks in two memories -/

/-- A walk finds the same tables and reads the same words in two memories. -/
structure SameWalk (decode : Nat → W → PageEntry) (mem : Tables I W) (root : Nat)
    (mem' : Tables I W) (root' : Nat) (v : Nat → I) : Prop where
  table : ∀ k, tableAt decode mem' root' v k = tableAt decode mem root v k
  word : ∀ k t, tableAt decode mem root v k = some t → mem' t (v k) = mem t (v k)

section SameWalk

variable {mem' mem'' : Tables I W} {root' root'' : Nat}

theorem SameWalk.refl : SameWalk decode mem root mem root v := ⟨fun _ => rfl, fun _ _ _ => rfl⟩

theorem SameWalk.trans (h : SameWalk decode mem root mem' root' v)
    (h' : SameWalk decode mem' root' mem'' root'' v) :
    SameWalk decode mem root mem'' root'' v where
  table k := (h'.table k).trans (h.table k)
  word k t ht := (h'.word k t ((h.table k).trans ht)).trans (h.word k t ht)

/-- So it ends in the same way. -/
theorem SameWalk.translates (h : SameWalk decode mem root mem' root' v) :
    Translates decode mem' root' v k e ↔ Translates decode mem root v k e := by
  unfold Translates
  rw [h.table k]
  apply exists_congr
  intro t
  apply and_congr_right
  intro ht
  rw [h.word k t ht]

end SameWalk

/-! ## Writing a word -/

section Writing

variable {loop : I} {f : Nat}

/-- The word that the walk `v` reads at `level` is read by another walk only at the same level and
after the same indices. -/
theorem OwnTables.word (h : OwnTables decode mem root loop) (hv : v 0 ≠ loop) (hw : w 0 ≠ loop)
    (ht : tableAt decode mem root v level = some t)
    (hw' : tableAt decode mem root w k = some t') (hout : ¬ (k = level ∧ ∀ j ≤ level, w j = v j)) :
    t' ≠ t ∨ w k ≠ v level := by
  by_contra hsame
  rw [not_or, not_not, not_not] at hsame
  obtain ⟨rfl, hindex⟩ := hsame
  obtain ⟨rfl, hprefix⟩ := h w v k level t' hw hv hw' ht
  refine hout ⟨rfl, ?_⟩
  intro j hj
  rcases Nat.lt_or_eq_of_le hj with hlt | rfl
  · exact hprefix j hlt
  · exact hindex

section Words

variable [DecidableEq I]

/-- A write leaves the tables that are not reached through its word. -/
theorem tableAt_set (h : OwnTables decode mem root loop) (hv : v 0 ≠ loop) (hw : w 0 ≠ loop)
    (ht : tableAt decode mem root v level = some t)
    (hout : ¬ (level < k ∧ ∀ j ≤ level, w j = v j)) :
    tableAt decode (mem.set t (v level) e) root w k = tableAt decode mem root w k := by
  induction k with
  | zero => rfl
  | succ k ih =>
    have hprefix := ih fun hc => hout ⟨Nat.lt_succ_of_lt hc.1, hc.2⟩
    rw [tableAt, tableAt, hprefix]
    cases hk : tableAt decode mem root w k with
    | none => rfl
    | some t' =>
      have hword := h.word hv hw ht hk fun hc => hout ⟨hc.1 ▸ Nat.lt_succ_self k, hc.2⟩
      rw [Option.bind_some, Option.bind_some, set_of_ne mem e hword]

/-- A write leaves the pages that are not reached through its word. -/
theorem translates_set (h : OwnTables decode mem root loop) (hv : v 0 ≠ loop) (hw : w 0 ≠ loop)
    (ht : tableAt decode mem root v level = some t) (hout : ¬ ∀ j ≤ level, w j = v j) :
    Translates decode (mem.set t (v level) e) root w k e' ↔
      Translates decode mem root w k e' := by
  rw [Translates, Translates, tableAt_set h hv hw ht fun hc => hout hc.2]
  apply exists_congr
  intro t'
  apply and_congr_right
  intro hk
  rw [set_of_ne mem e (h.word hv hw ht hk fun hc => hout hc.2)]

/-- A write leaves the walks that do not read its word. -/
theorem sameWalk_set (h : OwnTables decode mem root loop) (hv : v 0 ≠ loop) (hw : w 0 ≠ loop)
    (ht : tableAt decode mem root v level = some t) (hout : ¬ ∀ j ≤ level, w j = v j) :
    SameWalk decode mem root (mem.set t (v level) e) root w where
  table _ := tableAt_set h hv hw ht fun hc => hout hc.2
  word _ _ hk := set_of_ne mem e (h.word hv hw ht hk fun hc => hout hc.2)

/-- The walks through the word find its table. -/
theorem tableAt_set_through (h : OwnTables decode mem root loop) (hv : v 0 ≠ loop)
    (hw : w 0 ≠ loop) (ht : tableAt decode mem root v level = some t)
    (hthrough : ∀ j ≤ level, w j = v j) :
    tableAt decode (mem.set t (v level) e) root w level = some t := by
  rw [tableAt_set h hv hw ht fun hc => lt_irrefl level hc.1, ← ht]
  exact tableAt_congr fun j hj => hthrough j (Nat.le_of_lt hj)

/-- Writing a word that is no table, where there was none, leaves all tables. -/
theorem tableAt_set_leaf (h : OwnTables decode mem root loop) (hv : v 0 ≠ loop) (hw : w 0 ≠ loop)
    (ht : tableAt decode mem root v level = some t)
    (hold : (decode level (mem t (v level))).next = none) (hnew : (decode level e).next = none) :
    tableAt decode (mem.set t (v level) e) root w k = tableAt decode mem root w k := by
  induction k with
  | zero => rfl
  | succ k ih =>
    rw [tableAt, tableAt, ih]
    cases hk : tableAt decode mem root w k with
    | none => rfl
    | some t' =>
      rw [Option.bind_some, Option.bind_some]
      by_cases hsame : k = level ∧ ∀ j ≤ level, w j = v j
      · obtain ⟨rfl, hindex⟩ := hsame
        obtain rfl : t' = t := by
          rw [tableAt_congr fun j hj => hindex j (Nat.le_of_lt hj), ht] at hk
          exact (Option.some.inj hk).symm
        rw [hindex k le_rfl, set_self, hnew, hold]
      · rw [set_of_ne mem e (h.word hv hw ht hk hsame)]

/-- So the tables stay owned. -/
theorem OwnTables.set_leaf (h : OwnTables decode mem root loop) (hv : v 0 ≠ loop)
    (ht : tableAt decode mem root v level = some t)
    (hold : (decode level (mem t (v level))).next = none) (hnew : (decode level e).next = none) :
    OwnTables decode (mem.set t (v level) e) root loop := by
  intro w w' k l t' hw hw' hk hl
  rw [tableAt_set_leaf h hv hw ht hold hnew] at hk
  rw [tableAt_set_leaf h hv hw' ht hold hnew] at hl
  exact h w w' k l t' hw hw' hk hl

omit [DecidableEq I] in
/-- Below a word that is not a table there is none. -/
theorem tableAt_below (ht : tableAt decode mem root v level = some t)
    (hnone : (decode level (mem t (v level))).next = none) (hk : level < k) :
    tableAt decode mem root v k = none := by
  cases hsome : tableAt decode mem root v k with
  | none => rfl
  | some t' =>
    obtain ⟨u, hu⟩ := exists_tableAt hsome hk
    rw [tableAt, ht, Option.bind_some, hnone] at hu
    cases hu

/-- Writing a word that is no table makes no table. -/
theorem tableAt_of_clear (h : OwnTables decode mem root loop) (hv : v 0 ≠ loop) (hw : w 0 ≠ loop)
    (ht : tableAt decode mem root v level = some t) (hnew : (decode level e).next = none)
    (hk : tableAt decode (mem.set t (v level) e) root w k = some t') :
    tableAt decode mem root w k = some t' := by
  by_cases hc : level < k ∧ ∀ j ≤ level, w j = v j
  · have hthrough := tableAt_set_through (e := e) h hv hw ht hc.2
    rw [tableAt_below hthrough (by rw [hc.2 level le_rfl, set_self, hnew]) hc.1] at hk
    cases hk
  · rwa [tableAt_set h hv hw ht hc] at hk

/-- So the tables stay owned. -/
theorem OwnTables.clear (h : OwnTables decode mem root loop) (hv : v 0 ≠ loop)
    (ht : tableAt decode mem root v level = some t) (hnew : (decode level e).next = none) :
    OwnTables decode (mem.set t (v level) e) root loop := by
  intro w w' k l t' hw hw' hk hl
  exact h w w' k l t' hw hw' (tableAt_of_clear h hv hw ht hnew hk)
    (tableAt_of_clear h hv hw' ht hnew hl)

/-- The walks through a word that is nothing end at no page. -/
theorem not_translates_cleared (h : OwnTables decode mem root loop) (hv : v 0 ≠ loop)
    (hw : w 0 ≠ loop) (ht : tableAt decode mem root v level = some t)
    (hthrough : ∀ j ≤ level, w j = v j) (he : decode level e = .absent) :
    ¬ Translates decode (mem.set t (v level) e) root w k e' := by
  refine not_translates_of_absent (tableAt_set_through h hv hw ht hthrough) ?_
  rw [hthrough level le_rfl, set_self, he]

/-- What a write of a page at a word that was none does: the walks through the word end there. -/
theorem translates_page (h : OwnTables decode mem root loop) (hv : v 0 ≠ loop) (hw : w 0 ≠ loop)
    (ht : tableAt decode mem root v level = some t) (hthrough : ∀ j ≤ level, w j = v j)
    (he : decode level e = .page) :
    Translates decode (mem.set t (v level) e) root w level e := by
  refine ⟨t, tableAt_set_through h hv hw ht hthrough, ?_, he⟩
  rw [hthrough level le_rfl, set_self]

end Words

/-- A word that points to a new table. -/
structure Installs (decode : Nat → W → PageEntry) (mem : Tables I W) (root : Nat) (loop : I)
    (v : Nat → I) (level t f : Nat) (e : W) : Prop where
  table : tableAt decode mem root v level = some t
  absent : decode level (mem t (v level)) = .absent
  entry : decode level e = .table f
  fresh : ∀ w k, w 0 ≠ loop → tableAt decode mem root w k ≠ some f

section Installing

variable (h : OwnTables decode mem root loop) (hv : v 0 ≠ loop)
  (hi : Installs decode mem root loop v level t f e)

include hv hi

theorem Installs.ne : f ≠ t := by
  rintro rfl
  exact hi.fresh v level hv hi.table

variable [DecidableEq I]

include h

/-- The new table is found through the word. -/
theorem Installs.tableAt_new (hw : w 0 ≠ loop) (hthrough : ∀ j ≤ level, w j = v j) :
    tableAt decode (mem.set t (v level) e) root w (level + 1) = some f := by
  rw [tableAt_succ]
  refine ⟨t, tableAt_set_through h hv hw hi.table hthrough, ?_⟩
  rw [hthrough level le_rfl, set_self, hi.entry]

/-- With no table in the new one, its tables are the old ones and itself. -/
theorem Installs.tableAt_cases (hnew : ∀ i, (decode (level + 1) (mem f i)).next = none)
    (hw : w 0 ≠ loop) (hk : tableAt decode (mem.set t (v level) e) root w k = some t') :
    t' ≠ f ∧ tableAt decode mem root w k = some t' ∨
      t' = f ∧ k = level + 1 ∧ ∀ j ≤ level, w j = v j := by
  by_cases hc : level < k ∧ ∀ j ≤ level, w j = v j
  · have hthrough := hi.tableAt_new h hv hw hc.2
    rcases Nat.lt_or_eq_of_le (Nat.succ_le_of_lt hc.1) with hlt | rfl
    · have hbelow := tableAt_below hthrough
        (by rw [set_of_ne mem e (Or.inl (hi.ne hv))]; exact hnew _) hlt
      rw [hbelow] at hk
      cases hk
    · rw [hthrough] at hk
      cases hk
      exact Or.inr ⟨rfl, rfl, hc.2⟩
  · rw [tableAt_set h hv hw hi.table hc] at hk
    refine Or.inl ⟨?_, hk⟩
    rintro rfl
    exact hi.fresh w k hw hk

/-- A new table keeps the tables owned. -/
theorem Installs.own (hnew : ∀ i, (decode (level + 1) (mem f i)).next = none) :
    OwnTables decode (mem.set t (v level) e) root loop := by
  intro w w' k l t' hw hw' hk hl
  rcases hi.tableAt_cases h hv hnew hw hk with ⟨hne, hk⟩ | ⟨rfl, rfl, hkv⟩
  · rcases hi.tableAt_cases h hv hnew hw' hl with ⟨-, hl⟩ | ⟨rfl, -, -⟩
    · exact h w w' k l t' hw hw' hk hl
    · exact absurd rfl hne
  · rcases hi.tableAt_cases h hv hnew hw' hl with ⟨hne, -⟩ | ⟨-, rfl, hlv⟩
    · exact absurd rfl hne
    · refine ⟨rfl, ?_⟩
      intro j hj
      rw [hkv j (Nat.le_of_lt_succ hj), hlv j (Nat.le_of_lt_succ hj)]

/-- A new table with nothing in it changes no page. -/
theorem Installs.translates (hnew : ∀ i, decode (level + 1) (mem f i) = .absent)
    (hw : w 0 ≠ loop) :
    Translates decode (mem.set t (v level) e) root w k e' ↔
      Translates decode mem root w k e' := by
  by_cases hthrough : ∀ j ≤ level, w j = v j
  · have htw : tableAt decode mem root w level = some t :=
      (tableAt_congr fun j hj => hthrough j (Nat.le_of_lt hj)).trans hi.table
    have hset := tableAt_set_through (e := e) h hv hw hi.table hthrough
    rcases lt_trichotomy k level with hlt | rfl | hgt
    · -- above the word nothing has changed
      rw [Translates, Translates, tableAt_set h hv hw hi.table fun hc => lt_asymm hlt hc.1]
      apply exists_congr
      intro t'
      apply and_congr_right
      intro hk
      rw [set_of_ne mem e (h.word hv hw hi.table hk fun hc => Nat.ne_of_lt hlt hc.1)]
    · -- the word itself is no page before and none after
      constructor
      · rintro ⟨t', ht', rfl, hpage⟩
        rw [hset] at ht'
        cases ht'
        rw [hthrough k le_rfl, set_self, hi.entry] at hpage
        cases hpage
      · rintro ⟨t', ht', rfl, hpage⟩
        rw [htw] at ht'
        cases ht'
        rw [hthrough k le_rfl, hi.absent] at hpage
        cases hpage
    · constructor
      · rintro ⟨t', ht', rfl, hpage⟩
        rcases hi.tableAt_cases h hv (fun i => by rw [hnew i]; rfl) hw ht' with
          ⟨-, hold⟩ | ⟨rfl, rfl, -⟩
        · rw [tableAt_below htw (by rw [hthrough level le_rfl, hi.absent]; rfl) hgt] at hold
          cases hold
        · rw [set_of_ne mem e (Or.inl (hi.ne hv)), hnew] at hpage
          cases hpage
      · rintro ⟨t', ht', -, -⟩
        rw [tableAt_below htw (by rw [hthrough level le_rfl, hi.absent]; rfl) hgt] at ht'
        cases ht'
  · exact translates_set h hv hw hi.table hthrough

end Installing

end Writing

end PageTree

end Rtv.Lib
