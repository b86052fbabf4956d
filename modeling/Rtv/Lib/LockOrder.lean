import Mathlib.Data.List.Nodup
import Mathlib.Logic.Function.Basic

/-!
# Locks taken in order

Code that takes and gives back locks is reduced to what it does with them, `LockCode`: branches and
loops go either way. A client runs one path through its code, and the paths of different clients are
interleaved in any way; a client at a lock that is held waits. Code may also halt, and what it holds
then is never given back.

`LockCode.check` computes what is held after the code, and fails if a lock is taken that does not rank
above all that are held, is given back but not held, or if the code halts holding something it must
not. `check_sound`: what it finds holds on every path.

**The law** (`LockSystem.Inv.progress`): if the code of every client checks, then at any point some client
can take a step, unless each of them is at its end or has halted, or one that has halted holds a lock.
-/

namespace Rtv.Lib

/-- What code does with locks. -/
inductive LockCode (L : Type*) where
  | skip
  | acquire (l : L)
  | release (l : L)
  | halt
  | seq (a b : LockCode L)
  | choice (a b : LockCode L)
  | loop (a : LockCode L)

/-- One operation on a lock, or the end. -/
inductive LockEvent (L : Type*) where
  | acquire (l : L)
  | release (l : L)
  | halt
deriving DecidableEq, Repr

namespace LockCode

variable {L : Type*}

/-- The paths through the code, and whether they come out of it. -/
inductive Path : LockCode L → List (LockEvent L) → Bool → Prop
  | skip : Path .skip [] true
  | acquire {l : L} : Path (.acquire l) [.acquire l] true
  | release {l : L} : Path (.release l) [.release l] true
  | halt : Path .halt [.halt] false
  | seq {a b : LockCode L} {es fs : List (LockEvent L)} {out : Bool} :
      Path a es true → Path b fs out → Path (.seq a b) (es ++ fs) out
  | seqHalt {a b : LockCode L} {es : List (LockEvent L)} : Path a es false → Path (.seq a b) es false
  | left {a b : LockCode L} {es : List (LockEvent L)} {out : Bool} :
      Path a es out → Path (.choice a b) es out
  | right {a b : LockCode L} {es : List (LockEvent L)} {out : Bool} :
      Path b es out → Path (.choice a b) es out
  | done {a : LockCode L} : Path (.loop a) [] true
  | round {a : LockCode L} {es fs : List (LockEvent L)} {out : Bool} :
      Path a es true → Path (.loop a) fs out → Path (.loop a) (es ++ fs) out
  | roundHalt {a : LockCode L} {es : List (LockEvent L)} : Path a es false → Path (.loop a) es false

/-- What is held after some code, if it can come to its end. -/
inductive After (L : Type*) where
  | never
  | held (h : List L)
deriving DecidableEq, Repr

/-- What is held where two branches meet. -/
def After.join [DecidableEq L] : After L → After L → Option (After L)
  | .never, x => some x
  | x, .never => some x
  | .held h, .held h' => if h = h' then some (.held h) else none

variable [DecidableEq L] (rank : L → Nat) (mayHalt : List L → Bool)

/-- The code can be run holding `h`, and this is held afterwards. -/
def check : LockCode L → List L → Option (After L)
  | .skip, h => some (.held h)
  | .acquire l, h => if ∀ l' ∈ h, rank l' < rank l then some (.held (l :: h)) else none
  | .release l, h => if l ∈ h then some (.held (h.erase l)) else none
  | .halt, h => if mayHalt h then some .never else none
  | .seq a b, h =>
    match check a h with
    | none => none
    | some .never => some .never
    | some (.held h') => check b h'
  | .choice a b, h =>
    match check a h, check b h with
    | some x, some y => x.join y
    | _, _ => none
  | .loop a, h =>
    match check a h with
    | none => none
    | some .never => some (.held h)
    | some (.held h') => if h' = h then some (.held h) else none

/-- The code can be run holding nothing, and where it comes to its end nothing is held. -/
def Balanced (code : LockCode L) : Prop :=
  check rank mayHalt code [] = some .never ∨ check rank mayHalt code [] = some (.held [])

/-- The same for the operations of one path. -/
def track : List (LockEvent L) → List L → Option (List L)
  | [], h => some h
  | .acquire l :: es, h => if ∀ l' ∈ h, rank l' < rank l then track es (l :: h) else none
  | .release l :: es, h => if l ∈ h then track es (h.erase l) else none
  | .halt :: es, h => if mayHalt h then track es h else none

variable {rank mayHalt}

theorem track_append {es fs : List (LockEvent L)} {h : List L} :
    track rank mayHalt (es ++ fs) h = (track rank mayHalt es h).bind (track rank mayHalt fs) := by
  induction es generalizing h with
  | nil => rfl
  | cons e es ih =>
    cases e with
    | acquire l =>
      rw [List.cons_append, track, track]
      split
      · exact ih
      · rfl
    | release l =>
      rw [List.cons_append, track, track]
      split
      · exact ih
      · rfl
    | halt =>
      rw [List.cons_append, track, track]
      split
      · exact ih
      · rfl

/-- A path follows what was computed: it can be run, what it holds at its end is what was computed, and
a path that does not come out of the code has halted. -/
structure Follows (rank : L → Nat) (mayHalt : List L → Bool) (es : List (LockEvent L)) (out : Bool)
    (h : List L) (after : After L) : Prop where
  ends : out = true → ∃ h', track rank mayHalt es h = some h' ∧ after = .held h'
  halts : out = false → .halt ∈ es ∧ ∃ h', track rank mayHalt es h = some h'

namespace Follows

variable {es fs : List (LockEvent L)} {out : Bool} {h h' : List L} {x y z : After L}

theorem joinLeft (hf : Follows rank mayHalt es out h x) (hjoin : x.join y = some z) :
    Follows rank mayHalt es out h z := by
  refine ⟨fun hout => ?_, hf.halts⟩
  obtain ⟨h', htrack, rfl⟩ := hf.ends hout
  cases y with
  | never =>
    cases hjoin
    exact ⟨h', htrack, rfl⟩
  | held h'' =>
    rw [After.join, Option.ite_none_right_eq_some] at hjoin
    exact ⟨h', htrack, (Option.some.inj hjoin.2).symm⟩

theorem joinRight (hf : Follows rank mayHalt es out h y) (hjoin : x.join y = some z) :
    Follows rank mayHalt es out h z := by
  refine ⟨fun hout => ?_, hf.halts⟩
  obtain ⟨h', htrack, rfl⟩ := hf.ends hout
  cases x with
  | never =>
    cases hjoin
    exact ⟨h', htrack, rfl⟩
  | held h'' =>
    rw [After.join, Option.ite_none_right_eq_some] at hjoin
    obtain ⟨rfl, hz⟩ := hjoin
    exact ⟨h'', htrack, (Option.some.inj hz).symm⟩

/-- One path after another. -/
theorem append (hfirst : track rank mayHalt es h = some h') (hf : Follows rank mayHalt fs out h' x) :
    Follows rank mayHalt (es ++ fs) out h x := by
  have hboth : track rank mayHalt (es ++ fs) h = track rank mayHalt fs h' := by
    rw [track_append, hfirst]
    rfl
  constructor
  · rw [hboth]
    exact hf.ends
  · intro hout
    rw [hboth]
    exact ⟨List.mem_append_right es (hf.halts hout).1, (hf.halts hout).2⟩

/-- What comes after a path that halts does not matter. -/
theorem of_halt (hf : Follows rank mayHalt es false h x) (y : After L) :
    Follows rank mayHalt es false h y := ⟨nofun, hf.halts⟩

end Follows

/-! ### What the check says of a part -/

section Parts

variable {a b : LockCode L} {h : List L} {z : After L}

theorem check_seq (hcheck : check rank mayHalt (.seq a b) h = some z) :
    ∃ x, check rank mayHalt a h = some x ∧ ∀ h', x = .held h' → check rank mayHalt b h' = some z := by
  rw [check] at hcheck
  cases ha : check rank mayHalt a h with
  | none =>
    rw [ha] at hcheck
    cases hcheck
  | some x =>
    refine ⟨x, rfl, ?_⟩
    rintro h' rfl
    rwa [ha] at hcheck

theorem check_choice (hcheck : check rank mayHalt (.choice a b) h = some z) :
    ∃ x y, check rank mayHalt a h = some x ∧ check rank mayHalt b h = some y ∧ x.join y = some z := by
  rw [check] at hcheck
  split at hcheck
  · exact ⟨_, _, ‹_›, ‹_›, hcheck⟩
  · cases hcheck

theorem check_loop (hcheck : check rank mayHalt (.loop a) h = some z) :
    z = .held h ∧ ∃ x, check rank mayHalt a h = some x ∧ ∀ h', x = .held h' → h' = h := by
  rw [check] at hcheck
  split at hcheck
  · cases hcheck
  · exact ⟨(Option.some.inj hcheck).symm, .never, ‹_›, nofun⟩
  · rw [Option.ite_none_right_eq_some] at hcheck
    obtain ⟨rfl, hz⟩ := hcheck
    refine ⟨(Option.some.inj hz).symm, _, ‹_›, ?_⟩
    rintro h' ⟨⟩
    rfl

theorem Balanced.skip : Balanced rank mayHalt (.skip : LockCode L) := .inr rfl

theorem Balanced.seq (ha : Balanced rank mayHalt a) (hb : Balanced rank mayHalt b) :
    Balanced rank mayHalt (.seq a b) := by
  rcases ha with ha | ha
  · exact .inl (by rw [check, ha])
  · rwa [Balanced, check, ha]

theorem Balanced.choice (ha : Balanced rank mayHalt a) (hb : Balanced rank mayHalt b) :
    Balanced rank mayHalt (.choice a b) := by
  rcases ha with ha | ha <;> rcases hb with hb | hb <;> rw [Balanced, check, ha, hb] <;> simp [After.join]

end Parts

/-- **What the check computes holds on every path.** -/
theorem check_sound {code : LockCode L} {es : List (LockEvent L)} {out : Bool}
    (hpath : Path code es out) : ∀ {h : List L} {after : After L},
      check rank mayHalt code h = some after → Follows rank mayHalt es out h after := by
  induction hpath with
  | skip =>
    intro h after hcheck
    cases hcheck
    exact ⟨fun _ => ⟨h, rfl, rfl⟩, nofun⟩
  | @acquire l =>
    intro h after hcheck
    rw [check, Option.ite_none_right_eq_some] at hcheck
    refine ⟨fun _ => ⟨l :: h, ?_, (Option.some.inj hcheck.2).symm⟩, nofun⟩
    rw [track, if_pos hcheck.1, track]
  | @release l =>
    intro h after hcheck
    rw [check, Option.ite_none_right_eq_some] at hcheck
    refine ⟨fun _ => ⟨h.erase l, ?_, (Option.some.inj hcheck.2).symm⟩, nofun⟩
    rw [track, if_pos hcheck.1, track]
  | halt =>
    intro h after hcheck
    rw [check, Option.ite_none_right_eq_some] at hcheck
    refine ⟨nofun, fun _ => ⟨List.mem_singleton_self _, h, ?_⟩⟩
    rw [track, if_pos hcheck.1, track]
  | seq _ _ iha ihb =>
    intro h after hcheck
    obtain ⟨x, ha, hb⟩ := check_seq hcheck
    obtain ⟨h', htrack, hx⟩ := (iha ha).ends rfl
    exact .append htrack (ihb (hb h' hx))
  | seqHalt _ ih =>
    intro h after hcheck
    obtain ⟨x, ha, -⟩ := check_seq hcheck
    exact (ih ha).of_halt after
  | left _ ih =>
    intro h after hcheck
    obtain ⟨x, y, ha, -, hjoin⟩ := check_choice hcheck
    exact (ih ha).joinLeft hjoin
  | right _ ih =>
    intro h after hcheck
    obtain ⟨x, y, -, hb, hjoin⟩ := check_choice hcheck
    exact (ih hb).joinRight hjoin
  | done =>
    intro h after hcheck
    exact ⟨fun _ => ⟨h, rfl, (check_loop hcheck).1⟩, nofun⟩
  | round _ _ iha ihloop =>
    intro h after hcheck
    obtain ⟨-, x, ha, hsame⟩ := check_loop hcheck
    obtain ⟨h', htrack, hx⟩ := (iha ha).ends rfl
    rw [hsame h' hx] at htrack
    exact .append htrack (ihloop hcheck)
  | roundHalt _ ih =>
    intro h after hcheck
    obtain ⟨-, x, ha, -⟩ := check_loop hcheck
    exact (ih ha).of_halt after

end LockCode

/-! ## Clients -/

/-- What is left of the path of each client, and what it holds. -/
structure LockSystem (ι L : Type*) where
  left : ι → List (LockEvent L)
  held : ι → List L

namespace LockSystem

variable {ι L : Type*} [DecidableEq ι] [DecidableEq L]

/-- A client takes a lock that is free, or gives one back. -/
inductive Step : LockSystem ι L → ι → LockSystem ι L → Prop
  | acquire {s : LockSystem ι L} {i : ι} {l : L} {es : List (LockEvent L)}
      (h : s.left i = .acquire l :: es) (free : ∀ j, l ∉ s.held j) :
      Step s i ⟨Function.update s.left i es, Function.update s.held i (l :: s.held i)⟩
  | release {s : LockSystem ι L} {i : ι} {l : L} {es : List (LockEvent L)}
      (h : s.left i = .release l :: es) :
      Step s i ⟨Function.update s.left i es, Function.update s.held i ((s.held i).erase l)⟩

/-- The client has halted. -/
def Stopped (s : LockSystem ι L) (i : ι) : Prop := ∃ es, s.left i = .halt :: es

/-- No lock is held, and each client is at the begin of its path. -/
def start (paths : ι → List (LockEvent L)) : LockSystem ι L := ⟨paths, fun _ => []⟩

/-- No lock is held twice, and each client comes to its end without a lock or halts where it may. -/
structure Inv (rank : L → Nat) (mayHalt : List L → Bool) (s : LockSystem ι L) : Prop where
  tracked : ∀ i, ∃ h, LockCode.track rank mayHalt (s.left i) (s.held i) = some h ∧
    (h = [] ∨ .halt ∈ s.left i)
  nodup : ∀ i, (s.held i).Nodup
  exclusive : ∀ i j l, l ∈ s.held i → l ∈ s.held j → i = j

section Safety

variable {rank : L → Nat} {mayHalt : List L → Bool} {s t : LockSystem ι L} {i : ι}

/-- A client that changes what it holds, where nobody else holds what it holds then. -/
theorem Inv.update (hs : Inv rank mayHalt s) {es : List (LockEvent L)} {h : List L}
    (htracked : ∃ h', LockCode.track rank mayHalt es h = some h' ∧ (h' = [] ∨ .halt ∈ es))
    (hnodup : h.Nodup) (hown : ∀ l ∈ h, ∀ j, l ∈ s.held j → j = i) :
    Inv rank mayHalt ⟨Function.update s.left i es, Function.update s.held i h⟩ := by
  constructor
  · intro j
    by_cases hj : j = i
    · subst hj
      simpa only [Function.update_self] using htracked
    · simpa only [Function.update_of_ne hj] using hs.tracked j
  · intro j
    by_cases hj : j = i
    · subst hj
      simpa only [Function.update_self] using hnodup
    · simpa only [Function.update_of_ne hj] using hs.nodup j
  · intro j k l hl hl'
    by_cases hj : j = i
    · by_cases hk : k = i
      · exact hj.trans hk.symm
      · subst hj
        simp only [Function.update_self] at hl
        simp only [Function.update_of_ne hk] at hl'
        exact (hown l hl k hl').symm
    · simp only [Function.update_of_ne hj] at hl
      by_cases hk : k = i
      · subst hk
        simp only [Function.update_self] at hl'
        exact hown l hl' j hl
      · simp only [Function.update_of_ne hk] at hl'
        exact hs.exclusive j k l hl hl'

theorem step_inv (hs : Inv rank mayHalt s) (hstep : Step s i t) : Inv rank mayHalt t := by
  obtain ⟨h, htrack, hend⟩ := hs.tracked i
  cases hstep with
  | @acquire l es hleft hfree =>
    rw [hleft] at htrack hend
    rw [LockCode.track, Option.ite_none_right_eq_some] at htrack
    have hend' : h = [] ∨ .halt ∈ es := hend.imp_right fun hmem => by simpa using hmem
    refine hs.update ⟨h, htrack.2, hend'⟩ (List.nodup_cons.mpr ⟨hfree i, hs.nodup i⟩) ?_
    intro l' hl' j hj
    rcases List.mem_cons.mp hl' with rfl | hold
    · exact absurd hj (hfree j)
    · exact hs.exclusive j i l' hj hold
  | @release l es hleft =>
    rw [hleft] at htrack hend
    rw [LockCode.track, Option.ite_none_right_eq_some] at htrack
    have hend' : h = [] ∨ .halt ∈ es := hend.imp_right fun hmem => by simpa using hmem
    refine hs.update ⟨h, htrack.2, hend'⟩ ((hs.nodup i).erase l) ?_
    intro l' hl' j hj
    exact hs.exclusive j i l' hj (List.mem_of_mem_erase hl')

omit [DecidableEq ι] in
/-- What is given back is held. -/
theorem Inv.mem_of_release (hs : Inv rank mayHalt s) {l : L} {es : List (LockEvent L)}
    (hleft : s.left i = .release l :: es) : l ∈ s.held i := by
  obtain ⟨h, htrack, -⟩ := hs.tracked i
  rw [hleft, LockCode.track, Option.ite_none_right_eq_some] at htrack
  exact htrack.1

omit [DecidableEq ι] in
/-- Nothing is held at the end. -/
theorem Inv.held_of_end (hs : Inv rank mayHalt s) (hleft : s.left i = []) : s.held i = [] := by
  obtain ⟨h, htrack, hend⟩ := hs.tracked i
  rw [hleft] at htrack hend
  rcases hend with rfl | hmem
  · exact Option.some.inj htrack
  · cases hmem

omit [DecidableEq ι] in
/-- What is held by one that has halted may be held then. -/
theorem Inv.mayHalt_of_stopped (hs : Inv rank mayHalt s) (hi : s.Stopped i) :
    mayHalt (s.held i) = true := by
  obtain ⟨es, hleft⟩ := hi
  obtain ⟨h, htrack, -⟩ := hs.tracked i
  rw [hleft, LockCode.track, Option.ite_none_right_eq_some] at htrack
  exact htrack.1

/-- **No circular wait.** If nobody who has halted holds a lock from the rank of `l` on, then somebody
can take a step while somebody is at the lock `l`. -/
theorem Inv.step_of_waiting {bound : Nat} (hbound : ∀ l, rank l < bound) (hs : Inv rank mayHalt s)
    {l : L} {es : List (LockEvent L)} (hleft : s.left i = .acquire l :: es)
    (hstopped : ∀ j l', s.Stopped j → l' ∈ s.held j → rank l' < rank l) : ∃ j t, Step s j t := by
  induction hm : bound - rank l using Nat.strongRecOn generalizing i l es with
  | ind m ih =>
    by_cases hfree : ∀ j, l ∉ s.held j
    · exact ⟨i, _, .acquire hleft hfree⟩
    · push Not at hfree
      obtain ⟨j, hj⟩ := hfree
      obtain ⟨h, htrack, -⟩ := hs.tracked j
      -- the holder is not at its end
      cases hholder : s.left j with
      | nil =>
        rw [hs.held_of_end hholder] at hj
        cases hj
      | cons e fs =>
        rw [hholder] at htrack
        cases e with
        | release l' => exact ⟨j, _, .release hholder⟩
        | halt => exact absurd (hstopped j l ⟨fs, hholder⟩ hj) (Nat.lt_irrefl _)
        | acquire l' =>
          rw [LockCode.track, Option.ite_none_right_eq_some] at htrack
          have hup : rank l < rank l' := htrack.1 l hj
          have hlt := hbound l'
          refine ih (bound - rank l') (by omega) hholder ?_ rfl
          intro k l'' hk hl''
          exact Nat.lt_trans (hstopped k l'' hk hl'') hup

theorem Inv.progress {bound : Nat} (hbound : ∀ l, rank l < bound) (hs : Inv rank mayHalt s)
    (hleft : s.left i ≠ []) (hi : ¬ s.Stopped i) (hstopped : ∀ j l, s.Stopped j → l ∉ s.held j) :
    ∃ j t, Step s j t := by
  cases hcase : s.left i with
  | nil => exact absurd hcase hleft
  | cons e es =>
    cases e with
    | acquire l => exact hs.step_of_waiting hbound hcase fun j l' hj hl' => absurd hl' (hstopped j l' hj)
    | release l => exact ⟨i, _, .release hcase⟩
    | halt => exact absurd ⟨es, hcase⟩ hi

end Safety

omit [DecidableEq ι] in
/-- Clients that follow code that checks keep the order. -/
theorem start_inv {rank : L → Nat} {mayHalt : List L → Bool} {code : ι → LockCode L}
    {paths : ι → List (LockEvent L)} {out : ι → Bool} (hpath : ∀ i, (code i).Path (paths i) (out i))
    (hcheck : ∀ i, (code i).Balanced rank mayHalt) : Inv rank mayHalt (start paths) := by
  refine ⟨fun i => ?_, fun _ => List.nodup_nil, fun _ _ _ hl => absurd hl List.not_mem_nil⟩
  obtain ⟨after, hcheck, hend⟩ : ∃ after, LockCode.check rank mayHalt (code i) [] = some after ∧
      ∀ h, after = .held h → h = [] := by
    rcases hcheck i with hnever | hheld
    · exact ⟨_, hnever, nofun⟩
    · exact ⟨_, hheld, fun h heq => (LockCode.After.held.inj heq).symm⟩
  have hfollows := LockCode.check_sound (hpath i) hcheck
  cases hout : out i with
  | true =>
    rw [hout] at hfollows
    obtain ⟨h, htrack, hafter⟩ := hfollows.ends rfl
    cases hend h hafter
    exact ⟨[], htrack, .inl rfl⟩
  | false =>
    rw [hout] at hfollows
    obtain ⟨hmem, h, htrack⟩ := hfollows.halts rfl
    exact ⟨h, htrack, .inr hmem⟩

end LockSystem

end Rtv.Lib
