import Mathlib.Data.List.Nodup

/-!
# Circular doubly linked lists

A ring is a head and a list of nodes, each node knowing the next and the previous one. `Path f a
xs b` says that following `f` from `a` leads through `xs` to `b`; a ring is a path along `next`
from the head back to itself and the same path, reversed, along `prev`, with no node twice.

Linking a node in and unlinking one change the two neighbours only. The lemmas are stated for a
second pair of functions that agrees with the first one where the edit left it alone, so that they
apply however the links are stored.
-/

namespace Rtv.Lib

variable {α : Type}

/-- Following `f` from `a` leads through `xs` to `b`. -/
def Path (f : α → α) : α → List α → α → Prop
  | a, [], b => f a = b
  | a, x :: xs, b => f a = x ∧ Path f x xs b

namespace Path

variable {f g : α → α} {a b c x : α} {xs ys : List α}

/-- A path through a middle node is two paths. -/
theorem append_iff : Path f a (xs ++ x :: ys) b ↔ Path f a xs x ∧ Path f x ys b := by
  induction xs generalizing a with
  | nil => exact Iff.rfl
  | cons y xs ih =>
    constructor
    · rintro ⟨hy, hrest⟩
      obtain ⟨hl, hr⟩ := ih.mp hrest
      exact ⟨⟨hy, hl⟩, hr⟩
    · rintro ⟨⟨hy, hl⟩, hr⟩
      exact ⟨hy, ih.mpr ⟨hl, hr⟩⟩

/-- A path depends only on the nodes it leaves. -/
theorem congr (h : Path f a xs b) (ha : g c = f a) (hxs : ∀ y ∈ xs, g y = f y) :
    Path g c xs b := by
  induction xs generalizing a c with
  | nil => exact ha.trans h
  | cons y xs ih =>
    refine ⟨ha.trans h.1, ?_⟩
    exact ih h.2 (hxs y List.mem_cons_self) fun z hz => hxs z (List.mem_cons_of_mem y hz)

/-- A path can be led to another end by changing the node before the end. -/
theorem retarget (h : Path f a xs b) (hnd : (a :: xs).Nodup)
    (hlast : g ((a :: xs).getLast (List.cons_ne_nil a xs)) = c)
    (hrest : ∀ y ∈ a :: xs, y ≠ (a :: xs).getLast (List.cons_ne_nil a xs) → g y = f y) :
    Path g a xs c := by
  induction xs generalizing a with
  | nil => exact hlast
  | cons y xs ih =>
    have hlast_eq : (a :: y :: xs).getLast (List.cons_ne_nil a _) =
        (y :: xs).getLast (List.cons_ne_nil y xs) := List.getLast_cons _
    have hne : a ≠ (y :: xs).getLast (List.cons_ne_nil y xs) := by
      intro heq
      apply (List.nodup_cons.mp hnd).1
      rw [heq]
      exact List.getLast_mem _
    constructor
    · rw [hrest a List.mem_cons_self (by rwa [hlast_eq])]
      exact h.1
    · apply ih h.2 (List.nodup_cons.mp hnd).2
      · rwa [← hlast_eq]
      · intro z hz hz'
        exact hrest z (List.mem_cons_of_mem a hz) (by rwa [hlast_eq])

/-- A path that bypasses a node: the node before it leads to the node after it. -/
theorem bypass (h : Path f a (xs ++ x :: ys) b) (hnd : (a :: (xs ++ x :: ys)).Nodup)
    (hlast : g ((a :: xs).getLast (List.cons_ne_nil a xs)) = f x)
    (hrest : ∀ y ∈ a :: (xs ++ ys), y ≠ (a :: xs).getLast (List.cons_ne_nil a xs) → g y = f y) :
    Path g a (xs ++ ys) b := by
  obtain ⟨hl, hr⟩ := append_iff.mp h
  have hnd' : ((a :: xs) ++ x :: ys).Nodup := hnd
  obtain ⟨hndl, hndr, hdisj⟩ := List.nodup_append.mp hnd'
  have hleft : Path g a xs (f x) := by
    apply hl.retarget hndl hlast
    intro y hy hne
    exact hrest y (by simpa [or_assoc] using Or.inl (List.mem_cons.mp hy)) hne
  cases ys with
  | nil =>
    rw [List.append_nil]
    rwa [show f x = b from hr] at hleft
  | cons y ys =>
    have hsame : ∀ z ∈ y :: ys, g z = f z := by
      intro z hz
      apply hrest z (List.mem_cons_of_mem a (List.mem_append_right xs hz))
      intro heq
      apply hdisj z _ z (List.mem_cons_of_mem x hz) rfl
      rw [heq]
      exact List.getLast_mem _
    rw [hr.1] at hleft
    refine append_iff.mpr ⟨hleft, hr.2.congr (hsame y List.mem_cons_self) ?_⟩
    intro z hz
    exact hsame z (List.mem_cons_of_mem y hz)

/-- The end a path arrives at first, when nothing lies between, or its first node. -/
theorem head_eq (h : Path f a xs b) : f a = (xs ++ [b]).head (by simp) := by
  cases xs with
  | nil => exact h
  | cons y xs => exact h.1

/-- A path is determined by where it starts, as long as it meets its end only once. -/
theorem unique (h : Path f a xs b) (h' : Path f a ys b) (hx : b ∉ xs) (hy : b ∉ ys) : xs = ys := by
  induction xs generalizing a ys with
  | nil =>
    cases ys with
    | nil => rfl
    | cons y ys =>
      exfalso
      apply hy
      rw [← (show f a = b from h), h'.1]
      exact List.mem_cons_self
  | cons x xs ih =>
    cases ys with
    | nil =>
      exfalso
      apply hx
      rw [← (show f a = b from h'), h.1]
      exact List.mem_cons_self
    | cons y ys =>
      have hxy : x = y := h.1.symm.trans h'.1
      subst hxy
      rw [ih h.2 h'.2 (fun hm => hx (List.mem_cons_of_mem x hm))
        (fun hm => hy (List.mem_cons_of_mem x hm))]

end Path

/-- A well-formed circular doubly linked list: the head `hd` and its nodes in order. -/
structure Ring (next prev : α → α) (hd : α) (ns : List α) : Prop where
  forward : Path next hd ns hd
  backward : Path prev hd ns.reverse hd
  nodup : (hd :: ns).Nodup

namespace Ring

variable {next prev next' prev' : α → α} {hd n p q : α} {ns xs ys : List α}

/-- A head that points at itself both ways is an empty ring. -/
theorem nil (hn : next hd = hd) (hp : prev hd = hd) : Ring next prev hd [] :=
  ⟨hn, hp, List.nodup_singleton hd⟩

/-- A ring depends only on the links of its own nodes. -/
theorem congr (h : Ring next prev hd ns) (hn : ∀ y ∈ hd :: ns, next' y = next y)
    (hp : ∀ y ∈ hd :: ns, prev' y = prev y) : Ring next' prev' hd ns where
  forward := by
    apply h.forward.congr (hn hd List.mem_cons_self)
    intro y hy
    exact hn y (List.mem_cons_of_mem hd hy)
  backward := by
    apply h.backward.congr (hp hd List.mem_cons_self)
    intro y hy
    exact hp y (List.mem_cons_of_mem hd (List.mem_reverse.mp hy))
  nodup := h.nodup

/-- The links determine the nodes of a ring. -/
theorem unique (h : Ring next prev hd xs) (h' : Ring next prev hd ys) : xs = ys :=
  h.forward.unique h'.forward (List.nodup_cons.mp h.nodup).1 (List.nodup_cons.mp h'.nodup).1

/-- The first node after the head. -/
theorem next_head (h : Ring next prev hd (n :: ns)) : next hd = n := h.forward.1

/-- The neighbours of a node of a ring are its head or nodes of it. -/
theorem neighbours_mem (h : Ring next prev hd ns) (hn : n ∈ hd :: ns) :
    next n ∈ hd :: ns ∧ prev n ∈ hd :: ns := by
  have hpath : ∀ {f : α → α} {zs : List α}, Path f hd zs hd → n ∈ hd :: zs → f n ∈ hd :: zs := by
    intro f zs hf hmem
    have hhead : ∀ {a : α} {ws : List α}, Path f a ws hd → f a ∈ hd :: ws := by
      intro a ws hw
      have hne : ws ++ [hd] ≠ [] := by simp
      have hin : (ws ++ [hd]).head hne ∈ ws ++ [hd] := List.head_mem hne
      rw [hw.head_eq]
      exact List.mem_cons.mpr ((List.mem_append.mp hin).symm.imp_left List.mem_singleton.mp)
    rcases List.mem_cons.mp hmem with rfl | hz
    · exact hhead hf
    · obtain ⟨us, vs, rfl⟩ := List.append_of_mem hz
      have hin := hhead (Path.append_iff.mp hf).2
      rcases List.mem_cons.mp hin with h₁ | h₁
      · exact List.mem_cons.mpr (Or.inl h₁)
      · exact List.mem_cons_of_mem hd (List.mem_append_right us (List.mem_cons_of_mem n h₁))
  refine ⟨hpath h.forward hn, ?_⟩
  have hb := hpath h.backward (by simpa using hn)
  simpa using hb

/-- **Linking in after the head.** -/
theorem link (h : Ring next prev hd ns) (hn : n ∉ hd :: ns)
    (hnext_new : next' n = next hd) (hnext_hd : next' hd = n)
    (hnext : ∀ y ∈ ns, next' y = next y)
    (hprev_new : prev' n = hd) (hprev_first : prev' (next hd) = n)
    (hprev : ∀ y ∈ hd :: ns, y ≠ next hd → prev' y = prev y) :
    Ring next' prev' hd (n :: ns) where
  forward := ⟨hnext_hd, h.forward.congr hnext_new hnext⟩
  backward := by
    rw [List.reverse_cons]
    refine Path.append_iff.mpr ⟨?_, hprev_new⟩
    have hnd : (hd :: ns.reverse).Nodup := by simpa using h.nodup
    have hlast : (hd :: ns.reverse).getLast (List.cons_ne_nil _ _) = next hd := by
      cases ns with
      | nil => exact h.forward.symm
      | cons x xs =>
        rw [h.forward.1, List.getLast_cons (by simp), List.getLast_reverse]
        rfl
    apply h.backward.retarget hnd
    · rwa [hlast]
    · intro y hy hne
      rw [hlast] at hne
      exact hprev y (by simpa using hy) hne
  nodup := by
    obtain ⟨hhd, hns⟩ := List.nodup_cons.mp h.nodup
    obtain ⟨hne, hnot⟩ := not_or.mp (mt List.mem_cons.mpr hn)
    refine List.nodup_cons.mpr ⟨?_, List.nodup_cons.mpr ⟨hnot, hns⟩⟩
    intro hmem
    rcases List.mem_cons.mp hmem with heq | hin
    · exact hne heq.symm
    · exact hhd hin

/-- The node before a node of a ring is the last one on the way to it. -/
theorem prev_eq (h : Ring next prev hd (xs ++ n :: ys)) :
    prev n = (hd :: xs).getLast (List.cons_ne_nil hd xs) := by
  have hb := h.backward
  rw [List.reverse_append, List.reverse_cons, List.append_assoc, List.singleton_append] at hb
  rw [(Path.append_iff.mp hb).2.head_eq]
  rcases List.eq_nil_or_concat xs with rfl | ⟨zs, z, rfl⟩
  · rfl
  · simp

/-- The node after a node of a ring is the last one on the way back to it. -/
theorem next_eq (h : Ring next prev hd (xs ++ n :: ys)) :
    next n = (hd :: ys.reverse).getLast (List.cons_ne_nil hd ys.reverse) := by
  rw [(Path.append_iff.mp h.forward).2.head_eq]
  cases ys with
  | nil => rfl
  | cons y ys => simp

/-- **Unlinking a node.** -/
theorem unlink (h : Ring next prev hd (xs ++ n :: ys))
    (hnext_prev : next' (prev n) = next n)
    (hnext : ∀ y ∈ hd :: (xs ++ ys), y ≠ prev n → next' y = next y)
    (hprev_next : prev' (next n) = prev n)
    (hprev : ∀ y ∈ hd :: (xs ++ ys), y ≠ next n → prev' y = prev y) :
    Ring next' prev' hd (xs ++ ys) where
  forward := by
    have hnd : (hd :: (xs ++ n :: ys)).Nodup := h.nodup
    apply h.forward.bypass hnd
    · rw [← h.prev_eq]
      exact hnext_prev
    · intro y hy hne
      rw [← h.prev_eq] at hne
      exact hnext y hy hne
  backward := by
    have hb := h.backward
    rw [List.reverse_append, List.reverse_cons, List.append_assoc, List.singleton_append] at hb
    rw [List.reverse_append]
    have hnd : (hd :: (ys.reverse ++ n :: xs.reverse)).Nodup := by
      have hrev := List.nodup_reverse.mpr (List.nodup_cons.mp h.nodup).2
      simp only [List.reverse_append, List.reverse_cons, List.append_assoc,
        List.singleton_append] at hrev
      refine List.nodup_cons.mpr ⟨?_, hrev⟩
      intro hmem
      apply (List.nodup_cons.mp h.nodup).1
      simpa [or_comm, or_assoc, or_left_comm] using hmem
    apply hb.bypass hnd
    · rw [← h.next_eq]
      exact hprev_next
    · intro y hy hne
      rw [← h.next_eq] at hne
      apply hprev y _ hne
      simpa [or_comm] using hy
  nodup := by
    have hsub : (xs ++ ys).Sublist (xs ++ n :: ys) :=
      List.Sublist.append_left (List.sublist_cons_self n ys) xs
    exact h.nodup.sublist (hsub.cons_cons hd)

end Ring

end Rtv.Lib
