import Rtv.Lib.Bytes
import Rtv.Lib.Ring

/-!
# Linked lists in memory

`include/utils/list.h`. A `struct list_head` is two pointers, `next` at offset 0 and `prev` at
offset 8, inside whatever object is on the list. The functions write these pointers and nothing
else; as long as the nodes at hand do not overlap, each write changes one link, so the functions
link a node into a ring and unlink one from it.
-/

namespace Rtv.Utils

open Rtv.Lib

/-- `node->next`. -/
def nextOf (m : Bytes) (node : Nat) : Nat := m.loadLE node 8

/-- `node->prev`. -/
def prevOf (m : Bytes) (node : Nat) : Nat := m.loadLE (node + 8) 8

/-- `node->next = v`. -/
def setNext (m : Bytes) (node v : Nat) : Bytes := m.storeLE node 8 v

/-- `node->prev = v`. -/
def setPrev (m : Bytes) (node v : Nat) : Bytes := m.storeLE (node + 8) 8 v

/-- `INIT_LIST_HEAD`. -/
def initListHead (m : Bytes) (list : Nat) : Bytes := setPrev (setNext m list list) list list

/-- `__list_del_entry`. -/
def listDelEntry (m : Bytes) (prev next : Nat) : Bytes := setNext (setPrev m next prev) prev next

/-- `list_del`. -/
def listDel (m : Bytes) (entry : Nat) : Bytes := listDelEntry m (prevOf m entry) (nextOf m entry)

/-- `__list_add`. -/
def listAddBetween (m : Bytes) (new prev next : Nat) : Bytes :=
  let m := setPrev m next new
  let m := setNext m new next
  let m := setPrev m new prev
  setNext m prev new

/-- `list_add`. -/
def listAdd (m : Bytes) (new head : Nat) : Bytes := listAddBetween m new head (nextOf m head)

/-! ## One write -/

/-- Addresses of list nodes: no two overlap, and a pointer can hold each of them. -/
structure Nodes (S : Set Nat) : Prop where
  apart : ∀ a ∈ S, ∀ b ∈ S, a ≠ b → a + 16 ≤ b ∨ b + 16 ≤ a
  lt : ∀ a ∈ S, a < 2 ^ 64

/-- Two memories that differ in the given nodes only. -/
def SameOff (ns : List Nat) (m m' : Bytes) : Prop :=
  ∀ a, (∀ x ∈ ns, a < x ∨ x + 16 ≤ a) → m' a = m a

namespace Nodes

variable {S : Set Nat} {m m' : Bytes} {a x v : Nat} {ns : List Nat}

/-- A stored pointer is read back as it was. -/
theorem load_store (hv : v < 2 ^ 64) : (m.storeLE a 8 v).loadLE a 8 = v := by
  rw [Bytes.loadLE_storeLE_same]
  exact Nat.mod_eq_of_lt hv

theorem nextOf_setNext (hS : Nodes S) (ha : a ∈ S) (hx : x ∈ S) (hv : v ∈ S) :
    nextOf (setNext m a v) x = if x = a then v else nextOf m x := by
  by_cases h : x = a
  · rw [if_pos h, h]
    exact load_store (hS.lt v hv)
  · rw [if_neg h]
    apply Bytes.loadLE_storeLE_apart
    have := hS.apart x hx a ha h
    omega

theorem prevOf_setPrev (hS : Nodes S) (ha : a ∈ S) (hx : x ∈ S) (hv : v ∈ S) :
    prevOf (setPrev m a v) x = if x = a then v else prevOf m x := by
  by_cases h : x = a
  · rw [if_pos h, h]
    exact load_store (hS.lt v hv)
  · rw [if_neg h]
    apply Bytes.loadLE_storeLE_apart
    have := hS.apart x hx a ha h
    omega

theorem prevOf_setNext (hS : Nodes S) (ha : a ∈ S) (hx : x ∈ S) :
    prevOf (setNext m a v) x = prevOf m x := by
  apply Bytes.loadLE_storeLE_apart
  by_cases h : x = a
  · omega
  · have := hS.apart x hx a ha h
    omega

theorem nextOf_setPrev (hS : Nodes S) (ha : a ∈ S) (hx : x ∈ S) :
    nextOf (setPrev m a v) x = nextOf m x := by
  apply Bytes.loadLE_storeLE_apart
  by_cases h : x = a
  · omega
  · have := hS.apart x hx a ha h
    omega

/-- The links of a node that no write touches. -/
theorem links_of_sameOff (hS : Nodes S) (hns : ∀ y ∈ ns, y ∈ S) (hx : x ∈ S) (hnot : x ∉ ns)
    (h : SameOff ns m m') : nextOf m' x = nextOf m x ∧ prevOf m' x = prevOf m x := by
  have hoff : ∀ i, x ≤ i → i < x + 16 → m' i = m i := by
    intro i hlo hhi
    apply h
    intro y hy
    have := hS.apart x hx y (hns y hy) (fun heq => hnot (heq ▸ hy))
    omega
  constructor
  · apply Bytes.loadLE_congr
    intro i hlo hhi
    exact hoff i hlo (by omega)
  · apply Bytes.loadLE_congr
    intro i hlo hhi
    exact hoff i (by omega) (by omega)

end Nodes

namespace SameOff

variable {ns ns' : List Nat} {m m' m'' : Bytes} {a v : Nat}

theorem trans (h : SameOff ns m m') (h' : SameOff ns m' m'') : SameOff ns m m'' :=
  fun i hi => (h' i hi).trans (h i hi)

theorem setNext (ha : a ∈ ns) : SameOff ns m (setNext m a v) := by
  intro i hi
  apply Bytes.storeLE_outside
  have := hi a ha
  omega

theorem setPrev (ha : a ∈ ns) : SameOff ns m (setPrev m a v) := by
  intro i hi
  apply Bytes.storeLE_outside
  have := hi a ha
  omega

end SameOff

/-! ## The functions -/

variable {S : Set Nat} {m : Bytes} {new head : Nat} {ns xs ys : List Nat}

/-- `INIT_LIST_HEAD` makes an empty ring and changes nothing else. -/
theorem initListHead_spec (hhead : head < 2 ^ 64) :
    Ring (nextOf (initListHead m head)) (prevOf (initListHead m head)) head [] ∧
      SameOff [head] m (initListHead m head) := by
  have hS : Nodes {head} := ⟨by rintro a rfl b rfl h; exact absurd rfl h, by rintro a rfl; exact hhead⟩
  have hmem : head ∈ ({head} : Set Nat) := rfl
  refine ⟨Ring.nil ?_ ?_, ?_⟩
  · rw [initListHead, hS.nextOf_setPrev hmem hmem, hS.nextOf_setNext hmem hmem hmem, if_pos rfl]
  · rw [initListHead, hS.prevOf_setPrev hmem hmem hmem, if_pos rfl]
  · exact (SameOff.setNext List.mem_cons_self).trans (SameOff.setPrev List.mem_cons_self)

/-- `list_add` links the new node in after the head. -/
theorem listAdd_spec (hS : Nodes S) (hsub : ∀ x ∈ head :: ns, x ∈ S) (hnew : new ∈ S)
    (hnot : new ∉ head :: ns) (h : Ring (nextOf m) (prevOf m) head ns) :
    Ring (nextOf (listAdd m new head)) (prevOf (listAdd m new head)) head (new :: ns) ∧
      SameOff (new :: head :: ns) m (listAdd m new head) := by
  have hhead : head ∈ S := hsub head List.mem_cons_self
  have hfirst : nextOf m head ∈ head :: ns := (h.neighbours_mem List.mem_cons_self).1
  have hfirstS : nextOf m head ∈ S := hsub _ hfirst
  have hne_head : new ≠ head := fun heq => hnot (heq ▸ List.mem_cons_self)
  have hnext : ∀ y ∈ S, nextOf (listAdd m new head) y =
      if y = head then new else if y = new then nextOf m head else nextOf m y := by
    intro y hy
    rw [listAdd, listAddBetween, hS.nextOf_setNext hhead hy hnew, hS.nextOf_setPrev hnew hy,
      hS.nextOf_setNext hnew hy hfirstS, hS.nextOf_setPrev hfirstS hy]
  have hprev : ∀ y ∈ S, prevOf (listAdd m new head) y =
      if y = new then head else if y = nextOf m head then new else prevOf m y := by
    intro y hy
    rw [listAdd, listAddBetween, hS.prevOf_setNext hhead hy, hS.prevOf_setPrev hnew hy hhead,
      hS.prevOf_setNext hnew hy, hS.prevOf_setPrev hfirstS hy hnew]
  refine ⟨h.link hnot ?_ ?_ ?_ ?_ ?_ ?_, ?_⟩
  · rw [hnext new hnew, if_neg hne_head, if_pos rfl]
  · rw [hnext head hhead, if_pos rfl]
  · intro y hy
    have hyhead : y ≠ head := fun heq => (List.nodup_cons.mp h.nodup).1 (heq ▸ hy)
    have hynew : y ≠ new := fun heq => hnot (heq ▸ List.mem_cons_of_mem head hy)
    rw [hnext y (hsub y (List.mem_cons_of_mem head hy)), if_neg hyhead, if_neg hynew]
  · rw [hprev new hnew, if_pos rfl]
  · have hne : nextOf m head ≠ new := fun heq => hnot (heq ▸ hfirst)
    rw [hprev _ hfirstS, if_neg hne, if_pos rfl]
  · intro y hy hne
    have hynew : y ≠ new := fun heq => hnot (heq ▸ hy)
    rw [hprev y (hsub y hy), if_neg hynew, if_neg hne]
  · have hfirst' : nextOf m head ∈ new :: head :: ns := List.mem_cons_of_mem new hfirst
    have hhead' : head ∈ new :: head :: ns := List.mem_cons_of_mem new List.mem_cons_self
    exact (((SameOff.setPrev hfirst').trans (SameOff.setNext List.mem_cons_self)).trans
      (SameOff.setPrev List.mem_cons_self)).trans (SameOff.setNext hhead')

/-- `list_del` unlinks a node. -/
theorem listDel_spec (hS : Nodes S) (hsub : ∀ x ∈ head :: (xs ++ new :: ys), x ∈ S)
    (h : Ring (nextOf m) (prevOf m) head (xs ++ new :: ys)) :
    Ring (nextOf (listDel m new)) (prevOf (listDel m new)) head (xs ++ ys) ∧
      SameOff (head :: (xs ++ new :: ys)) m (listDel m new) := by
  have hmem : new ∈ head :: (xs ++ new :: ys) := by simp
  obtain ⟨hn, hp⟩ := h.neighbours_mem hmem
  have hnS := hsub _ hn
  have hpS := hsub _ hp
  have hrest : ∀ y ∈ head :: (xs ++ ys), y ∈ S := by
    intro y hy
    apply hsub
    simp only [List.mem_cons, List.mem_append] at hy ⊢
    exact hy.imp_right (Or.imp_right Or.inr)
  have hnext : ∀ y ∈ S, nextOf (listDel m new) y =
      if y = prevOf m new then nextOf m new else nextOf m y := by
    intro y hy
    rw [listDel, listDelEntry, hS.nextOf_setNext hpS hy hnS, hS.nextOf_setPrev hnS hy]
  have hprev : ∀ y ∈ S, prevOf (listDel m new) y =
      if y = nextOf m new then prevOf m new else prevOf m y := by
    intro y hy
    rw [listDel, listDelEntry, hS.prevOf_setNext hpS hy, hS.prevOf_setPrev hnS hy hpS]
  refine ⟨h.unlink ?_ ?_ ?_ ?_, ?_⟩
  · rw [hnext _ hpS, if_pos rfl]
  · intro y hy hne
    rw [hnext y (hrest y hy), if_neg hne]
  · rw [hprev _ hnS, if_pos rfl]
  · intro y hy hne
    rw [hprev y (hrest y hy), if_neg hne]
  · rw [listDel, listDelEntry]
    have hfirst : SameOff (head :: (xs ++ new :: ys)) m (setPrev m (nextOf m new) (prevOf m new)) :=
      SameOff.setPrev hn
    exact hfirst.trans (SameOff.setNext hp)

end Rtv.Utils
