import Mathlib.Data.List.Pairwise

/-!
# Address spaces

An address space is a partial function from addresses to addresses. Mapping a region gives its
addresses consecutive ones from some address on, unmapping one leaves its addresses with none.

A list of regions laid over a space is an address space again. Where no two of them meet the order
of the list does not matter: an address leads where its region says (`overlay_mem`), and an address
of none of them where it led before (`overlay_of_not_mem`).
-/

namespace Rtv.Lib

/-- `size` addresses from `va` on, and where the first of them leads. -/
structure Region where
  va : Nat
  pa : Nat
  size : Nat
deriving DecidableEq, Repr

namespace Region

/-- The address is one of the region's. -/
def Has (r : Region) (a : Nat) : Prop := r.va ≤ a ∧ a < r.va + r.size

instance (r : Region) (a : Nat) : Decidable (r.Has a) := inferInstanceAs (Decidable (_ ∧ _))

/-- Two regions have no address in common. -/
def Apart (r r' : Region) : Prop := r.va + r.size ≤ r'.va ∨ r'.va + r'.size ≤ r.va

theorem Apart.not_has {r r' : Region} {a : Nat} (h : r.Apart r') (ha : r.Has a) : ¬ r'.Has a := by
  unfold Apart at h
  unfold Has at *
  omega

end Region

/-- Where an address leads, if anywhere. -/
abbrev AddressSpace := Nat → Option Nat

namespace AddressSpace

/-- Map a region. -/
def map (s : AddressSpace) (r : Region) : AddressSpace := fun a =>
  if r.Has a then some (r.pa + (a - r.va)) else s a

/-- Leave the addresses of a region with nothing. -/
def unmap (s : AddressSpace) (r : Region) : AddressSpace := fun a => if r.Has a then none else s a

/-- A list of regions over a space. -/
def overlay (s : AddressSpace) (rs : List Region) : AddressSpace := rs.foldr (fun r s => s.map r) s

variable {s : AddressSpace} {r : Region} {rs : List Region} {a : Nat}

theorem map_has (h : r.Has a) : s.map r a = some (r.pa + (a - r.va)) := if_pos h

theorem map_of_not_has (h : ¬ r.Has a) : s.map r a = s a := if_neg h

theorem unmap_has (h : r.Has a) : s.unmap r a = none := if_pos h

theorem unmap_of_not_has (h : ¬ r.Has a) : s.unmap r a = s a := if_neg h

theorem unmap_of_none (h : s a = none) : s.unmap r a = none := by
  unfold unmap
  rw [h, ite_self]

/-- An address of one of the regions. -/
theorem overlay_mem (hapart : rs.Pairwise Region.Apart) (hr : r ∈ rs) (ha : r.Has a) :
    s.overlay rs a = some (r.pa + (a - r.va)) := by
  induction rs with
  | nil => exact absurd hr List.not_mem_nil
  | cons r' rs ih =>
    obtain ⟨hfirst, hrest⟩ := List.pairwise_cons.mp hapart
    rcases List.mem_cons.mp hr with rfl | hmem
    · exact map_has ha
    · have hout : ¬ r'.Has a := fun ha' => (hfirst r hmem).not_has ha' ha
      exact (map_of_not_has hout).trans (ih hrest hmem)

/-- An address of none of them. -/
theorem overlay_of_not_mem (h : ∀ r ∈ rs, ¬ r.Has a) : s.overlay rs a = s a := by
  induction rs with
  | nil => rfl
  | cons r' rs ih =>
    exact (map_of_not_has (h r' List.mem_cons_self)).trans
      (ih fun r hr => h r (List.mem_cons_of_mem r' hr))

end AddressSpace

end Rtv.Lib
