import Mathlib.Data.BitVec

/-!
# The ticket lock of `spinlock.h`

The lock is a union: a 32-bit word, and over it two 16-bit fields, `next` in the low half and
`owner` in the high half. `spin_lock` takes a ticket from `next` with one atomic add and reads
`owner` until it shows the ticket; `spin_unlock` adds one to `owner`. `spin_trylock` does not use
the fields to write: it builds the whole word before and after by shifts and exchanges the two.

`trylockExpected_eq` and `trylockDesired_eq` read these two words as fields. The first is the free
lock. The second is not the lock taken once: it has the halves the other way round, `owner` one
ahead and `next` where it was.
-/

namespace Rtv.Utils

/-- `spinlock_t`, by its fields. -/
structure Spinlock where
  next : BitVec 16
  owner : BitVec 16
deriving DecidableEq, Repr

namespace Spinlock

/-- `lock->data`: `owner` is stored after `next`, so it is the high half. -/
def data (lock : Spinlock) : BitVec 32 := lock.owner ++ lock.next

/-- The fields of a word stored in `lock->data`. -/
def ofData (data : BitVec 32) : Spinlock := ⟨data.extractLsb' 0 16, data.extractLsb' 16 16⟩

@[simp] theorem ofData_data (lock : Spinlock) : ofData lock.data = lock := by
  obtain ⟨next, owner⟩ := lock
  unfold ofData data
  congr 1
  · exact BitVec.extractLsb'_append_eq_right
  · exact BitVec.extractLsb'_append_eq_left

/-- The word determines the fields. -/
theorem data_injective : Function.Injective data :=
  Function.LeftInverse.injective ofData_data

/-- The word is the high half shifted, plus the low half. -/
theorem data_eq (lock : Spinlock) :
    lock.data = (lock.owner.setWidth 32 <<< 16) + lock.next.setWidth 32 := by
  have howner := lock.owner.isLt
  have hnext := lock.next.isLt
  apply BitVec.eq_of_toNat_eq
  rw [data, BitVec.toNat_append, BitVec.toNat_add, BitVec.toNat_shiftLeft, BitVec.toNat_setWidth,
    BitVec.toNat_setWidth, Nat.mod_eq_of_lt (by omega : lock.owner.toNat < 2 ^ 32),
    Nat.mod_eq_of_lt (by omega : lock.next.toNat < 2 ^ 32),
    ← Nat.shiftLeft_add_eq_or_of_lt hnext, Nat.shiftLeft_eq]
  omega

/-- `SPINLOCK_UNLOCKED`, and what `spin_lock_init` stores. -/
def unlocked : Spinlock := ofData 0

/-- `atomic_fetch_add(&lock->obj.next, 1)`: the ticket, and the lock after it. -/
def fetchAddNext (lock : Spinlock) : BitVec 16 × Spinlock :=
  (lock.next, { lock with next := lock.next + 1 })

/-- `spin_unlock`: `atomic_increment(&lock->obj.owner)`. -/
def spinUnlock (lock : Spinlock) : Spinlock :=
  { lock with owner := lock.owner + 1 }

/-- `atomic_cmp_xchg(&lock->data, &expected, desired)`. -/
def cmpXchg (lock : Spinlock) (expected desired : BitVec 32) : Bool × Spinlock :=
  if lock.data = expected then (true, ofData desired) else (false, lock)

/-- `data` in `spin_trylock`, for the `me` it has read. -/
def trylockExpected (me : BitVec 16) : BitVec 32 := (me.setWidth 32 <<< 16) + me.setWidth 32

/-- `new_data` in `spin_trylock`, for the `me` it has read. -/
def trylockDesired (me : BitVec 16) : BitVec 32 :=
  let next := me + 1
  (next.setWidth 32 <<< 16) + me.setWidth 32

theorem trylockExpected_eq (me : BitVec 16) : trylockExpected me = data ⟨me, me⟩ :=
  (data_eq ⟨me, me⟩).symm

theorem trylockDesired_eq (me : BitVec 16) : trylockDesired me = data ⟨me, me + 1⟩ :=
  (data_eq ⟨me, me + 1⟩).symm

/-- The compare-exchange of `spin_trylock` succeeds on the lock that is free at the ticket it has
read, and what it stores is not that lock taken once: it is `owner` that moves. -/
theorem cmpXchg_trylock (lock : Spinlock) (me : BitVec 16) :
    lock.cmpXchg (trylockExpected me) (trylockDesired me) =
      if lock.next = me ∧ lock.owner = me then (true, { lock with owner := me + 1 })
      else (false, lock) := by
  have hfree : lock.data = trylockExpected me ↔ lock.next = me ∧ lock.owner = me := by
    rw [trylockExpected_eq, data_injective.eq_iff, Spinlock.mk.injEq]
  unfold cmpXchg
  by_cases h : lock.next = me ∧ lock.owner = me
  · rw [if_pos (hfree.mpr h), if_pos h, trylockDesired_eq, ofData_data, h.1]
  · rw [if_neg (mt hfree.mp h), if_neg h]

end Spinlock

end Rtv.Utils
