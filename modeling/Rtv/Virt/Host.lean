import Rtv.Lib.Bytes
import Rtv.Lib.Triple
import Rtv.Mm.Window

/-!
# The host while it sets up a guest

What `arch/x86_64/virt/mem.c` works on: the windows and the frame allocator (`Vm`), and the bytes of
physical memory. A computation on it is a `HostM`.

A pointer that a mapping function returned stands for the memory it was mapped to, `Ptr`: an access
through it is an access to the frame, and faults outside the pages that were mapped. Behind `NULL`
there is no page: `kernel_main` has removed the boot code's mapping of the first 2MB to themselves.
The entries of the page tables are part of `Vm` and not of the memory that these pointers reach.
-/

namespace Rtv.Virt

open Rtv.Lib Rtv.Mm

/-- The windows, the frame allocator and physical memory. -/
structure Host where
  vm : Vm
  mem : Bytes

/-- A computation on the host. -/
abbrev HostM := StateT Host Exec

/-! ## Calls -/

/-- A call of a function of `physical.c`. -/
def onPhys {α : Type} (f : Physical → Exec (α × Physical)) : HostM α := fun h => do
  let (a, phys) ← f h.vm.phys
  return (a, { h with vm := { h.vm with phys } })

/-- A call of a function of `vm.c`. -/
def onVm {α : Type} (f : Vm → Exec (α × Vm)) : HostM α := fun h => do
  let (a, vm) ← f h.vm
  return (a, { h with vm })

theorem onPhys_eq_ok {α : Type} {f : Physical → Exec (α × Physical)} {h : Host} {r : α × Host}
    (hrun : onPhys f h = .ok r) :
    ∃ phys, f h.vm.phys = .ok (r.1, phys) ∧ r.2 = { h with vm := { h.vm with phys } } := by
  obtain ⟨⟨a, phys⟩, hf, hrun⟩ := Exec.bind_eq_ok.mp hrun
  cases hrun
  exact ⟨phys, hf, rfl⟩

theorem onVm_eq_ok {α : Type} {f : Vm → Exec (α × Vm)} {h : Host} {r : α × Host}
    (hrun : onVm f h = .ok r) : ∃ vm, f h.vm = .ok (r.1, vm) ∧ r.2 = { h with vm } := by
  obtain ⟨⟨a, vm⟩, hf, hrun⟩ := Exec.bind_eq_ok.mp hrun
  cases hrun
  exact ⟨vm, hf, rfl⟩

/-- A call on the mappings whose result is only dressed up. -/
theorem onVm_map_eq_ok {α β : Type} {f : Vm → Exec (α × Vm)} {g : α → β} {h h' : Host} {b : β}
    (hrun : (onVm f >>= fun a => pure (g a)) h = .ok (b, h')) :
    ∃ a vm, f h.vm = .ok (a, vm) ∧ b = g a ∧ h' = { h with vm } := by
  obtain ⟨a, h₁, hvm, hret⟩ := run_bind_eq_ok.mp hrun
  cases hret
  obtain ⟨vm, hvm, rfl⟩ := onVm_eq_ok hvm
  exact ⟨a, vm, hvm, rfl, rfl⟩

/-- `if (!c) panic(msg)` in a function. -/
def require (func msg : String) (c : Prop) [Decidable c] : HostM Unit :=
  if c then return () else fun _ => .error (.panic func msg)

/-- `alloc_phys_frame`. -/
def allocFrame : HostM Nat := onPhys allocPhysFrame

/-- `alloc_phys_frame_lowmem`. -/
def allocFrameLowmem : HostM Nat := onPhys allocPhysFrameLowmem

/-- `alloc_phys_frames_aligned`. -/
def allocFramesAligned (num align : Nat) : HostM Nat :=
  onPhys fun s => allocPhysFramesAligned s num align

/-- `physical_free_range`. -/
def freeRange (start length : Nat) : HostM Unit :=
  onPhys fun s => do return ((), ← physicalFreeRange s start length)

/-! ## Pointers -/

/-- A pointer into a window: its value, and the `size` bytes of physical memory from `base` on that
are mapped there. -/
structure Ptr where
  va : Nat
  base : Nat
  size : Nat
deriving DecidableEq, Repr

/-- The physical address of the page of a frame: the processor uses bits 51 and below. -/
def pageBase (frame size : Nat) : Nat := frame % 2 ^ 52 / size * size

/-- `vm_map_page`. Nothing can be accessed through `NULL`. -/
def mapPage (frame : Nat) (flags : BitVec 64) : HostM Ptr := do
  let va ← onVm fun s => vmMapPage s (BitVec.ofNat 64 frame) flags
  return ⟨va, pageBase frame pgSize, if va = 0 then 0 else pgSize⟩

/-- `vm_map_large_pages`, whose callers do not go on with `NULL`. -/
def mapLargePages (frame num : Nat) (flags : BitVec 64) : HostM Ptr := do
  let va ← onVm fun s => vmMapLargePages s (BitVec.ofNat 64 frame) num flags
  return ⟨va, pageBase frame largePgSize, num * largePgSize⟩

/-- `vm_unmap_page`. -/
def unmapPage (p : Ptr) : HostM Unit := do
  let _ ← onVm fun s => vmUnmapPage s p.va

/-- `vm_unmap_large_pages`. -/
def unmapLargePages (p : Ptr) (num : Nat) : HostM Unit := do
  let _ ← onVm fun s => vmUnmapLargePages s p.va num

/-! ## Accesses -/

/-- Write the `n` bytes at an offset. -/
def store (p : Ptr) (off n v : Nat) : HostM Unit := fun h =>
  if off + n ≤ p.size then .ok ((), { h with mem := h.mem.storeLE (p.base + off) n v })
  else .error .fault

/-- Read the `n` bytes at an offset. -/
def load (p : Ptr) (off n : Nat) : HostM Nat := fun h =>
  if off + n ≤ p.size then .ok (h.mem.loadLE (p.base + off) n, h) else .error .fault

/-- The memory after `memcpy`. -/
def copied (m : Bytes) (dst src n : Nat) : Bytes :=
  ⟨fun x => if dst ≤ x ∧ x < dst + n then m (src + (x - dst)) else m x⟩

/-- `memcpy(dst + dstOff, src + srcOff, n)`. -/
def copy (dst : Ptr) (dstOff : Nat) (src : Ptr) (srcOff n : Nat) : HostM Unit := fun h =>
  if dstOff + n ≤ dst.size ∧ srcOff + n ≤ src.size then
    .ok ((), { h with mem := copied h.mem (dst.base + dstOff) (src.base + srcOff) n })
  else .error .fault

/-- `memset(p, 0, PG_SIZE)`. -/
def clearPage (p : Ptr) : HostM Unit := store p 0 pgSize 0

end Rtv.Virt
