import Rtv.Mm.Vm
import Rtv.Utils.Math

/-!
# The Linux boot protocol

`arch/x86_64/include/virt/linux.h`, as far as the hypervisor uses it: the constants, the fields of
the setup header it reads or writes, and the e820 entries of the zero page.
-/

namespace Rtv.Virt

/-- `LINUX_HEADER_OFFSET`. -/
def linuxHeaderOffset : Nat := 0x1F1

/-- `LINUX_HEADER_MAGIC`. -/
def linuxHeaderMagic : UInt32 := 0x53726448

/-- `LINUX_ENTRY_POINT`: the kernel runs from 1MB. -/
def linuxEntryPoint : Nat := 0x100000

/-- `LINUX_SECTOR_SZ`. -/
def linuxSectorSz : Nat := 512

/-- `E820_MAX_ENTRIES_ZEROPAGE`, the number of entries of `e820_table`. -/
def e820MaxEntriesZeropage : Nat := 128

/-- `E820_RAM`. -/
def e820Ram : Nat := 1

/-- `struct boot_e820_entry`. -/
structure E820Entry where
  addr : Nat
  size : Nat
  type : Nat
deriving DecidableEq, Repr

/-- The address after the last one of an entry. -/
def E820Entry.stop (e : E820Entry) : Nat := e.addr + e.size

/-- `setup_header_t`: the fields that the hypervisor reads or writes. -/
structure SetupHeader where
  setupSects : UInt8
  header : UInt32
  typeOfLoader : UInt8
  loadflags : UInt8
  code32Start : UInt32
  ramdiskImage : UInt32
  ramdiskSize : UInt32
  cmdLinePtr : UInt32
deriving DecidableEq, Repr

/-! ## Large pages -/

open Rtv.Utils Rtv.Mm

/-- `LARGE_PG_MASK` as a number. -/
theorem largePgMask_toNat : largePgMask.toNat = (2 ^ (64 - 21) - 1) * 2 ^ 21 := by decide

/-- `x & LARGE_PG_MASK` rounds down to a large page. -/
theorem and_largePgMask {x : Nat} (hx : x < 2 ^ 64) :
    x &&& largePgMask.toNat = x / largePgSize * largePgSize := by
  rw [largePgMask_toNat, and_highMask hx (by decide)]
  rfl

end Rtv.Virt
