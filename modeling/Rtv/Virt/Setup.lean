import Rtv.Virt.E820
import Rtv.Virt.Host

/-!
# Setting up a guest

`arch/x86_64/virt/mem.c`: `virt_setup_linux`, which moves the kernel and the ramdisk of a guest and
fills its zero page, and `virt_pg_table_setup`, which calls it and builds the guest's EPT.

The zero page is bytes in physical memory; the functions read and write its fields at the offsets of
`boot_params_t`. `vm_check_mapping` and `printf` only print and are left out.
-/

namespace Rtv.Virt

open Rtv.Lib Rtv.Utils Rtv.Mm

/-! ## The guest -/

/-- `vm_struct_t`: the fields that `mem.c` reads or writes. -/
structure VmStruct where
  imgPaddr : UInt64
  imgSize : UInt64
  ramSize : UInt32
  input : UInt64
  entryPoint : UInt64
  gdtr : UInt64
  extraPaddr : UInt64
  extraSize : UInt64
deriving DecidableEq, Repr

/-! ## The zero page -/

/-- `sizeof(setup_header_t)`. -/
def setupHeaderSize : Nat := 119

/-- `hdr.setup_sects`, here and below the offset in the zero page. -/
def setupSectsOff : Nat := 0x1F1

/-- `hdr.header`. -/
def headerOff : Nat := 0x202

/-- `hdr.type_of_loader`. -/
def typeOfLoaderOff : Nat := 0x210

/-- `hdr.loadflags`. -/
def loadflagsOff : Nat := 0x211

/-- `hdr.code32_start`. -/
def code32StartOff : Nat := 0x214

/-- `hdr.ramdisk_image`. -/
def ramdiskImageOff : Nat := 0x218

/-- `hdr.ramdisk_size`. -/
def ramdiskSizeOff : Nat := 0x21C

/-- `hdr.cmd_line_ptr`. -/
def cmdLinePtrOff : Nat := 0x228

/-- `e820_table`. -/
def e820TableOff : Nat := 0x2D0

/-- `sizeof(struct boot_e820_entry)`. -/
def e820EntrySize : Nat := 20

/-- Read `zero_virt->hdr`. -/
def loadSetupHeader (zeroVirt : Ptr) : HostM SetupHeader := do
  let setupSects ← load zeroVirt setupSectsOff 1
  let header ← load zeroVirt headerOff 4
  let typeOfLoader ← load zeroVirt typeOfLoaderOff 1
  let loadflags ← load zeroVirt loadflagsOff 1
  let code32Start ← load zeroVirt code32StartOff 4
  let ramdiskImage ← load zeroVirt ramdiskImageOff 4
  let ramdiskSize ← load zeroVirt ramdiskSizeOff 4
  let cmdLinePtr ← load zeroVirt cmdLinePtrOff 4
  return {
    setupSects := UInt8.ofNat setupSects
    header := UInt32.ofNat header
    typeOfLoader := UInt8.ofNat typeOfLoader
    loadflags := UInt8.ofNat loadflags
    code32Start := UInt32.ofNat code32Start
    ramdiskImage := UInt32.ofNat ramdiskImage
    ramdiskSize := UInt32.ofNat ramdiskSize
    cmdLinePtr := UInt32.ofNat cmdLinePtr }

/-- Write an entry of `zero_page->e820_table`. -/
def storeE820 (zeroVirt : Ptr) (i : Nat) (e : E820Entry) : HostM Unit := do
  let off := e820TableOff + i * e820EntrySize
  store zeroVirt off 8 e.addr
  store zeroVirt (off + 8) 8 e.size
  store zeroVirt (off + 16) 4 e.type

/-- `virt_setup_e820` on the zero page. -/
def setupE820 (zeroVirt : Ptr) (kernelSize : Nat) : HostM Unit := do
  let hdr ← loadSetupHeader zeroVirt
  let table ← onPhys fun s => virtSetupE820 s hdr kernelSize
  table.foldlM (fun _ row => storeE820 zeroVirt row.1 row.2) ()

/-! ## `virt_setup_linux` -/

/-- The first part: the setup header of the image becomes that of the zero page. -/
def copySetupHeader (vm : VmStruct) (zeroVirt : Ptr) : HostM Unit := do
  require "virt_setup_linux" "Image address not aligned to 4KB" (vm.imgPaddr.toNat % pgSize = 0)
  let linuxVirt ← mapPage vm.imgPaddr.toNat (pgtP ||| pgtRw)
  require "virt_setup_linux" "page mapping for header failed" (linuxVirt.va ≠ 0)
  let magic ← load linuxVirt headerOff 4
  require "virt_setup_linux" "Image magic number does not match" (magic = linuxHeaderMagic.toNat)
  copy zeroVirt setupSectsOff linuxVirt linuxHeaderOffset setupHeaderSize
  unmapPage linuxVirt

/-- A number of large pages, in a `uint8_t`. -/
def largePages (size : Nat) : Nat := (ceiling64 size largePgSize >>> largePgBits) % 256

/-- How the kernel and the ramdisk are moved to large pages of their own: the `size` bytes from
`start` on are copied to new frames, and the bytes `[oldStart, oldStart + oldSize)` are given back.
Returns the new frames and the mapping of the copy, which is still there, with its pages. -/
def relocate (what : String) (start size oldStart oldSize : Nat) : HostM (Nat × Ptr × Nat) := do
  let frame := start &&& largePgMask.toNat
  let srcPages := largePages (sub64 (add64 size start) frame)
  let src ← mapLargePages frame srcPages (pgtP ||| pdtPs)
  require "virt_setup_linux" ("page mapping for src " ++ what ++ " failed") (src.va ≠ 0)
  let dstPages := largePages size
  let newFrames ← allocFramesAligned (dstPages <<< (largePgBits - pgBits)) largePgSize
  require "virt_setup_linux" ("page allocation for dst " ++ what ++ " failed") (newFrames ≠ 0)
  let dst ← mapLargePages newFrames dstPages (pgtP ||| pgtRw ||| pdtPs)
  require "virt_setup_linux" ("page mapping for dst " ++ what ++ " failed") (dst.va ≠ 0)
  copy dst 0 src (start - frame) size
  unmapLargePages src srcPages
  freeRange oldStart oldSize
  return (newFrames, dst, dstPages)

/-- The page for the GDT and the command line. The frame is not checked. -/
def setupCmdPage (zeroVirt : Ptr) : HostM Nat := do
  let cmdFrame ← allocFrameLowmem
  let gdt ← mapPage cmdFrame (pgtP ||| pgtRw)
  store gdt 0 8 0
  store gdt 8 8 0
  store gdt 16 8 0xCF9A000000FFFF
  store gdt 24 8 0xCF92000000FFFF
  -- `LINUX_CMD_LINE`, with its terminating zero
  store gdt (pgSize >>> 1) 5 0x6F747561
  unmapPage gdt
  store zeroVirt cmdLinePtrOff 4 (cmdFrame + (pgSize >>> 1))
  return cmdFrame

/-- `virt_setup_linux`: the guest's new fields. -/
def virtSetupLinux (vm : VmStruct) : HostM VmStruct := do
  let zeroFrame ← allocFrameLowmem
  require "virt_setup_linux" "page allocation for zero_frame failed" (zeroFrame ≠ 0)
  let zeroVirt ← mapPage zeroFrame (pgtP ||| pgtRw)
  require "virt_setup_linux" "page mapping for zero_frame failed" (zeroVirt.va ≠ 0)
  clearPage zeroVirt
  copySetupHeader vm zeroVirt
  -- relocate the kernel, without the setup sectors
  let setupSects ← load zeroVirt setupSectsOff 1
  let setupSize := (setupSects + 1) * linuxSectorSz
  let kernelSize := sub64 vm.imgSize.toNat setupSize
  let (newImg, dst, dstPages) ← relocate "kernel" (add64 vm.imgPaddr.toNat setupSize) kernelSize
    vm.imgPaddr.toNat vm.imgSize.toNat
  unmapLargePages dst dstPages
  let cmdFrame ← setupCmdPage zeroVirt
  store zeroVirt typeOfLoaderOff 1 0xFF
  let loadflags ← load zeroVirt loadflagsOff 1
  store zeroVirt loadflagsOff 1 (loadflags &&& 0x1F)
  store zeroVirt code32StartOff 4 vm.entryPoint.toNat
  -- relocate the ramdisk
  let (newExtra, _, _) ← relocate "ramdisk" vm.extraPaddr.toNat vm.extraSize.toNat
    vm.extraPaddr.toNat vm.extraSize.toNat
  store zeroVirt ramdiskImageOff 4 newExtra
  store zeroVirt ramdiskSizeOff 4 vm.extraSize.toNat
  setupE820 zeroVirt kernelSize
  unmapPage zeroVirt
  return { vm with
    imgPaddr := UInt64.ofNat newImg
    imgSize := UInt64.ofNat kernelSize
    gdtr := UInt64.ofNat cmdFrame
    extraPaddr := UInt64.ofNat newExtra
    input := UInt64.ofNat zeroFrame }

/-! ## `virt_pg_table_setup` -/

/-- `EPT_RD | EPT_WR`. -/
def eptRdWr : Nat := 0x3

/-- `EPT_EX`. -/
def eptEx : Nat := 0x4

/-- `EPT_PG`. -/
def eptPg : Nat := 0x80

/-- `EPT_TP(EPT_TYPE_WB)`; `EPT_TP(EPT_TYPE_UC)` is 0. -/
def eptTpWb : Nat := 0x30

/-- An entry that points to a table. -/
def eptTable (frame : Nat) : Nat := frame ||| eptRdWr ||| eptEx

/-- An entry that maps a large page. -/
def eptLargePage (frame : Nat) : Nat := frame ||| eptRdWr ||| eptEx ||| eptPg ||| eptTpWb

/-- An entry for the first 2MB: identity mapping for the first MB, without execution for the page of
the screen, and memory from 4GB on for the second. -/
def eptFirstPage (k : Nat) : Nat :=
  let frameOffset := k * pgSize
  if k = 0xB8 then frameOffset ||| eptRdWr
  else if k < pgTableEntries / 2 then frameOffset ||| eptRdWr ||| eptEx ||| eptTpWb
  else (frameOffset + 0x100000000) ||| eptRdWr ||| eptEx ||| eptTpWb

/-- The 32-bit test program. The result of the mapping is not checked. -/
def storeTest (frame : Nat) : HostM Unit := do
  let testAddr ← mapPage frame (pgtP ||| pgtRw)
  store testAddr 0 2 0x05c7
  store testAddr 2 2 0x8000
  store testAddr 4 2 0x000b
  store testAddr 6 2 0x2f4f
  store testAddr 8 2 0x2f4b
  store testAddr 10 2 0xf4f4
  unmapPage testAddr

/-- The loop over the entries of the PT, the rest of it from `k` on. -/
def fillPt (ptVirt : Ptr) : Nat → Nat → HostM Unit
  | 0, _ => return ()
  | num + 1, k => do
    store ptVirt (8 * k) 8 (eptFirstPage k)
    if k = pgTableEntries / 2 then
      storeTest (k * pgSize + 0x100000000)
    fillPt ptVirt num (k + 1)

/-- The entry of the PDT for the first 2MB. -/
def storeFirst (pdtVirt : Ptr) (j : Nat) : HostM Unit := do
  let ptFrame ← allocFrame
  require "virt_pg_table_setup" "Failed to allocate a PT frame" (ptFrame ≠ 0)
  store pdtVirt (8 * j) 8 (eptTable ptFrame)
  let ptVirt ← mapPage ptFrame (pgtP ||| pgtRw)
  require "virt_pg_table_setup" "Failed to map PT" (ptVirt.va ≠ 0)
  fillPt ptVirt pgTableEntries 0
  unmapPage ptVirt

/-- `kernel_phy`, `ramdisk_phy` and `count`. -/
structure Cursors where
  kernelPhy : Nat
  ramdiskPhy : Nat
  count : Nat
deriving DecidableEq, Repr

/-- One entry of the PDT for the GB `i`. -/
def storePdtEntry (vm : VmStruct) (pdtVirt : Ptr) (i j : Nat) (c : Cursors) : HostM Cursors :=
  let frameOffset := i * (pgSize * pgTableEntries * pgTableEntries) + j * (pgSize * pgTableEntries)
  if i = 0 ∧ j = 0 then do
    storeFirst pdtVirt j
    return c
  else if c.kernelPhy < (vm.imgSize + vm.imgPaddr).toNat then do
    store pdtVirt (8 * j) 8 (eptLargePage c.kernelPhy)
    return { c with kernelPhy := add64 c.kernelPhy largePgSize }
  else if c.ramdiskPhy < (vm.extraSize + vm.extraPaddr).toNat then do
    store pdtVirt (8 * j) 8 (eptLargePage c.ramdiskPhy)
    return { c with ramdiskPhy := add64 c.ramdiskPhy largePgSize }
  else do
    store pdtVirt (8 * j) 8 (eptLargePage (frameOffset + 0x100000000))
    return c

/-- The loop over the entries of a PDT, the rest of it from `j` on; `bound` ends it early. -/
def fillPdt (vm : VmStruct) (bound i : Nat) (pdtVirt : Ptr) : Nat → Nat → Cursors → HostM Cursors
  | 0, _, c => return c
  | num + 1, j, c => do
    let c ← storePdtEntry vm pdtVirt i j c
    let count := (c.count + pgTableEntries) % 2 ^ 32
    if count ≥ bound then
      return { c with count }
    else
      fillPdt vm bound i pdtVirt num (j + 1) { c with count }

/-- One round of the loop over the entries of the PDPT. -/
def storePdt (vm : VmStruct) (bound : Nat) (pdptVirt : Ptr) (c : Cursors) (i : Nat) :
    HostM Cursors := do
  let frame ← allocFrame
  require "virt_pg_table_setup" "Failed to allocate a PDT frame" (frame ≠ 0)
  store pdptVirt (8 * i) 8 (eptTable frame)
  let pdtVirt ← mapPage frame (pgtP ||| pgtRw)
  require "virt_pg_table_setup" "Failed to map PDT" (pdtVirt.va ≠ 0)
  let c ← fillPdt vm bound i pdtVirt pgTableEntries 0 c
  unmapPage pdtVirt
  return c

/-- The entries of all PDTs. -/
def VmStruct.pdtEntries (vm : VmStruct) : Nat := vm.ramSize.toNat >>> 1

/-- The entries of the PDPT. -/
def VmStruct.pdptEntries (vm : VmStruct) : Nat := (vm.pdtEntries + (pgTableEntries - 1)) >>> 9

/-- `virt_pg_table_setup`: the address of the EPT and the guest's new fields. -/
def virtPgTableSetup (vm : VmStruct) : HostM (Nat × VmStruct) := do
  let bound := vm.pdtEntries * pgTableEntries % 2 ^ 32
  let kernelPhy := add64 vm.imgPaddr.toNat 0x100000
  let ramdiskPhy := vm.extraPaddr.toNat
  let pml4tPhy ← allocFrame
  require "virt_pg_table_setup" "Failed to allocate a PML4T frame" (pml4tPhy ≠ 0)
  let pml4tVirt ← mapPage pml4tPhy (pgtP ||| pgtRw)
  require "virt_pg_table_setup" "Failed to map PML4T" (pml4tVirt.va ≠ 0)
  let pdptPhy ← allocFrame
  require "virt_pg_table_setup" "Failed to allocate a PDPT frame" (pdptPhy ≠ 0)
  let pdptVirt ← mapPage pdptPhy (pgtP ||| pgtRw)
  require "virt_pg_table_setup" "Failed to map PDPT" (pdptVirt.va ≠ 0)
  clearPage pml4tVirt
  clearPage pdptVirt
  store pml4tVirt 0 8 (eptTable pdptPhy)
  let vm ← virtSetupLinux vm
  let _ ← (List.range vm.pdptEntries).foldlM (storePdt vm bound pdptVirt) ⟨kernelPhy, ramdiskPhy, 0⟩
  unmapPage pml4tVirt
  unmapPage pdptVirt
  return (pml4tPhy, vm)

end Rtv.Virt
