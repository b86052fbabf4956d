import Rtv.Boot.Acpi
import Rtv.Lib.BitField
import Rtv.Lib.Logged
import Rtv.Lib.Transcript

/-!
# The interrupt controllers

The two 8259 PICs, channel 0 of the PIT and the I/O APIC as their registers are written, and the functions
of `interrupt/interrupt.c` and `interrupt/apic.c` that write them, as the lists of these writes.

The I/O APIC has a register that selects one of the others, and a window on the one that is selected. Its
registers are numbered with 8 bits: from `0x10` on, two of them hold the halves of an entry of the
redirection table, so that there are at most 120 entries. The read-only bits of an entry (delivery status
and remote IRR) are left out, and what `IOAPIC_VER` reads is a parameter.
-/

namespace Rtv.Interrupt

open Rtv.Lib Rtv.Boot

/-! ## The devices -/

/-- The words that follow the first one of an initialisation. -/
inductive PicWord where
  | vector
  | cascade
  | mode
deriving DecidableEq, Repr

/-- An 8259: the vector of its first line, its mask, and the words it waits for. -/
structure Pic where
  base : BitVec 8
  mask : BitVec 8
  expect : List PicWord
deriving DecidableEq, Repr

/-- A write to the command port; one with bit 4 begins an initialisation, and clears the mask. -/
def Pic.command (pic : Pic) (v : BitVec 8) : Pic :=
  if v.getLsbD 4 then
    { pic with
      mask := 0
      expect := .vector :: (if v.getLsbD 1 then [] else [.cascade]) ++ if v.getLsbD 0 then [.mode] else [] }
  else pic

/-- A write to the data port. -/
def Pic.data (pic : Pic) (v : BitVec 8) : Pic :=
  match pic.expect with
  | [] => { pic with mask := v }
  | .vector :: rest => { pic with base := v &&& 0xF8, expect := rest }
  | _ :: rest => { pic with expect := rest }

/-- Channel 0 of the PIT: how its counter is written, its mode, the low byte if it is the first of two,
and the count that it starts from, if there is one. -/
structure Pit where
  access : BitVec 2
  mode : BitVec 3
  low : Option (BitVec 8)
  reload : Option (BitVec 16)
deriving DecidableEq, Repr

/-- A write to the command port; one for another channel, or to latch the counter, changes nothing. -/
def Pit.command (pit : Pit) (v : BitVec 8) : Pit :=
  if getField v 6 2 = 0 ∧ getField v 4 2 ≠ 0 then ⟨getField v 4 2, getField v 1 3, none, none⟩ else pit

/-- A write to the data port. -/
def Pit.data (pit : Pit) (v : BitVec 8) : Pit :=
  if pit.access = 1 then { pit with reload := some (0#8 ++ v) }
  else if pit.access = 2 then { pit with reload := some (v ++ 0#8) }
  else
    match pit.low with
    | none => { pit with low := some v }
    | some low => { pit with low := none, reload := some (v ++ low) }

/-- The I/O APIC: the register that is selected, and the redirection table. -/
structure Ioapic where
  regsel : BitVec 8
  table : Nat → BitVec 64

/-- `IOAPIC_REGSEL`. -/
def ioapicRegsel : BitVec 8 := 0

/-- `IOAPIC_WIN`. -/
def ioapicWin : BitVec 8 := 0x10

/-- A write through the window. -/
def Ioapic.window (io : Ioapic) (data : BitVec 32) : Ioapic :=
  let reg := io.regsel.toNat
  if reg < 0x10 then io
  else { io with
    table := fun i =>
      if i = (reg - 0x10) / 2 then setField (io.table i) (32 * ((reg - 0x10) % 2)) data else io.table i }

/-- `mmio_write32(ioapic_addr + offset, data)`. -/
def Ioapic.write (io : Ioapic) (offset : BitVec 8) (data : BitVec 32) : Ioapic :=
  if offset = ioapicRegsel then { io with regsel := data.setWidth 8 }
  else if offset = ioapicWin then io.window data
  else io

/-- All of them. -/
structure Controllers where
  pic1 : Pic
  pic2 : Pic
  pit : Pit
  ioapic : Ioapic

/-- A write to a port, or to the I/O APIC. -/
inductive IoWrite where
  | outb (port : BitVec 16) (val : BitVec 8)
  | ioapic (offset : BitVec 8) (data : BitVec 32)
deriving DecidableEq, Repr

/-- `PIC1_COMMAND`. -/
def pic1Command : BitVec 16 := 0x20

/-- `PIC1_DATA`. -/
def pic1Data : BitVec 16 := 0x21

/-- `PIC2_COMMAND`. -/
def pic2Command : BitVec 16 := 0xA0

/-- `PIC2_DATA`. -/
def pic2Data : BitVec 16 := 0xA1

/-- `PIT_CHANNEL0`. -/
def pitChannel0 : BitVec 16 := 0x40

/-- `PIT_CMD`. -/
def pitCmd : BitVec 16 := 0x43

/-- What a write does. -/
def Controllers.write (c : Controllers) : IoWrite → Controllers
  | .outb port val =>
    if port = pic1Command then { c with pic1 := c.pic1.command val }
    else if port = pic1Data then { c with pic1 := c.pic1.data val }
    else if port = pic2Command then { c with pic2 := c.pic2.command val }
    else if port = pic2Data then { c with pic2 := c.pic2.data val }
    else if port = pitCmd then { c with pit := c.pit.command val }
    else if port = pitChannel0 then { c with pit := c.pit.data val }
    else c
  | .ioapic offset data => { c with ioapic := c.ioapic.write offset data }

/-! ## `interrupt.c` -/

/-- `PIC1_BASE_IRQ`. -/
def pic1BaseIrq : BitVec 8 := 0x20

/-- `PIC2_BASE_IRQ`. -/
def pic2BaseIrq : BitVec 8 := 0x28

/-- `PIT_FREQ`. -/
def pitFreq : Nat := 1193182

/-- `HZ`. -/
def hz : Nat := 100

/-- `pic_init`. -/
def picInit : List IoWrite :=
  [.outb pic1Command 0x11, .outb pic1Data pic1BaseIrq, .outb pic1Data 0x04, .outb pic1Data 0x0D,
    .outb pic2Command 0x11, .outb pic2Data pic2BaseIrq, .outb pic2Data 0x02, .outb pic2Data 0x09]

/-- `pit_init`. -/
def pitInit : List IoWrite :=
  [.outb pitCmd 0x34, .outb pitChannel0 (.ofNat 8 ((pitFreq / hz) &&& 0xFF)),
    .outb pitChannel0 (.ofNat 8 ((pitFreq / hz) >>> 8))]

/-! ## `apic.c` and `acpi.c` -/

/-- `IOAPIC_REDTBL(n)` as it is passed, with 8 bits. -/
def ioapicRedtbl (n : Nat) : BitVec 8 := .ofNat 8 (0x10 + 2 * n)

/-- `ioapic_write64`: the entry is masked while its halves are written. -/
def ioapicWrite64 (reg : BitVec 8) (data : BitVec 64) : List IoWrite :=
  [.ioapic ioapicRegsel (reg.setWidth 32), .ioapic ioapicWin 0x10000,
    .ioapic ioapicRegsel (reg.setWidth 32 + 1), .ioapic ioapicWin ((data >>> 32).setWidth 32),
    .ioapic ioapicRegsel (reg.setWidth 32), .ioapic ioapicWin ((data &&& 0xFFFFFFFF).setWidth 32)]

/-- `ioapic_map_gsi`, where there are `num_gsi` entries. -/
def ioapicMapGsi (gsiBase numGsi gsi : Nat) (vector : BitVec 8) (flags : BitVec 64) :
    Logged IoWrite Unit :=
  if gsi < gsiBase ∨ gsi ≥ (gsiBase + numGsi) % 2 ^ 32 then
    ⟨[], .error (.panic "ioapic_map_gsi" "Unsupported GSI number")⟩
  else ⟨ioapicWrite64 (ioapicRedtbl (gsi - gsiBase)) (flags ||| vector.setWidth 64), .ok ()⟩

/-- `acpi_irq_to_gsi`: the interrupt and its flags. -/
def acpiIrqToGsi (s : Acpi) (irq : UInt8) : Nat × Nat :=
  match (List.range s.numOverrides).find? fun i => (s.irqMap i).irq = irq with
  | some i => ((s.irqMap i).gsi, (s.irqMap i).flags)
  | none => (irq.toNat, 0)

/-- `PIT_IRQ`. -/
def pitIrq : UInt8 := 0

/-- The number of entries, from what `IOAPIC_VER` reads. -/
def numGsi (ver : BitVec 32) : Nat := ((ver >>> 16) &&& 0xFF).toNat + 1

/-- What `ioapic_init` passes for the PIT. -/
def pitEntry (flags : Nat) : BitVec 64 :=
  let entry := 0xFF00000000000000#64
  let entry := if flags &&& 0x2 ≠ 0 then entry ||| 0x2000 else entry
  if flags &&& 0x8 ≠ 0 then entry ||| 0x8000 else entry

/-- `ioapic_init`. -/
def ioapicInit (s : Acpi) (ver : BitVec 32) : Logged IoWrite Unit := do
  ⟨[.outb pic1Data 0xFF, .outb pic2Data 0xFF, .ioapic ioapicRegsel 1], .ok ()⟩
  ⟨(List.range (numGsi ver)).flatMap fun i => ioapicWrite64 (ioapicRedtbl i) 0x10000, .ok ()⟩
  let (gsi, flags) := acpiIrqToGsi s pitIrq
  ioapicMapGsi s.gsiBase (numGsi ver) gsi 0x20 (pitEntry flags)

end Rtv.Interrupt
