import Rtv.Lib.Runs
import Rtv.Smp.MtrrBarrier
import Rtv.Mm.Ownership
import Rtv.Boot.Init
import Rtv.Boot.KernelTables
import Rtv.Boot.BootSpace
import Rtv.Mm.Mappings
import Rtv.Mm.HeapRuns
import Rtv.Mm.MergeTest
import Rtv.Mm.FindRun
import Rtv.Mm.FindAligned
import Rtv.Mm.Ranges
import Rtv.Mm.Requests
import Rtv.Mm.DoubleFree
import Rtv.Mm.WindowBounds
import Rtv.Virt.HandOver
import Rtv.Smp.TicketLock
import Rtv.Boot.Acpi
import Rtv.Smp.Gdt
import Rtv.Smp.Handshake
import Rtv.Mm.MapUnrestricted
import Rtv.Mm.Presence
import Rtv.Virt.Setup
import Rtv.Virt.Temporary
import Rtv.Virt.Reads
import Rtv.Virt.Guest
import Rtv.Mm.LowestHole
import Rtv.Mm.RoundTrip
import Rtv.Virt.HandedRuns
import Rtv.Virt.Reported
import Rtv.Virt.RowCount
import Rtv.Mm.CheckMapping
import Rtv.Lib.RecordWalk
import Rtv.Boot.TableWalk
import Rtv.Virt.Leaves
import Rtv.Virt.LeafAlignment
import Rtv.Virt.CopyCalls
import Rtv.Virt.CopyBounds
import Rtv.Boot.TableStores
import Rtv.Boot.MapBounds
import Rtv.Mm.SearchBounds
import Rtv.Mm.FirstFit
import Rtv.Smp.TssDesc
import Rtv.Utils.Screen
import Rtv.Utils.BitRanges
import Rtv.Utils.FormatReads
import Rtv.Lib.Digits
import Rtv.Utils.NumberFormat
import Rtv.Interrupt.Invisible
import Rtv.Smp.Printf
import Rtv.Smp.KernelLocks
import Rtv.Interrupt.TimerRoute
import Rtv.Virt.Launch
import Rtv.Mm.CheckBuddy
