import Mathlib.Data.Fin.VecNotation
import Mathlib.Tactic.FinCases
import Rtv.Smp.NestedLocks

/-!
# The locks of the kernel

Which locks each function takes and gives back, in the order of the source: every branch is a choice and
every loop goes round any number of times. The paths are read off the source function by function, those
that `VIRT_DEBUG` compiles out left aside, and those of `percpu.h` for operand sizes that do not occur.
What a function does with data is left out, and so are the loops that wait for something other than a
lock: a path here need not be one that the data allows, and no theorem ties it to the models of the same
functions in other modules.

`panic` prints, which takes `scr_lock`, and then halts with interrupts off and with whatever its caller
holds (no NMI wakes the CPU here): it is called under `pg_lock` and under `mm_lock`, and under no other
lock. `exp_handler` prints, looks at the page tables after a page fault and then spins for ever, which is
an end like that of `panic`; so is a guest that never exits.

Interrupts are on only in the loops at the ends of `kernel_main` and `ap_main`, so that `isr_handler` runs
between the other functions and not in the middle of one. `exp_handler` is run between them as well: an
exception that a function raises while it holds a lock is not among the paths. There the CPU can come to
wait for itself, as a page fault under `pg_lock` does.

**The law** (`kernel_lock_order`): the CPUs call these functions in any order at the same time, and never
wait for each other in a circle; and whoever waits for `phy_lock` or `scr_lock`, so in particular a CPU
that panics and has its message to print, does not wait for one that has halted.
-/

namespace Rtv.Smp

open Rtv.Lib

/-! ## Locks -/

/-- The locks; each guest has one. -/
inductive KernelLock where
  | vm (id : Nat)
  | mtrr
  | gdt
  | mm
  | pg
  | phy
  | scr
deriving DecidableEq, Repr

/-- The order in which they are taken. -/
def KernelLock.rank : KernelLock → Nat
  | .vm _ => 0
  | .mtrr => 1
  | .gdt => 2
  | .mm => 3
  | .pg => 4
  | .phy => 5
  | .scr => 6

namespace Locking

/-- The locks that code uses. -/
abbrev Code := LockCode KernelLock

open LockCode KernelLock

/-- One part after another. -/
def seqs : List Code → Code := List.foldr seq skip

/-- A part that is not always run. -/
def maybe (a : Code) : Code := choice skip a

/-- A part under a lock. -/
def locked (l : KernelLock) (a : Code) : Code := seqs [acquire l, a, release l]

/-! ## `screen.c`, `debug.c` and `interrupt.c` -/

def printf : Code := locked scr skip

/-- `panic`, `panic_raw`. -/
def panic : Code := seq printf halt

def isrHandler : Code := printf

/-! ## `physical.c` -/

def physicalFreeRange : Code := locked phy skip

def physicalTakeRange : Code := locked phy skip

def physicalSetLimit : Code := locked phy skip

def physicalCheckTable : Code := loop (maybe printf)

def allocPhysFrame : Code := seq (acquire phy) (choice (release phy) (release phy))

def allocPhysFrames : Code := seq (acquire phy) (choice (release phy) (release phy))

def allocPhysFramesAligned : Code :=
  seq (acquire phy) (choice (release phy) (choice (release phy) (release phy)))

def allocPhysFrameLowmem : Code := seq (acquire phy) (choice (release phy) (release phy))

def freePhysFrame : Code := locked phy skip

def freePhysFrames : Code := locked phy skip

/-! ## `vm.c` -/

def getPagingStructVaddr : Code := maybe panic

def vmCheckMapping : Code :=
  locked pg (seqs [getPagingStructVaddr, printf, getPagingStructVaddr, printf, getPagingStructVaddr,
    printf, getPagingStructVaddr, printf])

def vmMapPage : Code :=
  seqs [acquire pg, getPagingStructVaddr, choice (release pg) (release pg)]

/-- Without pages there is nothing to do. -/
def vmMapPages : Code :=
  maybe (seqs [acquire pg, getPagingStructVaddr, choice (release pg) (release pg)])

def vmUnmapPage : Code := locked pg getPagingStructVaddr

def vmUnmapPages : Code := locked pg getPagingStructVaddr

/-- A table that is missing is allocated. -/
def ensureTable : Code := maybe (seq allocPhysFrame (maybe panic))

def vmMapPageUnrestricted : Code :=
  locked pg (seqs [getPagingStructVaddr, ensureTable, getPagingStructVaddr, ensureTable,
    getPagingStructVaddr, ensureTable, getPagingStructVaddr, maybe panic])

def vmMapLargePageUnrestricted : Code :=
  locked pg (seqs [getPagingStructVaddr, ensureTable, getPagingStructVaddr, ensureTable,
    getPagingStructVaddr, maybe panic])

def vmMapLargePage : Code :=
  seqs [acquire pg, getPagingStructVaddr, choice (release pg) (release pg)]

def vmUnmapLargePage : Code := locked pg getPagingStructVaddr

def vmMapLargePages : Code :=
  maybe (seqs [acquire pg, getPagingStructVaddr, choice (release pg) (release pg)])

def vmUnmapLargePages : Code := locked pg getPagingStructVaddr

def vmInit : Code :=
  seqs [getPagingStructVaddr, ensureTable, getPagingStructVaddr, ensureTable, getPagingStructVaddr,
    ensureTable, getPagingStructVaddr]

/-- An exception; only a page fault has a mapping to look at. -/
def expHandler : Code :=
  seqs [printf, printf, printf, printf, printf, maybe vmCheckMapping, halt]

/-! ## `malloc.c` -/

def checkBuddyTable : Code :=
  locked mm (seq (loop (seqs [printf, printf, loop (maybe printf), maybe printf])) printf)

def free : Code :=
  seq (acquire mm) (choice (seq printf (release mm)) (choice (release mm) (release mm)))

/-- The search for a larger block may come to the end of the table. -/
def malloc : Code := locked mm (maybe (loop (maybe panic)))

def mallocInit : Code :=
  seq (maybe panic) (choice
    (seqs [allocPhysFrames, maybe panic, loop vmMapPageUnrestricted])
    (seqs [allocPhysFramesAligned, maybe panic, loop vmMapLargePageUnrestricted]))

/-! ## `mmu.c`, `percpu.c` and `apic.c` -/

/-- The lock is given back before the panic. -/
def allocTssDesc : Code := seq (acquire gdt) (choice (release gdt) (seq (release gdt) panic))

def percpuInit : Code :=
  maybe (seqs [maybe panic, allocPhysFrames, maybe panic, vmMapPages, maybe panic])

def lapicInit : Code := maybe (seqs [vmMapPageUnrestricted, maybe panic, printf])

def ioapicMapGsi : Code := maybe panic

def ioapicInit : Code := seq vmMapPageUnrestricted ioapicMapGsi

/-! ## `smp.c` and `acpi.c` -/

def smpBootCpu : Code := seqs [allocPhysFrame, maybe panic, vmMapPage, maybe panic]

def acpiSecInit : Code := loop (seq smpBootCpu (maybe printf))

def acpiAddCpu : Code := maybe panic

def acpiParseApic : Code :=
  loop (maybe (choice acpiAddCpu (choice (maybe panic) (seq (maybe panic) (maybe panic)))))

def acpiParseDmar : Code := loop (maybe printf)

def acpiParseDt : Code := maybe (choice acpiParseApic acpiParseDmar)

/-- A table of tables, with addresses of either width. -/
def acpiParseSdt : Code :=
  seqs [vmMapPages, maybe panic, loop (seqs [vmMapPages, acpiParseDt, vmUnmapPages]), vmUnmapPages]

def acpiParseRsdt : Code := acpiParseSdt

def acpiParseXsdt : Code := acpiParseSdt

def acpiParseRsdp : Code :=
  seq (maybe panic) (choice acpiParseRsdt
    (choice (seq (maybe panic) (choice acpiParseXsdt acpiParseRsdt)) panic))

def acpiInit : Code := choice acpiParseRsdp (seq (maybe acpiParseRsdp) (maybe panic))

/-! ## `boot_info.c` and `virt/` -/

def parseBootInfo : Code :=
  seqs [maybe panic, vmMapPages, maybe panic, maybe panic, malloc, maybe panic, malloc, maybe panic,
    malloc, maybe panic, malloc, maybe panic, malloc, maybe panic, malloc, malloc, vmUnmapPages]

def virtSetupE820 : Code := loop (seq (maybe printf) (maybe (seq physicalTakeRange printf)))

/-- One image: the pages of its place and of its new place. -/
def relocate (check : Code) : Code :=
  seqs [vmMapLargePages, maybe panic, allocPhysFramesAligned, maybe panic, vmMapLargePages, maybe panic,
    check, vmUnmapLargePages, physicalFreeRange]

def virtSetupLinux : Code :=
  seqs [allocPhysFrameLowmem, maybe panic, vmMapPage, maybe panic, maybe panic, vmMapPage, maybe panic,
    maybe panic, vmUnmapPage, relocate vmCheckMapping, vmUnmapLargePages, allocPhysFrameLowmem,
    vmMapPage, vmUnmapPage, relocate skip, virtSetupE820, vmUnmapPage]

/-- The first 2MB have a page table of their own, in which the test program is written. -/
def virtFirstTable : Code :=
  seqs [allocPhysFrame, maybe panic, vmMapPage, maybe panic, loop (maybe (seq vmMapPage vmUnmapPage)),
    vmUnmapPage]

def virtPgTableSetup : Code :=
  seqs [allocPhysFrame, maybe panic, vmMapPage, maybe panic, allocPhysFrame, maybe panic, vmMapPage,
    maybe panic, virtSetupLinux,
    loop (seqs [allocPhysFrame, maybe panic, vmMapPage, maybe panic, loop (maybe virtFirstTable),
      vmUnmapPage]),
    vmUnmapPage, vmUnmapPage]

def virtGuestDump : Code := seqs [printf, printf, printf]

def virtDiagnose : Code := choice printf (seqs [printf, printf, virtGuestDump])

/-- `virt_check_error`. -/
def virtCheckError : Code := maybe (choice panic (seq printf panic))

/-- Where a guest exits to. -/
def virtMain : Code := seq virtDiagnose panic

def virtControlSetup : Code :=
  seqs [maybe panic, maybe panic, maybe panic, maybe panic, maybe panic, maybe panic, maybe panic,
    maybe panic]

def virtInit : Code := seqs [maybe panic, maybe panic, malloc, maybe panic, loop (maybe panic)]

/-- `virt_percpu_init` for a CPU of the guest `id` or for one without a guest. If `vmlaunch` succeeds, it does
not come back: the guest exits to `virt_main` or runs for ever. -/
def virtPercpuInit (id : Nat) : Code :=
  maybe (seq
    (seqs [maybe panic, allocPhysFrame, maybe panic, vmMapPage, maybe panic, vmUnmapPage,
      virtCheckError])
    (seq (locked (vm id) skip)
      (seqs [allocPhysFrame, maybe panic, vmMapPage, maybe panic, vmUnmapPage, virtCheckError,
        virtPgTableSetup, virtControlSetup,
        choice (seq virtCheckError virtDiagnose) (choice virtMain halt)])))

/-- `iommu_init`, which nothing calls. -/
def iommuInit : Code := seqs [vmMapPage, maybe panic, printf]

/-- `mtrr_sync++` and `mtrr_sync--`. -/
def mtrrSync : Code := locked mtrr skip

end Locking

/-! ## The functions -/

/-- The functions that a CPU may call with no lock held. -/
inductive KernelFn where
  | printf | panic | isrHandler | expHandler
  | physicalFreeRange | physicalTakeRange | physicalSetLimit | physicalCheckTable
  | allocPhysFrame | allocPhysFrames | allocPhysFramesAligned | allocPhysFrameLowmem
  | freePhysFrame | freePhysFrames
  | vmCheckMapping | vmMapPage | vmMapPages | vmUnmapPage | vmUnmapPages
  | vmMapPageUnrestricted | vmMapLargePageUnrestricted
  | vmMapLargePage | vmUnmapLargePage | vmMapLargePages | vmUnmapLargePages | vmInit
  | checkBuddyTable | free | malloc | mallocInit
  | allocTssDesc | percpuInit | lapicInit | ioapicMapGsi | ioapicInit
  | acpiInit | smpBootCpu | acpiSecInit | parseBootInfo | mtrrSync
  | virtPgTableSetup | virtGuestDump | virtDiagnose | virtInit | virtPercpuInit (id : Nat) | iommuInit
deriving DecidableEq, Repr

/-- What each of them does with locks. -/
def KernelFn.code : KernelFn → LockCode KernelLock
  | .printf => Locking.printf
  | .panic => Locking.panic
  | .isrHandler => Locking.isrHandler
  | .expHandler => Locking.expHandler
  | .physicalFreeRange => Locking.physicalFreeRange
  | .physicalTakeRange => Locking.physicalTakeRange
  | .physicalSetLimit => Locking.physicalSetLimit
  | .physicalCheckTable => Locking.physicalCheckTable
  | .allocPhysFrame => Locking.allocPhysFrame
  | .allocPhysFrames => Locking.allocPhysFrames
  | .allocPhysFramesAligned => Locking.allocPhysFramesAligned
  | .allocPhysFrameLowmem => Locking.allocPhysFrameLowmem
  | .freePhysFrame => Locking.freePhysFrame
  | .freePhysFrames => Locking.freePhysFrames
  | .vmCheckMapping => Locking.vmCheckMapping
  | .vmMapPage => Locking.vmMapPage
  | .vmMapPages => Locking.vmMapPages
  | .vmUnmapPage => Locking.vmUnmapPage
  | .vmUnmapPages => Locking.vmUnmapPages
  | .vmMapPageUnrestricted => Locking.vmMapPageUnrestricted
  | .vmMapLargePageUnrestricted => Locking.vmMapLargePageUnrestricted
  | .vmMapLargePage => Locking.vmMapLargePage
  | .vmUnmapLargePage => Locking.vmUnmapLargePage
  | .vmMapLargePages => Locking.vmMapLargePages
  | .vmUnmapLargePages => Locking.vmUnmapLargePages
  | .vmInit => Locking.vmInit
  | .checkBuddyTable => Locking.checkBuddyTable
  | .free => Locking.free
  | .malloc => Locking.malloc
  | .mallocInit => Locking.mallocInit
  | .allocTssDesc => Locking.allocTssDesc
  | .percpuInit => Locking.percpuInit
  | .lapicInit => Locking.lapicInit
  | .ioapicMapGsi => Locking.ioapicMapGsi
  | .ioapicInit => Locking.ioapicInit
  | .acpiInit => Locking.acpiInit
  | .smpBootCpu => Locking.smpBootCpu
  | .acpiSecInit => Locking.acpiSecInit
  | .parseBootInfo => Locking.parseBootInfo
  | .mtrrSync => Locking.mtrrSync
  | .virtPgTableSetup => Locking.virtPgTableSetup
  | .virtGuestDump => Locking.virtGuestDump
  | .virtDiagnose => Locking.virtDiagnose
  | .virtInit => Locking.virtInit
  | .virtPercpuInit id => Locking.virtPercpuInit id
  | .iommuInit => Locking.iommuInit

/-- Code may halt with `mm_lock` and `pg_lock` only. -/
def KernelLock.mayHalt (h : List KernelLock) : Bool := h.all fun l => l = .mm || l = .pg

/-- Code keeps this order and gives back what it takes. -/
abbrev KernelLock.Balanced : LockCode KernelLock → Prop :=
  LockCode.Balanced KernelLock.rank KernelLock.mayHalt

theorem KernelLock.rank_lt (l : KernelLock) : l.rank < 7 := by
  cases l <;> simp [rank]

theorem balanced_vm (id : Nat) : KernelLock.Balanced (Locking.locked (.vm id) .skip) :=
  .inr (by simp [Locking.locked, Locking.seqs, LockCode.check])

/-- Every function takes its locks in order and gives them back; two of them never come back. -/
theorem KernelFn.balanced (f : KernelFn) : KernelLock.Balanced f.code := by
  cases f with
  | virtPercpuInit id => exact .choice .skip (.seq (.inr rfl) (.seq (balanced_vm id) (.inr rfl)))
  | panic => exact .inl rfl
  | expHandler => exact .inl rfl
  | _ => exact .inr rfl

/-- What a CPU does that calls these functions one after the other. -/
def callsCode (calls : List KernelFn) : LockCode KernelLock := Locking.seqs (calls.map KernelFn.code)

theorem balanced_callsCode (calls : List KernelFn) : KernelLock.Balanced (callsCode calls) := by
  induction calls with
  | nil => exact .skip
  | cons f calls ih => exact .seq f.balanced ih

/-! ## The law -/

variable {n : Nat} {calls : Fin n → List KernelFn} {paths : Fin n → List (LockEvent KernelLock)}
  {out : Fin n → Bool} {tr : List (LockAct n)} {s : TicketLocks n KernelLock}

/-- The CPUs call these functions, each on some path through their code. -/
def FollowsCalls (calls : Fin n → List KernelFn) (paths : Fin n → List (LockEvent KernelLock))
    (out : Fin n → Bool) : Prop :=
  ∀ i, (callsCode (calls i)).Path (paths i) (out i)

theorem kernel_ordered (hn : n < 65536) (hcalls : FollowsCalls calls paths out)
    (hrun : Runs TicketLocks.Step (.start paths) tr s) :
    s.Ordered KernelLock.rank KernelLock.mayHalt :=
  TicketLocks.runs_ordered hn hcalls (fun i => balanced_callsCode (calls i)) hrun

/-- **The locks of the kernel.** At any point of any run one CPU at a time is inside a lock, a CPU that
has come back from its calls is at none, and one that has halted holds at most `mm_lock` and `pg_lock`.
While no lock is lost so, somebody goes on as long as somebody is on his way; and a CPU that is at
`phy_lock` or at `scr_lock` never waits for one that has halted. The run can be continued until all are
at their end or have halted, or a lock is lost. -/
theorem kernel_lock_order (hn : n < 65536) (hcalls : FollowsCalls calls paths out)
    (hrun : Runs TicketLocks.Step (.start paths) tr s) :
    (∀ l, (s.locks l).Exclusive) ∧
      (∀ i l, s.left i = [] → (s.locks l).pc i = .idle) ∧
      (∀ i l, s.Halted i → s.Holds i l → l = .mm ∨ l = .pg) ∧
      ((∀ i l, s.Halted i → ¬ s.Holds i l) → ∀ i, s.left i ≠ [] → ¬ s.Halted i → s.GoesOn) ∧
      (∀ i l es, s.left i = .acquire l :: es → l = .phy ∨ l = .scr → s.GoesOn) ∧
      ∃ rest t, Runs TicketLocks.Step (.start paths) (tr ++ rest) t ∧ t.Rest := by
  have hordered := kernel_ordered hn hcalls hrun
  have hlost : ∀ i l, s.Halted i → s.Holds i l → l = .mm ∨ l = .pg := by
    intro i l hi hl
    obtain ⟨held, hmay, hheld⟩ := hordered.halted hi
    simpa using List.all_eq_true.mp hmay l ((hheld l).mp hl)
  refine ⟨hordered.exclusive, fun i l hleft => hordered.idle_of_end hleft l, hlost, ?_, ?_, ?_⟩
  · intro hnone i hleft hi
    exact hordered.goesOn KernelLock.rank_lt hn hleft hi hnone
  · intro i l es hleft hl
    refine hordered.goesOn_of_waiting KernelLock.rank_lt hn hleft fun j l' hj hl' => ?_
    -- both rank above the locks that can be lost
    rcases hlost j l' hj hl' with rfl | rfl <;> rcases hl with rfl | rfl <;> decide
  · obtain ⟨rest, t, hmore, -, hrest⟩ := hordered.runs_to_rest KernelLock.rank_lt hn
    exact ⟨rest, t, hrun.trans hmore, hrest⟩

/-- One CPU calls `malloc` while another one is in it, and panics. -/
def twoMallocs : Fin 2 → List (LockEvent KernelLock) :=
  ![[.acquire .mm, .release .mm], [.acquire .mm, .acquire .scr, .release .scr, .halt]]

theorem follows_twoMallocs : FollowsCalls (fun _ => [.malloc]) twoMallocs ![true, false] := by
  have hprintf : Locking.printf.Path ([.acquire .scr] ++ ([] ++ ([.release .scr] ++ []))) true :=
    .seq .acquire (.seq .skip (.seq .release .skip))
  have hpanic : Locking.panic.Path ([.acquire .scr, .release .scr] ++ [.halt]) false := .seq hprintf .halt
  intro i
  fin_cases i
  · have hmalloc : Locking.malloc.Path ([.acquire .mm] ++ ([] ++ ([.release .mm] ++ []))) true :=
      .seq .acquire (.seq (.left .skip) (.seq .release .skip))
    have hcall : (callsCode [.malloc]).Path ([.acquire .mm, .release .mm] ++ []) true := .seq hmalloc .skip
    exact hcall
  · have hmalloc : Locking.malloc.Path ([.acquire .mm] ++ [.acquire .scr, .release .scr, .halt]) false :=
      .seq .acquire (.seqHalt (.right (.roundHalt (.right hpanic))))
    have hcall : (callsCode [.malloc]).Path ([.acquire .mm, .acquire .scr, .release .scr, .halt]) false :=
      .seqHalt hmalloc
    exact hcall

theorem kernel_lock_order_two_mallocs :
    ∃ s, Runs TicketLocks.Step (.start twoMallocs) [.fetchAdd 1, .enter 1, .fetchAdd 0, .spin 0] s ∧
      s.Holds 1 .mm ∧ (∀ l, (s.locks l).Exclusive) ∧
      ∃ rest t, Runs TicketLocks.Step (.start twoMallocs)
        ([.fetchAdd 1, .enter 1, .fetchAdd 0, .spin 0] ++ rest) t ∧ t.Rest := by
  have hrun : ∃ s, Runs TicketLocks.Step (.start twoMallocs)
      ([] ++ [.fetchAdd 1] ++ [.enter 1] ++ [.fetchAdd 0] ++ [.spin 0]) s ∧ s.Holds 1 .mm :=
    ⟨_, .snoc (.snoc (.snoc (.snoc .nil (.fetchAdd rfl rfl)) (.enter rfl rfl)) (.fetchAdd rfl rfl))
      (.spin rfl rfl), rfl⟩
  obtain ⟨s, hrun, hholds⟩ := hrun
  obtain ⟨hexclusive, -, -, -, -, hrest⟩ := kernel_lock_order (by decide) follows_twoMallocs hrun
  exact ⟨s, hrun, hholds, hexclusive, hrest⟩

end Rtv.Smp
