import Mathlib.Data.List.Nodup
import Rtv.Lib.Runs
import Rtv.Mm.Physical

/-!
# Booting the APs

`kernel/acpi.c: acpi_sec_init` calls `smp/smp.c: smp_boot_cpu` for one AP after the other. It maps a
stack, resets `BOOT_STATUS`, stores the stack in `BOOT_STACK`, sends INIT and STARTUP and polls
`BOOT_STATUS`. An AP that starts loads its stack from there, runs `percpu_init` and sets
`BOOT_STATUS`. The two words and `pcpu_counter` are the same for all APs.

The model is the interleaving of the bootstrap CPU, the APs and the delivery of the IPIs, which
arrive in any order. AP `k` is the one whose LAPIC id is `lapic_ids[k + 1]`. Every read or write
of a shared variable is a step. Mapping memory is a step that hands out an address not handed out
before.

## What is proved

- `handshake_when_timely`: in the runs where an AP takes its steps before the bootstrap CPU resets
  `BOOT_STATUS` for a later one, no two APs are on one stack, no two CPUs have the same id or
  per-CPU area, and a boot reported as successful is one.
- `late_ap_breaks_handshake`: an AP that starts after its polling has run out takes the stack of
  the next one, and its `BOOT_STATUS` is taken for the next one's.
-/

namespace Rtv.Smp

open Rtv.Lib Rtv.Mm

/-! ## The CPUs -/

/-- Where the bootstrap CPU is. The number is the AP it boots; `call` is before `smp_boot_cpu`,
`clear` and `setStack` are before the stores to `BOOT_STATUS` and `BOOT_STACK`, with the address of
the page it has mapped, and `poll` has `cnt`. -/
inductive BspPc where
  | call (k : Nat)
  | clear (k va : Nat)
  | setStack (k va : Nat)
  | sendInit (k : Nat)
  | sendStartup (k : Nat)
  | poll (k cnt : Nat)
deriving DecidableEq, Repr

/-- Where an AP is: not started, waiting for STARTUP, in `ap_boot_start`, on its stack, and then in
`percpu_init`: its area is mapped, `percpu_virt` is stored, `pcpu_counter` is read, `pcpu_id` is
written. `up` is past `BOOT_STATUS`. -/
inductive ApPc where
  | off
  | waitSipi
  | entered
  | loaded (sp : Nat)
  | mapped (sp area : Nat)
  | stored (sp area : Nat)
  | counted (sp area c : Nat)
  | inited (sp area id : Nat)
  | up (sp area id : Nat)
deriving DecidableEq, Repr

/-- The stack an AP runs on. -/
def ApPc.stack : ApPc → Option Nat
  | .off | .waitSipi | .entered => none
  | .loaded sp | .mapped sp _ | .stored sp _ | .counted sp _ _ | .inited sp _ _ | .up sp _ _ => some sp

/-- The area an AP has mapped. -/
def ApPc.area : ApPc → Option Nat
  | .off | .waitSipi | .entered | .loaded _ => none
  | .mapped _ area | .stored _ area | .counted _ area _ | .inited _ area _ | .up _ area _ => some area

/-- The `pcpu_id` of an AP that has completed `percpu_init`. -/
def ApPc.id : ApPc → Option Nat
  | .inited _ _ id | .up _ _ id => some id
  | .off | .waitSipi | .entered | .loaded _ | .mapped _ _ | .stored _ _ | .counted _ _ _ => none

/-- What `percpu_virt` and `pcpu_counter` are for an AP between its two uses of them. -/
def ApPc.Counts (percpuVirt : Nat → Nat) (counter : Nat) : ApPc → Prop
  | .stored _ area => percpuVirt counter = area
  | .counted _ area c => c = counter ∧ percpuVirt counter = area
  | .off | .waitSipi | .entered | .loaded _ | .mapped _ _ | .inited _ _ _ | .up _ _ _ => True

/-- An AP that has received STARTUP. -/
def ApPc.started : ApPc → Bool
  | .off | .waitSipi => false
  | .entered | .loaded _ | .mapped _ _ | .stored _ _ | .counted _ _ _ | .inited _ _ _ | .up _ _ _ => true

/-- An interrupt on its way to an AP. -/
inductive Ipi where
  | init (k : Nat)
  | startup (k : Nat)
deriving DecidableEq, Repr

/-- The machine. `used` has the addresses that `vm_map_page` and `vm_map_pages` have handed out,
`result` what `smp_boot_cpu` has returned for an AP. -/
structure SmpBoot where
  bsp : BspPc
  ap : Nat → ApPc
  flight : List Ipi
  status : Nat
  stack : Nat
  counter : Nat
  percpuVirt : Nat → Nat
  used : List Nat
  result : Nat → Option Bool

/-- The steps. A step that maps memory carries the address. -/
inductive BootAct where
  | bsp (va : Nat)
  | deliver (m : Ipi)
  | ap (k va : Nat)
deriving DecidableEq, Repr

/-- `LOOPS_TO_WAIT`. -/
def loopsToWait : Nat := 100000000

namespace SmpBoot

/-- After the bootstrap CPU's own `percpu_init`, which has mapped `area` and taken the id 0. -/
def init (area : Nat) : SmpBoot where
  bsp := .call 0
  ap _ := .off
  flight := []
  status := 0
  stack := 0
  counter := 1
  percpuVirt i := if i = 0 then area else 0
  used := [area]
  result _ := none

/-- AP `k` moves on to `p`. -/
def goto (s : SmpBoot) (k : Nat) (p : ApPc) : SmpBoot := { s with ap := Function.update s.ap k p }

/-- `smp_boot_cpu` returns `ok` for AP `k`. -/
def returned (s : SmpBoot) (k : Nat) (ok : Bool) : SmpBoot :=
  { s with bsp := .call (k + 1), result := Function.update s.result k (some ok) }

/-- The next step of the bootstrap CPU, which boots `n` APs. -/
def bspNext (n : Nat) (s : SmpBoot) (va : Nat) : Option SmpBoot :=
  match s.bsp with
  | .call k =>
    if k < n ∧ va ∉ s.used then some { s with bsp := .clear k va, used := va :: s.used } else none
  | .clear k va => some { s with bsp := .setStack k va, status := 0 }
  | .setStack k va => some { s with bsp := .sendInit k, stack := va + pgSize }
  | .sendInit k => some { s with bsp := .sendStartup k, flight := s.flight ++ [.init k] }
  | .sendStartup k => some { s with bsp := .poll k 0, flight := s.flight ++ [.startup k] }
  | .poll k cnt =>
    if s.status ≠ 0 then some (s.returned k (decide (cnt < loopsToWait)))
    else if cnt < loopsToWait then some { s with bsp := .poll k (cnt + 1) }
    else some (s.returned k false)

/-- What an IPI does to its AP. INIT resets it; STARTUP is ignored unless it waits for it. -/
def receive (s : SmpBoot) : Ipi → SmpBoot
  | .init k => s.goto k .waitSipi
  | .startup k => if s.ap k = .waitSipi then s.goto k .entered else s

/-- The next step of AP `k`. -/
def apNext (s : SmpBoot) (k va : Nat) : Option SmpBoot :=
  match s.ap k with
  | .entered => some (s.goto k (.loaded s.stack))
  | .loaded sp =>
    if va ∉ s.used then some { s.goto k (.mapped sp va) with used := va :: s.used } else none
  | .mapped sp area =>
    some { s.goto k (.stored sp area) with percpuVirt := Function.update s.percpuVirt s.counter area }
  | .stored sp area => some (s.goto k (.counted sp area s.counter))
  | .counted sp area c => some { s.goto k (.inited sp area c) with counter := (c + 1) % 2 ^ 16 }
  | .inited sp area id => some { s.goto k (.up sp area id) with status := 1 }
  | .off | .waitSipi | .up _ _ _ => none

/-- One step of the machine. -/
def next (n : Nat) (s : SmpBoot) : BootAct → Option SmpBoot
  | .bsp va => s.bspNext n va
  | .deliver m => if m ∈ s.flight then some { s.receive m with flight := s.flight.erase m } else none
  | .ap k va => s.apNext k va

/-- One step of the machine, as a relation. -/
def Step (n : Nat) (s : SmpBoot) (a : BootAct) (t : SmpBoot) : Prop := s.next n a = some t

end SmpBoot

/-- How many times the bootstrap CPU has reset `BOOT_STATUS`. -/
def BspPc.rounds : BspPc → Nat
  | .call k | .clear k _ => k
  | .setStack k _ | .sendInit k | .sendStartup k | .poll k _ => k + 1

/-- How many INITs it has sent. -/
def BspPc.inits : BspPc → Nat
  | .call k | .clear k _ | .setStack k _ | .sendInit k => k
  | .sendStartup k | .poll k _ => k + 1

/-- How many STARTUPs it has sent. -/
def BspPc.startups : BspPc → Nat
  | .call k | .clear k _ | .setStack k _ | .sendInit k | .sendStartup k => k
  | .poll k _ => k + 1

/-- How many stacks it has stored in `BOOT_STACK`. -/
def BspPc.words : BspPc → Nat
  | .call k | .clear k _ | .setStack k _ => k
  | .sendInit k | .sendStartup k | .poll k _ => k + 1

/-- The page it has mapped and not yet stored in `BOOT_STACK`. -/
def BspPc.pending : BspPc → Option Nat
  | .clear _ va | .setStack _ va => some va
  | .call _ | .sendInit _ | .sendStartup _ | .poll _ _ => none

/-- It boots `n` APs. -/
def BspPc.Within (n : Nat) : BspPc → Prop
  | .call k => k ≤ n
  | .clear k _ | .setStack k _ | .sendInit k | .sendStartup k | .poll k _ => k < n

theorem BspPc.startups_le (p : BspPc) : p.startups ≤ p.inits ∧ p.startups ≤ p.words := by
  cases p <;> simp [startups, inits, words]

theorem BspPc.words_le (p : BspPc) : p.words ≤ p.rounds := by
  cases p <;> simp [words, rounds]

theorem BspPc.Within.rounds_le {n : Nat} {p : BspPc} (h : p.Within n) : p.rounds ≤ n := by
  cases p with
  | call k => exact h
  | clear k va => exact Nat.le_of_lt h
  | setStack k va => exact h
  | sendInit k => exact h
  | sendStartup k => exact h
  | poll k cnt => exact h

/-- The step is not one of an AP for which the bootstrap CPU has already reset `BOOT_STATUS` again,
to boot a later one. -/
def SmpBoot.Timely (s : SmpBoot) : BootAct → Prop
  | .ap k _ => s.bsp.rounds ≤ k + 1
  | .bsp _ | .deliver _ => True

instance (s : SmpBoot) (a : BootAct) : Decidable (s.Timely a) := by
  cases a <;> unfold SmpBoot.Timely <;> infer_instance

/-- What the handshake is for: no two APs are on one stack, no two CPUs have one id or one per-CPU
area, the bootstrap CPU with its id 0 included, `percpu_virt` leads from an id to the area, and a
boot reported as successful has completed `percpu_init`. -/
structure SmpBoot.Handshake (s : SmpBoot) : Prop where
  ownStack : ∀ k l sp, (s.ap k).stack = some sp → (s.ap l).stack = some sp → k = l
  ids : ∀ k id, (s.ap k).id = some id → id ≠ 0 ∧ ∀ l, (s.ap l).id = some id → k = l
  areas : ∀ k id, (s.ap k).id = some id → s.percpuVirt id ≠ s.percpuVirt 0 ∧
    ∀ l id', (s.ap l).id = some id' → s.percpuVirt id = s.percpuVirt id' → k = l
  own : ∀ k id, (s.ap k).id = some id → (s.ap k).area = some (s.percpuVirt id)
  results : ∀ k, s.result k = some true → (s.ap k).id.isSome = true

namespace SmpBoot

/-! ## One step -/

section Steps

variable {n : Nat} {s t : SmpBoot}

@[simp] theorem goto_self (s : SmpBoot) (k : Nat) (p : ApPc) : (s.goto k p).ap k = p :=
  Function.update_self _ _ _

theorem goto_of_ne (s : SmpBoot) {k l : Nat} (h : l ≠ k) (p : ApPc) : (s.goto k p).ap l = s.ap l :=
  Function.update_of_ne h _ _

@[simp] theorem returned_self (s : SmpBoot) (k : Nat) (ok : Bool) :
    (s.returned k ok).result k = some ok :=
  Function.update_self _ _ _

theorem returned_of_ne (s : SmpBoot) {k l : Nat} (h : l ≠ k) (ok : Bool) :
    (s.returned k ok).result l = s.result l :=
  Function.update_of_ne h _ _

/-- A step of the bootstrap CPU. -/
inductive BspStep (n : Nat) (s : SmpBoot) : SmpBoot → Prop
  | call {k va : Nat} : s.bsp = .call k → k < n → va ∉ s.used →
      BspStep n s { s with bsp := .clear k va, used := va :: s.used }
  | clear {k va : Nat} : s.bsp = .clear k va →
      BspStep n s { s with bsp := .setStack k va, status := 0 }
  | setStack {k va : Nat} : s.bsp = .setStack k va →
      BspStep n s { s with bsp := .sendInit k, stack := va + pgSize }
  | sendInit {k : Nat} : s.bsp = .sendInit k →
      BspStep n s { s with bsp := .sendStartup k, flight := s.flight ++ [.init k] }
  | sendStartup {k : Nat} : s.bsp = .sendStartup k →
      BspStep n s { s with bsp := .poll k 0, flight := s.flight ++ [.startup k] }
  | again {k cnt : Nat} : s.bsp = .poll k cnt → BspStep n s { s with bsp := .poll k (cnt + 1) }
  | done {k cnt : Nat} {ok : Bool} : s.bsp = .poll k cnt → (ok = true → s.status ≠ 0) →
      BspStep n s (s.returned k ok)

/-- A step of AP `k`. -/
inductive ApStep (s : SmpBoot) (k : Nat) : SmpBoot → Prop
  | load : s.ap k = .entered → ApStep s k (s.goto k (.loaded s.stack))
  | map {sp va : Nat} : s.ap k = .loaded sp → va ∉ s.used →
      ApStep s k { s.goto k (.mapped sp va) with used := va :: s.used }
  | store {sp area : Nat} : s.ap k = .mapped sp area →
      ApStep s k { s.goto k (.stored sp area) with
        percpuVirt := Function.update s.percpuVirt s.counter area }
  | count {sp area : Nat} : s.ap k = .stored sp area →
      ApStep s k (s.goto k (.counted sp area s.counter))
  | write {sp area c : Nat} : s.ap k = .counted sp area c →
      ApStep s k { s.goto k (.inited sp area c) with counter := (c + 1) % 2 ^ 16 }
  | signal {sp area id : Nat} : s.ap k = .inited sp area id →
      ApStep s k { s.goto k (.up sp area id) with status := 1 }

/-- A delivery. -/
inductive IpiStep (s : SmpBoot) : SmpBoot → Prop
  | init {k : Nat} : .init k ∈ s.flight →
      IpiStep s { s.goto k .waitSipi with flight := s.flight.erase (.init k) }
  | startup {k : Nat} : .startup k ∈ s.flight → s.ap k = .waitSipi →
      IpiStep s { s.goto k .entered with flight := s.flight.erase (.startup k) }
  | ignored {k : Nat} : .startup k ∈ s.flight →
      IpiStep s { s with flight := s.flight.erase (.startup k) }

/-- A step is one of the bootstrap CPU, of an AP or a delivery. -/
theorem step_cases {a : BootAct} (h : s.Step n a t) :
    BspStep n s t ∨ (∃ m, a = .deliver m ∧ IpiStep s t) ∨ ∃ k va, a = .ap k va ∧ ApStep s k t := by
  cases a with
  | bsp va =>
    refine Or.inl ?_
    rw [Step, next, bspNext] at h
    split at h
    · next k hb =>
      rw [Option.ite_none_right_eq_some] at h
      obtain ⟨⟨hk, hva⟩, ht⟩ := h
      cases ht
      exact .call hb hk hva
    · next k va' hb =>
      cases h
      exact .clear hb
    · next k va' hb =>
      cases h
      exact .setStack hb
    · next k hb =>
      cases h
      exact .sendInit hb
    · next k hb =>
      cases h
      exact .sendStartup hb
    · next k cnt hb =>
      split at h
      · next hstatus =>
        cases h
        exact .done hb fun _ => hstatus
      · split at h
        · cases h
          exact .again hb
        · cases h
          exact .done hb nofun
  | deliver m =>
    refine Or.inr (Or.inl ⟨m, rfl, ?_⟩)
    rw [Step, next, Option.ite_none_right_eq_some] at h
    obtain ⟨hm, ht⟩ := h
    cases ht
    cases m with
    | init k => exact .init hm
    | startup k =>
      by_cases hk : s.ap k = .waitSipi
      · rw [receive, if_pos hk]
        exact .startup hm hk
      · rw [receive, if_neg hk]
        exact .ignored hm
  | ap k va =>
    refine Or.inr (Or.inr ⟨k, va, rfl, ?_⟩)
    rw [Step, next, apNext] at h
    split at h
    · next hk =>
      cases h
      exact .load hk
    · next sp hk =>
      rw [Option.ite_none_right_eq_some] at h
      obtain ⟨hva, ht⟩ := h
      cases ht
      exact .map hk hva
    · next sp area hk =>
      cases h
      exact .store hk
    · next sp area hk =>
      cases h
      exact .count hk
    · next sp area c hk =>
      cases h
      exact .write hk
    · next sp area id hk =>
      cases h
      exact .signal hk
    · cases h
    · cases h
    · cases h

end Steps

/-! ## The IPIs -/

/-- What has been sent and what has arrived. -/
structure Sent (s : SmpBoot) : Prop where
  nodup : s.flight.Nodup
  init : ∀ k, .init k ∈ s.flight → k < s.bsp.inits ∧ s.ap k = .off
  startup : ∀ k, .startup k ∈ s.flight → k < s.bsp.startups
  on : ∀ k, s.ap k ≠ .off → k < s.bsp.inits
  started : ∀ k, (s.ap k).started = true → k < s.bsp.startups

section Sending

variable {n : Nat} {s t : SmpBoot} {k l : Nat}

theorem ApStep.frame (h : ApStep s k t) :
    t.bsp = s.bsp ∧ t.flight = s.flight ∧ t.stack = s.stack ∧ t.result = s.result ∧
      (s.ap k).started = true ∧ (t.ap k).started = true ∧ ∀ l, l ≠ k → t.ap l = s.ap l := by
  cases h with
  | load hk => exact ⟨rfl, rfl, rfl, rfl, by rw [hk]; rfl, by simp; rfl, fun l hl => s.goto_of_ne hl _⟩
  | map hk _ => exact ⟨rfl, rfl, rfl, rfl, by rw [hk]; rfl, by simp; rfl, fun l hl => s.goto_of_ne hl _⟩
  | store hk => exact ⟨rfl, rfl, rfl, rfl, by rw [hk]; rfl, by simp; rfl, fun l hl => s.goto_of_ne hl _⟩
  | count hk => exact ⟨rfl, rfl, rfl, rfl, by rw [hk]; rfl, by simp; rfl, fun l hl => s.goto_of_ne hl _⟩
  | write hk => exact ⟨rfl, rfl, rfl, rfl, by rw [hk]; rfl, by simp; rfl, fun l hl => s.goto_of_ne hl _⟩
  | signal hk => exact ⟨rfl, rfl, rfl, rfl, by rw [hk]; rfl, by simp; rfl, fun l hl => s.goto_of_ne hl _⟩

/-- An AP that takes a step in time is the one that is being booted, or was last. -/
theorem Sent.rounds_eq (h : s.Sent) (hk : (s.ap k).started = true) (htime : s.bsp.rounds ≤ k + 1) :
    s.bsp.rounds = k + 1 ∧ s.bsp.words = k + 1 := by
  have hsent := h.started k hk
  have hwords := s.bsp.startups_le.2
  have hrounds := s.bsp.words_le
  constructor
  · exact le_antisymm htime (lt_of_lt_of_le hsent (le_trans hwords hrounds))
  · exact le_antisymm (le_trans hrounds htime) (lt_of_lt_of_le hsent hwords)

/-- A new message. -/
theorem Sent.nodup_append (h : s.Sent) {m : Ipi} (hm : m ∉ s.flight) : (s.flight ++ [m]).Nodup :=
  h.nodup.append (List.nodup_singleton m) (List.disjoint_singleton.mpr hm)

/-- A step that sends nothing. -/
theorem Sent.same (h : s.Sent) (hap : t.ap = s.ap) (hflight : t.flight = s.flight)
    (hinits : t.bsp.inits = s.bsp.inits) (hstartups : t.bsp.startups = s.bsp.startups) :
    t.Sent := by
  constructor
  · rw [hflight]
    exact h.nodup
  · rw [hflight, hinits, hap]
    exact h.init
  · rw [hflight, hstartups]
    exact h.startup
  · rw [hinits, hap]
    exact h.on
  · rw [hstartups, hap]
    exact h.started

/-- The bootstrap CPU sends each message once. -/
theorem Sent.bspStep (h : s.Sent) (hstep : BspStep n s t) : t.Sent := by
  cases hstep with
  | call hb _ _ => exact h.same rfl rfl (by rw [hb]; rfl) (by rw [hb]; rfl)
  | clear hb => exact h.same rfl rfl (by rw [hb]; rfl) (by rw [hb]; rfl)
  | setStack hb => exact h.same rfl rfl (by rw [hb]; rfl) (by rw [hb]; rfl)
  | again hb => exact h.same rfl rfl (by rw [hb]; rfl) (by rw [hb]; rfl)
  | done hb _ => exact h.same rfl rfl (by rw [hb]; rfl) (by rw [hb]; rfl)
  | @sendInit k hb =>
    have hinits : s.bsp.inits = k := by rw [hb]; rfl
    have hstartups : s.bsp.startups = k := by rw [hb]; rfl
    refine ⟨h.nodup_append ?_, ?_, ?_, ?_, hstartups ▸ h.started⟩
    · intro hm
      exact absurd (h.init k hm).1 (by rw [hinits]; exact lt_irrefl k)
    · intro l hl
      rcases List.mem_append.mp hl with hold | hnew
      · exact ⟨Nat.lt_succ_of_lt (hinits ▸ (h.init l hold).1), (h.init l hold).2⟩
      · cases List.mem_singleton.mp hnew
        refine ⟨Nat.lt_succ_self k, ?_⟩
        by_contra hon
        exact absurd (h.on k hon) (by rw [hinits]; exact lt_irrefl k)
    · intro l hl
      rcases List.mem_append.mp hl with hold | hnew
      · exact hstartups ▸ h.startup l hold
      · cases List.mem_singleton.mp hnew
    · intro l hl
      exact Nat.lt_succ_of_lt (hinits ▸ h.on l hl)
  | @sendStartup k hb =>
    have hinits : s.bsp.inits = k + 1 := by rw [hb]; rfl
    have hstartups : s.bsp.startups = k := by rw [hb]; rfl
    refine ⟨h.nodup_append ?_, ?_, ?_, ?_, ?_⟩
    · intro hm
      exact absurd (h.startup k hm) (by rw [hstartups]; exact lt_irrefl k)
    · intro l hl
      rcases List.mem_append.mp hl with hold | hnew
      · have hinit := h.init l hold
        rwa [hinits] at hinit
      · cases List.mem_singleton.mp hnew
    · intro l hl
      rcases List.mem_append.mp hl with hold | hnew
      · exact Nat.lt_succ_of_lt (hstartups ▸ h.startup l hold)
      · cases List.mem_singleton.mp hnew
        exact Nat.lt_succ_self k
    · intro l hl
      have hon := h.on l hl
      rwa [hinits] at hon
    · intro l hl
      exact Nat.lt_succ_of_lt (hstartups ▸ h.started l hl)

/-- An INIT arrives once, at an AP that is off. -/
theorem Sent.ipiStep (h : s.Sent) (hstep : IpiStep s t) : t.Sent := by
  cases hstep with
  | @init k hm =>
    refine ⟨h.nodup.erase _, ?_, ?_, ?_, ?_⟩
    · intro l hl
      obtain ⟨hne, hl⟩ := (h.nodup.mem_erase_iff).mp hl
      have hlk : l ≠ k := fun heq => hne (heq ▸ rfl)
      exact ⟨(h.init l hl).1, (s.goto_of_ne hlk _).trans (h.init l hl).2⟩
    · intro l hl
      exact h.startup l (List.mem_of_mem_erase hl)
    · intro l hl
      by_cases hlk : l = k
      · exact hlk ▸ (h.init k hm).1
      · exact h.on l fun hoff => hl ((s.goto_of_ne hlk _).trans hoff)
    · intro l hl
      by_cases hlk : l = k
      · rw [hlk] at hl
        simp [ApPc.started] at hl
      · exact h.started l ((congrArg ApPc.started (s.goto_of_ne hlk _)).symm.trans hl)
  | @startup k hm hk =>
    refine ⟨h.nodup.erase _, ?_, ?_, ?_, ?_⟩
    · intro l hl
      have hmem : .init l ∈ s.flight := List.mem_of_mem_erase hl
      have hlk : l ≠ k := by
        rintro rfl
        rw [(h.init l hmem).2] at hk
        cases hk
      exact ⟨(h.init l hmem).1, (s.goto_of_ne hlk _).trans (h.init l hmem).2⟩
    · intro l hl
      exact h.startup l (List.mem_of_mem_erase hl)
    · intro l hl
      by_cases hlk : l = k
      · exact h.on l (by rw [hlk, hk]; nofun)
      · exact h.on l fun hoff => hl ((s.goto_of_ne hlk _).trans hoff)
    · intro l hl
      by_cases hlk : l = k
      · exact hlk ▸ h.startup k hm
      · exact h.started l ((congrArg ApPc.started (s.goto_of_ne hlk _)).symm.trans hl)
  | @ignored k hm =>
    refine ⟨h.nodup.erase _, ?_, ?_, h.on, h.started⟩
    · intro l hl
      exact h.init l (List.mem_of_mem_erase hl)
    · intro l hl
      exact h.startup l (List.mem_of_mem_erase hl)

/-- An AP that steps stays started. -/
theorem Sent.apStep (h : s.Sent) (hstep : ApStep s k t) : t.Sent := by
  obtain ⟨hbsp, hflight, -, -, hk, -, hother⟩ := hstep.frame
  have hsent := h.started k hk
  refine ⟨hflight ▸ h.nodup, ?_, ?_, ?_, ?_⟩
  · intro l hl
    rw [hflight] at hl
    have hlk : l ≠ k := by
      rintro rfl
      rw [(h.init l hl).2] at hk
      cases hk
    rw [hbsp, hother l hlk]
    exact h.init l hl
  · rw [hbsp, hflight]
    exact h.startup
  · intro l hl
    rw [hbsp]
    by_cases hlk : l = k
    · exact hlk ▸ lt_of_lt_of_le hsent s.bsp.startups_le.1
    · exact h.on l (hother l hlk ▸ hl)
  · intro l hl
    rw [hbsp]
    by_cases hlk : l = k
    · exact hlk ▸ hsent
    · exact h.started l (hother l hlk ▸ hl)

/-- A delivery reaches APs that have no stack yet. -/
theorem Sent.ipiStep_ap (h : s.Sent) (hstep : IpiStep s t) (l : Nat) :
    t.ap l = s.ap l ∨ (s.ap l).started = false ∧ (t.ap l = .waitSipi ∨ t.ap l = .entered) := by
  cases hstep with
  | @init k hm =>
    by_cases hlk : l = k
    · rw [hlk, (h.init k hm).2]
      exact Or.inr ⟨rfl, Or.inl (s.goto_self k _)⟩
    · exact Or.inl (s.goto_of_ne hlk _)
  | @startup k hm hk =>
    by_cases hlk : l = k
    · rw [hlk, hk]
      exact Or.inr ⟨rfl, Or.inr (s.goto_self k _)⟩
    · exact Or.inl (s.goto_of_ne hlk _)
  | ignored _ => exact Or.inl rfl

theorem Sent.ipiStep_stack (h : s.Sent) (hstep : IpiStep s t) (l : Nat) :
    (t.ap l).stack = (s.ap l).stack ∧ (t.ap l).area = (s.ap l).area ∧ (t.ap l).id = (s.ap l).id := by
  rcases h.ipiStep_ap hstep l with heq | ⟨hoff, hp⟩
  · rw [heq]
    exact ⟨rfl, rfl, rfl⟩
  · cases hs : s.ap l with
    | off => rcases hp with hp | hp <;> rw [hp] <;> exact ⟨rfl, rfl, rfl⟩
    | waitSipi => rcases hp with hp | hp <;> rw [hp] <;> exact ⟨rfl, rfl, rfl⟩
    | entered => simp [hs, ApPc.started] at hoff
    | loaded sp => simp [hs, ApPc.started] at hoff
    | mapped sp area => simp [hs, ApPc.started] at hoff
    | stored sp area => simp [hs, ApPc.started] at hoff
    | counted sp area c => simp [hs, ApPc.started] at hoff
    | inited sp area id => simp [hs, ApPc.started] at hoff
    | up sp area id => simp [hs, ApPc.started] at hoff

end Sending

/-! ## The stacks -/

/-- Whose the stacks are: the APs' are apart, and the one in `BOOT_STACK` belongs to the AP it was
stored for. -/
structure Stacks (s : SmpBoot) : Prop where
  given : ∀ k sp, (s.ap k).stack = some sp → ∃ va ∈ s.used, sp = va + pgSize
  distinct : ∀ k l sp, (s.ap k).stack = some sp → (s.ap l).stack = some sp → k = l
  none : s.bsp.words = 0 → s.stack = 0
  word : ∀ k, s.bsp.words = k + 1 → (∃ va ∈ s.used, s.stack = va + pgSize) ∧
    ∀ l, (s.ap l).stack = some s.stack → l = k
  pending : ∀ va, s.bsp.pending = some va → va ∈ s.used ∧ s.stack ≠ va + pgSize ∧
    ∀ l, (s.ap l).stack ≠ some (va + pgSize)

section Stacking

variable {n : Nat} {s t : SmpBoot} {k : Nat}

/-- A step that leaves the stacks as they are. -/
theorem Stacks.same (h : s.Stacks) (hap : ∀ l, (t.ap l).stack = (s.ap l).stack)
    (hstack : t.stack = s.stack) (hwords : t.bsp.words = s.bsp.words)
    (hpending : ∀ va, t.bsp.pending = some va → s.bsp.pending = some va)
    (hused : ∀ va ∈ s.used, va ∈ t.used) : t.Stacks := by
  constructor
  · intro k sp hk
    obtain ⟨va, hva, hsp⟩ := h.given k sp (hap k ▸ hk)
    exact ⟨va, hused va hva, hsp⟩
  · intro k l sp hk hl
    exact h.distinct k l sp (hap k ▸ hk) (hap l ▸ hl)
  · rw [hwords, hstack]
    exact h.none
  · intro k hk
    obtain ⟨⟨va, hva, hsp⟩, hl⟩ := h.word k (hwords ▸ hk)
    rw [hstack]
    exact ⟨⟨va, hused va hva, hsp⟩, fun l heq => hl l (hap l ▸ heq)⟩
  · intro va hva
    obtain ⟨hmem, hne, hl⟩ := h.pending va (hpending va hva)
    rw [hstack]
    exact ⟨hused va hmem, hne, fun l => hap l ▸ hl l⟩

/-- The bootstrap CPU stores a stack that no AP has. -/
theorem Stacks.bspStep (h : s.Stacks) (hstep : BspStep n s t) : t.Stacks := by
  cases hstep with
  | @call k va hb hk hva =>
    have hfresh : ∀ v ∈ s.used, v + pgSize ≠ va + pgSize := by
      intro v hv heq
      exact hva (Nat.add_right_cancel heq ▸ hv)
    have hwords : s.bsp.words = k := by rw [hb]; rfl
    constructor
    · intro l sp hl
      obtain ⟨v, hv, hsp⟩ := h.given l sp hl
      exact ⟨v, List.mem_cons_of_mem _ hv, hsp⟩
    · exact h.distinct
    · intro hzero
      exact h.none (hwords.trans hzero)
    · intro l hl
      obtain ⟨⟨v, hv, hsp⟩, hothers⟩ := h.word l (hwords.trans hl)
      exact ⟨⟨v, List.mem_cons_of_mem _ hv, hsp⟩, hothers⟩
    · intro v hv
      cases hv
      refine ⟨List.mem_cons_self, ?_, ?_⟩
      · cases k with
        | zero =>
          have hzero : s.stack = 0 := h.none hwords
          intro heq
          rw [hzero] at heq
          exact absurd heq (by simp [pgSize])
        | succ k =>
          obtain ⟨⟨v, hv, hsp⟩, -⟩ := h.word k hwords
          exact fun heq => hfresh v hv (hsp ▸ heq)
      · intro l hl
        obtain ⟨v, hv, hsp⟩ := h.given l _ hl
        exact hfresh v hv hsp.symm
  | clear hb =>
    refine h.same (fun _ => rfl) rfl (by rw [hb]; rfl) ?_ fun _ hv => hv
    intro v hv
    rw [hb]
    exact hv
  | @setStack k va hb =>
    obtain ⟨hmem, -, hothers⟩ := h.pending va (by rw [hb]; rfl)
    constructor
    · exact h.given
    · exact h.distinct
    · nofun
    · intro l hl
      exact ⟨⟨va, hmem, rfl⟩, fun m hm => absurd hm (hothers m)⟩
    · nofun
  | sendInit hb => exact h.same (fun _ => rfl) rfl (by rw [hb]; rfl) nofun fun _ hv => hv
  | sendStartup hb => exact h.same (fun _ => rfl) rfl (by rw [hb]; rfl) nofun fun _ hv => hv
  | again hb => exact h.same (fun _ => rfl) rfl (by rw [hb]; rfl) nofun fun _ hv => hv
  | done hb _ => exact h.same (fun _ => rfl) rfl (by rw [hb]; rfl) nofun fun _ hv => hv

/-- A step that leaves a part of the AP's state as it is. -/
theorem field_goto {α : Type} (f : ApPc → α) {p : ApPc} (hp : f p = f (s.ap k)) (l : Nat) :
    f ((s.goto k p).ap l) = f (s.ap l) := by
  by_cases hl : l = k
  · rw [hl, goto_self, hp]
  · rw [goto_of_ne s hl]

/-- A step that gives the AP a stack, an area or an id. -/
theorem field_goto_cases {f : ApPc → Option Nat} {p : ApPc} {v : Nat} (hp : f p = some v) {l a : Nat}
    (hl : f ((s.goto k p).ap l) = some a) : l = k ∧ v = a ∨ l ≠ k ∧ f (s.ap l) = some a := by
  by_cases hlk : l = k
  · rw [hlk, goto_self, hp] at hl
    exact Or.inl ⟨hlk, Option.some.inj hl⟩
  · rw [goto_of_ne s hlk] at hl
    exact Or.inr ⟨hlk, hl⟩

/-- An AP that loads its stack in time loads the one stored for it. -/
theorem Stacks.apStep (h : s.Stacks) (hsent : s.Sent) (htime : s.bsp.rounds ≤ k + 1)
    (hstep : ApStep s k t) : t.Stacks := by
  cases hstep with
  | load hk =>
    obtain ⟨-, hwords⟩ := hsent.rounds_eq (by rw [hk]; rfl) htime
    obtain ⟨hgiven, hothers⟩ := h.word k hwords
    have hcases : ∀ {l sp}, ((s.goto k (.loaded s.stack)).ap l).stack = some sp →
        l = k ∧ s.stack = sp ∨ l ≠ k ∧ (s.ap l).stack = some sp := field_goto_cases rfl
    constructor
    · intro l sp hl
      rcases hcases hl with ⟨-, rfl⟩ | ⟨-, hl⟩
      · exact hgiven
      · exact h.given l sp hl
    · intro l m sp hl hm
      rcases hcases hl with ⟨hlk, hsp⟩ | ⟨-, hlold⟩
      · rcases hcases hm with ⟨hmk, -⟩ | ⟨-, hmold⟩
        · exact hlk.trans hmk.symm
        · exact hlk.trans (hothers m (hsp ▸ hmold)).symm
      · rcases hcases hm with ⟨hmk, hsp⟩ | ⟨-, hmold⟩
        · exact (hothers l (hsp ▸ hlold)).trans hmk.symm
        · exact h.distinct l m sp hlold hmold
    · intro hzero
      rw [show s.bsp.words = 0 from hzero] at hwords
      cases hwords
    · intro m hm
      obtain rfl : k = m := Nat.succ.inj (hwords.symm.trans hm)
      refine ⟨hgiven, ?_⟩
      intro l hl
      rcases hcases hl with ⟨hlk, -⟩ | ⟨-, hl⟩
      · exact hlk
      · exact hothers l hl
    · intro va hva
      obtain ⟨hmem, hne, hl⟩ := h.pending va hva
      refine ⟨hmem, hne, ?_⟩
      intro l hstack
      rcases hcases hstack with ⟨-, heq⟩ | ⟨-, hold⟩
      · exact hne heq
      · exact hl l hold
  | map hk _ =>
    exact h.same (field_goto ApPc.stack (by rw [hk]; rfl)) rfl rfl (fun _ hv => hv)
      fun _ hv => List.mem_cons_of_mem _ hv
  | store hk =>
    exact h.same (field_goto ApPc.stack (by rw [hk]; rfl)) rfl rfl (fun _ hv => hv) fun _ hv => hv
  | count hk =>
    exact h.same (field_goto ApPc.stack (by rw [hk]; rfl)) rfl rfl (fun _ hv => hv) fun _ hv => hv
  | write hk =>
    exact h.same (field_goto ApPc.stack (by rw [hk]; rfl)) rfl rfl (fun _ hv => hv) fun _ hv => hv
  | signal hk =>
    exact h.same (field_goto ApPc.stack (by rw [hk]; rfl)) rfl rfl (fun _ hv => hv) fun _ hv => hv

/-- A delivery leaves the stacks alone. -/
theorem Stacks.ipiStep (h : s.Stacks) (hsent : s.Sent) (hstep : IpiStep s t) : t.Stacks := by
  have hap := fun l => (hsent.ipiStep_stack hstep l).1
  cases hstep with
  | init _ => exact h.same hap rfl rfl (fun _ hv => hv) fun _ hv => hv
  | startup _ _ => exact h.same hap rfl rfl (fun _ hv => hv) fun _ hv => hv
  | ignored _ => exact h.same hap rfl rfl (fun _ hv => hv) fun _ hv => hv

end Stacking

/-! ## The ids and the areas -/

/-- Whose the ids and areas are. `area` is the bootstrap CPU's. -/
structure Percpu (n area : Nat) (s : SmpBoot) : Prop where
  zero : s.percpuVirt 0 = area
  base : area ∈ s.used
  given : ∀ k a, (s.ap k).area = some a → a ∈ s.used ∧ a ≠ area
  distinct : ∀ k l a, (s.ap k).area = some a → (s.ap l).area = some a → k = l
  ids : ∀ k id, (s.ap k).id = some id →
    1 ≤ id ∧ id < s.counter ∧ (s.ap k).area = some (s.percpuVirt id)
  current : ∀ k, s.bsp.rounds ≤ k + 1 → (s.ap k).Counts s.percpuVirt s.counter
  pos : 1 ≤ s.counter
  bound : s.counter ≤ s.bsp.rounds + 1
  room : ∀ k, s.bsp.rounds = k + 1 → (s.ap k).id = none → s.counter ≤ s.bsp.rounds
  within : s.bsp.Within n

section Counting

variable {n area : Nat} {s t : SmpBoot} {k : Nat}

/-- A step that leaves them as they are. -/
theorem Percpu.same (h : s.Percpu n area) (harea : ∀ l, (t.ap l).area = (s.ap l).area)
    (hid : ∀ l, (t.ap l).id = (s.ap l).id)
    (hcurrent : ∀ l, s.bsp.rounds ≤ l + 1 → (t.ap l).Counts s.percpuVirt s.counter)
    (hvirt : t.percpuVirt = s.percpuVirt) (hcounter : t.counter = s.counter)
    (hused : ∀ va ∈ s.used, va ∈ t.used) (hrounds : t.bsp.rounds = s.bsp.rounds)
    (hwithin : t.bsp.Within n) : t.Percpu n area := by
  constructor
  · rw [hvirt]
    exact h.zero
  · exact hused _ h.base
  · intro k a hk
    rw [harea] at hk
    exact ⟨hused a (h.given k a hk).1, (h.given k a hk).2⟩
  · intro k l a hk hl
    exact h.distinct k l a (harea k ▸ hk) (harea l ▸ hl)
  · intro k id hk
    rw [hid] at hk
    rw [harea, hcounter, hvirt]
    exact h.ids k id hk
  · rw [hrounds, hvirt, hcounter]
    exact hcurrent
  · rw [hcounter]
    exact h.pos
  · rw [hcounter, hrounds]
    exact h.bound
  · intro k hk hnone
    rw [hid] at hnone
    rw [hcounter, hrounds]
    exact h.room k (hrounds ▸ hk) hnone
  · exact hwithin

/-- The bootstrap CPU does not touch them. -/
theorem Percpu.bspStep (h : s.Percpu n area) (hstep : BspStep n s t) : t.Percpu n area := by
  -- only the reset of `BOOT_STATUS` begins a round
  have same : ∀ {u : SmpBoot}, u.ap = s.ap → u.percpuVirt = s.percpuVirt → u.counter = s.counter →
      (∀ va ∈ s.used, va ∈ u.used) → u.bsp.rounds = s.bsp.rounds → u.bsp.Within n →
      u.Percpu n area := by
    intro u hap hvirt hcounter
    exact h.same (fun l => by rw [hap]) (fun l => by rw [hap]) (hap ▸ h.current) hvirt hcounter
  have hwithin := h.within
  cases hstep with
  | call hb hk _ =>
    exact same rfl rfl rfl (fun _ hv => List.mem_cons_of_mem _ hv) (by rw [hb]; rfl) hk
  | @clear k va hb =>
    have hrounds : s.bsp.rounds = k := by rw [hb]; rfl
    rw [hb] at hwithin
    refine ⟨h.zero, h.base, h.given, h.distinct, h.ids, ?_, h.pos, ?_, ?_, hwithin⟩
    · intro l hl
      exact h.current l (hrounds ▸ Nat.le_of_succ_le hl)
    · exact le_trans h.bound (hrounds ▸ Nat.le_succ _)
    · intro l _ _
      exact le_trans h.bound (hrounds ▸ le_rfl)
  | setStack hb =>
    rw [hb] at hwithin
    exact same rfl rfl rfl (fun _ hv => hv) (by rw [hb]; rfl) hwithin
  | sendInit hb =>
    rw [hb] at hwithin
    exact same rfl rfl rfl (fun _ hv => hv) (by rw [hb]; rfl) hwithin
  | sendStartup hb =>
    rw [hb] at hwithin
    exact same rfl rfl rfl (fun _ hv => hv) (by rw [hb]; rfl) hwithin
  | again hb =>
    rw [hb] at hwithin
    exact same rfl rfl rfl (fun _ hv => hv) (by rw [hb]; rfl) hwithin
  | done hb _ =>
    rw [hb] at hwithin
    exact same rfl rfl rfl (fun _ hv => hv) (by rw [hb]; rfl) hwithin

/-- A delivery does not touch them. -/
theorem Percpu.ipiStep (h : s.Percpu n area) (hsent : s.Sent) (hstep : IpiStep s t) :
    t.Percpu n area := by
  have hap := hsent.ipiStep_stack hstep
  have hcurrent : ∀ l, s.bsp.rounds ≤ l + 1 → (t.ap l).Counts s.percpuVirt s.counter := by
    intro l hl
    rcases hsent.ipiStep_ap hstep l with heq | ⟨-, hp | hp⟩
    · rw [heq]
      exact h.current l hl
    · rw [hp]
      trivial
    · rw [hp]
      trivial
  cases hstep with
  | init _ =>
    exact h.same (fun l => (hap l).2.1) (fun l => (hap l).2.2) hcurrent rfl rfl (fun _ hv => hv) rfl
      h.within
  | startup _ _ =>
    exact h.same (fun l => (hap l).2.1) (fun l => (hap l).2.2) hcurrent rfl rfl (fun _ hv => hv) rfl
      h.within
  | ignored _ =>
    exact h.same (fun l => (hap l).2.1) (fun l => (hap l).2.2) hcurrent rfl rfl (fun _ hv => hv) rfl
      h.within

theorem Percpu.counts_goto (h : s.Percpu n area) {p : ApPc}
    (hp : p.Counts s.percpuVirt s.counter) (l : Nat) (hl : s.bsp.rounds ≤ l + 1) :
    ((s.goto k p).ap l).Counts s.percpuVirt s.counter := by
  by_cases hlk : l = k
  · rw [hlk, goto_self]
    exact hp
  · rw [goto_of_ne s hlk]
    exact h.current l hl

/-- While AP `k` takes a step in time, no other AP is between its two uses of the counter and still
in time. -/
theorem Sent.counts_other (hsent : s.Sent) (hk : (s.ap k).started = true)
    (htime : s.bsp.rounds ≤ k + 1) {l : Nat} (hlk : l ≠ k) (hl : s.bsp.rounds ≤ l + 1)
    (virt : Nat → Nat) (counter : Nat) : (s.ap l).Counts virt counter := by
  have hoff : (s.ap l).started = false := by
    by_contra hon
    have hrounds := (hsent.rounds_eq hk htime).1
    have hrounds' := (hsent.rounds_eq (Bool.of_not_eq_false hon) hl).1
    exact hlk (Nat.succ.inj (hrounds'.symm.trans hrounds))
  cases hp : s.ap l with
  | off => trivial
  | waitSipi => trivial
  | entered => trivial
  | loaded sp => trivial
  | mapped sp a => trivial
  | stored sp a => simp [hp, ApPc.started] at hoff
  | counted sp a c => simp [hp, ApPc.started] at hoff
  | inited sp a id => trivial
  | up sp a id => trivial

/-- A new area is mapped. -/
theorem Percpu.map (h : s.Percpu n area) {sp va : Nat} (hk : s.ap k = .loaded sp) (hva : va ∉ s.used) :
    SmpBoot.Percpu n area { s.goto k (.mapped sp va) with used := va :: s.used } := by
  have hid := field_goto (s := s) (p := .mapped sp va) ApPc.id (by rw [hk]; rfl)
  have hcases : ∀ {l a}, ((s.goto k (.mapped sp va)).ap l).area = some a →
      l = k ∧ va = a ∨ l ≠ k ∧ (s.ap l).area = some a := field_goto_cases rfl
  exact {
    zero := h.zero
    base := List.mem_cons_of_mem _ h.base
    given := by
      intro l a hl
      rcases hcases hl with ⟨-, rfl⟩ | ⟨-, hold⟩
      · exact ⟨List.mem_cons_self, fun heq => hva (heq ▸ h.base)⟩
      · exact ⟨List.mem_cons_of_mem _ (h.given l a hold).1, (h.given l a hold).2⟩
    distinct := by
      intro l m a hl hm
      rcases hcases hl with ⟨hlk, hla⟩ | ⟨-, hlold⟩
      · rcases hcases hm with ⟨hmk, -⟩ | ⟨-, hmold⟩
        · exact hlk.trans hmk.symm
        · exact absurd (hla ▸ (h.given m a hmold).1) hva
      · rcases hcases hm with ⟨-, hma⟩ | ⟨-, hmold⟩
        · exact absurd (hma ▸ (h.given l a hlold).1) hva
        · exact h.distinct l m a hlold hmold
    ids := by
      intro l id hl
      have hold : (s.ap l).id = some id := (hid l).symm.trans hl
      have hlk : l ≠ k := by
        rintro rfl
        rw [hk] at hold
        cases hold
      obtain ⟨hpos, hlt, harea⟩ := h.ids l id hold
      exact ⟨hpos, hlt, (congrArg ApPc.area (s.goto_of_ne hlk _)).trans harea⟩
    current := h.counts_goto trivial
    pos := h.pos
    bound := h.bound
    room := fun m hm hnone => h.room m hm ((hid m).symm.trans hnone)
    within := h.within }

/-- The area is entered at the counter, which no other AP is about to use. -/
theorem Percpu.store (h : s.Percpu n area) (hsent : s.Sent) (htime : s.bsp.rounds ≤ k + 1) {sp a : Nat}
    (hk : s.ap k = .mapped sp a) :
    SmpBoot.Percpu n area { s.goto k (.stored sp a) with
      percpuVirt := Function.update s.percpuVirt s.counter a } := by
  have harea := field_goto (s := s) (p := .stored sp a) ApPc.area (by rw [hk]; rfl)
  have hid := field_goto (s := s) (p := .stored sp a) ApPc.id (by rw [hk]; rfl)
  exact {
    zero := (Function.update_of_ne (Nat.ne_of_lt h.pos) _ _).trans h.zero
    base := h.base
    given := fun l b hl => h.given l b ((harea l).symm.trans hl)
    distinct := fun l m b hl hm => h.distinct l m b ((harea l).symm.trans hl) ((harea m).symm.trans hm)
    ids := by
      intro l id hl
      obtain ⟨hpos, hlt, hown⟩ := h.ids l id ((hid l).symm.trans hl)
      refine ⟨hpos, hlt, (harea l).trans (hown.trans ?_)⟩
      exact congrArg some (Function.update_of_ne (Nat.ne_of_lt hlt) _ _).symm
    current := by
      intro l hl
      change ((s.goto k (.stored sp a)).ap l).Counts _ _
      by_cases hlk : l = k
      · rw [hlk, goto_self]
        exact Function.update_self _ _ _
      · rw [goto_of_ne s hlk]
        exact hsent.counts_other (by rw [hk]; rfl) htime hlk hl _ _
    pos := h.pos
    bound := h.bound
    room := fun m hm hnone => h.room m hm ((hid m).symm.trans hnone)
    within := h.within }

/-- The AP gets the counter as its id, and the counter goes on. -/
theorem Percpu.write (h : s.Percpu n area) (hsent : s.Sent) (hn : n + 1 < 2 ^ 16)
    (htime : s.bsp.rounds ≤ k + 1) {sp a c : Nat} (hk : s.ap k = .counted sp a c) :
    SmpBoot.Percpu n area { s.goto k (.inited sp a c) with counter := (c + 1) % 2 ^ 16 } := by
  have hcurrent := h.current k htime
  rw [hk] at hcurrent
  obtain ⟨rfl, hvirt⟩ := hcurrent
  obtain ⟨hrounds, -⟩ := hsent.rounds_eq (by rw [hk]; rfl) htime
  have hroom := h.room k hrounds (by rw [hk]; rfl)
  have hwrap : (s.counter + 1) % 2 ^ 16 = s.counter + 1 := by
    have hle := h.within.rounds_le
    omega
  have harea := field_goto (s := s) (p := .inited sp a s.counter) ApPc.area (by rw [hk]; rfl)
  rw [hwrap]
  exact {
    zero := h.zero
    base := h.base
    given := fun l b hl => h.given l b ((harea l).symm.trans hl)
    distinct := fun l m b hl hm => h.distinct l m b ((harea l).symm.trans hl) ((harea m).symm.trans hm)
    ids := by
      intro l id hl
      change ((s.goto k (.inited sp a s.counter)).ap l).id = some id at hl
      by_cases hlk : l = k
      · rw [hlk, goto_self] at hl
        cases hl
        refine ⟨h.pos, Nat.lt_succ_self _, (harea l).trans ?_⟩
        rw [hlk, hk]
        exact congrArg some hvirt.symm
      · rw [goto_of_ne s hlk] at hl
        obtain ⟨hpos, hlt, hown⟩ := h.ids l id hl
        exact ⟨hpos, Nat.lt_succ_of_lt hlt, (harea l).trans hown⟩
    current := by
      intro l hl
      change ((s.goto k (.inited sp a s.counter)).ap l).Counts _ _
      by_cases hlk : l = k
      · rw [hlk, goto_self]
        trivial
      · rw [goto_of_ne s hlk]
        exact hsent.counts_other (by rw [hk]; rfl) htime hlk hl _ _
    pos := Nat.le_succ_of_le h.pos
    bound := Nat.succ_le_succ hroom
    room := by
      intro m hm hnone
      obtain rfl : k = m := Nat.succ.inj (hrounds.symm.trans hm)
      change ((s.goto k (.inited sp a s.counter)).ap k).id = none at hnone
      rw [goto_self] at hnone
      cases hnone
    within := h.within }

/-- An AP that steps in time uses the counter alone. -/
theorem Percpu.apStep (h : s.Percpu n area) (hsent : s.Sent) (hn : n + 1 < 2 ^ 16)
    (htime : s.bsp.rounds ≤ k + 1) (hstep : ApStep s k t) : t.Percpu n area := by
  cases hstep with
  | load hk =>
    exact h.same (field_goto ApPc.area (by rw [hk]; rfl)) (field_goto ApPc.id (by rw [hk]; rfl))
      (h.counts_goto trivial) rfl rfl (fun _ hv => hv) rfl h.within
  | map hk hva => exact h.map hk hva
  | store hk => exact h.store hsent htime hk
  | @count sp a hk =>
    have hcurrent := h.current k htime
    rw [hk] at hcurrent
    exact h.same (field_goto ApPc.area (by rw [hk]; rfl)) (field_goto ApPc.id (by rw [hk]; rfl))
      (h.counts_goto ⟨rfl, hcurrent⟩) rfl rfl (fun _ hv => hv) rfl h.within
  | write hk => exact h.write hsent hn htime hk
  | signal hk =>
    exact h.same (field_goto ApPc.area (by rw [hk]; rfl)) (field_goto ApPc.id (by rw [hk]; rfl))
      (h.counts_goto trivial) rfl rfl (fun _ hv => hv) rfl h.within

end Counting

/-! ## The results -/

/-- What `BOOT_STATUS` and the results say. -/
structure Reported (s : SmpBoot) : Prop where
  status : ∀ k, s.bsp.rounds = k + 1 → s.status ≠ 0 → (s.ap k).id.isSome = true
  results : ∀ k, s.result k = some true → (s.ap k).id.isSome = true

section Reporting

variable {n : Nat} {s t : SmpBoot} {k : Nat}

/-- A result is what `BOOT_STATUS` said in the same round. -/
theorem Reported.bspStep (h : s.Reported) (hstep : BspStep n s t) : t.Reported := by
  have same : ∀ {p : BspPc}, p.rounds = s.bsp.rounds →
      ∀ k, p.rounds = k + 1 → s.status ≠ 0 → (s.ap k).id.isSome = true := by
    intro p hp k hk
    exact h.status k (hp.symm.trans hk)
  cases hstep with
  | call hb _ _ => exact ⟨same (by rw [hb]; rfl), h.results⟩
  | clear hb => exact ⟨fun _ _ hne => absurd rfl hne, h.results⟩
  | setStack hb => exact ⟨same (by rw [hb]; rfl), h.results⟩
  | sendInit hb => exact ⟨same (by rw [hb]; rfl), h.results⟩
  | sendStartup hb => exact ⟨same (by rw [hb]; rfl), h.results⟩
  | again hb => exact ⟨same (by rw [hb]; rfl), h.results⟩
  | @done k cnt ok hb hok =>
    refine ⟨same (p := .call (k + 1)) (by rw [hb]; rfl), ?_⟩
    intro l hl
    by_cases hlk : l = k
    · rw [hlk, returned_self] at hl
      rw [hlk]
      exact h.status k (by rw [hb]; rfl) (hok (Option.some.inj hl))
    · rw [returned_of_ne s hlk] at hl
      exact h.results l hl

/-- An AP keeps its id. -/
theorem ApStep.id_isSome (hstep : ApStep s k t) (l : Nat) (hl : (s.ap l).id.isSome = true) :
    (t.ap l).id.isSome = true := by
  by_cases hlk : l = k
  · rw [hlk] at hl ⊢
    cases hstep with
    | load hk => simp [hk, ApPc.id] at hl
    | map hk _ => simp [hk, ApPc.id] at hl
    | store hk => simp [hk, ApPc.id] at hl
    | count hk => simp [hk, ApPc.id] at hl
    | write hk => simp [hk, ApPc.id] at hl
    | signal hk =>
      change ((s.goto k _).ap k).id.isSome = true
      rw [goto_self]
      rfl
  · rw [hstep.frame.2.2.2.2.2.2 l hlk]
    exact hl

/-- An AP sets `BOOT_STATUS` in its own round, after `percpu_init`. -/
theorem Reported.apStep (h : s.Reported) (hsent : s.Sent) (htime : s.bsp.rounds ≤ k + 1)
    (hstep : ApStep s k t) : t.Reported := by
  obtain ⟨hbsp, -, -, hresult, hk, -, -⟩ := hstep.frame
  have hid := hstep.id_isSome
  constructor
  · intro l hl hne
    rw [hbsp] at hl
    cases hstep with
    | load _ => exact hid l (h.status l hl hne)
    | map _ _ => exact hid l (h.status l hl hne)
    | store _ => exact hid l (h.status l hl hne)
    | count _ => exact hid l (h.status l hl hne)
    | write _ => exact hid l (h.status l hl hne)
    | signal hp =>
      obtain rfl : l = k := Nat.succ.inj (hl.symm.trans (hsent.rounds_eq hk htime).1)
      exact hid l (by rw [hp]; rfl)
  · intro l hl
    exact hid l (h.results l (hresult ▸ hl))

theorem Reported.ipiStep (h : s.Reported) (hsent : s.Sent) (hstep : IpiStep s t) : t.Reported := by
  have hid := fun l => (hsent.ipiStep_stack hstep l).2.2
  constructor
  · intro l
    rw [hid]
    cases hstep with
    | init _ => exact h.status l
    | startup _ _ => exact h.status l
    | ignored _ => exact h.status l
  · intro l
    rw [hid]
    cases hstep with
    | init _ => exact h.results l
    | startup _ _ => exact h.results l
    | ignored _ => exact h.results l

end Reporting

/-! ## The handshake -/

/-- What holds between the steps. -/
structure Inv (n area : Nat) (s : SmpBoot) : Prop where
  sent : s.Sent
  ownStack : s.Stacks
  percpu : s.Percpu n area
  reported : s.Reported

theorem init_inv (n area : Nat) : (init area).Inv n area where
  sent := ⟨List.nodup_nil, nofun, nofun, fun _ h => absurd rfl h, nofun⟩
  ownStack := ⟨nofun, nofun, fun _ => rfl, nofun, nofun⟩
  percpu :=
    ⟨rfl, List.mem_singleton_self area, nofun, nofun, nofun, fun _ _ => trivial, le_rfl, le_rfl,
      nofun, Nat.zero_le n⟩
  reported := ⟨nofun, nofun⟩

/-- **One step** in time. -/
theorem step_inv {n area : Nat} {s t : SmpBoot} {a : BootAct} (hn : n + 1 < 2 ^ 16)
    (h : s.Inv n area) (htime : s.Timely a) (hstep : s.Step n a t) : t.Inv n area := by
  rcases step_cases hstep with hbsp | ⟨m, rfl, hipi⟩ | ⟨k, va, rfl, hap⟩
  · exact ⟨h.sent.bspStep hbsp, h.ownStack.bspStep hbsp, h.percpu.bspStep hbsp,
      h.reported.bspStep hbsp⟩
  · exact ⟨h.sent.ipiStep hipi, h.ownStack.ipiStep h.sent hipi, h.percpu.ipiStep h.sent hipi,
      h.reported.ipiStep h.sent hipi⟩
  · exact ⟨h.sent.apStep hap, h.ownStack.apStep h.sent htime hap,
      h.percpu.apStep h.sent hn htime hap, h.reported.apStep h.sent htime hap⟩

theorem Inv.handshake {n area : Nat} {s : SmpBoot} (h : s.Inv n area) : s.Handshake where
  ownStack := h.ownStack.distinct
  ids k id hk := by
    obtain ⟨hpos, -, harea⟩ := h.percpu.ids k id hk
    refine ⟨Nat.ne_of_gt hpos, ?_⟩
    intro l hl
    exact h.percpu.distinct k l _ harea (h.percpu.ids l id hl).2.2
  areas k id hk := by
    have harea := (h.percpu.ids k id hk).2.2
    refine ⟨?_, ?_⟩
    · rw [h.percpu.zero]
      exact (h.percpu.given k _ harea).2
    · intro l id' hl heq
      exact h.percpu.distinct k l _ harea (heq ▸ (h.percpu.ids l id' hl).2.2)
  own k id hk := (h.percpu.ids k id hk).2.2
  results := h.reported.results

end SmpBoot

/-- **The handshake.** `g_cpus` is 16 bits wide, so fewer than 2 ^ 16 - 1 APs are booted. In every
run whose AP steps are taken before the bootstrap CPU resets `BOOT_STATUS` for a later AP, the
handshake does what it is for. -/
theorem handshake_when_timely (n area : Nat) (hn : n + 1 < 2 ^ 16) (tr : List BootAct) (s : SmpBoot)
    (hrun : Runs (fun a e b => SmpBoot.Timely a e ∧ SmpBoot.Step n a e b) (SmpBoot.init area) tr s) :
    s.Handshake := by
  have hinv : s.Inv n area := by
    refine hrun.invariant ?_ (SmpBoot.init_inv n area)
    intro a e b ha hstep
    exact SmpBoot.step_inv hn ha hstep.1 hstep.2
  exact hinv.handshake

/-- Two APs that are booted in time, each after the bootstrap CPU has polled in vain. -/
def twoAps : List BootAct :=
  [.bsp 0x2000, .bsp 0, .bsp 0, .bsp 0, .bsp 0, .deliver (.init 0), .bsp 0, .deliver (.startup 0), .ap 0 0,
    .bsp 0, .ap 0 0x8000, .ap 0 0, .ap 0 0, .ap 0 0, .ap 0 0, .bsp 0,
    .bsp 0x4000, .bsp 0, .bsp 0, .bsp 0, .deliver (.init 1), .bsp 0, .bsp 0, .deliver (.startup 1), .ap 1 0,
    .ap 1 0x9000, .ap 1 0, .bsp 0, .ap 1 0, .ap 1 0, .ap 1 0, .bsp 0]

theorem handshake_two_aps : ∃ s, Runs (SmpBoot.Step 2) (SmpBoot.init 0x1000) twoAps s ∧
    (s.ap 0 = .up 0x3000 0x8000 1 ∧ s.ap 1 = .up 0x5000 0x9000 2) ∧
    (s.result 0 = some true ∧ s.result 1 = some true) ∧ s.Handshake := by
  have hsome : (follow (fun a e => if a.Timely e then a.next 2 e else none) (SmpBoot.init 0x1000)
      twoAps).any (fun t => decide ((t.ap 0 = .up 0x3000 0x8000 1 ∧ t.ap 1 = .up 0x5000 0x9000 2) ∧
        t.result 0 = some true ∧ t.result 1 = some true)) = true := by decide
  obtain ⟨t, ht, hp⟩ := Option.any_eq_true _ _ |>.mp hsome
  have hrun := (runs_of_follow ht).mono fun _ _ _ h => Option.ite_none_right_eq_some.mp h
  obtain ⟨haps, hresults⟩ := of_decide_eq_true hp
  exact ⟨t, hrun.mono fun _ _ _ h => h.2, haps, hresults,
    handshake_when_timely 2 0x1000 (by decide) _ t hrun⟩

/-- Polling that finds `BOOT_STATUS` at zero. -/
theorem SmpBoot.runs_poll {n k : Nat} {s : SmpBoot} (hstatus : s.status = 0) :
    ∀ {m cnt : Nat}, s.bsp = .poll k cnt → cnt + m ≤ loopsToWait →
      Runs (SmpBoot.Step n) s (List.replicate m (.bsp 0)) { s with bsp := .poll k (cnt + m) } := by
  intro m cnt hb
  induction m with
  | zero =>
    intro _
    rw [Nat.add_zero, ← hb]
    exact .nil
  | succ m ih =>
    intro hle
    rw [List.replicate_succ']
    refine .snoc (ih (Nat.le_of_succ_le hle)) ?_
    have hlt : cnt + m < loopsToWait := by
      rw [← Nat.add_assoc] at hle
      exact hle
    change (if s.status ≠ 0 then _ else if cnt + m < loopsToWait then _ else _) = _
    rw [if_neg (not_not.mpr hstatus), if_pos hlt]
    rfl

/-- The state in which the IPIs of AP 0 are on their way. -/
def SmpBoot.firstSent : SmpBoot where
  bsp := .poll 0 0
  ap _ := .off
  flight := [.init 0, .startup 0]
  status := 0
  stack := 0x3000
  counter := 1
  percpuVirt i := if i = 0 then 0x1000 else 0
  used := [0x2000, 0x1000]
  result _ := none

/-- **A late AP.** The polling for AP 0 runs out before its IPIs arrive. While AP 1 is being booted
AP 0 starts, on the stack stored for AP 1, and sets `BOOT_STATUS`: the boot of AP 1 is reported as
successful, and AP 1 has not started. -/
theorem late_ap_breaks_handshake : ¬ ∀ n area tr s, n + 1 < 2 ^ 16 →
    Runs (SmpBoot.Step n) (SmpBoot.init area) tr s → s.Handshake := by
  intro h
  have hfirst : follow (SmpBoot.next 2) (SmpBoot.init 0x1000)
      [.bsp 0x2000, .bsp 0, .bsp 0, .bsp 0, .bsp 0] = some .firstSent := rfl
  have hpoll := @SmpBoot.runs_poll 2 0 .firstSent rfl loopsToWait 0 rfl
    (le_of_eq (Nat.zero_add _))
  have hsome : (follow (SmpBoot.next 2) { SmpBoot.firstSent with bsp := .poll 0 (0 + loopsToWait) }
      [.bsp 0, .bsp 0x4000, .bsp 0, .bsp 0, .bsp 0, .bsp 0, .deliver (.init 0), .deliver (.startup 0),
        .ap 0 0, .ap 0 0x6000, .ap 0 0, .ap 0 0, .ap 0 0, .ap 0 0, .bsp 0]).any
      (fun t => decide (t.result 1 = some true ∧ t.ap 1 = .off)) = true := by decide
  obtain ⟨t, ht, hp⟩ := Option.any_eq_true _ _ |>.mp hsome
  obtain ⟨hresult, hoff⟩ := of_decide_eq_true hp
  have hrun := (runs_of_follow hfirst).trans (hpoll.trans (runs_of_follow ht))
  have hup := (h 2 0x1000 _ t (by decide) hrun).results 1 hresult
  rw [hoff] at hup
  cases hup

end Rtv.Smp
