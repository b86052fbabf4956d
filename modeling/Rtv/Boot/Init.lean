import Rtv.Mm.PhysicalSpec

/-!
# The boot memory map

`arch/x86_64/boot/init.c: kernel_main`, from its first loop over the multiboot2 tags to the end of
the second one. The first loop frees the available memory and remembers where the video memory and
the ACPI root pointer are; between the loops the limit is set and page 0 and the kernel image are
taken; the second loop takes the modules.

The walk along the tags in memory is a list here, and so is the walk along the entries of a
memory-map tag. The kernel image starts at `_boot_start`; the page counts come from the linker.

**The law** (`boot_memory_map`): for every list of tags in any order, the free pages afterwards are
those inside one available entry, without page 0, the kernel image and every page that a module
touches. All of them lie below the limit.
-/

namespace Rtv.Boot

open Rtv.Lib Rtv.Utils Rtv.Mm

/-! ## Tags -/

/-- `multiboot2.h: struct multiboot_mmap_entry`. -/
structure MmapEntry where
  addr : UInt64
  len : UInt64
  type : UInt32
deriving DecidableEq, Repr

/-- `MULTIBOOT_MEMORY_AVAILABLE`. -/
def multibootMemoryAvailable : UInt32 := 1

/-- `multiboot2.h: struct multiboot_tag_module`. The command line is a C string without its
terminator. -/
structure ModuleTag where
  modStart : UInt32
  modEnd : UInt32
  cmdline : List UInt8
deriving DecidableEq, Repr

/-- A multiboot2 tag before the end tag, with what `kernel_main` reads of it. -/
inductive Tag where
  | mmap (entries : List MmapEntry)
  | framebuffer (framebufferAddr : UInt64)
  | acpiOld (rsdp : UInt64)
  | acpiNew (rsdp : UInt64)
  | module (mod : ModuleTag)
  | other (type : UInt32)
deriving Repr

/-! ## The model of `kernel_main` -/

/-- `utils/string.c: strncmp` on C strings without their terminators. -/
def strncmp : List UInt8 → List UInt8 → Nat → Int
  | _, _, 0 => 0
  | s1, s2, n + 1 =>
    let c1 := s1.headD 0
    let c2 := s2.headD 0
    if c1 = 0 ∨ c1 ≠ c2 then c1.toNat - c2.toNat
    -- at the end of the count the last bytes compared are equal
    else strncmp s1.tail s2.tail n

/-- The string `"config"`. -/
def configString : List UInt8 := [99, 111, 110, 102, 105, 103]

example : (strncmp configString configString 7, strncmp (configString ++ [50]) configString 7) =
    (0, 50) := by decide

/-- `_boot_start` of the linker script. -/
def bootStart : Nat := 0x100000

/-- The page counts of the linker script. -/
structure Image where
  bootPages : Nat
  kernelCodePages : Nat
  kernelRoPages : Nat
  kernelRwPages : Nat

/-- The length of the kernel image in pages. -/
def Image.pages (image : Image) : Nat :=
  image.bootPages + image.kernelCodePages + image.kernelRoPages + image.kernelRwPages

/-- The variables of `kernel_main` and of the modules it writes to. -/
structure BootState where
  phys : Physical
  memLimit : UInt64
  frameBuf : UInt64
  rsdp : UInt64
  configPaddr : UInt64
  configSize : UInt32
  numMod : UInt16

/-- The body of the loop over the entries of a memory-map tag. -/
def mmapEntry (b : BootState) (mmap : MmapEntry) : Exec BootState :=
  if mmap.type = multibootMemoryAvailable then do
    let phys ← physicalFreeRange b.phys mmap.addr.toNat mmap.len.toNat
    let memEnd := mmap.addr + mmap.len
    return { b with phys, memLimit := if memEnd > b.memLimit then memEnd else b.memLimit }
  else
    return b

/-- The body of the first loop over the tags. -/
def memoryTag (b : BootState) : Tag → Exec BootState
  | .mmap entries => entries.foldlM mmapEntry b
  | .framebuffer addr => return { b with frameBuf := addr }
  | .acpiOld rsdp => return { b with rsdp }
  | .acpiNew rsdp => return { b with rsdp }
  | .module _ => return b
  | .other _ => return b

/-- The body of the second loop over the tags. -/
def moduleTag (b : BootState) : Tag → Exec BootState
  | .module mod => do
    let b :=
      if strncmp mod.cmdline configString 7 = 0 then
        { b with
          configPaddr := mod.modStart.toUInt64
          configSize := mod.modEnd - mod.modStart }
      else
        { b with numMod := b.numMod + 1 }
    let phys ← physicalTakeRange b.phys mod.modStart.toNat (mod.modEnd - mod.modStart).toNat
    return { b with phys }
  | _ => return b

/-- `kernel_main` from the first loop over the tags to the end of the second one. -/
def kernelMainTags (image : Image) (b : BootState) (tags : List Tag) : Exec BootState := do
  let b ← tags.foldlM memoryTag b
  let b := { b with phys := physicalSetLimit b.phys b.memLimit.toNat }
  -- avoid the page at address 0
  let phys ← physicalTakeRange b.phys 0 pgSize
  -- mark the kernel image
  let phys ← physicalTakeRange phys bootStart (image.pages * pgSize % 2 ^ 64)
  tags.foldlM moduleTag { b with phys }

/-- The variables as they are loaded. -/
def BootState.init : BootState := ⟨.boot, 0, 0, 0, 0, 0, 0⟩

/-! ## What the tags say -/

/-- The end of an entry. -/
def MmapEntry.stop (e : MmapEntry) : Nat := e.addr.toNat + e.len.toNat

/-- An entry that `mm_table` can represent: it ends inside the table and holds a whole page. -/
def MmapEntry.Good (e : MmapEntry) : Prop :=
  e.stop ≤ mmTableBytes ∧ ∃ p, Inside e.addr.toNat e.stop p

/-- The entry is available memory. -/
def MmapEntry.isAvailable (e : MmapEntry) : Bool := e.type = multibootMemoryAvailable

/-- The available entries of a tag. -/
def Tag.available : Tag → List MmapEntry
  | .mmap entries => entries.filter MmapEntry.isAvailable
  | _ => []

/-- The module of a tag. -/
def Tag.modules : Tag → List ModuleTag
  | .module mod => [mod]
  | _ => []

/-- The available entries of all tags. -/
def available (tags : List Tag) : List MmapEntry := tags.flatMap Tag.available

/-- The modules of all tags. -/
def modules (tags : List Tag) : List ModuleTag := tags.flatMap Tag.modules

/-! ## The first loop -/

/-- The free pages are those inside an entry of the list, and the limit is past all its ends. -/
structure Mapped (entries : List MmapEntry) (b : BootState) : Prop where
  free_iff : ∀ p, b.phys.Free p ↔ ∃ e ∈ entries, Inside e.addr.toNat e.stop p
  limit : ∀ e ∈ entries, e.stop ≤ b.memLimit.toNat

theorem Mapped.init : Mapped [] .init where
  free_iff p := by
    have hboot : ¬ Physical.boot.Free p := by
      unfold Physical.Free Physical.boot Bitmap.test
      split <;> simp
    exact iff_of_false hboot (by simp)
  limit e he := by cases he

/-- One entry. -/
theorem mmapEntry_spec {entries : List MmapEntry} {b : BootState} (hb : Mapped entries b)
    {e : MmapEntry} (hgood : e.isAvailable → e.Good) :
    ∃ b', mmapEntry b e = .ok b' ∧ Mapped (entries ++ [e].filter MmapEntry.isAvailable) b' := by
  unfold mmapEntry
  by_cases hty : e.type = multibootMemoryAvailable
  · have hav : e.isAvailable := by simpa [MmapEntry.isAvailable] using hty
    obtain ⟨hstop, hsome⟩ := hgood hav
    obtain ⟨phys, hphys, _, hfree⟩ := physicalFreeRange_spec b.phys hsome hstop
    have hend : (e.addr + e.len).toNat = e.stop := by
      unfold MmapEntry.stop mmTableBytes mmTableMax pgSize at *
      rw [UInt64.toNat_add, Nat.mod_eq_of_lt (by omega)]
    rw [if_pos hty, hphys]
    refine ⟨_, rfl, ?_, ?_⟩
    · intro p
      rw [List.filter_cons_of_pos hav]
      simp only [hfree p, hb.free_iff, List.filter_nil, List.mem_append, List.mem_singleton,
        or_and_right, exists_or, exists_eq_left]
      exact or_comm
    · intro e' he'
      rw [List.filter_cons_of_pos hav] at he'
      simp only [List.filter_nil, List.mem_append, List.mem_singleton] at he'
      simp only [gt_iff_lt, UInt64.lt_iff_toNat_lt, hend]
      rcases he' with he' | rfl
      · have := hb.limit e' he'
        split <;> omega
      · split <;> omega
  · have hav : ¬ e.isAvailable := by simpa [MmapEntry.isAvailable] using hty
    rw [if_neg hty, List.filter_cons_of_neg hav]
    exact ⟨b, rfl, by simpa using hb⟩

/-- One tag of the first loop. -/
theorem memoryTag_spec {entries : List MmapEntry} {b : BootState} (hb : Mapped entries b) {tag : Tag}
    (hgood : ∀ e ∈ tag.available, e.Good) :
    ∃ b', memoryTag b tag = .ok b' ∧ Mapped (entries ++ tag.available) b' := by
  cases tag with
  | mmap es =>
    refine Exec.foldlM_ok (P := fun l b' => Mapped (entries ++ l.filter MmapEntry.isAvailable) b')
      (by simpa using hb) fun pre e b₁ he hb₁ => ?_
    rw [List.filter_append, ← List.append_assoc]
    exact mmapEntry_spec hb₁ fun hav => hgood e (List.mem_filter.mpr ⟨he, hav⟩)
  | _ =>
    refine ⟨_, rfl, ?_⟩
    simp only [Tag.available, List.append_nil]
    exact ⟨hb.free_iff, hb.limit⟩

/-- The first loop. -/
theorem memoryTags_spec {tags : List Tag} (hgood : ∀ e ∈ available tags, e.Good) :
    ∃ b, tags.foldlM memoryTag .init = .ok b ∧ Mapped (available tags) b := by
  refine Exec.foldlM_ok (P := fun l b => Mapped (available l) b) Mapped.init fun pre tag b hmem hb => ?_
  have htag : ∀ e ∈ tag.available, e.Good := fun e he =>
    hgood e (List.mem_flatMap.mpr ⟨tag, hmem, he⟩)
  simpa [available] using memoryTag_spec hb htag

/-! ## The second loop -/

/-- One tag of the second loop. -/
theorem moduleTag_spec (b : BootState) (tag : Tag) (hmods : ∀ m ∈ tag.modules, m.modStart < m.modEnd) :
    ∃ b', moduleTag b tag = .ok b' ∧ b'.phys.mmLimit = b.phys.mmLimit ∧ ∀ p, b'.phys.Free p ↔
      b.phys.Free p ∧ ∀ m ∈ tag.modules, ¬ Touches m.modStart.toNat m.modEnd.toNat p := by
  cases tag with
  | module mod =>
    have hlt := UInt32.lt_iff_toNat_lt.mp (hmods mod (List.mem_singleton_self _))
    have hlen : (mod.modEnd - mod.modStart).toNat = mod.modEnd.toNat - mod.modStart.toNat :=
      UInt32.toNat_sub_of_le _ _ (UInt32.le_iff_toNat_le.mpr (Nat.le_of_lt hlt))
    have hstop : mod.modStart.toNat + (mod.modEnd - mod.modStart).toNat = mod.modEnd.toNat := by omega
    have hbound := mod.modEnd.toNat_lt
    obtain ⟨phys, hphys, hlimit, hfree⟩ := physicalTakeRange_spec b.phys mod.modStart.toNat
      (mod.modEnd - mod.modStart).toNat
      (by unfold mmTableBytes mmTableMax pgSize; omega)
    have hfree' : ∀ p, phys.Free p ↔ b.phys.Free p ∧ ∀ m ∈ (Tag.module mod).modules,
        ¬ Touches m.modStart.toNat m.modEnd.toNat p := by
      intro p
      simp only [hfree p, hstop, Tag.modules, List.mem_singleton, forall_eq]
    by_cases hconfig : strncmp mod.cmdline configString 7 = 0
    · simp only [moduleTag, if_pos hconfig, hphys, Exec.ok_bind]
      exact ⟨_, rfl, hlimit, hfree'⟩
    · simp only [moduleTag, if_neg hconfig, hphys, Exec.ok_bind]
      exact ⟨_, rfl, hlimit, hfree'⟩
  | _ => exact ⟨b, rfl, rfl, fun p => by simp [Tag.modules]⟩

/-- The second loop. -/
theorem moduleTags_spec {tags : List Tag} (hmods : ∀ m ∈ modules tags, m.modStart < m.modEnd)
    (b₀ : BootState) :
    ∃ b, tags.foldlM moduleTag b₀ = .ok b ∧ b.phys.mmLimit = b₀.phys.mmLimit ∧ ∀ p, b.phys.Free p ↔
      b₀.phys.Free p ∧ ∀ m ∈ modules tags, ¬ Touches m.modStart.toNat m.modEnd.toNat p := by
  refine Exec.foldlM_ok (P := fun l (b : BootState) => b.phys.mmLimit = b₀.phys.mmLimit ∧ ∀ p, b.phys.Free p ↔
      b₀.phys.Free p ∧ ∀ m ∈ modules l, ¬ Touches m.modStart.toNat m.modEnd.toNat p)
    ⟨rfl, fun p => by simp [modules]⟩ fun pre tag b hmem ⟨hlimit, hb⟩ => ?_
  obtain ⟨b', hb', hlimit', hfree⟩ := moduleTag_spec b tag fun m hm =>
    hmods m (List.mem_flatMap.mpr ⟨tag, hmem, hm⟩)
  refine ⟨b', hb', hlimit'.trans hlimit, fun p => ?_⟩
  rw [hfree, hb]
  simp only [modules, List.flatMap_append, List.flatMap_singleton, List.mem_append, or_imp,
    forall_and, and_assoc]

/-! ## The map -/

/-- **The boot memory map.** Whatever the tags are and in whatever order: the loops return, the free
pages are those inside a single available entry, except page 0, the pages of the kernel image and
the pages that a module touches, and every free page lies below the limit, its word below
`entry_end`. -/
theorem boot_memory_map (image : Image) (tags : List Tag)
    (hmmap : ∀ e ∈ available tags, e.Good) (hmods : ∀ m ∈ modules tags, m.modStart < m.modEnd)
    (himage : bootStart + image.pages * pgSize ≤ mmTableBytes) :
    ∃ b, kernelMainTags image .init tags = .ok b ∧
      (∀ p, b.phys.Free p ↔ (∃ e ∈ available tags, Inside e.addr.toNat e.stop p) ∧ p ≠ 0 ∧
        ¬ Touches bootStart (bootStart + image.pages * pgSize) p ∧
        ∀ m ∈ modules tags, ¬ Touches m.modStart.toNat m.modEnd.toNat p) ∧
      ∀ p, b.phys.Free p → p < b.phys.mmLimit ∧ p / 64 < b.phys.entryEnd := by
  obtain ⟨b₁, hb₁, hmap⟩ := memoryTags_spec hmmap
  obtain ⟨s₂, hs₂, hl₂, hf₂⟩ := physicalTakeRange_spec (physicalSetLimit b₁.phys b₁.memLimit.toNat)
    0 pgSize (by decide)
  have hmod : image.pages * pgSize % 2 ^ 64 = image.pages * pgSize := by
    refine Nat.mod_eq_of_lt ?_
    unfold mmTableBytes mmTableMax pgSize at *
    omega
  obtain ⟨s₃, hs₃, hl₃, hf₃⟩ := physicalTakeRange_spec s₂ bootStart
    (image.pages * pgSize) himage
  obtain ⟨b, hb, hl, hf⟩ := moduleTags_spec hmods { b₁ with phys := s₃ }
  have hfree : ∀ p, b.phys.Free p ↔ (∃ e ∈ available tags, Inside e.addr.toNat e.stop p) ∧ p ≠ 0 ∧
      ¬ Touches bootStart (bootStart + image.pages * pgSize) p ∧
      ∀ m ∈ modules tags, ¬ Touches m.modStart.toNat m.modEnd.toNat p := by
    intro p
    have hzero : ¬ Touches 0 (0 + pgSize) p ↔ p ≠ 0 := by
      unfold Touches pgSize
      omega
    rw [hf, hf₃, hf₂, physicalSetLimit_free, hmap.free_iff, hzero]
    simp only [and_assoc]
  refine ⟨b, ?_, hfree, fun p hp => ?_⟩
  · unfold kernelMainTags
    rw [hb₁, Exec.ok_bind]
    simp only [hs₂, Exec.ok_bind, hmod, hs₃, hb]
  · obtain ⟨⟨e, he, hin⟩, _⟩ := (hfree p).mp hp
    have hlimit : b.phys.mmLimit = b₁.memLimit.toNat / 4096 := by
      rw [hl, hl₃, hl₂]
      exact Nat.shiftRight_eq_div_pow _ 12
    have hle := hmap.limit e he
    have hlt : p < b.phys.mmLimit := by
      unfold Inside pgSize at hin
      omega
    exact ⟨hlt, b.phys.div_lt_entryEnd hlt⟩

/-- Available memory from 1MB to 4MB, a kernel image of 64 pages, and a module that starts and ends
in the middle of a page. -/
theorem boot_memory_map_one_module : ∃ b, kernelMainTags ⟨16, 16, 16, 16⟩ .init
      [.module ⟨0x300800, 0x301800, configString⟩, .mmap [⟨0x100000, 0x300000, 1⟩]] = .ok b ∧
    b.phys.Free 0x2ff ∧ ¬ b.phys.Free 0x300 ∧ ¬ b.phys.Free 0x301 ∧ b.phys.Free 0x302 := by
  have hav : available [.module ⟨0x300800, 0x301800, configString⟩,
      .mmap [⟨0x100000, 0x300000, 1⟩]] = [⟨0x100000, 0x300000, 1⟩] := rfl
  have hmo : modules [.module ⟨0x300800, 0x301800, configString⟩,
      .mmap [⟨0x100000, 0x300000, 1⟩]] = [⟨0x300800, 0x301800, configString⟩] := rfl
  obtain ⟨b, hb, hfree, _⟩ := boot_memory_map ⟨16, 16, 16, 16⟩
    [.module ⟨0x300800, 0x301800, configString⟩, .mmap [⟨0x100000, 0x300000, 1⟩]]
    (by
      rw [hav]
      simp only [List.mem_singleton, forall_eq]
      exact ⟨by decide, 0x100, by decide⟩)
    (by
      rw [hmo]
      decide)
    (by decide)
  rw [hav, hmo] at hfree
  simp only [List.mem_singleton, forall_eq, exists_eq_left] at hfree
  refine ⟨b, hb, ?_, ?_, ?_, ?_⟩ <;> rw [hfree] <;> decide

end Rtv.Boot
