import UmbralOS.Proof.Memory.Refinement

/-!
This file proves what `vmm_init` maps.
-/

namespace UmbralOS

open Library PathTree

/-- The direct map gives each mapped entry type a write right and a memory type, and it never allows execution. -/
def MemmapType.direct : MemmapType → Option (Bool × BitVec 8)
  | .usable | .acpiReclaimable | .bootloaderReclaimable => some (true, patWb.setWidth 8)
  | .framebuffer => some (true, patWc.setWidth 8)
  | .reservedMapped => some (false, patWb.setWidth 8)
  | _ => none

/-- The direct map translates an address to its offset from the direct map's base. -/
def entryRule (phhdm : Pointer) (entry : LimineMemmapEntry) : Pointer → Option Translation := fun virt =>
  entry.type.direct.bind fun (rw, memoryType) =>
    if entry.base.toNat ≤ (virt - phhdm).toNat ∧ (virt - phhdm).toNat < entry.base.toNat + entry.length.toNat then
      some ⟨(virt - phhdm).toNat / 4096, rw, false, true, memoryType⟩
    else none

theorem entryRule_mapped {entry : LimineMemmapEntry} {rw : Bool} {memoryType : BitVec 8}
    (found : entry.type.direct = some (rw, memoryType)) (phhdm virt : Pointer) :
    entryRule phhdm entry virt =
      if entry.base.toNat ≤ (virt - phhdm).toNat ∧ (virt - phhdm).toNat < entry.base.toNat + entry.length.toNat then
        some ⟨(virt - phhdm).toNat / 4096, rw, false, true, memoryType⟩
      else none := by
  rw [entryRule, found]
  rfl

section Segment

variable (executable : LimineExecutableAddress) (phdr : Elf64Phdr)

/-- The pages of a segment, from the page of its first byte to the page of its end rounded up.
An empty segment has a page when its address is not page aligned. -/
def SegmentPage (base : BitVec 64) (page : Nat) : Prop :=
  (base.toNat + phdr.pVaddr.toNat) / 4096 ≤ page ∧
    page < (base.toNat + phdr.pVaddr.toNat + phdr.pMemsz.toNat + 4095) / 4096

instance (base : BitVec 64) (page : Nat) : Decidable (SegmentPage phdr base page) :=
  inferInstanceAs (Decidable (_ ∧ _))

/-- The kernel window translates a page of a segment to the page at the same offset from the physical base. -/
def segmentRule : Pointer → Option Translation := fun virt =>
  if SegmentPage phdr executable.virtualBase (virt.toNat / 4096) then
    some ⟨(executable.physicalBase.toNat + (virt.toNat - executable.virtualBase.toNat)) / 4096,
      phdr.pFlags &&& pfW != 0, false, !(phdr.pFlags &&& pfX != 0), patWb.setWidth 8⟩
  else none

/-- A segment does not wrap, its pages are canonical, and its physical end is below 2^52. -/
structure SegmentFits : Prop where
  virtualStart : executable.virtualBase.toNat + phdr.pVaddr.toNat < 2 ^ 64
  virtualEnd : executable.virtualBase.toNat + phdr.pVaddr.toNat + phdr.pMemsz.toNat ≤ 2 ^ 64
  physicalEnd : executable.physicalBase.toNat + phdr.pVaddr.toNat + phdr.pMemsz.toNat ≤ 2 ^ 52
  canonical : ∀ virt : Pointer, SegmentPage phdr executable.virtualBase (virt.toNat / 4096) → Canonical virt

/-- A segment with bytes has exactly the pages that hold one of them. -/
theorem segmentPage_iff {phdr : Elf64Phdr} (positive : 0 < phdr.pMemsz.toNat) (base : BitVec 64) (page : Nat) :
    SegmentPage phdr base page ↔ ∃ address, base.toNat + phdr.pVaddr.toNat ≤ address ∧
      address < base.toNat + phdr.pVaddr.toNat + phdr.pMemsz.toNat ∧ address / 4096 = page := by
  unfold SegmentPage
  constructor
  · intro given
    obtain ⟨lower, upper⟩ := given
    by_cases first : (base.toNat + phdr.pVaddr.toNat) / 4096 = page
    · exact ⟨base.toNat + phdr.pVaddr.toNat, le_rfl, by omega, first⟩
    · exact ⟨page * 4096, by omega, by omega, by omega⟩
  · intro given
    obtain ⟨address, lower, upper, rfl⟩ := given
    omega

end Segment

/-- Each pass over the program headers reads the headers of one type. -/
def headersOf (executable : LimineExecutableAddress) (pType : ElfSegmentType) : List Elf64Phdr :=
  executable.elfPhdrs.filter fun phdr => phdr.pType = pType

/-- The rules in their order: the memory map, then the loaded segments, then the read-only segments. -/
def bootRules (memmap : List LimineMemmapEntry) (executable : LimineExecutableAddress) (phhdm : Pointer) :
    List (Pointer → Option Translation) :=
  memmap.map (entryRule phhdm) ++ (headersOf executable .load).map (segmentRule executable) ++
    (headersOf executable .gnuRelro).map (segmentRule executable)

/-- The kernel uses the headers of two types. -/
def Elf64Phdr.Used (phdr : Elf64Phdr) : Prop := phdr.pType = .load ∨ phdr.pType = .gnuRelro

instance (phdr : Elf64Phdr) : Decidable phdr.Used := inferInstanceAs (Decidable (_ ∨ _))

/-- Every rule of the boot mapping belongs to an entry or to a segment. -/
theorem mem_bootRules {memmap : List LimineMemmapEntry} {executable : LimineExecutableAddress} {phhdm : Pointer}
    {rule : Pointer → Option Translation} :
    rule ∈ bootRules memmap executable phhdm ↔ (∃ entry ∈ memmap, rule = entryRule phhdm entry) ∨
      ∃ phdr ∈ executable.elfPhdrs, phdr.Used ∧ rule = segmentRule executable phdr := by
  simp only [bootRules, headersOf, List.mem_append, List.mem_map, List.mem_filter, decide_eq_true_eq]
  constructor
  · rintro ((⟨entry, member, rfl⟩ | ⟨phdr, ⟨member, type⟩, rfl⟩) | ⟨phdr, ⟨member, type⟩, rfl⟩)
    · exact Or.inl ⟨entry, member, rfl⟩
    · exact Or.inr ⟨phdr, member, Or.inl type, rfl⟩
    · exact Or.inr ⟨phdr, member, Or.inr type, rfl⟩
  · rintro (⟨entry, member, rfl⟩ | ⟨phdr, member, load | relro, rfl⟩)
    · exact Or.inl (Or.inl ⟨entry, member, rfl⟩)
    · exact Or.inl (Or.inr ⟨phdr, ⟨member, load⟩, rfl⟩)
    · exact Or.inr ⟨phdr, ⟨member, relro⟩, rfl⟩

/-- The bootloader gives mapped entries and segments with canonical addresses and physical ends below 2^52. -/
structure BootMap (memmap : List LimineMemmapEntry) (executable : LimineExecutableAddress) (phhdm : Pointer) :
    Prop where
  ends : ∀ entry ∈ memmap, entry.type.direct ≠ none → entry.base.toNat + entry.length.toNat ≤ 2 ^ 52
  canonical : ∀ entry ∈ memmap, entry.type.direct ≠ none → ∀ virt : Pointer,
    (virt - phhdm).toNat ∈ entry.bytes → Canonical virt
  physicalBase : executable.physicalBase.toNat % 4096 = 0
  virtualBase : executable.virtualBase.toNat % 4096 = 0
  segments : ∀ phdr ∈ executable.elfPhdrs, phdr.Used → SegmentFits executable phdr

theorem BootMap.usableEnds {memmap : List LimineMemmapEntry} {executable : LimineExecutableAddress} {phhdm : Pointer}
    (boot : BootMap memmap executable phhdm) :
    ∀ entry ∈ memmap, entry.Usable → entry.base.toNat + entry.length.toNat ≤ 2 ^ 52 := by
  intro entry member usable
  apply boot.ends entry member
  rw [usable]
  exact Option.some_ne_none _

/-- The tables on top of a zeroed root translate exactly as the rules say, and the last rule wins. -/
structure Built (live : Set Nat) (root : Mm) (rules : List (Pointer → Option Translation)) (mm : Mm) : Prop where
  grown : Grown live root mm
  translate : ∀ virt, Canonical virt → mm.translate virt = lastApplicable rules virt

namespace Built

variable {live : Set Nat} {root mm mm' : Mm} {rules : List (Pointer → Option Translation)}
  {rule : Pointer → Option Translation}

/-- A call extends the rules with its own rule. -/
theorem call (built : Built live root rules mm) (attributes : root.msr msrIa32Pat = patValue) {call : MapCall}
    (fits : call.Fits) (accepted : RangeAccepted call.what call.virt call.size call.flags)
    (same : ∀ virt, call.rule virt = rule virt) (returned : Returns call.run mm () mm') :
    Built live root (rules ++ [rule]) mm' := by
  have kept : mm.msr msrIa32Pat = patValue := by rw [built.grown.data, attributes]
  have remapped := (returns_vmmMap built.grown.tabled kept fits.physical returned).2
  refine ⟨built.grown.trans remapped.grown, fun virt canonical => ?_⟩
  rw [remapped.translate, built.translate virt canonical, lastApplicable_snoc, ← same virt,
    ← MapCall.lastApplicable_rules fits accepted canonical]
  rfl

/-- A rule that never applies changes nothing. -/
theorem skip (built : Built live root rules mm) (silent : ∀ virt, rule virt = none) :
    Built live root (rules ++ [rule]) mm := by
  refine ⟨built.grown, fun virt canonical => ?_⟩
  rw [built.translate virt canonical, lastApplicable_snoc, silent, Option.none_or]

end Built

/-- The flags of a mapped entry ask for its rights and its memory type. -/
theorem returns_vmmMapEntry {mm mm' : Mm} {entry : LimineMemmapEntry}
    (returned : Returns (vmmMapEntry entry) mm () mm') :
    (entry.type.direct = none ∧ mm' = mm) ∨ ∃ flags rw memoryType, entry.type.direct = some (rw, memoryType) ∧
      (∀ page, requested page flags = ⟨page, rw, false, true, memoryType⟩) ∧
      Returns (vmmMap entry.base (mm.pHHDM + entry.base) entry.length flags) mm () mm' := by
  simp only [vmmMapEntry, returns_bind, returns_phyToVirt] at returned
  obtain ⟨_, _, ⟨rfl, rfl⟩, mapped⟩ := returned
  cases type : entry.type with
  | usable | acpiReclaimable | bootloaderReclaimable =>
      rw [type] at mapped
      exact Or.inr ⟨mW, true, patWb.setWidth 8, rfl, fun _ => rfl, mapped⟩
  | framebuffer =>
      rw [type] at mapped
      exact Or.inr ⟨mCacheWc ||| mW, true, patWc.setWidth 8, rfl, fun _ => rfl, mapped⟩
  | reservedMapped =>
      rw [type] at mapped
      exact Or.inr ⟨mNone, false, patWb.setWidth 8, rfl, fun _ => rfl, mapped⟩
  | reserved | acpiNvs | badMemory | executableAndModules | unknown =>
      rw [type] at mapped
      exact Or.inl ⟨rfl, ((returns_pure _ _ _ _).mp mapped).2.symm⟩

/-- The range of an entry in the direct map holds exactly the addresses of its offsets. -/
theorem direct_covers {phhdm virt : Pointer} {base length : BitVec 64} (ends : base.toNat + length.toNat ≤ 2 ^ 52)
    (wraps : (phhdm + base).toNat + length.toNat ≤ 2 ^ 64) :
    ((phhdm + base).toNat ≤ virt.toNat ∧ virt.toNat < (phhdm + base).toNat + length.toNat ↔
      base.toNat ≤ (virt - phhdm).toNat ∧ (virt - phhdm).toNat < base.toNat + length.toNat) ∧
    ((phhdm + base).toNat ≤ virt.toNat → virt.toNat < (phhdm + base).toNat + length.toNat →
      base.toNat + (virt.toNat - (phhdm + base).toNat) = (virt - phhdm).toNat) := by
  have windowInside := phhdm.isLt
  have virtInside := virt.isLt
  rw [BitVec.toNat_sub]
  rw [BitVec.toNat_add] at wraps ⊢
  constructor
  · omega
  · omega

/-- The call that maps an entry into the direct map. -/
def entryCall (phhdm : Pointer) (entry : LimineMemmapEntry) (flags : BitVec 32) : MapCall :=
  ⟨entry.base, phhdm + entry.base, entry.length, flags⟩

/-- A mapped entry adds its rule. -/
theorem Built.entry {live : Set Nat} {root mm mm' : Mm} {rules : List (Pointer → Option Translation)}
    {entry : LimineMemmapEntry} (built : Built live root rules mm) (attributes : root.msr msrIa32Pat = patValue)
    (ends : entry.type.direct ≠ none → entry.base.toNat + entry.length.toNat ≤ 2 ^ 52)
    (canonical : entry.type.direct ≠ none → ∀ virt : Pointer, (virt - root.pHHDM).toNat ∈ entry.bytes → Canonical virt)
    (returned : Returns (vmmMapEntry entry) mm () mm') :
    Built live root (rules ++ [entryRule root.pHHDM entry]) mm' := by
  have kept : mm.msr msrIa32Pat = patValue := by rw [built.grown.data, attributes]
  rcases returns_vmmMapEntry returned with ⟨skipped, rfl⟩ | ⟨flags, rw, memoryType, found, asks, mapped⟩
  · exact built.skip fun virt => by rw [entryRule, skipped, Option.bind_none]
  · have direct : entry.type.direct ≠ none := by rw [found]; exact Option.some_ne_none _
    have physical := ends direct
    rw [built.grown.pHHDM_eq] at mapped
    have accepted := (returns_vmmMap built.grown.tabled kept physical mapped).1
    have place (virt : Pointer) := @direct_covers root.pHHDM virt _ _ physical accepted.ends
    have covers (virt : Pointer) : (entryCall root.pHHDM entry flags).Covers virt ↔
        entry.base.toNat ≤ (virt - root.pHHDM).toNat ∧
          (virt - root.pHHDM).toNat < entry.base.toNat + entry.length.toNat := (place virt).1
    have fits : (entryCall root.pHHDM entry flags).Fits :=
      ⟨fun virt inside => canonical direct virt ((covers virt).mp inside), physical⟩
    refine built.call attributes fits accepted (fun virt => ?_) mapped
    rw [entryRule_mapped found]
    split_ifs with inside
    · have within := (covers virt).mpr inside
      rw [MapCall.rule_inside within, ← asks]
      congr 3
      exact (place virt).2 within.1 within.2
    · exact MapCall.rule_outside fun within => inside ((covers virt).mp within)

/-- The call that maps a segment rounds its range to whole pages. -/
def segmentCall (executable : LimineExecutableAddress) (phdr : Elf64Phdr) : MapCall where
  what := roundDown (executable.physicalBase + phdr.pVaddr) pageSize
  virt := roundDown (executable.virtualBase + phdr.pVaddr) pageSize
  size := roundUp (executable.physicalBase + phdr.pVaddr + phdr.pMemsz) pageSize -
    roundDown (executable.physicalBase + phdr.pVaddr) pageSize
  flags := elfToMemoryFlags phdr.pFlags

/-- The flags of a segment ask for the rights in its header. -/
theorem requested_elfToMemoryFlags (page : Nat) (flags : BitVec 32) :
    requested page (elfToMemoryFlags flags) =
      ⟨page, flags &&& pfW != 0, false, !(flags &&& pfX != 0), patWb.setWidth 8⟩ := by
  have branch (bit flag : BitVec 32) : (if flags &&& bit ≠ 0 then flag else mNone) =
      bif flags &&& bit != 0 then flag else mNone := by
    by_cases clear : flags &&& bit = 0
    · rw [if_neg (not_not.mpr clear), clear]
      rfl
    · rw [if_pos clear, bne_iff_ne.mpr clear]
      rfl
  rw [elfToMemoryFlags, branch, branch]
  cases flags &&& pfW != 0 <;> cases flags &&& pfX != 0 <;> rfl

/-- The call of a segment has its range rounded to whole pages. -/
theorem toNat_segmentCall {executable : LimineExecutableAddress} {phdr : Elf64Phdr}
    (fits : SegmentFits executable phdr) :
    (segmentCall executable phdr).virt.toNat =
      (executable.virtualBase.toNat + phdr.pVaddr.toNat) / 4096 * 4096 ∧
    (segmentCall executable phdr).what.toNat =
      (executable.physicalBase.toNat + phdr.pVaddr.toNat) / 4096 * 4096 ∧
    (segmentCall executable phdr).size.toNat =
      (executable.physicalBase.toNat + phdr.pVaddr.toNat + phdr.pMemsz.toNat + 4095) / 4096 * 4096 -
        (executable.physicalBase.toNat + phdr.pVaddr.toNat) / 4096 * 4096 := by
  have virtualStart := fits.virtualStart
  have physicalEnd := fits.physicalEnd
  have physical : (executable.physicalBase + phdr.pVaddr).toNat =
      executable.physicalBase.toNat + phdr.pVaddr.toNat := by
    rw [BitVec.toNat_add, Nat.mod_eq_of_lt (by omega)]
  have virtual : (executable.virtualBase + phdr.pVaddr).toNat = executable.virtualBase.toNat + phdr.pVaddr.toNat := by
    rw [BitVec.toNat_add, Nat.mod_eq_of_lt virtualStart]
  refine ⟨?_, ?_, ?_⟩
  · rw [segmentCall, toNat_roundDown_page, virtual]
  · rw [segmentCall, toNat_roundDown_page, physical]
  · rw [← physical]
    exact toNat_unalignedCall_size (by omega) (executable.virtualBase + phdr.pVaddr) (elfToMemoryFlags phdr.pFlags)

/-- The call of a segment covers exactly its pages, and it translates them at the same offset. -/
theorem segmentCall_covers {executable : LimineExecutableAddress} {phdr : Elf64Phdr}
    (physicalBase : executable.physicalBase.toNat % 4096 = 0) (virtualBase : executable.virtualBase.toNat % 4096 = 0)
    (fits : SegmentFits executable phdr) (virt : Pointer) :
    ((segmentCall executable phdr).Covers virt ↔ SegmentPage phdr executable.virtualBase (virt.toNat / 4096)) ∧
    ((segmentCall executable phdr).Covers virt →
      (segmentCall executable phdr).what.toNat + (virt.toNat - (segmentCall executable phdr).virt.toNat) =
        executable.physicalBase.toNat + (virt.toNat - executable.virtualBase.toNat)) ∧
    (segmentCall executable phdr).what.toNat + (segmentCall executable phdr).size.toNat ≤ 2 ^ 52 := by
  obtain ⟨start, physical, size⟩ := toNat_segmentCall fits
  have physicalEnd := fits.physicalEnd
  simp only [MapCall.Covers, SegmentPage, start, physical, size]
  refine ⟨?_, ?_, ?_⟩ <;> omega

/-- A segment adds its rule. -/
theorem Built.segment {live : Set Nat} {root mm mm' : Mm} {rules : List (Pointer → Option Translation)}
    {executable : LimineExecutableAddress} {phdr : Elf64Phdr} (built : Built live root rules mm)
    (attributes : root.msr msrIa32Pat = patValue)
    (physicalBase : executable.physicalBase.toNat % 4096 = 0) (virtualBase : executable.virtualBase.toNat % 4096 = 0)
    (fits : SegmentFits executable phdr) (returned : Returns (segmentCall executable phdr).run mm () mm') :
    RangeAccepted (segmentCall executable phdr).what (segmentCall executable phdr).virt
      (segmentCall executable phdr).size (segmentCall executable phdr).flags ∧
    Built live root (rules ++ [segmentRule executable phdr]) mm' := by
  have kept : mm.msr msrIa32Pat = patValue := by rw [built.grown.data, attributes]
  have place := segmentCall_covers physicalBase virtualBase fits
  have physical := (place 0).2.2
  have accepted := (returns_vmmMap built.grown.tabled kept physical returned).1
  refine ⟨accepted, built.call attributes ⟨fun virt inside => ?_, physical⟩ accepted (fun virt => ?_) returned⟩
  · exact fits.canonical virt ((place virt).1.mp inside)
  · rw [segmentRule]
    split_ifs with inside
    · have within := (place virt).1.mpr inside
      rw [MapCall.rule_inside within, (place virt).2.1 within]
      exact congrArg some (requested_elfToMemoryFlags _ _)
    · exact MapCall.rule_outside fun within => inside ((place virt).1.mp within)

section Loops

variable {live : Set Nat} {root mm mm' : Mm} {rules : List (Pointer → Option Translation)}
  {memmap : List LimineMemmapEntry} {executable : LimineExecutableAddress}

/-- The loop over the memory map adds the rules of its entries in order. -/
theorem Built.entries (built : Built live root rules mm) (attributes : root.msr msrIa32Pat = patValue)
    (boot : BootMap memmap executable root.pHHDM) (returned : Returns (memmap.forM vmmMapEntry) mm () mm') :
    Built live root (rules ++ memmap.map (entryRule root.pHHDM)) mm' := by
  refine returns_forM (fun processed state => Built live root (rules ++ processed.map (entryRule root.pHHDM)) state)
    ?_ ?_ returned
  · simpa using built
  · intro processed entry state state' member reached mapped
    have next := reached.entry attributes (boot.ends entry member) (boot.canonical entry member) mapped
    simpa using next

/-- The mapper accepted the whole range of a segment. -/
def SegmentAccepted (executable : LimineExecutableAddress) (phdr : Elf64Phdr) : Prop :=
  RangeAccepted (segmentCall executable phdr).what (segmentCall executable phdr).virt
    (segmentCall executable phdr).size (segmentCall executable phdr).flags

/-- A pass over the program headers adds the rules of its segments in order. -/
theorem Built.segments (built : Built live root rules mm) (attributes : root.msr msrIa32Pat = patValue)
    (boot : BootMap memmap executable root.pHHDM) {pType : ElfSegmentType} (used : pType = .load ∨ pType = .gnuRelro)
    (returned : Returns (vmmMapSegments executable pType) mm () mm') :
    Built live root (rules ++ (headersOf executable pType).map (segmentRule executable)) mm' ∧
      ∀ phdr ∈ headersOf executable pType, SegmentAccepted executable phdr := by
  refine returns_forM (fun processed state =>
    Built live root (rules ++ (processed.filter fun phdr => phdr.pType = pType).map (segmentRule executable)) state ∧
      ∀ phdr ∈ processed.filter fun phdr => phdr.pType = pType, SegmentAccepted executable phdr) ?_ ?_ returned
  · simpa using built
  · rintro processed phdr state state' member ⟨reached, accepted⟩ mapped
    by_cases type : phdr.pType = pType
    · rw [if_pos type] at mapped
      have fits := boot.segments phdr member (by rwa [Elf64Phdr.Used, type])
      have next := reached.segment attributes boot.physicalBase boot.virtualBase fits mapped
      have kept : ([phdr].filter fun phdr => phdr.pType = pType) = [phdr] := by simp [type]
      rw [List.filter_append, kept]
      refine ⟨by simpa using next.2, fun found foundMember => ?_⟩
      rcases List.mem_append.mp foundMember with before | last
      · exact accepted found before
      · rw [List.mem_singleton.mp last]
        exact next.1
    · rw [if_neg type] at mapped
      obtain ⟨_, rfl⟩ := (returns_pure _ _ _ _).mp mapped
      have dropped : ([phdr].filter fun phdr => phdr.pType = pType) = [] := by simp [type]
      rw [List.filter_append, dropped, List.append_nil]
      exact ⟨reached, accepted⟩

end Loops

/-- The machine after `vmm_init`. -/
structure VmmStarted (memmap : List LimineMemmapEntry) (executable : LimineExecutableAddress) (live : Set Nat)
    (before after : Mm) : Prop where
  tabled : Tabled after live
  attributes : after.msr msrIa32Pat = patValue
  pHHDM : after.pHHDM = before.pHHDM
  bitmap : after.bitmapPages = before.bitmapPages
  usable : after.usablePages ⊆ before.usablePages
  tables : after.tables ⊆ before.usablePages
  loaded : after.cr3.toNat = after.root * 4096
  translate : ∀ virt, Canonical virt →
    after.translate virt = lastApplicable (bootRules memmap executable before.pHHDM) virt
  accepted : ∀ phdr ∈ executable.elfPhdrs, phdr.Used → SegmentAccepted executable phdr

/-- The root table, the loop over the memory map, and the two passes over the headers build the rules in order. -/
theorem returns_vmmInit {memmap : List LimineMemmapEntry} {executable : LimineExecutableAddress} {mm mm' : Mm}
    {live : Set Nat} (pool : PoolSound mm live) (boot : BootMap memmap executable mm.pHHDM)
    (returned : Returns (vmmInit memmap executable) mm () mm') : VmmStarted memmap executable live mm mm' := by
  simp only [vmmInit, returns_bind, returns_modify] at returned
  obtain ⟨_, root, rooted, _, direct, entries, _, loaded, firstPass, _, last, secondPass, rfl⟩ := returned
  obtain ⟨zeroed, position, counts, fewer, taken⟩ := returns_vmmInitRoot pool rooted
  rw [← position] at boot
  have start : Built live root [] root :=
    ⟨Grown.refl zeroed.tabled, fun virt _ => zeroed.translate_eq virt⟩
  have entriesBuilt := start.entries zeroed.attributes boot entries
  have loadBuilt := entriesBuilt.segments zeroed.attributes boot (Or.inl rfl) firstPass
  have relroBuilt := loadBuilt.1.segments zeroed.attributes boot (Or.inr rfl) secondPass
  have built := relroBuilt.1
  have tables : last.tables ⊆ mm.usablePages := by
    intro table member
    rcases built.grown.tables member with first | later
    · rw [zeroed.mem_tables first]
      exact taken
    · exact fewer later
  have tabled := built.grown.tabled
  refine ⟨⟨⟨⟨tabled.pool.placed.fits, tabled.pool.placed.count⟩, tabled.pool.usableSmall, tabled.pool.usableBitmap,
      tabled.pool.liveSmall, tabled.pool.liveUsable, tabled.pool.liveBitmap⟩, tabled.aligned, tabled.distinct,
      tabled.small, tabled.grants, tabled.usable, tabled.bitmap, tabled.live⟩, ?_, ?_, ?_, ?_, tables, ?_, ?_, ?_⟩
  · change last.msr msrIa32Pat = patValue
    rw [built.grown.data, zeroed.attributes]
  · exact built.grown.pHHDM_eq.trans position
  · change last.bitmapPages = mm.bitmapPages
    rw [built.grown.data]
    simp only [Mm.bitmapPages, Mm.bitmapBase, Mm.bitmapBytes, Mm.physical, position, counts]
  · exact built.grown.usable.trans fewer
  · have aligned := tabled.aligned
    change (last.pml4 - last.pHHDM).toNat = last.root * 4096
    rw [Mm.root, Mm.physical] at *
    omega
  · intro virt canonical
    rw [bootRules, ← position]
    exact built.translate virt canonical
  · rintro phdr member (load | relro)
    · exact loadBuilt.2 phdr (List.mem_filter.mpr ⟨member, decide_eq_true load⟩)
    · exact relroBuilt.2 phdr (List.mem_filter.mpr ⟨member, decide_eq_true relro⟩)

section Started

variable {memmap : List LimineMemmapEntry} {executable : LimineExecutableAddress} {phhdm : Pointer}
  {boot start booted : Mm}

/-- The allocator starts on the usable entries. -/
theorem BootMap.pmmStarted (map : BootMap memmap executable phhdm) (init : Returns (pmmInit memmap phhdm) boot () start) :
    PmmStarted memmap phhdm boot start := by
  have ends := map.usableEnds
  exact returns_pmmInit (fun entry member usable => by have last := ends entry member usable; omega) init

/-- The boot mapping follows on the start of the allocator. -/
theorem BootMap.vmmStarted (map : BootMap memmap executable phhdm) (init : Returns (pmmInit memmap phhdm) boot () start)
    (mapped : Returns (vmmInit memmap executable) start () booted) : VmmStarted memmap executable ∅ start booted := by
  have started := map.pmmStarted init
  exact returns_vmmInit (started.poolSound map.usableEnds) (by rwa [started.pHHDM]) mapped

end Started

/-- After `vmm_init`, the loaded tables translate every canonical address by the last rule that applies to it. -/
theorem vmm_init_maps_last_rule {memmap : List LimineMemmapEntry} {executable : LimineExecutableAddress}
    {phhdm : Pointer} {boot start mm : Mm} (map : BootMap memmap executable phhdm)
    (init : Returns (pmmInit memmap phhdm) boot () start) (mapped : Returns (vmmInit memmap executable) start () mm) :
    mm.cr3.toNat = mm.root * 4096 ∧ ∀ virt, Canonical virt →
      mm.translate virt = lastApplicable (bootRules memmap executable phhdm) virt ∧
      (mm.translate virt ≠ none → mm.Granted virt) := by
  have built := map.vmmStarted init mapped
  rw [← (map.pmmStarted init).pHHDM]
  exact ⟨built.loaded, fun virt canonical => ⟨built.translate virt canonical, built.tabled.granted⟩⟩

/-- The sample kernel has a code segment and a data segment, and the start of its data becomes read-only. -/
def sampleExecutable : LimineExecutableAddress where
  physicalBase := 0xE000#64
  virtualBase := 0xFFFFFFFF80000000#64
  elfPhdrs := [⟨.load, pfX, 0x0#64, 0x1000#64⟩, ⟨.load, pfW, 0x1000#64, 0x800#64⟩, ⟨.gnuRelro, 0, 0x1000#64, 0x100#64⟩]

/-- A direct map and a kernel window in the upper half are canonical. -/
theorem bootMap_of_high {memmap : List LimineMemmapEntry} {executable : LimineExecutableAddress} {phhdm : Pointer}
    (high : 2 ^ 64 - 2 ^ 47 ≤ phhdm.toNat) (window : 2 ^ 64 - 2 ^ 47 ≤ executable.virtualBase.toNat)
    (room : ∀ entry ∈ memmap, entry.base.toNat + entry.length.toNat ≤ 2 ^ 52 ∧
      phhdm.toNat + entry.base.toNat + entry.length.toNat ≤ 2 ^ 64)
    (aligned : executable.physicalBase.toNat % 4096 = 0 ∧ executable.virtualBase.toNat % 4096 = 0)
    (segments : ∀ phdr ∈ executable.elfPhdrs,
      executable.virtualBase.toNat + phdr.pVaddr.toNat + phdr.pMemsz.toNat < 2 ^ 64 ∧
      executable.physicalBase.toNat + phdr.pVaddr.toNat + phdr.pMemsz.toNat ≤ 2 ^ 52) :
    BootMap memmap executable phhdm := by
  refine ⟨fun entry member _ => (room entry member).1, fun entry member _ virt inside => Or.inr ?_, aligned.1, aligned.2,
    fun phdr member _ => ⟨?_, ?_, (segments phdr member).2, fun virt page => Or.inr ?_⟩⟩
  · have bound := (room entry member).2
    have total := virt.isLt
    obtain ⟨_, upper⟩ := inside
    rw [BitVec.toNat_sub] at upper
    omega
  · have bound := (segments phdr member).1
    omega
  · have bound := (segments phdr member).1
    omega
  · obtain ⟨lower, _⟩ := page
    have base := aligned.2
    omega

def sampleBooted : Mm := lastState (vmmInit sampleMemmap sampleExecutable) sampleStart

theorem sampleBooted_returns : Returns (vmmInit sampleMemmap sampleExecutable) sampleStart () sampleBooted :=
  returns_lastState (by decide +kernel)

theorem sampleBoot_map : BootMap sampleMemmap sampleExecutable sampleHhdm :=
  bootMap_of_high (by decide) (by decide) (by decide) (by decide) (by decide)

/-- On the sample machine, the read-only segment overrides the data segment, and the framebuffer is write-combining. -/
theorem vmm_init_maps_last_rule_sample :
    sampleBooted.translate 0xFFFFFFFF80001000#64 = some ⟨0xF, false, false, true, 6#8⟩ ∧
      sampleBooted.translate (sampleHhdm + 0xC000#64) = some ⟨0xC, true, false, true, 1#8⟩ := by
  have translated := (vmm_init_maps_last_rule sampleBoot_map sampleStart_returns sampleBooted_returns).2
  constructor
  · rw [(translated _ (by decide)).1]
    decide
  · rw [(translated _ (by decide)).1]
    decide

end UmbralOS
