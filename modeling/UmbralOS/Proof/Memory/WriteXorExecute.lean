import UmbralOS.Proof.Memory.Boot

/-!
This file proves that the boot mapping never gives a physical page to a writable leaf and to an executable leaf.
-/

namespace UmbralOS

open Library

section Rules

variable {memmap : List LimineMemmapEntry} {executable : LimineExecutableAddress} {phhdm virt : Pointer}
  {translation : Translation}

/-- A physical page belongs to a segment that the kernel uses. -/
def KernelPage (executable : LimineExecutableAddress) (page : Nat) : Prop :=
  ∃ phdr ∈ executable.elfPhdrs, phdr.Used ∧ SegmentPage phdr executable.physicalBase page

/-- The direct map gives write rights to the entries of these types. -/
def LimineMemmapEntry.DirectWritable (entry : LimineMemmapEntry) : Prop :=
  entry.Pooled ∨ entry.type = .framebuffer

instance (entry : LimineMemmapEntry) : Decidable entry.DirectWritable := inferInstanceAs (Decidable (_ ∨ _))

/-- Every translation of the boot mapping comes from an entry or from a segment. -/
theorem bootRules_cases (found : lastApplicable (bootRules memmap executable phhdm) virt = some translation) :
    (∃ entry ∈ memmap, entryRule phhdm entry virt = some translation) ∨
      ∃ phdr ∈ executable.elfPhdrs, phdr.Used ∧ segmentRule executable phdr virt = some translation := by
  obtain ⟨earlier, rule, later, split, applied, _⟩ := lastApplicable_eq_some_iff.mp found
  have member : rule ∈ bootRules memmap executable phhdm := by rw [split]; simp
  rcases mem_bootRules.mp member with ⟨entry, inside, rfl⟩ | ⟨phdr, inside, used, rfl⟩
  · exact Or.inl ⟨entry, inside, applied⟩
  · exact Or.inr ⟨phdr, inside, used, applied⟩

/-- The direct map never allows execution, and it allows writing only in some entries. -/
theorem entryRule_rights {entry : LimineMemmapEntry} (applied : entryRule phhdm entry virt = some translation) :
    translation.xd = true ∧ translation.page ∈ entry.pages ∧ (translation.rw = true → entry.DirectWritable) := by
  cases found : entry.type.direct with
  | none =>
      rw [entryRule, found] at applied
      cases applied
  | some direct =>
      rw [entryRule_mapped found] at applied
      split_ifs at applied with inside
      obtain rfl := Option.some.inj applied
      refine ⟨rfl, ⟨_, inside, rfl⟩, fun writable => ?_⟩
      unfold LimineMemmapEntry.DirectWritable LimineMemmapEntry.Pooled LimineMemmapEntry.Usable
        LimineMemmapEntry.Reclaimable
      cases type : entry.type <;> rw [type] at found <;> simp [MemmapType.direct] at found ⊢
      rw [← found] at writable
      cases writable

/-- The kernel window gives the rights of the header to the pages of the segment. -/
theorem segmentRule_rights {phdr : Elf64Phdr} (applied : segmentRule executable phdr virt = some translation) :
    SegmentPage phdr executable.virtualBase (virt.toNat / 4096) ∧
      translation.page = (executable.physicalBase.toNat + (virt.toNat - executable.virtualBase.toNat)) / 4096 ∧
      translation.rw = (phdr.pFlags &&& pfW != 0) ∧ translation.xd = !(phdr.pFlags &&& pfX != 0) := by
  rw [segmentRule] at applied
  split_ifs at applied with inside
  obtain rfl := Option.some.inj applied
  exact ⟨inside, rfl, rfl, rfl⟩

/-- A page of the kernel window keeps its offset in physical memory. -/
theorem segmentPage_physical {phdr : Elf64Phdr} (physicalBase : executable.physicalBase.toNat % 4096 = 0)
    (virtualBase : executable.virtualBase.toNat % 4096 = 0)
    (inside : SegmentPage phdr executable.virtualBase (virt.toNat / 4096)) :
    executable.virtualBase.toNat ≤ virt.toNat ∧ SegmentPage phdr executable.physicalBase
      ((executable.physicalBase.toNat + (virt.toNat - executable.virtualBase.toNat)) / 4096) := by
  unfold SegmentPage at *
  omega

/-- An accepted segment with a page is not both writable and executable. -/
theorem segmentAccepted_exclusive {phdr : Elf64Phdr} (physicalBase : executable.physicalBase.toNat % 4096 = 0)
    (virtualBase : executable.virtualBase.toNat % 4096 = 0) (fits : SegmentFits executable phdr)
    (accepted : SegmentAccepted executable phdr)
    {page : Nat} (inside : SegmentPage phdr executable.virtualBase page) :
    ¬ (phdr.pFlags &&& pfW ≠ 0 ∧ phdr.pFlags &&& pfX ≠ 0) := by
  obtain ⟨start, physical, size⟩ := toNat_segmentCall fits
  have rights := requested_elfToMemoryFlags 0 phdr.pFlags
  have positive : 0 < (segmentCall executable phdr).size.toNat / 4096 := by
    unfold SegmentPage at inside
    omega
  have exclusive := (accepted.pages 0 positive).exclusive
  have writable : (elfToMemoryFlags phdr.pFlags &&& mW != 0) = (phdr.pFlags &&& pfW != 0) :=
    congrArg Translation.rw rights
  have executableFlag : (!(elfToMemoryFlags phdr.pFlags &&& mX != 0)) = !(phdr.pFlags &&& pfX != 0) :=
    congrArg Translation.xd rights
  intro given
  obtain ⟨writes, executes⟩ := given
  rw [bne_iff_ne.mpr writes] at writable
  rw [bne_iff_ne.mpr executes, Bool.not_inj_iff] at executableFlag
  exact exclusive ⟨bne_iff_ne.mp writable, bne_iff_ne.mp executableFlag⟩

end Rules

theorem Mm.translate_congr (mm : Mm) {first second : Pointer} (same : virtualPage first = virtualPage second) :
    mm.translate first = mm.translate second := by
  obtain ⟨path, index⟩ := (virtualPage_eq_iff first second).mp same
  rw [Mm.translate, Mm.translate, Mm.walk, Mm.walk, UmbralOS.walk, UmbralOS.walk, path, index]

/-- No physical page has a writable leaf and an executable leaf. -/
theorem VmmStarted.write_xor_execute {memmap : List LimineMemmapEntry} {executable : LimineExecutableAddress}
    {live : Set Nat} {before mm : Mm} (map : BootMap memmap executable before.pHHDM)
    (separate : ∀ entry ∈ memmap, entry.DirectWritable → ∀ page ∈ entry.pages, ¬ KernelPage executable page)
    (started : VmmStarted memmap executable live before mm) {first second : Pointer}
    (firstCanonical : Canonical first) (secondCanonical : Canonical second) {write execute : Translation}
    (firstFound : mm.translate first = some write) (secondFound : mm.translate second = some execute)
    (same : write.page = execute.page) (writable : write.rw = true) : execute.xd = true := by
  by_contra allowed
  have secondRule := secondFound
  rw [started.translate second secondCanonical] at secondRule
  rcases bootRules_cases secondRule with ⟨entry, _, applied⟩ | ⟨phdr, member, used, applied⟩
  · exact allowed (entryRule_rights applied).1
  · obtain ⟨inside, page, rights, execution⟩ := segmentRule_rights applied
    have fits := map.segments phdr member used
    obtain ⟨secondLower, kernel⟩ := segmentPage_physical map.physicalBase map.virtualBase inside
    have firstRule := firstFound
    rw [started.translate first firstCanonical] at firstRule
    rcases bootRules_cases firstRule with ⟨entry, entryMember, entryApplied⟩ | ⟨other, otherMember, otherUsed, otherApplied⟩
    · obtain ⟨_, entryInside, direct⟩ := entryRule_rights entryApplied
      apply separate entry entryMember (direct writable) write.page entryInside
      rw [same, page]
      exact ⟨phdr, member, used, kernel⟩
    · obtain ⟨otherInside, otherPage, _, _⟩ := segmentRule_rights otherApplied
      have firstLower := (segmentPage_physical map.physicalBase map.virtualBase otherInside).1
      -- The window is linear, so both addresses lie on one virtual page and share their leaf.
      have samePage : virtualPage first = virtualPage second := by
        have physicalBase := map.physicalBase
        have virtualBase := map.virtualBase
        rw [otherPage, page] at same
        unfold virtualPage
        omega
      rw [mm.translate_congr samePage, secondFound] at firstFound
      obtain rfl := Option.some.inj firstFound
      apply segmentAccepted_exclusive map.physicalBase map.virtualBase fits (started.accepted phdr member used) inside
      rw [writable] at rights
      rw [Bool.not_eq_true] at allowed
      rw [allowed] at execution
      exact ⟨bne_iff_ne.mp rights.symm, bne_iff_ne.mp (@Bool.not_inj _ true execution.symm)⟩

section Panics

theorem panics_vmmEnsurePresent (entry : Pointer) : Panics (vmmEnsurePresent entry) := by
  have finish : Panics (do
      let word ← load64 entry
      phyToVirt ((PageDirectoryEntrySubdirectory.ofWord word).addr.setWidth 64 <<< 12)) :=
    stopsOnly_bind (panics_load64 entry) fun _ => panics_phyToVirt _
  refine stopsOnly_bind (panics_load64 entry) fun before => ?_
  cases (PageDirectoryEntrySubdirectory.ofWord before).p
  · apply stopsOnly_bind (panics_pmmAllocPages 1)
    intro page
    refine stopsOnly_bind (panics_phyToVirt page) fun table => ?_
    refine stopsOnly_bind (panics_memzero table pageSize) fun _ => ?_
    refine stopsOnly_bind (panics_load64 entry) fun old => ?_
    exact stopsOnly_bind (panics_store64 _ _) fun _ => finish
  · exact finish

theorem panics_cachePat (flags : BitVec 32) : Panics (cachePat flags) := by
  unfold cachePat
  split_ifs
  · exact stopsOnly_pure _
  · exact stopsOnly_pure _
  · exact stopsOnly_pure _
  · exact stopsOnly_throw trivial

theorem panics_vmmMapPage (what : Phy) (virt : Pointer) (flags : BitVec 32) : Panics (vmmMapPage what virt flags) := by
  iterate 4 refine stopsOnly_bind stopsOnly_panicIf fun _ => ?_
  refine stopsOnly_bind (panics_cachePat flags) fun pat => ?_
  refine stopsOnly_bind stopsOnly_get fun mm => ?_
  iterate 3 refine stopsOnly_bind (panics_vmmEnsurePresent _) fun _ => ?_
  exact stopsOnly_bind (panics_load64 _) fun _ => panics_store64 _ _

theorem panics_vmmMap (what : Phy) (virt : Pointer) (size : BitVec 64) (flags : BitVec 32) :
    Panics (vmmMap what virt size flags) := by
  iterate 3 refine stopsOnly_bind stopsOnly_panicIf fun _ => ?_
  exact stopsOnly_forRange (fun _ _ => panics_vmmMapPage _ _ _) _ _

theorem panics_vmmMapEntry (entry : LimineMemmapEntry) : Panics (vmmMapEntry entry) := by
  refine stopsOnly_bind (panics_phyToVirt _) fun virt => ?_
  cases entry.type <;> first | exact panics_vmmMap _ _ _ _ | exact stopsOnly_pure ()

theorem panics_vmmMapSegments (executable : LimineExecutableAddress) (pType : ElfSegmentType) :
    Panics (vmmMapSegments executable pType) := by
  refine stopsOnly_forM (fun phdr => ?_) _
  split_ifs
  · exact panics_vmmMap _ _ _ _
  · exact stopsOnly_pure ()

theorem panics_vmmInit (memmap : List LimineMemmapEntry) (executable : LimineExecutableAddress) :
    Panics (vmmInit memmap executable) := by
  have root : Panics vmmInitRoot := by
    refine stopsOnly_bind stopsOnly_get fun mm => ?_
    refine stopsOnly_bind stopsOnly_panicIf fun _ => ?_
    refine stopsOnly_bind (stopsOnly_modify _) fun _ => ?_
    refine stopsOnly_bind (panics_pmmAllocPages 1) fun page => ?_
    refine stopsOnly_bind (panics_phyToVirt page) fun pml4 => ?_
    exact stopsOnly_bind (stopsOnly_modify _) fun _ => panics_memzero _ _
  refine stopsOnly_bind root fun _ => ?_
  refine stopsOnly_bind (stopsOnly_forM panics_vmmMapEntry memmap) fun _ => ?_
  refine stopsOnly_bind (panics_vmmMapSegments executable .load) fun _ => ?_
  exact stopsOnly_bind (panics_vmmMapSegments executable .gnuRelro) fun _ => stopsOnly_modify _

end Panics

/-- After `vmm_init`, no physical page has a writable leaf and an executable leaf.
A used header that asks for both rights on some page stops `vmm_init` in a panic. -/
theorem vmm_init_write_xor_execute {memmap : List LimineMemmapEntry} {executable : LimineExecutableAddress}
    {phhdm : Pointer} {boot start : Mm} (map : BootMap memmap executable phhdm)
    (separate : ∀ entry ∈ memmap, entry.DirectWritable → ∀ page ∈ entry.pages, ¬ KernelPage executable page)
    (init : Returns (pmmInit memmap phhdm) boot () start) :
    (∀ mm, Returns (vmmInit memmap executable) start () mm → ∀ first second write execute,
      Canonical first → Canonical second → mm.translate first = some write → mm.translate second = some execute →
      write.page = execute.page → write.rw = true → execute.xd = true) ∧
    ∀ phdr ∈ executable.elfPhdrs, phdr.Used → phdr.pFlags &&& pfW ≠ 0 → phdr.pFlags &&& pfX ≠ 0 →
      (∃ page, SegmentPage phdr executable.virtualBase page) →
      ∃ format arguments last, Stops (vmmInit memmap executable) start (.panic format arguments) last := by
  have started := map.pmmStarted init
  have pool := started.poolSound map.usableEnds
  rw [← started.pHHDM] at map
  constructor
  · intro mm mapped first second write execute firstCanonical secondCanonical firstFound secondFound
    exact (returns_vmmInit pool map mapped).write_xor_execute map separate firstCanonical secondCanonical
      firstFound secondFound
  · intro phdr member used writes executes given
    obtain ⟨page, inside⟩ := given
    rcases returns_or_stops (vmmInit memmap executable) start with ⟨_, mm, mapped⟩ | ⟨reason, last, stopped⟩
    · have accepted := (returns_vmmInit pool map mapped).accepted phdr member used
      have exclusive := segmentAccepted_exclusive map.physicalBase map.virtualBase (map.segments phdr member used)
        accepted inside
      exact absurd ⟨writes, executes⟩ exclusive
    · have panics := panics_vmmInit memmap executable start reason last stopped
      cases reason with
      | panic format arguments => exact ⟨format, arguments, last, stopped⟩
      | nullAccess => cases panics
      | outOfBounds => cases panics
      | running => cases panics

theorem sampleExecutable_separate : ∀ entry ∈ sampleMemmap, entry.DirectWritable → ∀ page ∈ entry.pages,
    ¬ KernelPage sampleExecutable page := by
  rintro entry member writable page ⟨address, ⟨_, upper⟩, rfl⟩ ⟨phdr, _, _, lower, _⟩
  have below : ∀ entry ∈ sampleMemmap, entry.DirectWritable → entry.base.toNat + entry.length.toNat ≤ 0xD000 := by
    decide
  have last := below entry member writable
  have base : sampleExecutable.physicalBase.toNat = 0xE000 := rfl
  omega

/-- On the sample machine, every leaf of the framebuffer page forbids execution. -/
theorem vmm_init_write_xor_execute_sample :
    sampleBooted.translate (sampleHhdm + 0xC000#64) = some ⟨0xC, true, false, true, 1#8⟩ ∧
    ∀ virt translation, Canonical virt → sampleBooted.translate virt = some translation → translation.page = 0xC →
      translation.xd = true := by
  have framebuffer : sampleBooted.translate (sampleHhdm + 0xC000#64) = some ⟨0xC, true, false, true, 1#8⟩ := by
    decide +kernel
  refine ⟨framebuffer, fun virt translation canonical found page => ?_⟩
  have exclusive := (vmm_init_write_xor_execute sampleBoot_map sampleExecutable_separate sampleStart_returns).1
    sampleBooted sampleBooted_returns
  exact exclusive _ virt _ translation (by decide) canonical framebuffer found page.symm rfl

/-- This sample kernel has only an empty executable segment, at an address inside a page. -/
def sampleEmptySegment : LimineExecutableAddress where
  physicalBase := 0x9000#64
  virtualBase := 0xFFFFFFFF80000000#64
  elfPhdrs := [⟨.load, pfX, 0x800#64, 0x0#64⟩]

def sampleEmptyBooted : Mm := lastState (vmmInit sampleMemmap sampleEmptySegment) sampleStart

/-- An empty segment holds no byte, but `vmm_init` maps the page of its address as executable.
The direct map gives the same physical page a writable leaf. -/
theorem vmm_init_maps_empty_segment :
    BootMap sampleMemmap sampleEmptySegment sampleHhdm ∧
    (∀ entry ∈ sampleMemmap, ∀ page ∈ entry.pages, ∀ phdr ∈ sampleEmptySegment.elfPhdrs,
      ¬ ∃ address, sampleEmptySegment.physicalBase.toNat + phdr.pVaddr.toNat ≤ address ∧
        address < sampleEmptySegment.physicalBase.toNat + phdr.pVaddr.toNat + phdr.pMemsz.toNat ∧
        address / 4096 = page) ∧
    Returns (pmmInit sampleMemmap sampleHhdm) sampleBoot () sampleStart ∧
    Returns (vmmInit sampleMemmap sampleEmptySegment) sampleStart () sampleEmptyBooted ∧
    sampleEmptyBooted.translate (sampleHhdm + 0x9000#64) = some ⟨0x9, true, false, true, 6#8⟩ ∧
    sampleEmptyBooted.translate 0xFFFFFFFF80000000#64 = some ⟨0x9, false, false, false, 6#8⟩ := by
  refine ⟨bootMap_of_high (by decide) (by decide) (by decide) (by decide) (by decide), ?_, sampleStart_returns,
    returns_lastState (by decide +kernel), by decide +kernel, by decide +kernel⟩
  intro entry _ page _ phdr member given
  obtain ⟨address, lower, upper, _⟩ := given
  have empty : ∀ phdr ∈ sampleEmptySegment.elfPhdrs, phdr.pMemsz.toNat = 0 := by decide
  have none := empty phdr member
  omega

end UmbralOS
