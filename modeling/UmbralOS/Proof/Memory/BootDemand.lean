import UmbralOS.Proof.Memory.Boot
import UmbralOS.Proof.Memory.Demand

/-!
This file proves when `vmm_init` has enough pages, and which pages it takes.
-/

namespace UmbralOS

open Library PathTree

section Root

variable {mm mm' : Mm} {live : Set Nat}

/-- The root table is the only page that the start of the mapper takes. -/
theorem usablePages_vmmInitRoot (pool : PoolSound mm live) (returned : Returns vmmInitRoot mm () mm') :
    mm'.usablePages = mm.usablePages \ {mm'.root} := by
  have whole : pageSize.toNat = 4096 := rfl
  simp only [vmmInitRoot, wrmsr, returns_bind, returns_get, returns_panicIf, returns_modify, returns_phyToVirt,
    returns_memzero] at returned
  obtain ⟨_, _, ⟨rfl, rfl⟩, _, _, ⟨_, rfl⟩, _, registered, registeredEq, page, marked, allocated, _, _,
    ⟨rfl, rfl⟩, _, _, rfl, filledEq⟩ := returned
  have placed : registered.Placed := by
    rw [← registeredEq]
    exact ⟨pool.placed.fits, pool.placed.count⟩
  obtain ⟨aligned, _, available, taken⟩ := returns_pmmAllocPages placed allocated
  have usableBefore : registered.usablePages = mm.usablePages := by rw [← registeredEq]; rfl
  have bitmap : marked.bitmapPages = mm.bitmapPages := by rw [taken.only.bitmapPages_eq, ← registeredEq]; rfl
  have free : page.toNat / 4096 ∈ mm.usablePages := usableBefore ▸ available ⟨le_rfl, by simp⟩
  have outside : page.toNat / 4096 ∉ marked.bitmapPages := bitmap ▸ Set.disjoint_left.mp pool.usableBitmap free
  have start : marked.pHHDM + page - marked.pHHDM = page := by bv_omega
  simp only [Mm.physical, start, whole] at filledEq
  have root : mm'.root = page.toNat / 4096 := by
    rw [← filledEq]
    exact congrArg (fun word : BitVec 64 => word.toNat / 4096) start
  have same : mm'.usablePages = marked.usablePages := by
    rw [← filledEq]
    refine @usablePages_congr marked { marked with memory := marked.memory.fill page.toNat 4096 0 } rfl
      fun address kept => Memory.fill_outside _ _ ?_
    have different : address / 4096 ≠ page.toNat / 4096 := fun equal => outside (equal ▸ kept)
    omega
  rw [same, taken.usablePages_take, usableBefore, root]

/-- The start of the mapper returns exactly when the processor has the attribute table and a page is usable. -/
theorem vmmInitRoot_returns_iff (pool : PoolSound mm live) : (∃ mm', Returns vmmInitRoot mm () mm') ↔
    (mm.cpuid 1 0).edx &&& cpuid1EdxPat ≠ 0 ∧ 0 < mm.usableCount := by
  constructor
  · intro given
    obtain ⟨mm', returned⟩ := given
    have root := (returns_vmmInitRoot pool returned).2.2.2.2
    simp only [vmmInitRoot, returns_bind, returns_get, returns_panicIf] at returned
    obtain ⟨_, _, ⟨rfl, rfl⟩, _, _, ⟨supported, rfl⟩, _⟩ := returned
    exact ⟨supported, Finset.card_pos.mpr ⟨_, Finset.mem_filter.mpr ⟨Finset.mem_range.mpr (Mm.usable_lt root), root⟩⟩⟩
  · rintro ⟨supported, some⟩
    have passed : ∃ done mm', Returns vmmInitRoot mm done mm' := by
      refine Returns.exists_bind ((returns_get _ _ _).mpr ⟨rfl, rfl⟩) ?_
      rw [panicIf_bind_of_not supported]
      refine Returns.exists_bind ((returns_modify _ () _ _).mpr rfl) ?_
      obtain ⟨page, marked, allocated⟩ := @pmmAllocPage_returns
        { mm with msr := fun found => if found = msrIa32Pat then patValue else mm.msr found }
        ⟨pool.placed.fits, pool.placed.count⟩ some
      refine Returns.exists_bind allocated ?_
      refine Returns.exists_bind (returns_phyToVirt.mpr ⟨rfl, rfl⟩) ?_
      exact Returns.exists_bind ((returns_modify _ () _ _).mpr rfl) ⟨(), _, returns_memzero.mpr rfl⟩
    obtain ⟨_, mm', returned⟩ := passed
    exact ⟨mm', returned⟩

/-- No path below a zeroed root has a table. -/
theorem RootZeroed.absent (zeroed : RootZeroed mm live) (path : TablePath) (below : path.val ≠ []) :
    mm.absent path = true := by
  rw [Mm.absent_iff]
  intro table found
  exact below (resolve_leaf zeroed.tableChild_eq found).1

end Root

/-- The flags of a mapped entry. -/
def MemmapType.mapFlags : MemmapType → Option (BitVec 32)
  | .usable | .acpiReclaimable | .bootloaderReclaimable => some mW
  | .framebuffer => some (mCacheWc ||| mW)
  | .reservedMapped => some mNone
  | _ => none

/-- The paths of the tables for an entry in the direct map. -/
def entryPaths (phhdm : Pointer) (entry : LimineMemmapEntry) : Finset TablePath :=
  match entry.type.mapFlags with
  | some flags => (entryCall phhdm entry flags).paths
  | none => ∅

/-- The paths of the tables for a segment in the kernel window. -/
def segmentPaths (executable : LimineExecutableAddress) (phdr : Elf64Phdr) : Finset TablePath :=
  if phdr.Used then (segmentCall executable phdr).paths else ∅

/-- The paths of the tables for the boot mapping. -/
def bootPaths (memmap : List LimineMemmapEntry) (executable : LimineExecutableAddress) (phhdm : Pointer) :
    Finset TablePath :=
  memmap.toFinset.biUnion (entryPaths phhdm) ∪ executable.elfPhdrs.toFinset.biUnion (segmentPaths executable)

/-- The mapper accepts every mapped entry and every segment. -/
structure BootMappable (memmap : List LimineMemmapEntry) (executable : LimineExecutableAddress) (phhdm : Pointer) :
    Prop where
  entries : ∀ entry ∈ memmap, ∀ flags, entry.type.mapFlags = some flags → (entryCall phhdm entry flags).Mappable
  segments : ∀ phdr ∈ executable.elfPhdrs, phdr.Used → (segmentCall executable phdr).Mappable

section Calls

variable {pool bitmap live : Set Nat} {phhdm : Pointer} {mm mm' : Mm} {entry : LimineMemmapEntry}
  {executable : LimineExecutableAddress} {phdr : Elf64Phdr}

/-- A mapped entry runs its call, and any other entry does nothing. -/
theorem run_vmmMapEntry (mm : Mm) (entry : LimineMemmapEntry) : (vmmMapEntry entry).run mm =
    (match entry.type.mapFlags with
      | some flags => (entryCall mm.pHHDM entry flags).run
      | none => pure () : MmProgram Unit).run mm := by
  have found : Returns (phyToVirt entry.base) mm (mm.pHHDM + entry.base) mm := returns_phyToVirt.mpr ⟨rfl, rfl⟩
  unfold vmmMapEntry
  rw [found.run_bind]
  cases type : entry.type <;> rfl

/-- An entry fills its paths. -/
theorem supplied_vmmMapEntry
    (mappable : ∀ flags, entry.type.mapFlags = some flags → (entryCall phhdm entry flags).Mappable) :
    Supplied (PoolState pool bitmap live phhdm) Mm.absent Mm.usableCount (entryPaths phhdm entry) (vmmMapEntry entry) := by
  have step : Supplied (PoolState pool bitmap live phhdm) Mm.absent Mm.usableCount (entryPaths phhdm entry)
      (match entry.type.mapFlags with
        | some flags => (entryCall phhdm entry flags).run
        | none => pure () : MmProgram Unit) := by
    unfold entryPaths
    cases found : entry.type.mapFlags with
    | some flags => exact (mappable flags found).supplied
    | none => exact Supplied.done
  refine step.congr fun before good => ?_
  rw [run_vmmMapEntry, good.place]

/-- A mapped entry that returns was acceptable. -/
theorem mappable_of_returns_vmmMapEntry (place : mm.pHHDM = phhdm) (returned : Returns (vmmMapEntry entry) mm () mm') :
    ∀ flags, entry.type.mapFlags = some flags → (entryCall phhdm entry flags).Mappable := by
  intro flags found
  unfold Returns at returned
  rw [run_vmmMapEntry, found, place] at returned
  exact MapCall.mappable_of_returns returned

/-- The paths of the segments of one type. -/
def passPaths (executable : LimineExecutableAddress) (pType : ElfSegmentType) (phdr : Elf64Phdr) : Finset TablePath :=
  if phdr.pType = pType then (segmentCall executable phdr).paths else ∅

/-- A pass over the headers fills the paths of its segments. -/
theorem supplied_vmmMapSegments {pType : ElfSegmentType}
    (mappable : ∀ phdr ∈ executable.elfPhdrs, phdr.pType = pType → (segmentCall executable phdr).Mappable) :
    Supplied (PoolState pool bitmap live phhdm) Mm.absent Mm.usableCount
      (executable.elfPhdrs.toFinset.biUnion (passPaths executable pType)) (vmmMapSegments executable pType) := by
  refine Supplied.forM fun phdr member => ?_
  unfold passPaths
  split_ifs with type
  · exact (mappable phdr member type).supplied
  · exact Supplied.done

/-- Every segment of a pass that returns was acceptable. -/
theorem mappable_of_returns_vmmMapSegments {pType : ElfSegmentType}
    (returned : Returns (vmmMapSegments executable pType) mm () mm') :
    ∀ phdr ∈ executable.elfPhdrs, phdr.pType = pType → (segmentCall executable phdr).Mappable := by
  refine returns_forM (fun processed _ => ∀ phdr ∈ processed, phdr.pType = pType → (segmentCall executable phdr).Mappable)
    (fun phdr member => absurd member List.not_mem_nil) ?_ returned
  intro processed phdr state state' _ reached mapped found member type
  rcases List.mem_append.mp member with before | last
  · exact reached found before type
  · rw [List.mem_singleton.mp last] at type ⊢
    rw [if_pos type] at mapped
    exact MapCall.mappable_of_returns mapped

/-- The two passes fill the paths of all used segments. -/
theorem biUnion_segmentPaths : executable.elfPhdrs.toFinset.biUnion (segmentPaths executable) =
    executable.elfPhdrs.toFinset.biUnion (passPaths executable .load) ∪
      executable.elfPhdrs.toFinset.biUnion (passPaths executable .gnuRelro) := by
  have split (phdr : Elf64Phdr) (path : TablePath) : path ∈ segmentPaths executable phdr ↔
      path ∈ passPaths executable .load phdr ∨ path ∈ passPaths executable .gnuRelro phdr := by
    unfold segmentPaths passPaths Elf64Phdr.Used
    by_cases load : phdr.pType = .load
    · simp [load]
    · simp [load]
  ext path
  simp only [Finset.mem_union, Finset.mem_biUnion, split]
  constructor
  · rintro ⟨phdr, member, inside | inside⟩
    · exact Or.inl ⟨phdr, member, inside⟩
    · exact Or.inr ⟨phdr, member, inside⟩
  · rintro (⟨phdr, member, inside⟩ | ⟨phdr, member, inside⟩)
    · exact ⟨phdr, member, Or.inl inside⟩
    · exact ⟨phdr, member, Or.inr inside⟩

end Calls

/-- Every path of the boot mapping leads below the root. -/
theorem ne_nil_of_mem_bootPaths {memmap : List LimineMemmapEntry} {executable : LimineExecutableAddress}
    {phhdm : Pointer} {path : TablePath} (member : path ∈ bootPaths memmap executable phhdm) : path.val ≠ [] := by
  have page (virt : Pointer) (inside : path ∈ pagePaths virt) : path.val ≠ [] := by
    simp only [pagePaths, Finset.mem_union, Finset.mem_singleton] at inside
    rcases inside with (rfl | rfl) | rfl <;> exact List.cons_ne_nil _ _
  have call (found : MapCall) (inside : path ∈ found.paths) : path.val ≠ [] := by
    obtain ⟨index, _, here⟩ := Finset.mem_biUnion.mp inside
    exact page _ here
  rcases Finset.mem_union.mp member with entries | segments
  · obtain ⟨entry, _, inside⟩ := Finset.mem_biUnion.mp entries
    unfold entryPaths at inside
    split at inside
    · exact call _ inside
    · exact absurd inside (Finset.notMem_empty path)
  · obtain ⟨phdr, _, inside⟩ := Finset.mem_biUnion.mp segments
    unfold segmentPaths at inside
    split_ifs at inside
    · exact call _ inside
    · exact absurd inside (Finset.notMem_empty path)

/-- The part of `vmm_init` between the root table and the load of the page table register. -/
def vmmInitMappings (memmap : List LimineMemmapEntry) (executable : LimineExecutableAddress) : MmProgram Unit :=
  memmap.forM vmmMapEntry >>= fun _ => vmmMapSegments executable .load >>= fun _ =>
    vmmMapSegments executable .gnuRelro

section Boot

variable {memmap : List LimineMemmapEntry} {executable : LimineExecutableAddress} {phhdm : Pointer}
  {boot start root mm mm' : Mm} {pool bitmap live : Set Nat}

theorem returns_vmmInit_iff : Returns (vmmInit memmap executable) mm () mm' ↔
    ∃ root last, Returns vmmInitRoot mm () root ∧ Returns (vmmInitMappings memmap executable) root () last ∧
      { last with cr3 := last.pml4 - last.pHHDM } = mm' := by
  simp only [vmmInit, vmmInitMappings, returns_bind, returns_modify]
  constructor
  · intro given
    obtain ⟨_, root, rooted, _, first, entries, _, second, load, _, last, relro, rfl⟩ := given
    exact ⟨root, last, rooted, ⟨(), first, entries, (), second, load, relro⟩, rfl⟩
  · intro given
    obtain ⟨root, last, rooted, ⟨_, first, entries, _, second, load, relro⟩, rfl⟩ := given
    exact ⟨(), root, rooted, (), first, entries, (), second, load, (), last, relro, rfl⟩

/-- The boot mapping fills its paths. -/
theorem BootMappable.supplied (mappable : BootMappable memmap executable phhdm) :
    Supplied (PoolState pool bitmap live phhdm) Mm.absent Mm.usableCount (bootPaths memmap executable phhdm)
      (vmmInitMappings memmap executable) := by
  rw [bootPaths, biUnion_segmentPaths]
  refine (Supplied.forM fun entry member => supplied_vmmMapEntry (mappable.entries entry member)).bind ?_
  refine (supplied_vmmMapSegments fun phdr member load => ?_).bind (supplied_vmmMapSegments fun phdr member relro => ?_)
  · exact mappable.segments phdr member (Or.inl load)
  · exact mappable.segments phdr member (Or.inr relro)

/-- A boot mapping that returns was acceptable. -/
theorem bootMappable_of_returns (start : PoolState pool bitmap live phhdm root)
    (returned : Returns (vmmInitMappings memmap executable) root () mm) : BootMappable memmap executable phhdm := by
  simp only [vmmInitMappings, returns_bind] at returned
  obtain ⟨_, first, entries, _, second, load, relro⟩ := returned
  have mapped := returns_forM (fun processed state => PoolState pool bitmap live phhdm state ∧
      ∀ entry ∈ processed, ∀ flags, entry.type.mapFlags = some flags → (entryCall phhdm entry flags).Mappable)
    ⟨start, fun entry member => absurd member List.not_mem_nil⟩ (by
      rintro processed entry state state' _ ⟨good, reached⟩ step
      have accepted := mappable_of_returns_vmmMapEntry good.place step
      refine ⟨((supplied_vmmMapEntry accepted).fills state state' good step).1, fun found member => ?_⟩
      rcases List.mem_append.mp member with before | last
      · exact reached found before
      · rw [List.mem_singleton.mp last]
        exact accepted) entries
  refine ⟨mapped.2, fun phdr member used => ?_⟩
  rcases used with type | type
  · exact mappable_of_returns_vmmMapSegments load phdr member type
  · exact mappable_of_returns_vmmMapSegments relro phdr member type

/-- A zeroed root over the usable pages is a state of the mapper, and it needs every table of the boot mapping. -/
theorem vmmInitRoot_poolState (sound : PoolSound start live) (rooted : Returns vmmInitRoot start () root) :
    PoolState start.usablePages start.bitmapPages live start.pHHDM root ∧ root.usableCount + 1 = start.usableCount ∧
      shortfall root.absent (bootPaths memmap executable phhdm) = (bootPaths memmap executable phhdm).card := by
  obtain ⟨zeroed, place, counts, _, available⟩ := returns_vmmInitRoot sound rooted
  have usable := usablePages_vmmInitRoot sound rooted
  have bitmap : root.bitmapPages = start.bitmapPages := by
    simp only [Mm.bitmapPages, Mm.bitmapBase, Mm.bitmapBytes, Mm.physical, counts, place]
  refine ⟨⟨zeroed.tabled, ?_, bitmap, place⟩, usableCount_take (by rw [counts]) available usable, ?_⟩
  · have tables : root.tables = {root.root} := by
      ext table
      refine ⟨fun member => zeroed.mem_tables member, ?_⟩
      rintro rfl
      exact ⟨[], Nat.zero_le _, resolve_nil _ _⟩
    rw [Mm.poolPages, tables, usable]
    exact Set.sdiff_union_of_subset (Set.singleton_subset_iff.mpr available)
  · exact shortfall_of_absent fun path member => zeroed.absent path (ne_nil_of_mem_bootPaths member)

/-- The tables do not depend on the page table register. -/
theorem PoolState.loadCr3 (state : PoolState pool bitmap live phhdm mm) (value : BitVec 64) :
    PoolState pool bitmap live phhdm { mm with cr3 := value } := by
  obtain ⟨⟨sound, aligned, distinct, small, grants, usable, apart, unused⟩, pooled, kept, place⟩ := state
  have placed : Mm.Placed { mm with cr3 := value } := ⟨sound.placed.fits, sound.placed.count⟩
  exact ⟨⟨sound.shrink placed subset_rfl rfl, aligned, distinct, small, grants, usable, apart, unused⟩, pooled, kept, place⟩

/-- The boot mapping takes a page for the root and for every other table, and for nothing else. -/
theorem poolState_vmmInit (sound : PoolSound start live) (returned : Returns (vmmInit memmap executable) start () mm) :
    PoolState start.usablePages start.bitmapPages live start.pHHDM mm ∧
      mm.usableCount + (bootPaths memmap executable start.pHHDM).card + 1 = start.usableCount := by
  obtain ⟨root, last, rooted, mapped, rfl⟩ := returns_vmmInit_iff.mp returned
  obtain ⟨good, count, needed⟩ := @vmmInitRoot_poolState memmap executable start.pHHDM start root live sound rooted
  obtain ⟨reached, fills⟩ := (bootMappable_of_returns good mapped).supplied.fills root last good mapped
  have paid := fills.paid
  have same : Mm.usableCount { last with cr3 := last.pml4 - last.pHHDM } = last.usableCount := rfl
  exact ⟨reached.loadCr3 _, by omega⟩

/-- After `pmm_init`, `vmm_init` returns exactly when the processor has the attribute table, the mapper accepts every
entry and segment, and there are enough usable pages for the root and for every other table. Then these tables are the
only pages that it takes. -/
theorem vmm_init_returns_iff (ends : ∀ entry ∈ memmap, entry.Usable → entry.base.toNat + entry.length.toNat ≤ 2 ^ 52)
    (init : Returns (pmmInit memmap phhdm) boot () start) (executable : LimineExecutableAddress) :
    ((∃ mm, Returns (vmmInit memmap executable) start () mm) ↔
      (start.cpuid 1 0).edx &&& cpuid1EdxPat ≠ 0 ∧ BootMappable memmap executable phhdm ∧
        (bootPaths memmap executable phhdm).card + 1 ≤ start.usableCount) ∧
    ∀ mm, Returns (vmmInit memmap executable) start () mm →
      mm.usableCount + (bootPaths memmap executable phhdm).card + 1 = start.usableCount ∧
      mm.poolPages = start.usablePages := by
  have started := returns_pmmInit (fun entry member usable => by have last := ends entry member usable; omega) init
  have sound := started.poolSound ends
  have position := started.pHHDM
  have state (root : Mm) (rooted : Returns vmmInitRoot start () root) :=
    @vmmInitRoot_poolState memmap executable phhdm start root ∅ sound rooted
  rw [position] at state
  refine ⟨⟨fun given => ?_, fun given => ?_⟩, fun mm returned => ?_⟩
  · obtain ⟨mm, returned⟩ := given
    obtain ⟨root, last, rooted, mapped, _⟩ := returns_vmmInit_iff.mp returned
    obtain ⟨good, count, needed⟩ := state root rooted
    have mappable := bootMappable_of_returns good mapped
    have enough := (mappable.supplied.returns_iff good).mp ⟨last, mapped⟩
    refine ⟨((vmmInitRoot_returns_iff sound).mp ⟨root, rooted⟩).1, mappable, ?_⟩
    omega
  · obtain ⟨supported, mappable, enough⟩ := given
    obtain ⟨root, rooted⟩ := (vmmInitRoot_returns_iff sound).mpr ⟨supported, by omega⟩
    obtain ⟨good, count, needed⟩ := state root rooted
    obtain ⟨last, mapped⟩ := mappable.supplied.returns root good (by omega)
    exact ⟨_, returns_vmmInit_iff.mpr ⟨root, last, rooted, mapped, rfl⟩⟩
  · obtain ⟨reached, paid⟩ := poolState_vmmInit sound returned
    rw [position] at paid
    exact ⟨paid, reached.pool⟩

end Boot

/-- On the sample machine, the boot mapping needs the root and six more tables, and one of eight usable pages is left. -/
theorem vmm_init_returns_iff_sample : sampleBooted.usableCount + 6 + 1 = 8 := by
  have needed : (bootPaths sampleMemmap sampleExecutable sampleHhdm).card = 6 := by decide +kernel
  have usable : sampleStart.usableCount = 8 := by decide +kernel
  have paid := ((vmm_init_returns_iff (by decide) sampleStart_returns sampleExecutable).2 sampleBooted
    sampleBooted_returns).1
  rwa [needed, usable] at paid

end UmbralOS
