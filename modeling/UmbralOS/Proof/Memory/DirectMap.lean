import UmbralOS.Proof.Memory.Boot

/-!
This file proves that every page of the allocator stays reachable through the direct map.
-/

namespace UmbralOS

open Library

section Windows

variable (memmap : List LimineMemmapEntry) (executable : LimineExecutableAddress) (phhdm : Pointer)

/-- No page of the kernel window is an address of an allocator entry in the direct map. -/
def WindowsDisjoint : Prop :=
  ∀ phdr ∈ executable.elfPhdrs, phdr.Used → ∀ virt : Pointer,
    SegmentPage phdr executable.virtualBase (virt.toNat / 4096) →
    ∀ entry ∈ memmap, entry.Pooled → (virt - phhdm).toNat ∉ entry.bytes

/-- The walk of no address in the range of a call reads the same bits as an allocator address in the direct map. -/
def MapCall.Avoids (call : MapCall) : Prop :=
  ∀ found, call.Covers found → ∀ entry ∈ memmap, entry.Pooled → ∀ address ∈ entry.bytes,
    virtualPage found ≠ virtualPage (phhdm + BitVec.ofNat 64 address)

/-- The walk of no address in the range of a call reads the same bits as one of these addresses. -/
def MapCall.Spares (call : MapCall) (places : Set Pointer) : Prop :=
  ∀ found, call.Covers found → ∀ virt ∈ places, virtualPage found ≠ virtualPage virt

/-- The addresses of the kernel's segments. -/
def kernelImage : Set Pointer :=
  { virt | ∃ phdr ∈ executable.elfPhdrs, phdr.Used ∧ SegmentPage phdr executable.virtualBase (virt.toNat / 4096) }

/-- The addresses that `vmm_init` maps: the mapped entries in the direct map, and the kernel's segments. -/
def bootPlaces : Set Pointer :=
  { virt | ∃ entry ∈ memmap, entry.type.direct ≠ none ∧ (virt - phhdm).toNat ∈ entry.bytes } ∪ kernelImage executable

/-- The kernel's segments are translated as `vmm_init` mapped them. -/
def ImageMapped (mm : Mm) : Prop :=
  ∀ virt ∈ kernelImage executable, mm.translate virt = lastApplicable (bootRules memmap executable phhdm) virt

/-- The direct map translates a page to itself, for writing and not for execution, with write-back caching. -/
def directTranslation (page : Nat) : Translation := ⟨page, true, false, true, patWb.setWidth 8⟩

/-- The direct map translates every page that the allocator may own at some time. -/
def DirectMapped (mm : Mm) : Prop :=
  ∀ entry ∈ memmap, entry.Pooled → ∀ page ∈ entry.pages, mm.translate (mm.tablePointer page) = some (directTranslation page)

end Windows

theorem LimineMemmapEntry.Pooled.direct {entry : LimineMemmapEntry} (pooled : entry.Pooled) :
    entry.type.direct = some (true, patWb.setWidth 8) := by
  rcases pooled with usable | acpi | bootloader
  · rw [usable]
    rfl
  · rw [acpi]
    rfl
  · rw [bootloader]
    rfl

/-- An address of the direct map lies at its physical address from the start of the map. -/
theorem toNat_direct (phhdm : Pointer) {address : Nat} (small : address < 2 ^ 64) :
    (phhdm + BitVec.ofNat 64 address - phhdm).toNat = address := by
  rw [show phhdm + BitVec.ofNat 64 address - phhdm = BitVec.ofNat 64 address by bv_omega, BitVec.toNat_ofNat,
    Nat.mod_eq_of_lt small]

section Start

variable {memmap : List LimineMemmapEntry} {executable : LimineExecutableAddress} {phhdm : Pointer}

/-- The rules of the boot mapping agree on the direct map of an allocator entry. -/
theorem bootRules_direct (map : BootMap memmap executable phhdm) (pooled : PooledMap memmap)
    (windows : WindowsDisjoint memmap executable phhdm) {entry : LimineMemmapEntry} (member : entry ∈ memmap)
    (owned : entry.Pooled) {page : Nat} (inside : page ∈ entry.pages) :
    lastApplicable (bootRules memmap executable phhdm) (phhdm + BitVec.ofNat 64 (page * 4096)) =
      some (directTranslation page) := by
  have ends := map.ends entry member (by rw [owned.direct]; exact Option.some_ne_none _)
  have range := (LimineMemmapEntry.mem_pages (pooled.aligned entry member owned)).mp inside
  have aligned := pooled.aligned entry member owned
  unfold LimineMemmapEntry.Aligned at aligned
  have offset := @toNat_direct phhdm (page * 4096) (by omega)
  have covered : entry.base.toNat ≤ page * 4096 ∧ page * 4096 < entry.base.toNat + entry.length.toNat := by omega
  have whole : page * 4096 / 4096 = page := by omega
  apply lastApplicable_eq_of_agree
  · refine ⟨entryRule phhdm entry, mem_bootRules.mpr (Or.inl ⟨entry, member, rfl⟩), ?_⟩
    rw [entryRule_mapped owned.direct, offset, if_pos covered, whole]
    rfl
  · intro rule ruleMember other applied
    rcases mem_bootRules.mp ruleMember with ⟨found, foundMember, rfl⟩ | ⟨phdr, phdrMember, used, rfl⟩
    · cases mapped : found.type.direct with
      | none =>
          rw [entryRule, mapped] at applied
          cases applied
      | some direct =>
          rw [entryRule_mapped mapped, offset] at applied
          split_ifs at applied with within
          have same := pooled.unique member foundMember owned inside ⟨page * 4096, within, whole⟩
          subst same
          rw [owned.direct] at mapped
          obtain rfl := Option.some.inj mapped
          rw [← Option.some.inj applied, whole]
          rfl
    · rw [segmentRule] at applied
      split_ifs at applied with within
      have apart := windows phdr phdrMember used _ within entry member owned
      rw [offset] at apart
      exact absurd covered apart

end Start

section Spared

variable {memmap : List LimineMemmapEntry} {executable : LimineExecutableAddress} {phhdm : Pointer} {mm mm' : Mm}
  {live : Set Nat} {call : MapCall}

/-- A mapping call keeps the translation of an address that it spares. -/
theorem MapCall.translate_spared (tabled : Tabled mm live) (attributes : mm.msr msrIa32Pat = patValue)
    (physical : call.what.toNat + call.size.toNat ≤ 2 ^ 52) (returned : Returns call.run mm () mm') {virt : Pointer}
    (spared : ∀ found, call.Covers found → virtualPage found ≠ virtualPage virt) :
    mm'.translate virt = mm.translate virt := by
  obtain ⟨accepted, remapped⟩ := returns_vmmMap tabled attributes physical returned
  have silent : lastApplicable (mapRules call.what call.virt (call.size.toNat / 4096) call.flags) virt = none := by
    rw [lastApplicable_eq_none_iff]
    intro rule ruleMember
    obtain ⟨index, below, rfl⟩ := List.mem_map.mp ruleMember
    have within := List.mem_range.mp below
    have ends := accepted.ends
    have place : (call.virt + BitVec.ofNat 64 index * pageSize).toNat = call.virt.toNat + index * 4096 := by
      rw [toNat_pageOffset, Nat.mod_eq_of_lt (by omega)]
    have covered : call.Covers (call.virt + BitVec.ofNat 64 index * pageSize) := by
      unfold MapCall.Covers
      omega
    exact if_neg fun same => spared _ covered same.symm
  rw [remapped.translate, silent, Option.none_or]

/-- A call that spares the boot mapping avoids the direct map of the allocator. -/
theorem MapCall.Spares.avoids (ends : ∀ entry ∈ memmap, entry.Pooled → entry.base.toNat + entry.length.toNat ≤ 2 ^ 52)
    (spares : call.Spares (bootPlaces memmap executable phhdm)) : call.Avoids memmap phhdm := by
  intro found covered entry member pooled address bytes
  have last := ends entry member pooled
  have below := bytes.2
  refine spares found covered _ (Or.inl ⟨entry, member, ?_, ?_⟩)
  · rw [pooled.direct]
    exact Option.some_ne_none _
  · rwa [toNat_direct phhdm (by omega)]

theorem MapCall.Spares.image (spares : call.Spares (bootPlaces memmap executable phhdm)) :
    call.Spares (kernelImage executable) := fun found covered virt inside => spares found covered virt (Or.inr inside)

/-- A range on the canonical addresses spares the canonical addresses that it does not cover. -/
theorem MapCall.spares_of_disjoint {places : Set Pointer}
    (aligned : call.virt.toNat % 4096 = 0 ∧ call.size.toNat % 4096 = 0)
    (canonical : ∀ found, call.Covers found → Canonical found) (known : ∀ virt ∈ places, Canonical virt)
    (disjoint : ∀ virt ∈ places, ¬ call.Covers virt) : call.Spares places := by
  intro found covered virt inside same
  have here := canonical found covered
  have there := known virt inside
  refine disjoint virt inside ?_
  unfold Canonical at here there
  unfold virtualPage at same
  unfold MapCall.Covers at covered ⊢
  omega

/-- The boot mapping has canonical addresses. -/
theorem BootMap.canonicalPlaces (map : BootMap memmap executable phhdm) :
    ∀ virt ∈ bootPlaces memmap executable phhdm, Canonical virt := by
  rintro virt (⟨entry, member, direct, inside⟩ | ⟨phdr, member, used, page⟩)
  · exact map.canonical entry member direct virt inside
  · exact (map.segments phdr member used).canonical virt page

end Spared

namespace DirectMapped

variable {memmap : List LimineMemmapEntry} {mm mm' : Mm} {live : Set Nat}

/-- A step that keeps every translation keeps the direct map. -/
theorem keep (direct : DirectMapped memmap mm) (place : mm'.pHHDM = mm.pHHDM) (translate : mm'.translate = mm.translate) :
    DirectMapped memmap mm' := by
  intro entry member pooled page inside
  rw [translate, Mm.tablePointer, place]
  exact direct entry member pooled page inside

/-- A mapping call outside the direct map of the allocator keeps the direct map. -/
theorem map (direct : DirectMapped memmap mm) (aligned : ∀ entry ∈ memmap, entry.Pooled → entry.Aligned)
    (tabled : Tabled mm live) (attributes : mm.msr msrIa32Pat = patValue) {call : MapCall}
    (avoids : call.Avoids memmap mm.pHHDM) (physical : call.what.toNat + call.size.toNat ≤ 2 ^ 52)
    (returned : Returns call.run mm () mm') : DirectMapped memmap mm' := by
  have grown := (vmmMap_framed tabled returned).1
  intro entry member pooled page inside
  have bytes : page * 4096 ∈ entry.bytes :=
    LimineMemmapEntry.mem_bytes_of_pages (aligned entry member pooled) (by rwa [Nat.mul_div_cancel _ (by omega)])
  have kept : mm'.translate (mm.tablePointer page) = mm.translate (mm.tablePointer page) :=
    MapCall.translate_spared tabled attributes physical returned fun found covered =>
      avoids found covered entry member pooled (page * 4096) bytes
  rw [grown.tablePointer_eq, kept]
  exact direct entry member pooled page inside

end DirectMapped

/-- A run takes client steps, mapping calls outside the direct map of the allocator, and at most one donation. -/
inductive KernelRun (memmap : List LimineMemmapEntry) (booted : Mm) : Option (Set Nat) → Mm → Set Nat → Prop where
  | start : KernelRun memmap booted none booted ∅
  | client {stack : Option (Set Nat)} {mm mm' : Mm} {live live' handed : Set Nat}
      (run : KernelRun memmap booted stack mm live) (step : ClientStep mm live handed mm' live') :
      KernelRun memmap booted stack mm' live'
  | map {stack : Option (Set Nat)} {mm mm' : Mm} {live : Set Nat} {call : MapCall}
      (run : KernelRun memmap booted stack mm live) (avoids : call.Avoids memmap mm.pHHDM)
      (physical : call.what.toNat + call.size.toNat ≤ 2 ^ 52) (returned : Returns call.run mm () mm') :
      KernelRun memmap booted stack mm' live
  | reclaim {mm mm' : Mm} {live : Set Nat} {stackOrigin : Pointer} {stackSize : BitVec 64}
      (run : KernelRun memmap booted none mm live)
      (returned : Returns (pmmReclaim memmap stackOrigin stackSize) mm () mm') :
      KernelRun memmap booted (some (stackPages mm stackOrigin stackSize)) mm' live

/-- The invariant of a run: what the allocator may own is inside the entries that the direct map translates. -/
structure DirectInvariant (memmap : List LimineMemmapEntry) (stack : Option (Set Nat)) (mm : Mm) (live : Set Nat) :
    Prop where
  tabled : Tabled mm live
  attributes : mm.msr msrIa32Pat = patValue
  usable : mm.usablePages ⊆ ownedPages memmap stack
  live : live ⊆ ownedPages memmap stack
  tables : mm.tables ⊆ ownedPages memmap stack
  bitmap : mm.bitmapPages ⊆ pagesOf LimineMemmapEntry.Usable memmap
  direct : DirectMapped memmap mm

namespace DirectInvariant

variable {memmap : List LimineMemmapEntry} {stack : Option (Set Nat)} {mm mm' : Mm} {live live' handed : Set Nat}

/-- A client step keeps the invariant. -/
theorem client (invariant : DirectInvariant memmap stack mm live) (step : ClientStep mm live handed mm' live') :
    DirectInvariant memmap stack mm' live' := by
  obtain ⟨tabled, tables, translate, released, effect⟩ := invariant.tabled.client step
  have bitmap : mm'.bitmapPages = mm.bitmapPages := by rw [effect.data]; rfl
  refine ⟨tabled, by rw [effect.data]; exact invariant.attributes, ?_, ?_, ?_, ?_, ?_⟩
  · rw [effect.usable_eq]
    exact Set.union_subset (Set.sdiff_subset.trans invariant.usable) (effect.owned.trans invariant.live)
  · rw [effect.live_eq]
    exact Set.union_subset (Set.sdiff_subset.trans invariant.live) (effect.available.trans invariant.usable)
  · rw [tables]
    exact invariant.tables
  · rw [bitmap]
    exact invariant.bitmap
  · exact invariant.direct.keep (by rw [effect.data]) translate

/-- A mapping call outside the direct map keeps the invariant. -/
theorem map (aligned : ∀ entry ∈ memmap, entry.Pooled → entry.Aligned)
    (invariant : DirectInvariant memmap stack mm live) {call : MapCall} (avoids : call.Avoids memmap mm.pHHDM)
    (physical : call.what.toNat + call.size.toNat ≤ 2 ^ 52) (returned : Returns call.run mm () mm') :
    DirectInvariant memmap stack mm' live := by
  obtain ⟨accepted, remapped⟩ := returns_vmmMap invariant.tabled invariant.attributes physical returned
  have grown := remapped.grown
  have bitmap : mm'.bitmapPages = mm.bitmapPages := by rw [grown.data]; rfl
  refine ⟨grown.tabled, by rw [remapped.msr_eq, invariant.attributes], grown.usable.trans invariant.usable,
    invariant.live, grown.tables.trans (Set.union_subset invariant.tables invariant.usable), ?_, ?_⟩
  · rw [bitmap]
    exact invariant.bitmap
  · exact invariant.direct.map aligned invariant.tabled invariant.attributes avoids physical returned

/-- The donation keeps the invariant, because the direct map translates the donated entries already. -/
theorem reclaim (pooled : PooledMap memmap)
    (ends : ∀ entry ∈ memmap, entry.Pooled → entry.base.toNat + entry.length.toNat ≤ 2 ^ 52)
    (invariant : DirectInvariant memmap none mm live) {stackOrigin : Pointer} {stackSize : BitVec 64}
    (returned : Returns (pmmReclaim memmap stackOrigin stackSize) mm () mm') (donated : Set Nat) :
    DirectInvariant memmap (some donated) mm' live := by
  obtain ⟨only, pages⟩ := returns_pmmReclaim invariant.tabled.pool.placed returned
  have apart := pooled.disjoint_reclaimable
  have before : ownedPages memmap none = pagesOf LimineMemmapEntry.Usable memmap := by simp [ownedPages]
  have after : ownedPages memmap (some donated) =
      pagesOf LimineMemmapEntry.Usable memmap ∪ pagesOf LimineMemmapEntry.Reclaimable memmap := by simp [ownedPages]
  have wider : pagesOf LimineMemmapEntry.Usable memmap ⊆ ownedPages memmap (some donated) :=
    after ▸ Set.subset_union_left
  have usable := before ▸ invariant.usable
  have used := before ▸ invariant.live
  have tables := before ▸ invariant.tables
  have fewer : mm'.usablePages ⊆ mm.usablePages ∪ pagesOf LimineMemmapEntry.Reclaimable memmap := by
    rw [pages]
    exact Set.sdiff_subset
  have owned : mm'.usablePages ⊆ ownedPages memmap (some donated) := by
    rw [after]
    exact fewer.trans (Set.union_subset_union usable subset_rfl)
  have bitmap := only.bitmapPages_eq
  have pool := invariant.tabled.pool
  have sound : PoolSound mm' live := by
    refine ⟨only.placed pool.placed, fun page available => ownedPages_lt ends (owned available), ?_, pool.liveSmall, ?_, ?_⟩
    · rw [bitmap]
      exact Set.disjoint_of_subset_left fewer (Set.disjoint_union_left.mpr
        ⟨pool.usableBitmap, Set.disjoint_of_subset_right invariant.bitmap apart⟩)
    · exact Set.disjoint_of_subset_right fewer (Set.disjoint_union_right.mpr
        ⟨pool.liveUsable, Set.disjoint_of_subset_left used apart.symm⟩)
    · rw [bitmap]
      exact pool.liveBitmap
  have kept := invariant.tabled.keep only.data
    (fun address inside => only.frame_page (Set.disjoint_left.mp invariant.tabled.bitmap inside)) sound
    (Set.disjoint_of_subset_right fewer (Set.disjoint_union_right.mpr
      ⟨invariant.tabled.usable, Set.disjoint_of_subset_left tables apart.symm⟩)) invariant.tabled.live
  refine ⟨kept.1, by rw [only.data]; exact invariant.attributes, owned, used.trans wider, ?_, ?_, ?_⟩
  · rw [kept.2.1]
    exact tables.trans wider
  · rw [bitmap]
    exact invariant.bitmap
  · exact invariant.direct.keep (by rw [only.data]) (translate_of_walk only.data kept.2.2)

end DirectInvariant

section KernelRun

variable {memmap : List LimineMemmapEntry} {executable : LimineExecutableAddress} {phhdm : Pointer}
  {boot start booted mm : Mm} {stack : Option (Set Nat)} {live : Set Nat}

theorem BootMap.pooledEnds (map : BootMap memmap executable phhdm) :
    ∀ entry ∈ memmap, entry.Pooled → entry.base.toNat + entry.length.toNat ≤ 2 ^ 52 := by
  intro entry member pooled
  apply map.ends entry member
  rw [pooled.direct]
  exact Option.some_ne_none _

/-- The boot mapping establishes the invariant. -/
theorem directInvariant_start (map : BootMap memmap executable phhdm) (pooled : PooledMap memmap)
    (windows : WindowsDisjoint memmap executable phhdm) (init : Returns (pmmInit memmap phhdm) boot () start)
    (mapped : Returns (vmmInit memmap executable) start () booted) : DirectInvariant memmap none booted ∅ := by
  have started := map.pmmStarted init
  have position := started.pHHDM
  have vmm := map.vmmStarted init mapped
  have owned : ownedPages memmap none = pagesOf LimineMemmapEntry.Usable memmap := by simp [ownedPages]
  have within : start.usablePages ⊆ pagesOf LimineMemmapEntry.Usable memmap := by
    rw [started.usablePages]
    exact Set.sdiff_subset
  refine ⟨vmm.tabled, vmm.attributes, ?_, Set.empty_subset _, ?_, ?_, ?_⟩
  · rw [owned]
    exact vmm.usable.trans within
  · rw [owned]
    exact vmm.tables.trans within
  · rw [vmm.bitmap]
    exact started.bitmapPages_subset
  · intro entry member inPool page inside
    have bytes : page * 4096 ∈ entry.bytes := LimineMemmapEntry.mem_bytes_of_pages
      (pooled.aligned entry member inPool) (by rwa [Nat.mul_div_cancel _ (by omega)])
    have ends := map.pooledEnds entry member inPool
    have below := bytes.2
    have offset := @toNat_direct phhdm (page * 4096) (by omega)
    have canonical : Canonical (phhdm + BitVec.ofNat 64 (page * 4096)) :=
      map.canonical entry member (by rw [inPool.direct]; exact Option.some_ne_none _) _ (by rwa [offset])
    rw [Mm.tablePointer, vmm.pHHDM, position, vmm.translate _ canonical, position]
    exact bootRules_direct map pooled windows member inPool inside

/-- The boot mapping maps the kernel's segments. -/
theorem imageMapped_start (map : BootMap memmap executable phhdm) (init : Returns (pmmInit memmap phhdm) boot () start)
    (mapped : Returns (vmmInit memmap executable) start () booted) : ImageMapped memmap executable phhdm booted := by
  have position := (map.pmmStarted init).pHHDM
  have vmm := map.vmmStarted init mapped
  rintro virt ⟨phdr, member, used, page⟩
  rw [vmm.translate virt ((map.segments phdr member used).canonical virt page), position]

/-- An owned page lies in an entry that the allocator may own. -/
theorem pooled_of_owned {page : Nat} (owned : page ∈ ownedPages memmap stack) :
    ∃ entry ∈ memmap, entry.Pooled ∧ page ∈ entry.pages := by
  rcases owned with ⟨entry, member, usable, within⟩ | late
  · exact ⟨entry, member, Or.inl usable, within⟩
  · split_ifs at late
    · obtain ⟨entry, member, reclaimable, within⟩ := late
      exact ⟨entry, member, Or.inr reclaimable, within⟩
    · exact absurd late (Set.notMem_empty page)

/-- Every state of a run satisfies the invariant. -/
theorem KernelRun.invariant (pooled : PooledMap memmap)
    (ends : ∀ entry ∈ memmap, entry.Pooled → entry.base.toNat + entry.length.toNat ≤ 2 ^ 52)
    (initial : DirectInvariant memmap none booted ∅) (run : KernelRun memmap booted stack mm live) :
    DirectInvariant memmap stack mm live := by
  induction run with
  | start => exact initial
  | client _ step ih => exact ih.client step
  | map _ avoids physical returned ih => exact ih.map pooled.aligned avoids physical returned
  | reclaim _ returned ih => exact ih.reclaim pooled ends returned _

/-- In every state of a run, the kernel pointer of each usable page, each live page, and each table page translates
to that page, for writing and not for execution, with write-back caching. -/
theorem handed_out_pages_mapped (map : BootMap memmap executable phhdm) (pooled : PooledMap memmap)
    (windows : WindowsDisjoint memmap executable phhdm) (init : Returns (pmmInit memmap phhdm) boot () start)
    (mapped : Returns (vmmInit memmap executable) start () booted) (run : KernelRun memmap booted stack mm live)
    {page : Nat} (inside : page ∈ mm.usablePages ∨ page ∈ live ∨ page ∈ mm.tables) :
    ∃ virt, Returns (phyToVirt (BitVec.ofNat 64 (page * 4096))) mm virt mm ∧
      mm.translate virt = some (directTranslation page) ∧ mm.Granted virt := by
  have initial := directInvariant_start map pooled windows init mapped
  have invariant := run.invariant pooled map.pooledEnds initial
  have owned : page ∈ ownedPages memmap stack := by
    rcases inside with available | used | table
    · exact invariant.usable available
    · exact invariant.live used
    · exact invariant.tables table
  obtain ⟨entry, member, inPool, within⟩ := pooled_of_owned owned
  have translated := invariant.direct entry member inPool page within
  refine ⟨mm.tablePointer page, ?_, translated, invariant.tabled.granted ?_⟩
  · exact returns_phyToVirt.mpr ⟨rfl, rfl⟩
  · rw [translated]
    exact Option.some_ne_none _

end KernelRun

/-- The window of the sample kernel lies above the direct map of low entries. -/
theorem windowsDisjoint_of_low {memmap : List LimineMemmapEntry}
    (low : ∀ entry ∈ memmap, entry.base.toNat + entry.length.toNat ≤ 0x100000) :
    WindowsDisjoint memmap sampleExecutable sampleHhdm := by
  rintro phdr _ _ virt ⟨lower, _⟩ entry member _ ⟨_, upper⟩
  have last := low entry member
  have window : sampleExecutable.virtualBase.toNat = 0xFFFFFFFF80000000 := rfl
  have hhdm : sampleHhdm.toNat = 0xFFFF800000000000 := rfl
  have total := virt.isLt
  rw [BitVec.toNat_sub] at upper
  omega

theorem sampleWindows_disjoint : WindowsDisjoint sampleMemmap sampleExecutable sampleHhdm :=
  windowsDisjoint_of_low (by decide)

def sampleAllocated : Mm := lastState pmmAllocPage sampleBooted

/-- The sample call maps a page above the kernel. -/
def sampleWindowCall : MapCall := ⟨0xC000#64, 0xFFFFFFFF80100000#64, 0x1000#64, mW⟩

def sampleRemapped : Mm := lastState sampleWindowCall.run sampleAllocated

def sampleDonated : Mm :=
  lastState (pmmReclaim sampleMemmap (sampleHhdm + 0xB000#64) 0x1000#64) sampleRemapped

theorem sampleWindowCall_spares : sampleWindowCall.Spares (bootPlaces sampleMemmap sampleExecutable sampleHhdm) := by
  have start : sampleWindowCall.virt.toNat = 0xFFFFFFFF80100000 := rfl
  refine MapCall.spares_of_disjoint (by decide) (fun found covered => Or.inr ?_) sampleBoot_map.canonicalPlaces ?_
  · have lower := covered.1
    omega
  · rintro virt (⟨entry, member, _, _, upper⟩ | ⟨phdr, member, _, _, upper⟩) ⟨lower, _⟩
    · have below : ∀ entry ∈ sampleMemmap, entry.base.toNat + entry.length.toNat ≤ 0x10000 := by decide
      have last := below entry member
      have hhdm : sampleHhdm.toNat = 0xFFFF800000000000 := rfl
      have total := virt.isLt
      rw [BitVec.toNat_sub] at upper
      omega
    · have below : ∀ phdr ∈ sampleExecutable.elfPhdrs, phdr.pVaddr.toNat + phdr.pMemsz.toNat ≤ 0x2000 := by decide
      have last := below phdr member
      have window : sampleExecutable.virtualBase.toNat = 0xFFFFFFFF80000000 := rfl
      omega

/-- After an allocation, a mapping call and the donation, a donated page and the allocated page are both mapped. -/
theorem handed_out_pages_mapped_sample :
    (∃ virt, Returns (phyToVirt (BitVec.ofNat 64 (0xB * 4096))) sampleDonated virt sampleDonated ∧
      sampleDonated.translate virt = some (directTranslation 0xB) ∧ sampleDonated.Granted virt) ∧
    ∃ virt, Returns (phyToVirt (BitVec.ofNat 64 (0x9 * 4096))) sampleDonated virt sampleDonated ∧
      sampleDonated.translate virt = some (directTranslation 0x9) ∧ sampleDonated.Granted virt := by
  have taken : ClientStep sampleBooted ∅ (spanPages 0x9000#64 1) sampleAllocated (∅ ∪ spanPages 0x9000#64 1) :=
    .allocPage (returns_lastState (by decide +kernel))
  have position : sampleAllocated.pHHDM = sampleHhdm := by decide +kernel
  have avoids : sampleWindowCall.Avoids sampleMemmap sampleAllocated.pHHDM :=
    position ▸ sampleWindowCall_spares.avoids sampleBoot_map.pooledEnds
  have remapped : Returns sampleWindowCall.run sampleAllocated () sampleRemapped :=
    returns_lastState (by decide +kernel)
  have donated : Returns (pmmReclaim sampleMemmap (sampleHhdm + 0xB000#64) 0x1000#64) sampleRemapped () sampleDonated :=
    returns_lastState (by decide +kernel)
  have mapped := (KernelRun.start.client taken).map avoids (by decide) remapped
  have run := mapped.reclaim donated
  have invariant := mapped.invariant sampleMemmap_pooled sampleBoot_map.pooledEnds
    (directInvariant_start sampleBoot_map sampleMemmap_pooled sampleWindows_disjoint sampleStart_returns
      sampleBooted_returns)
  have available : 0xB ∈ sampleDonated.usablePages := by
    have kept : sampleRemapped.pHHDM = sampleHhdm := by decide +kernel
    rw [(returns_pmmReclaim invariant.tabled.pool.placed donated).2]
    refine ⟨Or.inr ⟨⟨0xA000#64, 0x2000#64, .bootloaderReclaimable⟩, by decide, Or.inr rfl, ?_⟩, ?_⟩
    · exact (LimineMemmapEntry.mem_pages ⟨rfl, rfl⟩).mpr ⟨by decide, by decide⟩
    · intro given
      obtain ⟨_, upper⟩ := given
      rw [kept] at upper
      exact absurd upper (by decide)
  have used : 0x9 ∈ ∅ ∪ spanPages 0x9000#64 1 := Or.inr ⟨by decide, by decide⟩
  constructor
  · exact handed_out_pages_mapped sampleBoot_map sampleMemmap_pooled sampleWindows_disjoint sampleStart_returns
      sampleBooted_returns run (Or.inl available)
  · exact handed_out_pages_mapped sampleBoot_map sampleMemmap_pooled sampleWindows_disjoint sampleStart_returns
      sampleBooted_returns run (Or.inr (Or.inl used))

end UmbralOS
