import UmbralOS.Proof.Memory.Pool
import UmbralOS.Library.Accounts
import Mathlib.Data.List.Pairwise

/-!
This file proves the exact accounts of the allocator over whole runs.
-/

namespace UmbralOS

open Library

/-- The consecutive pages from an address. -/
def spanPages (paddr : Phy) (count : Nat) : Set Nat :=
  { page | paddr.toNat / 4096 ≤ page ∧ page < paddr.toNat / 4096 + count }

/-- A client calls the allocator, or it writes to the pages that it holds.
The step names the pages that it hands out, and it releases only live pages. A size that wraps gets no page. -/
inductive ClientStep (mm : Mm) (live : Set Nat) : Set Nat → Mm → Set Nat → Prop where
  | allocPages {numPages : BitVec 64} {paddr : Phy} {mm' : Mm}
      (returned : Returns (pmmAllocPages numPages) mm paddr mm') :
      ClientStep mm live (spanPages paddr numPages.toNat) mm' (live ∪ spanPages paddr numPages.toNat)
  | allocPage {paddr : Phy} {mm' : Mm} (returned : Returns pmmAllocPage mm paddr mm') :
      ClientStep mm live (spanPages paddr 1) mm' (live ∪ spanPages paddr 1)
  | kalloc {size : BitVec 64} {ptr : Pointer} {mm' : Mm} (fits : size.toNat ≤ 2 ^ 64 - 4096)
      (returned : Returns (kalloc size) mm ptr mm') :
      ClientStep mm live (spanPages (ptr - mm.pHHDM) ((size.toNat + 4095) / 4096)) mm'
        (live ∪ spanPages (ptr - mm.pHHDM) ((size.toNat + 4095) / 4096))
  | kallocWraps {size : BitVec 64} {ptr : Pointer} {mm' : Mm} (wraps : 2 ^ 64 - 4096 < size.toNat)
      (returned : Returns (kalloc size) mm ptr mm') : ClientStep mm live ∅ mm' live
  | freePages {paddr : Phy} {numPages : BitVec 64} {mm' : Mm}
      (owned : spanPages paddr numPages.toNat ⊆ live)
      (returned : Returns (pmmFreePages paddr numPages) mm () mm') :
      ClientStep mm live ∅ mm' (live \ spanPages paddr numPages.toNat)
  | freePage {paddr : Phy} {mm' : Mm} (owned : spanPages paddr 1 ⊆ live)
      (returned : Returns (pmmFreePage paddr) mm () mm') :
      ClientStep mm live ∅ mm' (live \ spanPages paddr 1)
  | kfree {ptr : Pointer} {size : BitVec 64} {mm' : Mm}
      (owned : spanPages (ptr - mm.pHHDM) ((size.toNat + 4095) / 4096) ⊆ live)
      (returned : Returns (kfree ptr size) mm () mm') :
      ClientStep mm live ∅ mm' (live \ spanPages (ptr - mm.pHHDM) ((size.toNat + 4095) / 4096))
  | write {memory : Memory}
      (own : ∀ address, address / 4096 ∉ live → memory address = mm.memory address) :
      ClientStep mm live ∅ { mm with memory := memory } live

/-- The effect of a client step on the accounts and on the memory. -/
structure ClientEffect (mm : Mm) (live handed : Set Nat) (mm' : Mm) (live' released : Set Nat) : Prop where
  available : handed ⊆ mm.usablePages
  owned : released ⊆ live
  live_eq : live' = (live \ released) ∪ handed
  usable_eq : mm'.usablePages = (mm.usablePages \ handed) ∪ released
  data : mm' = { mm with memory := mm'.memory }
  frame : ∀ address, address / 4096 ∉ mm.bitmapPages → address / 4096 ∉ live →
    mm'.memory address = mm.memory address

section ClientEffect

variable {mm mm' : Mm} {live live' handed : Set Nat}

/-- An allocation moves its pages from the usable pages to the live pages. -/
theorem clientEffect_alloc (placed : mm.Placed) (live : Set Nat) {numPages : BitVec 64} {paddr : Phy}
    (returned : Returns (pmmAllocPages numPages) mm paddr mm') :
    ClientEffect mm live (spanPages paddr numPages.toNat) mm' (live ∪ spanPages paddr numPages.toNat) ∅ := by
  obtain ⟨_, _, available, marked⟩ := returns_pmmAllocPages placed returned
  refine ⟨available, Set.empty_subset _, by simp, ?_, marked.only.data,
    fun address outside _ => marked.only.frame_page outside⟩
  rw [marked.usablePages_false, Set.union_empty]
  rfl

/-- A release moves its pages from the live pages to the usable pages. -/
theorem clientEffect_free (placed : mm.Placed) {paddr : Phy} {numPages : BitVec 64}
    (owned : spanPages paddr numPages.toNat ⊆ live)
    (returned : Returns (pmmFreePages paddr numPages) mm () mm') :
    ClientEffect mm live ∅ mm' (live \ spanPages paddr numPages.toNat) (spanPages paddr numPages.toNat) := by
  have marked := returns_pmmFreePages placed returned
  refine ⟨Set.empty_subset _, owned, by simp, ?_, marked.only.data,
    fun address outside _ => marked.only.frame_page outside⟩
  rw [marked.usablePages_true, Set.sdiff_empty]
  rfl

/-- A write to live pages leaves the bitmap alone. -/
theorem clientEffect_write (separate : Disjoint live mm.bitmapPages) {memory : Memory}
    (own : ∀ address, address / 4096 ∉ live → memory address = mm.memory address) :
    ClientEffect mm live ∅ { mm with memory := memory } live ∅ := by
  refine ⟨Set.empty_subset _, Set.empty_subset _, by simp, ?_, rfl, fun address _ outside => own address outside⟩
  rw [Set.sdiff_empty, Set.union_empty]
  refine @usablePages_congr mm { mm with memory := memory } rfl fun address inside => own address ?_
  exact fun member => Set.disjoint_left.mp separate member inside

/-- Every client step has an effect of the same form. -/
theorem ClientStep.effect (placed : mm.Placed) (separate : Disjoint live mm.bitmapPages)
    (bounded : ∀ page ∈ live, page < 2 ^ 40) (step : ClientStep mm live handed mm' live') :
    ∃ released, ClientEffect mm live handed mm' live' released := by
  cases step with
  | allocPages returned => exact ⟨∅, clientEffect_alloc placed live returned⟩
  | allocPage returned => exact ⟨∅, @clientEffect_alloc mm mm' placed live 1 _ returned⟩
  | kalloc fits returned =>
      simp only [UmbralOS.kalloc, returns_bind, returns_phyToVirt] at returned
      obtain ⟨paddr, middle, allocated, rfl, rfl⟩ := returned
      have effect := clientEffect_alloc placed live allocated
      have kept : middle.pHHDM = mm.pHHDM := by rw [effect.data]
      have back : middle.pHHDM + paddr - mm.pHHDM = paddr := by rw [kept]; bv_omega
      rw [toNat_pageCount fits] at effect
      rw [back]
      exact ⟨∅, effect⟩
  | @kallocWraps size _ _ wraps returned =>
      simp only [UmbralOS.kalloc, returns_bind, returns_phyToVirt] at returned
      obtain ⟨paddr, middle, allocated, rfl, rfl⟩ := returned
      have effect := clientEffect_alloc placed live allocated
      have none : spanPages paddr (roundUp size pageSize / pageSize).toNat = ∅ := by
        rw [pageCount_wraps wraps]
        exact Set.eq_empty_of_forall_notMem fun page inside => absurd inside.2 (not_lt.mpr inside.1)
      rw [none, Set.union_empty] at effect
      exact ⟨∅, effect⟩
  | freePages owned returned => exact ⟨_, clientEffect_free placed owned returned⟩
  | freePage owned returned => exact ⟨_, @clientEffect_free mm mm' live placed _ 1 owned returned⟩
  | @kfree ptr size _ owned returned =>
      simp only [UmbralOS.kfree, returns_bind, returns_get] at returned
      obtain ⟨_, _, ⟨rfl, rfl⟩, freed⟩ := returned
      -- A larger size would release more pages than the address space holds.
      have fits : size.toNat ≤ 2 ^ 64 - 4096 := by
        by_contra large
        have last := bounded ((ptr - mm.pHHDM).toNat / 4096 + 2 ^ 40) (owned ⟨by omega, by omega⟩)
        omega
      have count := toNat_pageCount fits
      rw [← count] at owned ⊢
      exact ⟨_, clientEffect_free placed owned freed⟩
  | write own => exact ⟨∅, clientEffect_write separate own⟩

/-- A client effect keeps the accounts balanced. -/
theorem ClientEffect.balanced {pool kept released : Set Nat}
    (effect : ClientEffect mm live handed mm' live' released)
    (balanced : Balanced pool kept live mm.usablePages) : Balanced pool kept live' mm'.usablePages := by
  have given := balanced.release effect.owned
  have apart : Disjoint handed released := Set.disjoint_of_subset effect.available effect.owned balanced.free_live
  have moved := @Balanced.hand _ _ _ _ _ handed given (effect.available.trans Set.subset_union_left)
  rw [effect.live_eq, effect.usable_eq]
  rwa [Set.union_sdiff_distrib, apart.symm.sdiff_eq_left] at moved

end ClientEffect

/-- The allocator may own these entries at some time. -/
def LimineMemmapEntry.Pooled (entry : LimineMemmapEntry) : Prop := entry.Usable ∨ entry.Reclaimable

instance (entry : LimineMemmapEntry) : Decidable entry.Pooled := inferInstanceAs (Decidable (_ ∨ _))

/-- The entries that the allocator may own are aligned and overlap no other entry. -/
structure PooledMap (memmap : List LimineMemmapEntry) : Prop where
  aligned : ∀ entry ∈ memmap, entry.Pooled → entry.Aligned
  separate : memmap.Pairwise fun first second => first.Pooled ∨ second.Pooled → Disjoint first.bytes second.bytes

namespace PooledMap

variable {memmap : List LimineMemmapEntry} {first second : LimineMemmapEntry}

/-- A page of an owned entry lies in no other entry. -/
theorem unique (map : PooledMap memmap) (firstMember : first ∈ memmap) (secondMember : second ∈ memmap)
    (pooled : first.Pooled) {page : Nat} (firstInside : page ∈ first.pages) (secondInside : page ∈ second.pages) :
    first = second := by
  by_contra different
  obtain ⟨address, inside, rfl⟩ := secondInside
  have both := LimineMemmapEntry.mem_bytes_of_pages (map.aligned first firstMember pooled) firstInside
  have : Std.Symm fun first second : LimineMemmapEntry =>
      first.Pooled ∨ second.Pooled → Disjoint first.bytes second.bytes :=
    ⟨fun _ _ given pooled => (given pooled.symm).symm⟩
  have apart := map.separate.forall firstMember secondMember different (Or.inl pooled)
  exact Set.disjoint_left.mp apart both inside

/-- The usable entries share no page with the reclaimable entries. -/
theorem disjoint_reclaimable (map : PooledMap memmap) :
    Disjoint (pagesOf LimineMemmapEntry.Reclaimable memmap) (pagesOf LimineMemmapEntry.Usable memmap) := by
  rw [Set.disjoint_left]
  rintro page ⟨first, firstMember, reclaimable, firstInside⟩ ⟨second, secondMember, usable, secondInside⟩
  have same := map.unique firstMember secondMember (Or.inr reclaimable) firstInside secondInside
  subst same
  rcases reclaimable with type | type <;> rw [LimineMemmapEntry.Usable, type] at usable <;> cases usable

end PooledMap

/-- The boot stack is page aligned and lies in an entry that the bootloader gives back. -/
structure StackPlaced (memmap : List LimineMemmapEntry) (mm : Mm) (stackOrigin : Pointer)
    (stackSize : BitVec 64) : Prop where
  bottom : (stackOrigin - stackSize - mm.pHHDM).toNat % 4096 = 0
  size : stackSize.toNat % 4096 = 0
  inside : ∃ entry ∈ memmap, entry.type = .bootloaderReclaimable ∧
    entry.base.toNat ≤ (stackOrigin - stackSize - mm.pHHDM).toNat ∧
    (stackOrigin - stackSize - mm.pHHDM).toNat + stackSize.toNat ≤ entry.base.toNat + entry.length.toNat

/-- A run takes client steps, donates the reclaimable entries at most once, and takes client steps again.
The index holds the stack pages after the donation. -/
inductive PoolRun (memmap : List LimineMemmapEntry) (start : Mm) : Option (Set Nat) → Mm → Set Nat → Prop where
  | start : PoolRun memmap start none start ∅
  | client {stack : Option (Set Nat)} {mm mm' : Mm} {live live' handed : Set Nat}
      (run : PoolRun memmap start stack mm live) (step : ClientStep mm live handed mm' live') :
      PoolRun memmap start stack mm' live'
  | reclaim {mm mm' : Mm} {live : Set Nat} {stackOrigin : Pointer} {stackSize : BitVec 64}
      (run : PoolRun memmap start none mm live) (placed : StackPlaced memmap mm stackOrigin stackSize)
      (returned : Returns (pmmReclaim memmap stackOrigin stackSize) mm () mm') :
      PoolRun memmap start (some (stackPages mm stackOrigin stackSize)) mm' live

/-- The pages that the allocator owns before or after the donation. -/
def ownedPages (memmap : List LimineMemmapEntry) (stack : Option (Set Nat)) : Set Nat :=
  pagesOf LimineMemmapEntry.Usable memmap ∪
    if stack.isSome then pagesOf LimineMemmapEntry.Reclaimable memmap else ∅

/-- The invariant of a run of the allocator. -/
structure PoolInvariant (memmap : List LimineMemmapEntry) (start : Mm) (stack : Option (Set Nat))
    (mm : Mm) (live : Set Nat) : Prop where
  placed : mm.Placed
  data : mm = { start with memory := mm.memory }
  balanced : Balanced (ownedPages memmap stack) (start.bitmapPages ∪ stack.getD ∅) live mm.usablePages

section PoolInvariant

variable {memmap : List LimineMemmapEntry} {start mm mm' : Mm} {stack : Option (Set Nat)} {live live' handed : Set Nat}

theorem PoolInvariant.bitmapPages_eq (invariant : PoolInvariant memmap start stack mm live) :
    mm.bitmapPages = start.bitmapPages := by
  rw [invariant.data]
  rfl

/-- Live pages never hold the bitmap. -/
theorem PoolInvariant.separate (invariant : PoolInvariant memmap start stack mm live) :
    Disjoint live mm.bitmapPages := by
  rw [invariant.bitmapPages_eq, Set.disjoint_left]
  intro page used kept
  exact (invariant.balanced.live_within used).2 (Or.inl kept)

theorem ownedPages_lt (ends : ∀ entry ∈ memmap, entry.Pooled → entry.base.toNat + entry.length.toNat ≤ 2 ^ 52)
    {page : Nat} (owned : page ∈ ownedPages memmap stack) : page < 2 ^ 40 := by
  have bound (entry : LimineMemmapEntry) (member : entry ∈ memmap) (pooled : entry.Pooled)
      (inside : page ∈ entry.pages) : page < 2 ^ 40 := by
    obtain ⟨address, ⟨_, upper⟩, rfl⟩ := inside
    have last := ends entry member pooled
    omega
  rcases owned with ⟨entry, member, usable, inside⟩ | late
  · exact bound entry member (Or.inl usable) inside
  · split_ifs at late
    · obtain ⟨entry, member, reclaimable, inside⟩ := late
      exact bound entry member (Or.inr reclaimable) inside
    · exact absurd late (Set.notMem_empty page)

theorem PmmStarted.bitmapPages_subset {phhdm : Pointer} {boot : Mm} (started : PmmStarted memmap phhdm boot start) :
    start.bitmapPages ⊆ pagesOf LimineMemmapEntry.Usable memmap := by
  obtain ⟨entry, region⟩ := started.region
  intro page given
  obtain ⟨address, lower, upper, rfl⟩ := given
  have base := region.base
  have room := region.room
  exact ⟨entry, region.member, region.usable, address, ⟨by omega, by omega⟩, rfl⟩

theorem poolInvariant_start {phhdm : Pointer} {boot : Mm} (started : PmmStarted memmap phhdm boot start) :
    PoolInvariant memmap start none start ∅ := by
  refine ⟨started.placed, rfl, ?_⟩
  have balanced := Balanced.start (pagesOf LimineMemmapEntry.Usable memmap) start.bitmapPages
  rw [← started.usablePages] at balanced
  simpa [ownedPages] using balanced

/-- A client step keeps the invariant. -/
theorem PoolInvariant.client
    (ends : ∀ entry ∈ memmap, entry.Pooled → entry.base.toNat + entry.length.toNat ≤ 2 ^ 52)
    (invariant : PoolInvariant memmap start stack mm live) (step : ClientStep mm live handed mm' live') :
    PoolInvariant memmap start stack mm' live' := by
  obtain ⟨released, effect⟩ := step.effect invariant.placed invariant.separate fun page used =>
    ownedPages_lt ends (invariant.balanced.live_within used).1
  have placed := invariant.placed
  refine ⟨?_, ?_, effect.balanced invariant.balanced⟩
  · rw [effect.data]
    exact ⟨placed.fits, placed.count⟩
  · rw [effect.data, invariant.data]

/-- The donation keeps the invariant. -/
theorem PoolInvariant.reclaim (map : PooledMap memmap) {phhdm : Pointer} {boot : Mm}
    (started : PmmStarted memmap phhdm boot start) (invariant : PoolInvariant memmap start none mm live)
    {stackOrigin : Pointer} {stackSize : BitVec 64} (stackPlaced : StackPlaced memmap mm stackOrigin stackSize)
    (returned : Returns (pmmReclaim memmap stackOrigin stackSize) mm () mm') :
    PoolInvariant memmap start (some (stackPages mm stackOrigin stackSize)) mm' live := by
  obtain ⟨only, pages⟩ := returns_pmmReclaim invariant.placed returned
  have apart := map.disjoint_reclaimable
  have used : live ⊆ pagesOf LimineMemmapEntry.Usable memmap := fun page member => by
    simpa [ownedPages] using (invariant.balanced.live_within member).1
  have stackInside : stackPages mm stackOrigin stackSize ⊆ pagesOf LimineMemmapEntry.Reclaimable memmap := by
    obtain ⟨bottom, size, entry, member, type, lower, upper⟩ := stackPlaced
    intro page given
    obtain ⟨first, last⟩ := given
    exact ⟨entry, member, Or.inr type, page * 4096, ⟨by omega, by omega⟩, by omega⟩
  refine ⟨only.placed invariant.placed, by rw [only.data, invariant.data], ?_⟩
  have donated := @Balanced.donate _ _ _ _ _ (pagesOf LimineMemmapEntry.Reclaimable memmap)
    (stackPages mm stackOrigin stackSize) invariant.balanced
    (by
      simp only [Option.getD_none, Set.union_empty]
      exact Set.disjoint_of_subset_right started.bitmapPages_subset apart)
    (Set.disjoint_of_subset_right used apart)
    (Set.disjoint_of_subset stackInside used apart)
  rw [← pages] at donated
  simpa [ownedPages] using donated

/-- Every state of a run satisfies the invariant. -/
theorem PoolRun.invariant (map : PooledMap memmap)
    (ends : ∀ entry ∈ memmap, entry.Pooled → entry.base.toNat + entry.length.toNat ≤ 2 ^ 52)
    {phhdm : Pointer} {boot : Mm} (started : PmmStarted memmap phhdm boot start)
    (run : PoolRun memmap start stack mm live) : PoolInvariant memmap start stack mm live := by
  induction run with
  | start => exact poolInvariant_start started
  | client _ step ih => exact ih.client ends step
  | reclaim _ stackPlaced returned ih => exact ih.reclaim map started stackPlaced returned

end PoolInvariant

/-- In every state of a run, the usable pages are exactly the owned pages without the bitmap, the live pages
and the boot stack. A step hands out only pages that are none of these and lie in no other entry. -/
theorem pmm_exact_accounts {memmap : List LimineMemmapEntry} {phhdm : Pointer} {boot start mm : Mm}
    {stack : Option (Set Nat)} {live : Set Nat} (map : PooledMap memmap)
    (ends : ∀ entry ∈ memmap, entry.base.toNat + entry.length.toNat ≤ 2 ^ 52)
    (init : Returns (pmmInit memmap phhdm) boot () start) (run : PoolRun memmap start stack mm live) :
    mm.usablePages = ownedPages memmap stack \ (start.bitmapPages ∪ stack.getD ∅ ∪ live) ∧
    ∀ handed mm' live', ClientStep mm live handed mm' live' → ∀ page ∈ handed,
      page ∉ live ∧ page ∉ start.bitmapPages ∧ page ∉ stack.getD ∅ ∧
      ∀ entry ∈ memmap, page ∈ entry.pages → entry.Usable ∨ stack.isSome ∧ entry.Reclaimable := by
  have pooledEnds := fun entry member (_ : entry.Pooled) => ends entry member
  have started := returns_pmmInit (fun entry member _ => by have last := ends entry member; omega) init
  have invariant := run.invariant map pooledEnds started
  refine ⟨invariant.balanced.free_eq, fun handed mm' live' step page member => ?_⟩
  obtain ⟨released, effect⟩ := step.effect invariant.placed invariant.separate fun page used =>
    ownedPages_lt pooledEnds (invariant.balanced.live_within used).1
  have available := effect.available member
  rw [invariant.balanced.free_eq] at available
  obtain ⟨owned, free⟩ := available
  refine ⟨fun used => free (Or.inr used), fun kept => free (Or.inl (Or.inl kept)),
    fun kept => free (Or.inl (Or.inr kept)), fun entry entryMember inside => ?_⟩
  rcases owned with ⟨found, foundMember, usable, foundInside⟩ | late
  · rw [← map.unique foundMember entryMember (Or.inl usable) foundInside inside]
    exact Or.inl usable
  · split_ifs at late with donated
    · obtain ⟨found, foundMember, reclaimable, foundInside⟩ := late
      rw [← map.unique foundMember entryMember (Or.inr reclaimable) foundInside inside]
      exact Or.inr ⟨donated, reclaimable⟩
    · exact absurd late (Set.notMem_empty page)

/-- Entries in address order do not overlap. -/
theorem pooledMap_of_sorted {memmap : List LimineMemmapEntry}
    (aligned : ∀ entry ∈ memmap, entry.Pooled → entry.Aligned)
    (sorted : memmap.Pairwise fun first second =>
      first.base.toNat + first.length.toNat ≤ second.base.toNat) : PooledMap memmap := by
  refine ⟨aligned, sorted.imp fun order _ => ?_⟩
  rw [Set.disjoint_left]
  rintro address ⟨_, upper⟩ ⟨lower, _⟩
  omega

def sampleMemmap : List LimineMemmapEntry :=
  [⟨0x1000#64, 0x9000#64, .usable⟩, ⟨0xA000#64, 0x2000#64, .bootloaderReclaimable⟩,
    ⟨0xC000#64, 0x1000#64, .framebuffer⟩, ⟨0xD000#64, 0x1000#64, .reservedMapped⟩,
    ⟨0xE000#64, 0x2000#64, .executableAndModules⟩]

def sampleHhdm : Pointer := 0xFFFF800000000000#64

/-- The sample machine starts with unknown bytes in its memory. Its processor has PAT and x2APIC. -/
def sampleBoot : Mm where
  memory := fun _ => 0xA5#8
  pmmData := ⟨0, 0⟩
  pHHDM := 0
  pml4 := 0
  cr3 := 0
  msr := fun _ => 0
  cpuid := fun _ _ => ⟨0, 0, 0x200000#64, cpuid1EdxPat⟩

def sampleStart : Mm := lastState (pmmInit sampleMemmap sampleHhdm) sampleBoot

theorem sampleStart_returns : Returns (pmmInit sampleMemmap sampleHhdm) sampleBoot () sampleStart :=
  returns_lastState (by decide +kernel)

theorem sampleMemmap_pooled : PooledMap sampleMemmap := pooledMap_of_sorted (by decide) (by decide)

def sampleTaken : Mm := lastState pmmAllocPage sampleStart

def sampleReclaimed : Mm :=
  lastState (pmmReclaim sampleMemmap (sampleHhdm + 0xB000#64) 0x1000#64) sampleTaken

/-- The sample machine allocates one page and takes the donation. -/
theorem sampleReclaimed_run : PoolRun sampleMemmap sampleStart
    (some (stackPages sampleTaken (sampleHhdm + 0xB000#64) 0x1000#64)) sampleReclaimed (∅ ∪ spanPages 0x2000#64 1) := by
  have taken : ClientStep sampleStart ∅ (spanPages 0x2000#64 1) sampleTaken (∅ ∪ spanPages 0x2000#64 1) :=
    .allocPage (returns_lastState (by decide +kernel))
  have placed : StackPlaced sampleMemmap sampleTaken (sampleHhdm + 0xB000#64) 0x1000#64 := by
    refine ⟨by decide +kernel, by decide, ⟨0xA000#64, 0x2000#64, .bootloaderReclaimable⟩, by decide, rfl, ?_, ?_⟩ <;>
      decide +kernel
  exact .reclaim ((@PoolRun.start sampleMemmap sampleStart).client taken) placed (returns_lastState (by decide +kernel))

/-- The accounts hold after an allocation and the donation on the sample machine. -/
theorem pmm_exact_accounts_sample :
    sampleReclaimed.usablePages =
      ownedPages sampleMemmap (some (stackPages sampleTaken (sampleHhdm + 0xB000#64) 0x1000#64)) \
        (sampleStart.bitmapPages ∪ stackPages sampleTaken (sampleHhdm + 0xB000#64) 0x1000#64 ∪
          (∅ ∪ spanPages 0x2000#64 1)) :=
  (pmm_exact_accounts sampleMemmap_pooled (by decide) sampleStart_returns sampleReclaimed_run).1

end UmbralOS
