import UmbralOS.Proof.Memory.BootDemand
import UmbralOS.Proof.Memory.Zeroing
import UmbralOS.Proof.Memory.DirectMap
import UmbralOS.Proof.Acpi.Mappings

/-!
This file proves the accounts of the whole memory in every run of the system, and that clients do not disturb each other.
-/

namespace UmbralOS

open Library

/-- The memory manager, the boot stack after the donation, and the client that holds each page. -/
structure System (Client : Type) where
  mm : Mm
  stack : Option (Set Nat)
  holder : Nat → Option Client

namespace System

variable {Client : Type}

/-- The pages of one client. -/
def held (system : System Client) (client : Client) : Set Nat := { page | system.holder page = some client }

/-- The pages of all clients. -/
def live (system : System Client) : Set Nat := { page | system.holder page ≠ none }

open Classical in
/-- After a step of a client, the client holds exactly these pages, and every other page keeps its holder. -/
noncomputable def give (system : System Client) (client : Client) (mm : Mm) (pages : Set Nat) : System Client where
  mm := mm
  stack := system.stack
  holder := fun page =>
    if page ∈ pages then some client else if page ∈ system.held client then none else system.holder page

/-- The system after the boot mapping: no client holds a page. -/
def booted (mm : Mm) : System Client := ⟨mm, none, fun _ => none⟩

@[simp] theorem give_mm (system : System Client) (client : Client) (mm : Mm) (pages : Set Nat) :
    (system.give client mm pages).mm = mm := rfl

@[simp] theorem give_stack (system : System Client) (client : Client) (mm : Mm) (pages : Set Nat) :
    (system.give client mm pages).stack = system.stack := rfl

@[simp] theorem booted_mm (mm : Mm) : (booted mm : System Client).mm = mm := rfl

@[simp] theorem booted_stack (mm : Mm) : (booted mm : System Client).stack = none := rfl

end System

/-- A call leaves alone what the kernel itself uses: the direct map of the allocator and the kernel's segments. -/
structure MapCall.Harmless (call : MapCall) (memmap : List LimineMemmapEntry) (executable : LimineExecutableAddress)
    (phhdm : Pointer) : Prop where
  avoids : call.Avoids memmap phhdm
  image : call.Spares (kernelImage executable)

/-- A client calls the allocator or writes to its own pages. The kernel maps a range outside everything that `vmm_init` has
mapped, parses the tables of the firmware when the windows of the devices are harmless, zeroes the free memory, or donates
the reclaimable entries. The label is the client of the step. -/
inductive SystemStep {Client : Type} (memmap : List LimineMemmapEntry) (executable : LimineExecutableAddress)
    (before : System Client) : Option Client → System Client → Prop where
  | client {client : Client} {handed pages : Set Nat} {mm : Mm}
      (step : ClientStep before.mm (before.held client) handed mm pages) :
      SystemStep memmap executable before (some client) (before.give client mm pages)
  | map {call : MapCall} {mm : Mm} (spares : call.Spares (bootPlaces memmap executable before.mm.pHHDM))
      (physical : call.what.toNat + call.size.toNat ≤ 2 ^ 52) (returned : Returns call.run before.mm () mm) :
      SystemStep memmap executable before none { before with mm := mm }
  | acpi {fuel : Nat} {p : Pointer} {acpi acpi' : Acpi} (here : acpi.machine.mm = before.mm)
      (harmless : ∀ mm call, AcpiMaps fuel p acpi mm call → call.Harmless memmap executable before.mm.pHHDM)
      (returned : Returns (acpiParseRsdp fuel p) acpi () acpi') :
      SystemStep memmap executable before none { before with mm := acpi'.machine.mm }
  | zero {mm : Mm} (returned : Returns pmmZero before.mm () mm) :
      SystemStep memmap executable before none { before with mm := mm }
  | reclaim {stackOrigin : Pointer} {stackSize : BitVec 64} {mm : Mm} (once : before.stack = none)
      (placed : StackPlaced memmap before.mm stackOrigin stackSize)
      (returned : Returns (pmmReclaim memmap stackOrigin stackSize) before.mm () mm) :
      SystemStep memmap executable before none
        { before with mm := mm, stack := some (stackPages before.mm stackOrigin stackSize) }

/-- A run of the system, with the client of each step. -/
inductive SystemRun {Client : Type} (memmap : List LimineMemmapEntry) (executable : LimineExecutableAddress)
    (start : System Client) : List (Option Client) → System Client → Prop where
  | start : SystemRun memmap executable start [] start
  | step {actors : List (Option Client)} {actor : Option Client} {before after : System Client}
      (run : SystemRun memmap executable start actors before) (step : SystemStep memmap executable before actor after) :
      SystemRun memmap executable start (actors ++ [actor]) after

theorem SystemRun.trans {Client : Type} {memmap : List LimineMemmapEntry} {executable : LimineExecutableAddress}
    {first second third : System Client} {earlier later : List (Option Client)}
    (head : SystemRun memmap executable first earlier second) (tail : SystemRun memmap executable second later third) :
    SystemRun memmap executable first (earlier ++ later) third := by
  induction tail with
  | start => rwa [List.append_nil]
  | step _ step ih =>
      rw [← List.append_assoc]
      exact ih.step step

/-- A step of the kernel keeps the tables sound, the pages of the pool, the direct map, the translations of these places,
and every byte of the clients. -/
structure KernelEffect (memmap : List LimineMemmapEntry) (places : Set Pointer) (live : Set Nat) (mm mm' : Mm) : Prop where
  tabled : Tabled mm' live
  bitmap : mm'.bitmapPages = mm.bitmapPages
  pool : mm'.poolPages = mm.poolPages
  frame : ∀ address, address / 4096 ∈ live → mm'.memory address = mm.memory address
  place : mm'.pHHDM = mm.pHHDM
  attributes : mm'.msr msrIa32Pat = mm.msr msrIa32Pat
  direct : DirectMapped memmap mm → DirectMapped memmap mm'
  places : ∀ virt ∈ places, mm'.translate virt = mm.translate virt

section Kernel

variable {memmap : List LimineMemmapEntry} {places : Set Pointer} {mm mm' : Mm} {live : Set Nat}

/-- The pages of the clients are no pages of the allocator. -/
theorem Tabled.live_outside (tabled : Tabled mm live) {page : Nat} (used : page ∈ live) : page ∉ mm.allocatorPages := by
  rintro ((usable | table) | bitmap)
  · exact Set.disjoint_left.mp tabled.pool.liveUsable used usable
  · exact Set.disjoint_left.mp tabled.live table used
  · exact Set.disjoint_left.mp tabled.pool.liveBitmap used bitmap

/-- A mapping call outside the direct map of the allocator and outside the places. -/
theorem kernelEffect_map {call : MapCall} (aligned : ∀ entry ∈ memmap, entry.Pooled → entry.Aligned)
    (tabled : Tabled mm live) (attributes : mm.msr msrIa32Pat = patValue)
    (avoids : call.Avoids memmap mm.pHHDM) (spares : call.Spares places)
    (physical : call.what.toNat + call.size.toNat ≤ 2 ^ 52) (returned : Returns call.run mm () mm') :
    KernelEffect memmap places live mm mm' := by
  obtain ⟨grown, framed⟩ := vmmMap_framed tabled returned
  have start : PoolState mm.poolPages mm.bitmapPages live mm.pHHDM mm := ⟨tabled, rfl, rfl, rfl⟩
  have reached := ((MapCall.mappable_of_returns returned).supplied.fills mm mm' start returned).1
  refine ⟨grown.tabled, reached.bitmap, reached.pool, ?_, grown.pHHDM_eq, ?_, fun direct => ?_, fun virt inside => ?_⟩
  · exact fun address used => framed.memory address (tabled.live_outside used)
  · rw [grown.data]
  · exact direct.map aligned tabled attributes avoids physical returned
  · exact MapCall.translate_spared tabled attributes physical returned fun found covered =>
      spares found covered virt inside

theorem KernelEffect.refl (tabled : Tabled mm live) : KernelEffect memmap places live mm mm :=
  ⟨tabled, rfl, rfl, fun _ _ => rfl, rfl, rfl, id, fun _ _ => rfl⟩

theorem KernelEffect.trans {middle : Mm} (head : KernelEffect memmap places live mm middle)
    (tail : KernelEffect memmap places live middle mm') : KernelEffect memmap places live mm mm' where
  tabled := tail.tabled
  bitmap := tail.bitmap.trans head.bitmap
  pool := tail.pool.trans head.pool
  frame address used := (tail.frame address used).trans (head.frame address used)
  place := tail.place.trans head.place
  attributes := tail.attributes.trans head.attributes
  direct kept := tail.direct (head.direct kept)
  places virt inside := (tail.places virt inside).trans (head.places virt inside)

/-- The drivers of the interrupt controllers have the effect of their calls. -/
theorem DriverRun.kernelEffect {maps : Mm → MapCall → Prop} (aligned : ∀ entry ∈ memmap, entry.Pooled → entry.Aligned)
    (tabled : Tabled mm live) (attributes : mm.msr msrIa32Pat = patValue)
    (avoids : ∀ found call, maps found call → call.Avoids memmap mm.pHHDM)
    (spares : ∀ found call, maps found call → call.Spares places)
    (physical : ∀ found call, maps found call → call.what.toNat + call.size.toNat ≤ 2 ^ 52)
    (run : DriverRun maps mm mm') : KernelEffect memmap places live mm mm' := by
  have other : msrIa32Pat ≠ msrIa32ApicBase := by decide
  induction run with
  | start => exact KernelEffect.refl tabled
  | enable _ _ ih =>
      refine ih.trans ⟨ih.tabled.withMsr _, rfl, rfl, fun _ _ => rfl, rfl, Mm.withMsr_other _ other _, fun direct => ?_,
        fun virt _ => congrFun (Mm.translate_withMsr other _) virt⟩
      exact direct.keep rfl (Mm.translate_withMsr other _)
  | map _ window returned ih =>
      have here := ih.place ▸ avoids _ _ window
      exact ih.trans (kernelEffect_map aligned ih.tabled (ih.attributes.trans attributes) here (spares _ _ window)
        (physical _ _ window) returned)

/-- A change of the memory that leaves the tables, the bitmap and the pages of the clients alone keeps every translation. -/
theorem kernelEffect_memory (tabled : Tabled mm live) (data : mm' = { mm with memory := mm'.memory })
    (same : ∀ address, address / 4096 ∈ mm.tables ∪ mm.bitmapPages ∪ live → mm'.memory address = mm.memory address) :
    KernelEffect memmap places live mm mm' ∧ mm'.translate = mm.translate := by
  have bitmap : mm'.bitmapPages = mm.bitmapPages := by
    rw [data]
    rfl
  have usable : mm'.usablePages = mm.usablePages := by
    rw [data]
    exact @usablePages_congr mm { mm with memory := mm'.memory } rfl fun address inside =>
      same address (Or.inl (Or.inr inside))
  have placed : mm'.Placed := by
    rw [data]
    exact ⟨tabled.pool.placed.fits, tabled.pool.placed.count⟩
  obtain ⟨still, tables, walk⟩ := tabled.keep data (fun address inside => same address (Or.inl (Or.inl inside)))
    (tabled.pool.shrink placed usable.le bitmap) (usable ▸ tabled.usable) tabled.live
  have translate := translate_of_walk data walk
  exact ⟨⟨still, bitmap, by rw [Mm.poolPages, Mm.poolPages, usable, tables],
    fun address used => same address (Or.inr used), by rw [data], by rw [data],
    fun direct => direct.keep (by rw [data]) translate, fun virt _ => congrFun translate virt⟩, translate⟩

/-- `pmm_zero` writes only to usable pages. -/
theorem kernelEffect_zero (tabled : Tabled mm live) (returned : Returns pmmZero mm () mm') :
    KernelEffect memmap places live mm mm' := by
  have pool := tabled.pool
  obtain ⟨found, again, zeroed⟩ := returns_pmmZero pool.placed pool.usableBitmap
  obtain ⟨_, rfl⟩ := Returns.unique again returned
  refine (kernelEffect_memory tabled zeroed.data fun address inside => zeroed.frame address (Or.inl ?_)).1
  rcases inside with (table | bitmap) | used
  · exact Set.disjoint_left.mp tabled.usable table
  · exact Set.disjoint_right.mp pool.usableBitmap bitmap
  · exact Set.disjoint_left.mp pool.liveUsable used

/-- The donation keeps the tables and every translation, and it changes no byte of the clients. -/
theorem Tabled.reclaim {stackOrigin : Pointer} {stackSize : BitVec 64}
    (ends : ∀ entry ∈ memmap, entry.Pooled → entry.base.toNat + entry.length.toNat ≤ 2 ^ 52)
    (tabled : Tabled mm live) (outside : Disjoint (pagesOf LimineMemmapEntry.Reclaimable memmap)
      (mm.bitmapPages ∪ live ∪ mm.tables))
    (returned : Returns (pmmReclaim memmap stackOrigin stackSize) mm () mm') :
    Tabled mm' live ∧ mm'.tables = mm.tables ∧ mm'.bitmapPages = mm.bitmapPages ∧
      (∀ address, address / 4096 ∈ live → mm'.memory address = mm.memory address) ∧
      mm'.usablePages =
        (mm.usablePages ∪ pagesOf LimineMemmapEntry.Reclaimable memmap) \ stackPages mm stackOrigin stackSize ∧
      mm' = { mm with memory := mm'.memory } ∧ mm'.translate = mm.translate := by
  have pool := tabled.pool
  obtain ⟨only, pages⟩ := returns_pmmReclaim pool.placed returned
  have bitmap := only.bitmapPages_eq
  have fewer : mm'.usablePages ⊆ mm.usablePages ∪ pagesOf LimineMemmapEntry.Reclaimable memmap := by
    rw [pages]
    exact Set.sdiff_subset
  obtain ⟨kept, tables⟩ := Set.disjoint_union_right.mp outside
  obtain ⟨kept, used⟩ := Set.disjoint_union_right.mp kept
  have sound : PoolSound mm' live := by
    refine ⟨only.placed pool.placed, fun page available => ?_, ?_, pool.liveSmall, ?_, ?_⟩
    · rcases fewer available with before | donated
      · exact pool.usableSmall page before
      · obtain ⟨entry, member, reclaimable, address, ⟨_, upper⟩, rfl⟩ := donated
        have last := ends entry member (Or.inr reclaimable)
        omega
    · rw [bitmap]
      exact Set.disjoint_of_subset_left fewer (Set.disjoint_union_left.mpr ⟨pool.usableBitmap, kept⟩)
    · exact Set.disjoint_of_subset_right fewer (Set.disjoint_union_right.mpr ⟨pool.liveUsable, used.symm⟩)
    · rw [bitmap]
      exact pool.liveBitmap
  obtain ⟨again, same, walk⟩ := tabled.keep only.data
    (fun address inside => only.frame_page (Set.disjoint_left.mp tabled.bitmap inside)) sound
    (Set.disjoint_of_subset_right fewer (Set.disjoint_union_right.mpr ⟨tabled.usable, tables.symm⟩)) tabled.live
  exact ⟨again, same, bitmap, fun address inside => only.frame_page (Set.disjoint_left.mp pool.liveBitmap inside), pages,
    only.data, translate_of_walk only.data walk⟩

end Kernel

/-- A step of one client is a step of all clients together. -/
theorem ClientStep.widen {mm mm' : Mm} {held live handed pages : Set Nat} (step : ClientStep mm held handed mm' pages)
    (within : held ⊆ live) : ∃ released ⊆ held, pages = (held \ released) ∪ handed ∧
      ClientStep mm live handed mm' ((live \ released) ∪ handed) := by
  cases step with
  | allocPages returned => exact ⟨∅, Set.empty_subset _, by simp, by simpa using ClientStep.allocPages returned⟩
  | allocPage returned => exact ⟨∅, Set.empty_subset _, by simp, by simpa using ClientStep.allocPage returned⟩
  | kalloc fits returned => exact ⟨∅, Set.empty_subset _, by simp, by simpa using ClientStep.kalloc fits returned⟩
  | kallocWraps wraps returned =>
      exact ⟨∅, Set.empty_subset _, by simp, by simpa using ClientStep.kallocWraps wraps returned⟩
  | freePages owned returned =>
      exact ⟨_, owned, by simp, by simpa using ClientStep.freePages (owned.trans within) returned⟩
  | freePage owned returned =>
      exact ⟨_, owned, by simp, by simpa using ClientStep.freePage (owned.trans within) returned⟩
  | kfree owned returned => exact ⟨_, owned, by simp, by simpa using ClientStep.kfree (owned.trans within) returned⟩
  | write own =>
      refine ⟨∅, Set.empty_subset _, by simp, ?_⟩
      simpa using ClientStep.write fun address outside => own address fun inside => outside (within inside)

/-- A step gives back exactly the pages that are no longer live. -/
theorem ClientEffect.released_eq {mm mm' : Mm} {live handed live' released : Set Nat}
    (effect : ClientEffect mm live handed mm' live' released) (fresh : Disjoint handed live) : released = live \ live' := by
  ext page
  have owned := @effect.owned page
  have new : page ∈ handed → page ∉ live := fun member => Set.disjoint_left.mp fresh member
  rw [effect.live_eq]
  simp only [Set.mem_sdiff, Set.mem_union]
  tauto

section Give

variable {Client : Type} {system : System Client} {client other : Client} {mm : Mm} {pages handed released : Set Nat}

theorem System.held_subset (system : System Client) (client : Client) : system.held client ⊆ system.live := by
  intro page held
  rw [System.live, Set.mem_ofPred_eq, held]
  exact Option.some_ne_none client

/-- The new pages of the client have it as their holder. -/
theorem System.holder_give_new {page : Nat} (new : page ∈ pages) :
    (system.give client mm pages).holder page = some client := if_pos new

/-- A page that the client gave back has no holder. -/
theorem System.holder_give_back {page : Nat} (lost : page ∉ pages) (mine : page ∈ system.held client) :
    (system.give client mm pages).holder page = none := (if_neg lost).trans (if_pos mine)

/-- Any other page keeps its holder. -/
theorem System.holder_give_other {page : Nat} (lost : page ∉ pages) (notMine : page ∉ system.held client) :
    (system.give client mm pages).holder page = system.holder page := (if_neg lost).trans (if_neg notMine)

/-- The pages that a client gets are pages of all clients together. -/
theorem System.live_give (owned : released ⊆ system.held client)
    (pagesEq : pages = (system.held client \ released) ∪ handed) :
    (system.give client mm pages).live = (system.live \ released) ∪ handed := by
  ext page
  have here := @owned page
  have more := @System.held_subset _ system client page
  have split : page ∈ pages ↔ (page ∈ system.held client ∧ page ∉ released) ∨ page ∈ handed := by
    rw [pagesEq]
    rfl
  rw [Set.mem_union, Set.mem_sdiff]
  change _ ≠ none ↔ _
  by_cases new : page ∈ pages
  · rw [System.holder_give_new new]
    simp only [ne_eq, reduceCtorEq, not_false_eq_true, true_iff]
    tauto
  · by_cases mine : page ∈ system.held client
    · rw [System.holder_give_back new mine]
      simp only [ne_eq, not_true_eq_false, false_iff]
      tauto
    · rw [System.holder_give_other new mine]
      change page ∈ system.live ↔ _
      tauto

/-- Another client keeps its pages. -/
theorem System.held_give (different : other ≠ client) (unheld : Disjoint handed system.live)
    (pagesEq : pages = (system.held client \ released) ∪ handed) :
    (system.give client mm pages).held other = system.held other := by
  ext page
  have apart : page ∈ system.held client → page ∉ system.held other := by
    intro mine theirs
    exact different (Option.some.inj (theirs.symm.trans mine))
  have fresh : page ∈ handed → page ∉ system.held other := fun new theirs =>
    Set.disjoint_left.mp unheld new (system.held_subset other theirs)
  have split : page ∈ pages ↔ (page ∈ system.held client ∧ page ∉ released) ∨ page ∈ handed := by
    rw [pagesEq]
    rfl
  change _ = some other ↔ _
  by_cases new : page ∈ pages
  · rw [System.holder_give_new new, Option.some_inj]
    have same : client ≠ other := different.symm
    tauto
  · by_cases mine : page ∈ system.held client
    · rw [System.holder_give_back new mine]
      have theirs := apart mine
      simp only [reduceCtorEq, false_iff]
      exact theirs
    · rw [System.holder_give_other new mine]
      rfl

end Give

/-- The tables are sound, and every owned page is kept back, held by a client, or in the pool of free pages and tables. -/
structure SystemInvariant {Client : Type} (memmap : List LimineMemmapEntry) (kept : Set Nat) (system : System Client) :
    Prop where
  tabled : Tabled system.mm system.live
  bitmap : system.mm.bitmapPages = kept
  balanced : Balanced (ownedPages memmap system.stack) (kept ∪ system.stack.getD ∅) system.live system.mm.poolPages

/-- The direct map also translates every page of the allocator, and the kernel's segments stay mapped. -/
structure SystemMapped {Client : Type} (memmap : List LimineMemmapEntry) (executable : LimineExecutableAddress)
    (phhdm : Pointer) (kept : Set Nat) (system : System Client) : Prop extends SystemInvariant memmap kept system where
  attributes : system.mm.msr msrIa32Pat = patValue
  direct : DirectMapped memmap system.mm
  image : ImageMapped memmap executable phhdm system.mm

namespace SystemInvariant

variable {Client : Type} {memmap : List LimineMemmapEntry} {kept : Set Nat} {before after : System Client}
  {actor : Option Client} {mm : Mm}

/-- A step of the kernel keeps the invariant. -/
theorem kernel {places : Set Pointer} (invariant : SystemInvariant memmap kept before)
    (effect : KernelEffect memmap places before.live before.mm mm) :
    SystemInvariant memmap kept { before with mm := mm } := by
  refine ⟨effect.tabled, effect.bitmap.trans invariant.bitmap, ?_⟩
  have balanced := invariant.balanced
  rw [← effect.pool] at balanced
  exact balanced

/-- A step of a client moves pages between the pool and the client, and it changes no byte of the other clients. -/
theorem client {client : Client} {handed pages : Set Nat} (invariant : SystemInvariant memmap kept before)
    (step : ClientStep before.mm (before.held client) handed mm pages) :
    SystemInvariant memmap kept (before.give client mm pages) ∧
      mm = { before.mm with memory := mm.memory } ∧ mm.translate = before.mm.translate ∧
      ∀ other ≠ client, (before.give client mm pages).held other = before.held other ∧
        ∀ address, address / 4096 ∈ before.held other → mm.memory address = before.mm.memory address := by
  have within := before.held_subset client
  have pool := invariant.tabled.pool
  obtain ⟨released, owned, pagesEq, wide⟩ := step.widen within
  obtain ⟨tabled, tables, translate, back, effect⟩ := invariant.tabled.client wide
  obtain ⟨_, alone⟩ := step.effect pool.placed (Set.disjoint_of_subset_left within pool.liveBitmap)
    fun page mine => pool.liveSmall page (within mine)
  have live := @System.live_give _ before client mm pages handed released owned pagesEq
  have fresh : Disjoint handed before.live := Set.disjoint_of_subset_left effect.available pool.liveUsable.symm
  have same : back = released := by
    rw [effect.released_eq fresh, Set.union_comm, ← Set.sdiff_sdiff, fresh.symm.sdiff_eq_left,
      Set.sdiff_sdiff_right_self]
    exact Set.inter_eq_right.mpr (owned.trans within)
  subst same
  refine ⟨⟨?_, ?_, ?_⟩, effect.data, translate, fun other different =>
    ⟨System.held_give different fresh pagesEq, fun address theirs => ?_⟩⟩
  · rw [live]
    exact tabled
  · rw [← invariant.bitmap]
    change mm.bitmapPages = _
    rw [effect.data]
    rfl
  · have moved := @Balanced.hand _ _ _ _ _ handed (invariant.balanced.release (owned.trans within))
      (effect.available.trans (Set.subset_union_left.trans Set.subset_union_left))
    have taken : Disjoint handed (before.mm.tables ∪ back) := Set.disjoint_union_right.mpr
      ⟨Set.disjoint_of_subset_left effect.available invariant.tabled.usable.symm,
        Set.disjoint_of_subset_right (owned.trans within) fresh⟩
    have poolPages : mm.poolPages = (before.mm.poolPages ∪ back) \ handed := by
      rw [Mm.poolPages, Mm.poolPages, tables, effect.usable_eq, Set.union_assoc, Set.union_assoc,
        Set.union_sdiff_distrib, taken.symm.sdiff_eq_left, Set.union_comm back]
    rw [live]
    change Balanced _ _ _ mm.poolPages
    rw [poolPages]
    exact moved
  · refine alone.frame address (Set.disjoint_left.mp pool.liveBitmap (before.held_subset other theirs)) fun mine => ?_
    rw [System.held, Set.mem_ofPred_eq] at mine theirs
    rw [mine] at theirs
    exact different (Option.some.inj theirs).symm

/-- The donation adds the reclaimable entries to the pool and keeps back the boot stack. -/
theorem reclaim {stackOrigin : Pointer} {stackSize : BitVec 64} (pooled : PooledMap memmap)
    (ends : ∀ entry ∈ memmap, entry.Pooled → entry.base.toNat + entry.length.toNat ≤ 2 ^ 52)
    (within : kept ⊆ pagesOf LimineMemmapEntry.Usable memmap) (invariant : SystemInvariant memmap kept before)
    (once : before.stack = none) (placed : StackPlaced memmap before.mm stackOrigin stackSize)
    (returned : Returns (pmmReclaim memmap stackOrigin stackSize) before.mm () mm) :
    SystemInvariant memmap kept { before with mm := mm, stack := some (stackPages before.mm stackOrigin stackSize) } ∧
      mm = { before.mm with memory := mm.memory } ∧ mm.translate = before.mm.translate ∧
      ∀ address, address / 4096 ∈ before.live → mm.memory address = before.mm.memory address := by
  have owned : ownedPages memmap none = pagesOf LimineMemmapEntry.Usable memmap := by simp [ownedPages]
  have balanced := invariant.balanced
  rw [once, owned, Option.getD_none, Set.union_empty] at balanced
  have live : before.live ⊆ pagesOf LimineMemmapEntry.Usable memmap := fun page used => (balanced.live_within used).1
  have tables : before.mm.tables ⊆ pagesOf LimineMemmapEntry.Usable memmap := by
    intro page table
    have inPool : page ∈ before.mm.poolPages := Or.inr table
    rw [balanced.free_eq] at inPool
    exact inPool.1
  have apart := pooled.disjoint_reclaimable
  have stackInside : stackPages before.mm stackOrigin stackSize ⊆ pagesOf LimineMemmapEntry.Reclaimable memmap := by
    obtain ⟨bottom, size, entry, member, type, lower, upper⟩ := placed
    intro page given
    obtain ⟨first, last⟩ := given
    exact ⟨entry, member, Or.inr type, page * 4096, ⟨by omega, by omega⟩, by omega⟩
  obtain ⟨tabled, sameTables, bitmap, frame, pages, data, translate⟩ := invariant.tabled.reclaim ends
    (Set.disjoint_of_subset_right (Set.union_subset (Set.union_subset (invariant.bitmap.le.trans within) live) tables) apart)
    returned
  refine ⟨⟨tabled, bitmap.trans invariant.bitmap, ?_⟩, data, translate, frame⟩
  have donated := balanced.donate (Set.disjoint_of_subset_right within apart) (Set.disjoint_of_subset_right live apart)
    (Set.disjoint_of_subset stackInside live apart)
  have poolPages : mm.poolPages = (before.mm.poolPages ∪ pagesOf LimineMemmapEntry.Reclaimable memmap) \
      stackPages before.mm stackOrigin stackSize := by
    have unstacked := (Set.disjoint_of_subset stackInside tables apart).symm
    rw [Mm.poolPages, Mm.poolPages, sameTables, pages, Set.union_right_comm, @Set.union_sdiff_distrib _ _ before.mm.tables,
      unstacked.sdiff_eq_left]
  change Balanced _ _ before.live mm.poolPages
  rw [poolPages]
  simpa [ownedPages] using donated

/-- The free pages are the owned pages that nothing uses, and the tables and the clients use owned pages. -/
theorem accounts (invariant : SystemInvariant memmap kept after) :
    after.mm.usablePages = ownedPages memmap after.stack \
        (kept ∪ after.stack.getD ∅ ∪ after.live ∪ after.mm.tables) ∧
      after.mm.tables ⊆ ownedPages memmap after.stack \ (kept ∪ after.stack.getD ∅ ∪ after.live) ∧
      after.live ⊆ ownedPages memmap after.stack \ (kept ∪ after.stack.getD ∅) := by
  have accounts := invariant.balanced.free_eq
  refine ⟨?_, Set.subset_union_right.trans accounts.le, invariant.balanced.live_within⟩
  rw [← Set.sdiff_sdiff, ← accounts, Mm.poolPages, Set.union_sdiff_right, invariant.tabled.usable.symm.sdiff_eq_left]

end SystemInvariant

namespace SystemMapped

variable {Client : Type} {memmap : List LimineMemmapEntry} {executable : LimineExecutableAddress} {phhdm : Pointer}
  {kept : Set Nat} {before after : System Client} {actor : Option Client} {mm : Mm}

/-- A step of the kernel keeps the invariant and the mappings. -/
theorem kernel (invariant : SystemMapped memmap executable phhdm kept before)
    (effect : KernelEffect memmap (kernelImage executable) before.live before.mm mm) :
    SystemMapped memmap executable phhdm kept { before with mm := mm } :=
  ⟨invariant.toSystemInvariant.kernel effect, effect.attributes.trans invariant.attributes, effect.direct invariant.direct,
    fun virt inside => (effect.places virt inside).trans (invariant.image virt inside)⟩

/-- A step that changes only the memory, and no translation, keeps the mappings. -/
theorem keep (invariant : SystemMapped memmap executable phhdm kept before) (reached : SystemInvariant memmap kept after)
    (data : after.mm = { before.mm with memory := after.mm.memory })
    (translate : after.mm.translate = before.mm.translate) : SystemMapped memmap executable phhdm kept after := by
  refine ⟨reached, ?_, invariant.direct.keep (by rw [data]) translate, fun virt inside => ?_⟩
  · rw [data]
    exact invariant.attributes
  · rw [translate]
    exact invariant.image virt inside

/-- Every step keeps the invariant, and it leaves every client alone that does not take the step. -/
theorem step (pooled : PooledMap memmap)
    (ends : ∀ entry ∈ memmap, entry.Pooled → entry.base.toNat + entry.length.toNat ≤ 2 ^ 52)
    (within : kept ⊆ pagesOf LimineMemmapEntry.Usable memmap) (invariant : SystemMapped memmap executable phhdm kept before)
    (step : SystemStep memmap executable before actor after) :
    SystemMapped memmap executable phhdm kept after ∧ ∀ other, some other ≠ actor → after.held other = before.held other ∧
      ∀ address, address / 4096 ∈ before.held other → after.mm.memory address = before.mm.memory address := by
  have byKernel {mm : Mm} (effect : KernelEffect memmap (kernelImage executable) before.live before.mm mm) :
      SystemMapped memmap executable phhdm kept { before with mm := mm } ∧ ∀ other, some other ≠ (none : Option Client) →
        before.held other = before.held other ∧
        ∀ address, address / 4096 ∈ before.held other → mm.memory address = before.mm.memory address :=
    ⟨invariant.kernel effect, fun other _ => ⟨rfl, fun address theirs =>
      effect.frame address (before.held_subset other theirs)⟩⟩
  cases step with
  | client step =>
      obtain ⟨next, data, translate, others⟩ := invariant.client step
      exact ⟨invariant.keep next data translate, fun other different =>
        others other fun same => different (congrArg some same)⟩
  | map spares physical returned =>
      exact byKernel (kernelEffect_map pooled.aligned invariant.tabled invariant.attributes
        (spares.avoids ends) spares.image physical returned)
  | acpi here harmless returned =>
      have run := driverRun_acpiParseRsdp returned
      rw [here] at run
      exact byKernel (run.kernelEffect pooled.aligned invariant.tabled invariant.attributes
        (fun mm call window => (harmless mm call window).avoids) (fun mm call window => (harmless mm call window).image)
        fun _ _ window => window.physical)
  | zero returned => exact byKernel (kernelEffect_zero invariant.tabled returned)
  | reclaim once placed returned =>
      obtain ⟨next, data, translate, frame⟩ := invariant.reclaim pooled ends within once placed returned
      exact ⟨invariant.keep next data translate, fun other _ => ⟨rfl, fun address theirs =>
        frame address (before.held_subset other theirs)⟩⟩

/-- Every state of a run satisfies the invariant, and the clients without a step are left alone. -/
theorem run {actors : List (Option Client)} (pooled : PooledMap memmap)
    (ends : ∀ entry ∈ memmap, entry.Pooled → entry.base.toNat + entry.length.toNat ≤ 2 ^ 52)
    (within : kept ⊆ pagesOf LimineMemmapEntry.Usable memmap) (invariant : SystemMapped memmap executable phhdm kept before)
    (run : SystemRun memmap executable before actors after) :
    SystemMapped memmap executable phhdm kept after ∧ ∀ other, some other ∉ actors → after.held other = before.held other ∧
      ∀ address, address / 4096 ∈ before.held other → after.mm.memory address = before.mm.memory address := by
  induction run with
  | start => exact ⟨invariant, fun other _ => ⟨rfl, fun _ _ => rfl⟩⟩
  | step _ step ih =>
      obtain ⟨reached, earlier⟩ := ih
      obtain ⟨next, later⟩ := reached.step pooled ends within step
      refine ⟨next, fun other absent => ?_⟩
      rw [List.mem_append, List.mem_singleton, not_or] at absent
      obtain ⟨held, bytes⟩ := earlier other absent.1
      obtain ⟨heldAfter, bytesAfter⟩ := later other absent.2
      refine ⟨heldAfter.trans held, fun address theirs => ?_⟩
      rw [bytesAfter address (held ▸ theirs), bytes address theirs]

/-- The kernel pointer of a page of a client leads to the page. -/
theorem direct_of_live (invariant : SystemMapped memmap executable phhdm kept after) {page : Nat} (used : page ∈ after.live) :
    after.mm.translate (after.mm.tablePointer page) = some (directTranslation page) := by
  obtain ⟨entry, member, pooled, inside⟩ := pooled_of_owned (invariant.balanced.live_within used).1
  exact invariant.direct entry member pooled page inside

end SystemMapped

section System

variable {Client : Type} {memmap : List LimineMemmapEntry} {executable : LimineExecutableAddress} {phhdm : Pointer}
  {boot start booted : Mm} {before after : System Client} {earlier later : List (Option Client)}

/-- The boot mapping establishes the invariant. -/
theorem systemInvariant_start (ends : ∀ entry ∈ memmap, entry.Pooled → entry.base.toNat + entry.length.toNat ≤ 2 ^ 52)
    (init : Returns (pmmInit memmap phhdm) boot () start) (mapped : Returns (vmmInit memmap executable) start () booted) :
    start.bitmapPages ⊆ pagesOf LimineMemmapEntry.Usable memmap ∧
      SystemInvariant memmap start.bitmapPages (System.booted booted : System Client) := by
  have usableEnds := fun entry member usable => ends entry member (Or.inl usable)
  have started := returns_pmmInit (fun entry member usable => by have last := usableEnds entry member usable; omega) init
  have sound : PoolSound start (System.booted booted : System Client).live := by
    rw [show (System.booted booted : System Client).live = ∅ by simp [System.live, System.booted]]
    exact started.poolSound usableEnds
  obtain ⟨state, _⟩ := poolState_vmmInit sound mapped
  refine ⟨started.bitmapPages_subset, state.tabled, state.bitmap, ?_⟩
  have balanced := Balanced.start (pagesOf LimineMemmapEntry.Usable memmap) start.bitmapPages
  rw [← started.usablePages, ← state.pool] at balanced
  simpa [ownedPages, System.live, System.booted] using balanced

/-- It maps the kernel's segments, and the pages of the allocator when the kernel window lies outside their direct map. -/
theorem systemMapped_start (map : BootMap memmap executable phhdm) (pooled : PooledMap memmap)
    (windows : WindowsDisjoint memmap executable phhdm) (init : Returns (pmmInit memmap phhdm) boot () start)
    (mapped : Returns (vmmInit memmap executable) start () booted) :
    start.bitmapPages ⊆ pagesOf LimineMemmapEntry.Usable memmap ∧
      SystemMapped memmap executable phhdm start.bitmapPages (System.booted booted : System Client) := by
  obtain ⟨within, invariant⟩ := @systemInvariant_start Client _ _ _ _ _ _ map.pooledEnds init mapped
  have initial := directInvariant_start map pooled windows init mapped
  exact ⟨within, invariant, initial.attributes, initial.direct, imageMapped_start map init mapped⟩

/-- In every state that the system reaches after the boot mapping, the free pages are exactly the owned pages without
the bitmap, the boot stack, the pages of the clients and the tables, and the tables hold none of the others. The direct map
translates every page that the allocator may own to itself, for writing, and the kernel's segments are translated as
`vmm_init` mapped them. -/
theorem system_exact_accounts (map : BootMap memmap executable phhdm) (pooled : PooledMap memmap)
    (windows : WindowsDisjoint memmap executable phhdm) (init : Returns (pmmInit memmap phhdm) boot () start)
    (mapped : Returns (vmmInit memmap executable) start () booted)
    (run : SystemRun memmap executable (System.booted booted) earlier after) :
    after.mm.usablePages = ownedPages memmap after.stack \
        (start.bitmapPages ∪ after.stack.getD ∅ ∪ after.live ∪ after.mm.tables) ∧
      after.mm.tables ⊆ ownedPages memmap after.stack \ (start.bitmapPages ∪ after.stack.getD ∅ ∪ after.live) ∧
      after.live ⊆ ownedPages memmap after.stack \ (start.bitmapPages ∪ after.stack.getD ∅) ∧
      DirectMapped memmap after.mm ∧ ImageMapped memmap executable phhdm after.mm := by
  obtain ⟨within, invariant⟩ := @systemMapped_start Client _ _ _ _ _ _ map pooled windows init mapped
  have reached := (invariant.run pooled map.pooledEnds within run).1
  obtain ⟨usable, tables, live⟩ := reached.accounts
  exact ⟨usable, tables, live, reached.direct, reached.image⟩

/-- While the kernel and the other clients take any steps, a client keeps exactly its pages and every byte on them, and
the kernel pointers of these pages still lead there. -/
theorem clients_isolated (map : BootMap memmap executable phhdm) (pooled : PooledMap memmap)
    (windows : WindowsDisjoint memmap executable phhdm) (init : Returns (pmmInit memmap phhdm) boot () start)
    (mapped : Returns (vmmInit memmap executable) start () booted)
    (head : SystemRun memmap executable (System.booted booted) earlier before)
    (tail : SystemRun memmap executable before later after)
    {client : Client} (idle : some client ∉ later) :
    after.held client = before.held client ∧
      (∀ address, address / 4096 ∈ before.held client → after.mm.memory address = before.mm.memory address) ∧
      ∀ page ∈ before.held client, after.mm.translate (after.mm.tablePointer page) = some (directTranslation page) := by
  obtain ⟨within, invariant⟩ := @systemMapped_start Client _ _ _ _ _ _ map pooled windows init mapped
  obtain ⟨reached, _⟩ := invariant.run pooled map.pooledEnds within head
  obtain ⟨last, kept⟩ := reached.run pooled map.pooledEnds within tail
  obtain ⟨held, bytes⟩ := kept client idle
  refine ⟨held, bytes, fun page mine => last.direct_of_live (after.held_subset client ?_)⟩
  rwa [held]

end System

def samplePassed : Mm := lastState pmmAllocPage sampleDonated

/-- The first client of the sample system holds a page. -/
noncomputable def sampleClient : System Bool :=
  (System.booted sampleBooted).give false sampleAllocated ((System.booted sampleBooted).held false ∪ spanPages 0x9000#64 1)

/-- The sample system after a mapping call. -/
noncomputable def sampleWindowed : System Bool := { sampleClient with mm := sampleRemapped }

/-- The sample system after the donation. -/
noncomputable def sampleKernel : System Bool :=
  { sampleWindowed with
    mm := sampleDonated, stack := some (stackPages sampleWindowed.mm (sampleHhdm + 0xB000#64) 0x1000#64) }

/-- The second client of the sample system holds a page. -/
noncomputable def sampleClients : System Bool :=
  sampleKernel.give true samplePassed (sampleKernel.held true ∪ spanPages 0xB000#64 1)

theorem sampleClient_run : SystemRun sampleMemmap sampleExecutable (System.booted sampleBooted) [some false] sampleClient := by
  have taken : Returns pmmAllocPage sampleBooted 0x9000#64 sampleAllocated := returns_lastState (by decide +kernel)
  rw [← @System.booted_mm Bool sampleBooted] at taken
  exact SystemRun.start.step (.client (.allocPage taken))

theorem sampleClients_run : SystemRun sampleMemmap sampleExecutable sampleClient [none, none, some true] sampleClients := by
  have remapped : Returns sampleWindowCall.run sampleClient.mm () sampleRemapped := by
    rw [sampleClient, System.give_mm]
    exact returns_lastState (by decide +kernel)
  have placed : StackPlaced sampleMemmap sampleRemapped (sampleHhdm + 0xB000#64) 0x1000#64 := by
    refine ⟨by decide +kernel, by decide, ⟨0xA000#64, 0x2000#64, .bootloaderReclaimable⟩, by decide, rfl, ?_, ?_⟩ <;>
      decide +kernel
  have donated : Returns (pmmReclaim sampleMemmap (sampleHhdm + 0xB000#64) 0x1000#64) sampleRemapped () sampleDonated :=
    returns_lastState (by decide +kernel)
  have passed : Returns pmmAllocPage sampleDonated 0xB000#64 samplePassed := returns_lastState (by decide +kernel)
  have unset : sampleWindowed.stack = none := by
    rw [sampleWindowed, sampleClient, System.give_stack, System.booted_stack]
  have place : sampleClient.mm.pHHDM = sampleHhdm := by
    rw [sampleClient, System.give_mm]
    decide +kernel
  have spares : sampleWindowCall.Spares (bootPlaces sampleMemmap sampleExecutable sampleClient.mm.pHHDM) :=
    place ▸ sampleWindowCall_spares
  have mapped : SystemRun sampleMemmap sampleExecutable sampleClient [none] sampleWindowed :=
    SystemRun.start.step (.map spares (by decide) remapped)
  rw [← show sampleWindowed.mm = sampleRemapped by rw [sampleWindowed]] at placed donated
  have reclaimed : SystemRun sampleMemmap sampleExecutable sampleClient [none, none] sampleKernel :=
    mapped.step (.reclaim unset placed donated)
  rw [← show sampleKernel.mm = sampleDonated by rw [sampleKernel]] at passed
  exact reclaimed.step (.client (.allocPage passed))

/-- With the pages of two clients, the accounts hold on the sample machine. -/
theorem system_exact_accounts_sample :
    samplePassed.usablePages = ownedPages sampleMemmap sampleClients.stack \
      (sampleStart.bitmapPages ∪ sampleClients.stack.getD ∅ ∪ sampleClients.live ∪ samplePassed.tables) := by
  have run := sampleClient_run.trans sampleClients_run
  have accounts := (system_exact_accounts sampleBoot_map sampleMemmap_pooled sampleWindows_disjoint sampleStart_returns
    sampleBooted_returns run).1
  rwa [show sampleClients.mm = samplePassed by rw [sampleClients, System.give_mm]] at accounts

/-- The first client keeps its byte while the kernel and the second client take steps. -/
theorem clients_isolated_sample : samplePassed.memory 0x9000 = sampleAllocated.memory 0x9000 := by
  have mine : 0x9000 / 4096 ∈ sampleClient.held false := System.holder_give_new (Or.inr ⟨by decide, by decide⟩)
  have kept := (clients_isolated sampleBoot_map sampleMemmap_pooled sampleWindows_disjoint sampleStart_returns
    sampleBooted_returns sampleClient_run sampleClients_run (by decide)).2.1 0x9000 mine
  rwa [show sampleClients.mm = samplePassed by rw [sampleClients, System.give_mm],
    show sampleClient.mm = sampleAllocated by rw [sampleClient, System.give_mm]] at kept

end UmbralOS
