import UmbralOS.Proof.Memory.Mapping

/-!
This file proves that the page tables refine the ordered list of mapping calls.
-/

namespace UmbralOS

open Library PathTree

section Keep

variable {mm mm' : Mm} {live live' handed released : Set Nat}

/-- A step that leaves the tables alone keeps every path. -/
theorem resolve_keep (same : ∀ address, address / 4096 ∈ mm.tables → mm'.memory address = mm.memory address)
    {path : List (Fin 512)} (within : path.length ≤ 4) :
    resolve (tableChild mm'.memory) mm.root path = resolve (tableChild mm.memory) mm.root path := by
  refine @resolve_congr _ _ _ _ _ 3 (fun node member index => ?_) _ within
  rw [tableChild, tableChild, tableWord_congr index fun address inside => same address (inside ▸ member)]

theorem selected_keep (same : ∀ address, address / 4096 ∈ mm.tables → mm'.memory address = mm.memory address)
    {depth : Nat} (within : depth ≤ 3) (node : Nat) :
    Selected (tableChild mm'.memory) mm.root depth node ↔ Selected (tableChild mm.memory) mm.root depth node := by
  constructor <;> rintro ⟨path, short, found⟩ <;> refine ⟨path, short, ?_⟩
  · rwa [resolve_keep same (by omega)] at found
  · rwa [resolve_keep same (by omega)]

/-- A step that leaves the tables alone changes no directory. -/
theorem sameDirectories_keep (data : mm' = { mm with memory := mm'.memory })
    (same : ∀ address, address / 4096 ∈ mm.tables → mm'.memory address = mm.memory address) :
    SameDirectories mm mm' := by
  have root : mm'.root = mm.root := by rw [data]; rfl
  refine ⟨fun node directory => ?_, fun node index directory => ?_⟩
  · rw [root] at directory
    exact (selected_keep same (by omega) node).mp directory
  · obtain ⟨path, short, found⟩ := directory
    have member := mem_tables (by omega) found
    rw [Mm.directoryEntry, Mm.directoryEntry,
      tableWord_congr index fun address inside => same address (inside ▸ member)]

/-- A step that leaves the tables alone keeps the invariant and every walk. -/
theorem Tabled.keep (tabled : Tabled mm live) (data : mm' = { mm with memory := mm'.memory })
    (same : ∀ address, address / 4096 ∈ mm.tables → mm'.memory address = mm.memory address)
    (pool : PoolSound mm' live') (usable : Disjoint mm.tables mm'.usablePages) (apart : Disjoint mm.tables live') :
    Tabled mm' live' ∧ mm'.tables = mm.tables ∧ mm'.walk = mm.walk := by
  have root : mm'.root = mm.root := by rw [data]; rfl
  have bitmap : mm'.bitmapPages = mm.bitmapPages := by rw [data]; rfl
  have tables : mm'.tables = mm.tables := by
    ext node
    rw [Mm.tables, root]
    exact selected_keep same le_rfl node
  refine ⟨⟨pool, ?_, ?_, ?_, ?_, ?_, ?_, ?_⟩, tables, ?_⟩
  · rw [data]
    exact tabled.aligned
  · intro first second node firstShort secondShort firstFound secondFound
    rw [root, resolve_keep same (by omega)] at firstFound secondFound
    exact tabled.distinct first second node firstShort secondShort firstFound secondFound
  · rw [tables]
    exact tabled.small
  · intro node index directory present
    have kept := sameDirectories_keep data same
    have before := kept.selected node directory
    rw [kept.entries node index before] at present ⊢
    exact tabled.grants node index before present
  · rwa [tables]
  · rw [tables, bitmap]
    exact tabled.bitmap
  · rwa [tables]
  · funext virt
    have three : (walkPath virt).length = 3 := rfl
    rw [Mm.walk, Mm.walk, UmbralOS.walk, UmbralOS.walk, root, resolve_keep same (by omega)]
    cases found : resolve (tableChild mm.memory) mm.root (walkPath virt) with
    | none => rw [Option.bind_none, Option.bind_none]
    | some last =>
        have member := mem_tables (by omega) found
        rw [Option.bind_some, Option.bind_some,
          tableWord_congr _ fun address inside => same address (inside ▸ member)]

/-- A step that changes only the memory and keeps every walk keeps every translation. -/
theorem translate_of_walk (data : mm' = { mm with memory := mm'.memory }) (walk : mm'.walk = mm.walk) :
    mm'.translate = mm.translate := by
  funext virt
  rw [Mm.translate, Mm.translate, walk, data]

/-- The pages of the clients and of the allocator stay sound. -/
theorem PoolSound.client (pool : PoolSound mm live) (effect : ClientEffect mm live handed mm' live' released) :
    PoolSound mm' live' := by
  have placed := pool.placed
  have bitmap : mm'.bitmapPages = mm.bitmapPages := by rw [effect.data]; rfl
  have usableSub : mm'.usablePages ⊆ mm.usablePages ∪ live := by
    rw [effect.usable_eq]
    exact Set.union_subset_union Set.sdiff_subset effect.owned
  have liveSub : live' ⊆ live ∪ mm.usablePages := by
    rw [effect.live_eq]
    exact Set.union_subset_union Set.sdiff_subset effect.available
  refine ⟨?_, fun page available => ?_, ?_, fun page used => ?_, ?_, ?_⟩
  · rw [effect.data]
    exact ⟨placed.fits, placed.count⟩
  · rcases usableSub available with before | used
    · exact pool.usableSmall page before
    · exact pool.liveSmall page used
  · rw [bitmap]
    exact Set.disjoint_of_subset_left usableSub (Set.disjoint_union_left.mpr ⟨pool.usableBitmap, pool.liveBitmap⟩)
  · rcases liveSub used with before | available
    · exact pool.liveSmall page before
    · exact pool.usableSmall page available
  · rw [effect.live_eq, effect.usable_eq, Set.disjoint_left]
    intro page used available
    have apart : page ∈ live → page ∉ mm.usablePages := fun member => Set.disjoint_left.mp pool.liveUsable member
    have given := @effect.available page
    have owned := @effect.owned page
    simp only [Set.mem_union, Set.mem_sdiff] at used available
    tauto
  · rw [bitmap]
    exact Set.disjoint_of_subset_left liveSub (Set.disjoint_union_left.mpr ⟨pool.liveBitmap, pool.usableBitmap⟩)

/-- A client writes to no table. -/
theorem Tabled.client_frame (tabled : Tabled mm live) (effect : ClientEffect mm live handed mm' live' released) :
    ∀ address, address / 4096 ∈ mm.tables → mm'.memory address = mm.memory address := fun address member =>
  effect.frame address (Set.disjoint_left.mp tabled.bitmap member) (Set.disjoint_left.mp tabled.live member)

/-- A client step keeps the tables and every walk. -/
theorem Tabled.client_walk (tabled : Tabled mm live) (effect : ClientEffect mm live handed mm' live' released) :
    Tabled mm' live' ∧ mm'.tables = mm.tables ∧ mm'.walk = mm.walk := by
  have pool := tabled.pool
  have usableSub : mm'.usablePages ⊆ mm.usablePages ∪ live := by
    rw [effect.usable_eq]
    exact Set.union_subset_union Set.sdiff_subset effect.owned
  have liveSub : live' ⊆ live ∪ mm.usablePages := by
    rw [effect.live_eq]
    exact Set.union_subset_union Set.sdiff_subset effect.available
  exact tabled.keep effect.data (tabled.client_frame effect) (pool.client effect)
    (Set.disjoint_of_subset_right usableSub (Set.disjoint_union_right.mpr ⟨tabled.usable, tabled.live⟩))
    (Set.disjoint_of_subset_right liveSub (Set.disjoint_union_right.mpr ⟨tabled.live, tabled.usable⟩))

/-- A client step keeps the tables and every translation. -/
theorem Tabled.client (tabled : Tabled mm live) (step : ClientStep mm live handed mm' live') :
    Tabled mm' live' ∧ mm'.tables = mm.tables ∧ mm'.translate = mm.translate ∧
      ∃ released, ClientEffect mm live handed mm' live' released := by
  have pool := tabled.pool
  obtain ⟨released, effect⟩ := step.effect pool.placed pool.liveBitmap pool.liveSmall
  have kept := tabled.client_walk effect
  exact ⟨kept.1, kept.2.1, translate_of_walk effect.data kept.2.2, released, effect⟩

end Keep

/-- The mapper starts with a zeroed root table that the allocator cannot hand out. -/
structure RootZeroed (mm : Mm) (live : Set Nat) : Prop where
  pool : PoolSound mm live
  aligned : mm.physical mm.pml4 % 4096 = 0
  small : mm.root < 2 ^ 40
  zero : ∀ address, address / 4096 = mm.root → mm.memory address = 0
  usable : mm.root ∉ mm.usablePages
  bitmap : mm.root ∉ mm.bitmapPages
  live : mm.root ∉ live
  attributes : mm.msr msrIa32Pat = patValue

namespace RootZeroed

variable {mm : Mm} {live : Set Nat}

theorem tableChild_eq (zeroed : RootZeroed mm live) (index : Fin 512) :
    tableChild mm.memory mm.root index = none := by
  rw [tableChild, tableWord_zero index zeroed.zero]
  rfl

theorem mem_tables (zeroed : RootZeroed mm live) {table : Nat} (member : table ∈ mm.tables) : table = mm.root := by
  obtain ⟨path, _, found⟩ := member
  exact (resolve_leaf zeroed.tableChild_eq found).2

/-- A zeroed root is a tree of one table. -/
theorem tabled (zeroed : RootZeroed mm live) : Tabled mm live := by
  refine ⟨zeroed.pool, zeroed.aligned, distinct_leaf zeroed.tableChild_eq 3, ?_, ?_, ?_, ?_, ?_⟩
  · intro table member
    rw [zeroed.mem_tables member]
    exact zeroed.small
  · rintro table index ⟨path, _, found⟩ present
    rw [(resolve_leaf zeroed.tableChild_eq found).2, Mm.directoryEntry, tableWord_zero index zeroed.zero] at present
    cases present
  · rw [Set.disjoint_left]
    intro table member
    rw [zeroed.mem_tables member]
    exact zeroed.usable
  · rw [Set.disjoint_left]
    intro table member
    rw [zeroed.mem_tables member]
    exact zeroed.bitmap
  · rw [Set.disjoint_left]
    intro table member
    rw [zeroed.mem_tables member]
    exact zeroed.live

/-- A zeroed root translates nothing. -/
theorem translate_eq (zeroed : RootZeroed mm live) (virt : Pointer) : mm.translate virt = none := by
  have empty : resolve (tableChild mm.memory) mm.root (walkPath virt) = none := by
    rw [walkPath, resolve, zeroed.tableChild_eq, Option.bind_none]
  rw [Mm.translate, Mm.walk, UmbralOS.walk, empty]
  rfl

end RootZeroed

/-- The allocator of `pmm_init` is sound before any page is handed out. -/
theorem PmmStarted.poolSound {memmap : List LimineMemmapEntry} {phhdm : Pointer} {boot start : Mm}
    (started : PmmStarted memmap phhdm boot start)
    (ends : ∀ entry ∈ memmap, entry.Usable → entry.base.toNat + entry.length.toNat ≤ 2 ^ 52) : PoolSound start ∅ := by
  refine ⟨started.placed, fun page available => ?_, ?_, fun page used => absurd used (Set.notMem_empty page),
    Set.empty_disjoint _, Set.empty_disjoint _⟩
  · rw [started.usablePages] at available
    obtain ⟨⟨entry, member, usable, address, ⟨_, upper⟩, rfl⟩, _⟩ := available
    have last := ends entry member usable
    omega
  · rw [started.usablePages]
    exact Set.disjoint_sdiff_left

/-- The start of the mapper takes one usable page for the zeroed root. -/
theorem returns_vmmInitRoot {mm mm' : Mm} {live : Set Nat} (pool : PoolSound mm live)
    (returned : Returns vmmInitRoot mm () mm') :
    RootZeroed mm' live ∧ mm'.pHHDM = mm.pHHDM ∧ mm'.pmmData = mm.pmmData ∧
      mm'.usablePages ⊆ mm.usablePages ∧ mm'.root ∈ mm.usablePages := by
  simp only [vmmInitRoot, wrmsr, returns_bind, returns_get, returns_panicIf, returns_modify, returns_phyToVirt,
    returns_memzero] at returned
  obtain ⟨_, _, ⟨rfl, rfl⟩, _, _, ⟨_, rfl⟩, _, registered, registeredEq, page, marked, allocated, _, _,
    ⟨rfl, rfl⟩, _, _, rfl, filledEq⟩ := returned
  have placed : registered.Placed := by
    rw [← registeredEq]
    exact ⟨pool.placed.fits, pool.placed.count⟩
  obtain ⟨aligned, _, available, taken⟩ := returns_pmmAllocPages placed allocated
  have usableBefore : registered.usablePages = mm.usablePages := by rw [← registeredEq]; rfl
  have bitmapBefore : registered.bitmapPages = mm.bitmapPages := by rw [← registeredEq]; rfl
  have bitmap : marked.bitmapPages = mm.bitmapPages := by rw [taken.only.bitmapPages_eq, bitmapBefore]
  have free : page.toNat / 4096 ∈ mm.usablePages := usableBefore ▸ available ⟨le_rfl, by simp⟩
  have outside : page.toNat / 4096 ∉ mm.bitmapPages := Set.disjoint_left.mp pool.usableBitmap free
  have start : marked.pHHDM + page - marked.pHHDM = page := by bv_omega
  have whole : pageSize.toNat = 4096 := rfl
  simp only [Mm.physical, start, whole] at filledEq
  have usable : mm'.usablePages = mm.usablePages \ {page.toNat / 4096} := by
    have same : mm'.usablePages = marked.usablePages := by
      rw [← filledEq]
      refine @usablePages_congr marked { marked with memory := marked.memory.fill page.toNat 4096 0 } rfl
        fun address kept => Memory.fill_outside _ _ ?_
      have different : address / 4096 ≠ page.toNat / 4096 := fun equal => outside (by rwa [bitmap, equal] at kept)
      omega
    rw [same, taken.usablePages_take, usableBefore]
  have fewer : mm'.usablePages ⊆ mm.usablePages := usable ▸ Set.sdiff_subset
  have bitmapAfter : mm'.bitmapPages = mm.bitmapPages := by rw [← filledEq, ← bitmap]; rfl
  have rooted : mm'.physical mm'.pml4 = page.toNat := by
    rw [← filledEq]
    exact congrArg BitVec.toNat start
  have root : mm'.root = page.toNat / 4096 := by rw [Mm.root, rooted]
  have kept : marked.pmmData = mm.pmmData ∧ marked.pHHDM = mm.pHHDM ∧ marked.msr msrIa32Pat = patValue := by
    rw [taken.only.data, ← registeredEq]
    exact ⟨rfl, rfl, by simp⟩
  have position : mm'.pHHDM = mm.pHHDM := by rw [← filledEq]; exact kept.2.1
  have counts : mm'.pmmData = mm.pmmData := by rw [← filledEq]; exact kept.1
  have placedAfter : mm'.Placed := by
    constructor
    · rw [Mm.bitmapBase, Mm.physical, Mm.bitmapBytes, position, counts]
      exact pool.placed.fits
    · rw [counts]
      exact pool.placed.count
  refine ⟨⟨pool.shrink placedAfter fewer bitmapAfter, ?_, ?_, ?_, ?_, ?_, ?_, ?_⟩, position, counts, fewer, root ▸ free⟩
  · rw [rooted]
    exact aligned
  · rw [root]
    exact pool.usableSmall _ free
  · intro address inside
    rw [root] at inside
    rw [← filledEq]
    exact Memory.fill_inside _ _ (by omega) (by omega)
  · rw [root, usable]
    exact fun member => member.2 rfl
  · rw [root, bitmapAfter]
    exact outside
  · rw [root]
    exact fun used => Set.disjoint_left.mp pool.liveUsable used free
  · rw [← filledEq]
    exact kept.2.2

/-- A run takes mapping calls that return, and client steps between them. -/
inductive MapRun (start : Mm) (owned : Set Nat) : List MapCall → Mm → Set Nat → Prop where
  | start : MapRun start owned [] start owned
  | map {calls : List MapCall} {call : MapCall} {mm mm' : Mm} {live : Set Nat}
      (run : MapRun start owned calls mm live) (fits : call.Fits) (returned : Returns call.run mm () mm') :
      MapRun start owned (calls ++ [call]) mm' live
  | client {calls : List MapCall} {mm mm' : Mm} {live live' handed : Set Nat}
      (run : MapRun start owned calls mm live) (step : ClientStep mm live handed mm' live') :
      MapRun start owned calls mm' live'

section MapRun

variable {start mm mm' : Mm} {owned live : Set Nat} {calls : List MapCall} {call : MapCall}

/-- The tables translate exactly as the calls ask, and the last call wins. -/
structure MapInvariant (calls : List MapCall) (mm : Mm) (live : Set Nat) : Prop where
  tabled : Tabled mm live
  attributes : mm.msr msrIa32Pat = patValue
  translate : ∀ virt, Canonical virt → mm.translate virt = lastApplicable (calls.map MapCall.rule) virt

/-- One more call overrides the earlier calls in its range. -/
theorem MapInvariant.map (invariant : MapInvariant calls mm live) (fits : call.Fits)
    (returned : Returns call.run mm () mm') : MapInvariant (calls ++ [call]) mm' live := by
  obtain ⟨accepted, remapped⟩ := returns_vmmMap invariant.tabled invariant.attributes fits.physical returned
  refine ⟨remapped.grown.tabled, by rw [remapped.msr_eq, invariant.attributes], fun virt canonical => ?_⟩
  rw [remapped.translate, invariant.translate virt canonical, List.map_append, List.map_singleton, lastApplicable_snoc,
    ← MapCall.lastApplicable_rules fits accepted canonical]
  rfl

/-- Every state of a run satisfies the invariant. -/
theorem MapRun.invariant (zeroed : RootZeroed start owned) (run : MapRun start owned calls mm live) :
    MapInvariant calls mm live := by
  induction run with
  | start => exact ⟨zeroed.tabled, zeroed.attributes, fun virt _ => zeroed.translate_eq virt⟩
  | map _ fits returned ih => exact ih.map fits returned
  | client _ step ih =>
      obtain ⟨tabled, _, translate, _, effect⟩ := ih.tabled.client step
      refine ⟨tabled, by rw [effect.data]; exact ih.attributes, fun virt canonical => ?_⟩
      rw [translate, ih.translate virt canonical]

/-- After every run from a zeroed root, the walk of a canonical address gives what the most recent covering call
asked for, and it finds nothing when no call covers the address. A call changes no address outside its range. -/
theorem vmm_map_refines_last_call (zeroed : RootZeroed start owned) (run : MapRun start owned calls mm live) :
    (∀ virt, Canonical virt → mm.translate virt = lastApplicable (calls.map MapCall.rule) virt ∧
      ((mm.translate virt).isSome ↔ ∃ call ∈ calls, call.Covers virt) ∧
      (mm.translate virt ≠ none → mm.Granted virt)) ∧
    ∀ (call : MapCall) (mm' : Mm), call.Fits → Returns call.run mm () mm' →
      ∀ virt, Canonical virt → ¬ call.Covers virt → mm'.translate virt = mm.translate virt := by
  have invariant := run.invariant zeroed
  constructor
  · intro virt canonical
    refine ⟨invariant.translate virt canonical, ?_, invariant.tabled.granted⟩
    have covered (call : MapCall) : call.rule virt = none ↔ ¬ call.Covers virt := by
      by_cases inside : call.Covers virt
      · simp [MapCall.rule_inside inside, inside]
      · simp [MapCall.rule_outside inside, inside]
    have uncovered : mm.translate virt = none ↔ ∀ call ∈ calls, ¬ call.Covers virt := by
      rw [invariant.translate virt canonical, lastApplicable_eq_none_iff]
      simp only [List.forall_mem_map, covered]
    rw [← not_iff_not, Option.not_isSome_iff_eq_none, uncovered]
    simp only [not_exists, not_and]
  · intro call mm' fits returned virt canonical outside
    have extended := invariant.map fits returned
    rw [extended.translate virt canonical, invariant.translate virt canonical, List.map_append, List.map_singleton,
      lastApplicable_snoc, MapCall.rule_outside outside, Option.none_or]

end MapRun

def sampleRoot : Mm := lastState vmmInitRoot sampleStart

theorem sampleRoot_zeroed : RootZeroed sampleRoot ∅ := by
  have started := returns_pmmInit (by decide) sampleStart_returns
  exact (returns_vmmInitRoot (started.poolSound (by decide)) (returns_lastState (by decide +kernel))).1

def sampleFirstCall : MapCall := ⟨0xC000#64, 0xFFFF900000000000#64, 0x2000#64, mW ||| mCacheWc⟩

/-- The second sample call maps the second page of the first call again. -/
def sampleSecondCall : MapCall := ⟨0xE000#64, 0xFFFF900000001000#64, 0x1000#64, mX⟩

theorem MapCall.fits_of_high {call : MapCall} (lower : 2 ^ 64 - 2 ^ 47 ≤ call.virt.toNat)
    (physical : call.what.toNat + call.size.toNat ≤ 2 ^ 52) : call.Fits :=
  ⟨fun _ inside => Or.inr (lower.trans inside.1), physical⟩

def sampleFirst : Mm := lastState sampleFirstCall.run sampleRoot

def sampleSecond : Mm := lastState sampleSecondCall.run sampleFirst

/-- The second call decides the second page, and the first call still decides the first page. -/
theorem vmm_map_refines_last_call_sample :
    sampleSecond.translate 0xFFFF900000001000#64 = some ⟨0xE, false, false, false, 6#8⟩ ∧
      sampleSecond.translate 0xFFFF900000000000#64 = some ⟨0xC, true, false, true, 1#8⟩ ∧
      sampleSecond.translate 0xFFFF900000002000#64 = none := by
  have first : Returns sampleFirstCall.run sampleRoot () sampleFirst := returns_lastState (by decide +kernel)
  have second : Returns sampleSecondCall.run sampleFirst () sampleSecond := returns_lastState (by decide +kernel)
  have firstFits : sampleFirstCall.Fits := MapCall.fits_of_high (by decide) (by decide)
  have secondFits : sampleSecondCall.Fits := MapCall.fits_of_high (by decide) (by decide)
  have run := ((@MapRun.start sampleRoot ∅).map firstFits first).map secondFits second
  have refined := (vmm_map_refines_last_call sampleRoot_zeroed run).1
  refine ⟨?_, ?_, ?_⟩
  · rw [(refined _ (by decide)).1]
    decide
  · rw [(refined _ (by decide)).1]
    decide
  · rw [(refined _ (by decide)).1]
    decide

end UmbralOS
