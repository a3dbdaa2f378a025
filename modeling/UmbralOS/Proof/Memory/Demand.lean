import UmbralOS.Proof.Memory.Refinement
import UmbralOS.Proof.Memory.Stopping
import UmbralOS.Library.Demand

/-!
This file proves when the mapper has enough pages for its tables.
-/

namespace UmbralOS

open Library PathTree

/-- A path of at most three indices leads from the root to a table. -/
abbrev TablePath := { path : List (Fin 512) // path.length ≤ 3 }

/-- No table stands at the end of the path. -/
def Mm.absent (mm : Mm) (path : TablePath) : Bool := (resolve (tableChild mm.memory) mm.root path.val).isNone

/-- The number of usable pages. -/
def Mm.usableCount (mm : Mm) : Nat :=
  ((Finset.range mm.pmmData.numPages.toNat).filter fun page => mm.usable page = true).card

/-- The pages that are free or hold a table. -/
def Mm.poolPages (mm : Mm) : Set Nat := mm.usablePages ∪ mm.tables

/-- The paths of the three tables that translate an address. -/
def pagePaths (virt : Pointer) : Finset TablePath :=
  {⟨[walkIndex 3 virt], by simp⟩} ∪ {⟨[walkIndex 3 virt, walkIndex 2 virt], by simp⟩} ∪
    {⟨[walkIndex 3 virt, walkIndex 2 virt, walkIndex 1 virt], by simp⟩}

/-- The paths of all tables that translate the pages of a call. -/
def MapCall.paths (call : MapCall) : Finset TablePath :=
  (Finset.range (call.size.toNat / 4096)).biUnion fun page => pagePaths (call.virt + BitVec.ofNat 64 page * pageSize)

/-- The mapper knows the caching mode of the flags. -/
def CacheKnown (flags : BitVec 32) : Prop :=
  flags &&& mCacheMask = mCacheWb ∨ flags &&& mCacheMask = mCacheUc ∨ flags &&& mCacheMask = mCacheWc

instance (flags : BitVec 32) : Decidable (CacheKnown flags) := inferInstanceAs (Decidable (_ ∨ _))

theorem cachePat_returns_iff {mm : Mm} {flags : BitVec 32} :
    (∃ pat, Returns (cachePat flags) mm pat mm) ↔ CacheKnown flags := by
  unfold cachePat CacheKnown
  split_ifs with writeBack uncached combined
  · simp [writeBack]
  · simp [uncached]
  · simp [combined]
  · simp [writeBack, uncached, combined]

section Count

variable {mm mm' : Mm}

theorem Mm.absent_iff {path : TablePath} :
    mm.absent path = true ↔ ∀ table, resolve (tableChild mm.memory) mm.root path.val ≠ some table := by
  rw [Mm.absent, Option.isNone_iff_eq_none, Option.eq_none_iff_forall_ne_some]

/-- The same usable pages have the same number. -/
theorem usableCount_congr (count : mm'.pmmData.numPages = mm.pmmData.numPages)
    (same : mm'.usablePages = mm.usablePages) : mm'.usableCount = mm.usableCount := by
  rw [Mm.usableCount, Mm.usableCount, count]
  congr 1
  apply Finset.filter_congr
  intro page _
  exact Set.ext_iff.mp same page

/-- One page less is one page less to hand out. -/
theorem usableCount_take (count : mm'.pmmData.numPages = mm.pmmData.numPages) {fresh : Nat}
    (available : mm.usable fresh = true) (taken : mm'.usablePages = mm.usablePages \ {fresh}) :
    mm'.usableCount + 1 = mm.usableCount := by
  have member : fresh ∈ (Finset.range mm.pmmData.numPages.toNat).filter fun page => mm.usable page = true :=
    Finset.mem_filter.mpr ⟨Finset.mem_range.mpr (Mm.usable_lt available), available⟩
  have erased : ((Finset.range mm'.pmmData.numPages.toNat).filter fun page => mm'.usable page = true) =
      ((Finset.range mm.pmmData.numPages.toNat).filter fun page => mm.usable page = true).erase fresh := by
    ext page
    have here : mm'.usable page = true ↔ mm.usable page = true ∧ page ≠ fresh := Set.ext_iff.mp taken page
    simp only [Finset.mem_filter, Finset.mem_erase, here, count]
    tauto
  rw [Mm.usableCount, erased, Finset.card_erase_add_one member]
  rfl

/-- A memory with a usable page hands out a page. -/
theorem pmmAllocPage_returns (placed : mm.Placed) (some : 0 < mm.usableCount) :
    ∃ page marked, Returns pmmAllocPage mm page marked := by
  obtain ⟨page, member⟩ := Finset.card_pos.mp some
  have usable := (Finset.mem_filter.mp member).2
  have run : mm.UsableRun page (1#64).toNat := by
    intro index below
    have first : index = 0 := by
      have one : (1#64).toNat = 1 := rfl
      omega
    rwa [first, Nat.add_zero]
  obtain ⟨first, least⟩ := Mm.exists_firstRun ⟨page, run⟩
  obtain ⟨marked, returned, _⟩ := pmmAllocPages_returns placed (by decide) least
  exact ⟨_, marked, returned⟩

end Count

section Level

variable {mm mm' : Mm} {live : Set Nat} {path : List (Fin 512)} {table : Nat} {index : BitVec 16} {slot : Fin 512}
  {next : Pointer}

/-- A path that grows by one index is a table path. -/
theorem length_snoc_le (short : path.length ≤ 2) : (path ++ [slot]).length ≤ 3 := by
  rw [List.length_append, List.length_singleton]
  omega

/-- A present entry has its table already. -/
theorem Tabled.absent_of_present (tabled : Tabled mm live) (short : path.length ≤ 2)
    (selected : resolve (tableChild mm.memory) mm.root path = some table) (present : (mm.directoryEntry table slot).p = true) :
    mm.absent ⟨path ++ [slot], length_snoc_le short⟩ = false := by
  have grants := tabled.grants table slot ⟨path, short, selected⟩ present
  obtain ⟨child, _, found⟩ := next_table selected present grants.plain
  rw [Mm.absent, found]
  rfl

/-- An absent entry has no table. -/
theorem absent_of_not_present (short : path.length ≤ 2)
    (selected : resolve (tableChild mm.memory) mm.root path = some table)
    (missing : (mm.directoryEntry table slot).p = false) : mm.absent ⟨path ++ [slot], length_snoc_le short⟩ = true := by
  rw [Mm.directoryEntry] at missing
  rw [Mm.absent, resolve_snoc, selected, Option.bind_some, tableChild, missing]
  rfl

/-- One level fills one path, and its new table comes from the usable pages. -/
theorem vmmEnsurePresent_fills (tabled : Tabled mm live) (short : path.length ≤ 2)
    (selected : resolve (tableChild mm.memory) mm.root path = some table) (selects : index.toNat = slot)
    (returned : Returns (vmmEnsurePresent (entryAt (mm.tablePointer table) index)) mm next mm') :
    Fills {⟨path ++ [slot], length_snoc_le short⟩} mm.absent mm'.absent mm.usableCount mm'.usableCount ∧
      mm'.poolPages = mm.poolPages := by
  obtain ⟨_, ⟨present, rfl⟩ | ⟨missing, marked, fresh, old, page, linked⟩⟩ :=
    vmmEnsurePresent_linked tabled short selected selects returned
  · exact ⟨Fills.present (tabled.absent_of_present short selected present) _, rfl⟩
  · have freshBitmap := Set.disjoint_left.mp tabled.pool.usableBitmap linked.available
    have tableBitmap := Set.disjoint_left.mp tabled.bitmap (mem_tables (by omega) selected)
    have usable := linked.usablePages_eq freshBitmap tableBitmap
    have link := linked.link tabled short selected missing
    refine ⟨Fills.link (absent_of_not_present short selected missing) (fun other => ?_) ?_, ?_⟩
    · have step := @Link.resolve_iff _ _ _ _ _ _ _ _ _ _ link tabled.distinct other.val
      rw [Mm.absent_iff, Mm.absent_iff, linked.root_eq]
      simp only [step other.property, ne_eq, Subtype.ext_iff]
      constructor
      · intro none
        exact ⟨fun node found => none node (Or.inl found), fun same => none fresh (Or.inr ⟨same, rfl⟩)⟩
      · rintro ⟨none, different⟩ node (found | ⟨same, _⟩)
        · exact none node found
        · exact different same
    · exact usableCount_take (by rw [linked.data]) linked.available usable
    · have tables : mm'.tables = mm.tables ∪ {fresh} := by
        ext node
        exact linked.mem_tables_iff tabled short selected missing node
      have member : fresh ∈ mm.usablePages := linked.available
      rw [Mm.poolPages, Mm.poolPages, usable, tables]
      ext node
      by_cases same : node = fresh
      · subst same
        simp [member]
      · simp [same]

/-- One level returns when its table stands already, or when a page is usable. -/
theorem vmmEnsurePresent_returns (tabled : Tabled mm live) (short : path.length ≤ 2)
    (selected : resolve (tableChild mm.memory) mm.root path = some table) (selects : index.toNat = slot)
    (enough : shortfall mm.absent {⟨path ++ [slot], length_snoc_le short⟩} ≤ mm.usableCount) :
    ∃ next mm', Returns (vmmEnsurePresent (entryAt (mm.tablePointer table) index)) mm next mm' := by
  have member := mem_tables (by omega) selected
  have place := physical_entryAt mm (tabled.small table member) selects
  have entry : PageDirectoryEntrySubdirectory.ofWord (BitVec.ofNat 64 (mm.memory.load
      (mm.physical (entryAt (mm.tablePointer table) index)) 8)) = mm.directoryEntry table slot := by
    rw [place]
    rfl
  have finish (state : Mm) : ∃ next after, Returns (do
      let word ← load64 (entryAt (mm.tablePointer table) index)
      phyToVirt ((PageDirectoryEntrySubdirectory.ofWord word).addr.setWidth 64 <<< 12)) state next after :=
    Returns.exists_bind (returns_load64.mpr ⟨rfl, rfl⟩) ⟨_, state, returns_phyToVirt.mpr ⟨rfl, rfl⟩⟩
  refine Returns.exists_bind (returns_load64.mpr ⟨rfl, rfl⟩) ?_
  rw [entry]
  cases present : (mm.directoryEntry table slot).p with
  | true => exact finish mm
  | false =>
      rw [shortfall_singleton, absent_of_not_present short selected present] at enough
      obtain ⟨page, marked, allocated⟩ := pmmAllocPage_returns tabled.pool.placed (Nat.lt_of_lt_of_le Nat.one_pos enough)
      refine Returns.exists_bind allocated ?_
      refine Returns.exists_bind (returns_phyToVirt.mpr ⟨rfl, rfl⟩) ?_
      refine Returns.exists_bind ((@returns_memzero _ _ _ () _).mpr rfl) ?_
      refine Returns.exists_bind (returns_load64.mpr ⟨rfl, rfl⟩) ?_
      exact Returns.exists_bind ((@returns_store64 _ _ _ () _).mpr rfl) (finish _)

end Level

section Leaf

variable {mm : Mm} {live : Set Nat} {path : List (Fin 512)} {table : Nat} {slot : Fin 512}

/-- A store to a leaf takes no page and fills no path. -/
theorem Tabled.fills_withWord (tabled : Tabled mm live) (length : path.length = 3)
    (selected : resolve (tableChild mm.memory) mm.root path = some table) (word : BitVec 64) :
    Fills ∅ mm.absent (mm.withWord table slot word).absent mm.usableCount (mm.withWord table slot word).usableCount ∧
      (mm.withWord table slot word).poolPages = mm.poolPages := by
  have inside := slot.isLt
  have member := mem_tables (by omega) selected
  have usable : (mm.withWord table slot word).usablePages = mm.usablePages := by
    refine @usablePages_congr mm (mm.withWord table slot word) rfl fun address kept => ?_
    have outside : address / 4096 ≠ table := fun equal => Set.disjoint_left.mp tabled.bitmap member (equal ▸ kept)
    exact Memory.store_outside _ (by omega)
  have tables : (mm.withWord table slot word).tables = mm.tables := by
    ext node
    exact tabled.selected_withWord length selected word le_rfl
  have absent : (mm.withWord table slot word).absent = mm.absent := by
    funext target
    exact congrArg Option.isNone (tabled.resolve_withWord length selected word target.property)
  have count := @usableCount_congr mm (mm.withWord table slot word) rfl usable
  refine ⟨?_, by rw [Mm.poolPages, Mm.poolPages, usable, tables]⟩
  rw [absent, count]
  exact Fills.refl _ _

end Leaf

/-- The mapper accepts a page, and it knows the caching mode of the flags. -/
structure PageMappable (what : Phy) (virt : Pointer) (flags : BitVec 32) : Prop extends PageAccepted what virt flags where
  cache : CacheKnown flags

/-- The mapper passes through the three upper levels to the last table of an address. -/
structure Levels (virt : Pointer) (mm first second third : Mm) (pdpt pd pt : Pointer) : Prop where
  fromPml4 : Returns (vmmEnsurePresent (entryAt mm.pml4 (tableIndex virt 39))) mm pdpt first
  fromPdpt : Returns (vmmEnsurePresent (entryAt pdpt (tableIndex virt 30))) first pd second
  fromPd : Returns (vmmEnsurePresent (entryAt pd (tableIndex virt 21))) second pt third

section Page

variable {mm mm' first second third : Mm} {live : Set Nat} {what : Phy} {virt pdpt pd pt : Pointer} {flags : BitVec 32}

/-- A mapped page passes through the levels, and then it stores one word in the last table. -/
theorem returns_vmmMapPage_levels (returned : Returns (vmmMapPage what virt flags) mm () mm') :
    PageMappable what virt flags ∧ ∃ first second third pdpt pd pt, ∃ word : BitVec 64,
      Levels virt mm first second third pdpt pd pt ∧
      { third with memory :=
          third.memory.store (third.physical (entryAt pt (tableIndex virt 12))) 8 word.toNat } = mm' := by
  simp only [vmmMapPage, returns_bind, returns_panicIf, returns_get, returns_load64, returns_store64] at returned
  obtain ⟨_, _, ⟨whatAligned, rfl⟩, _, _, ⟨virtAligned, rfl⟩, _, _, ⟨notNull, rfl⟩, _, _, ⟨exclusive, rfl⟩,
    pat, _, cached, _, _, ⟨rfl, rfl⟩, pdpt, first, toPdpt, pd, second, toPd, pt, third, toPt, _, _, ⟨rfl, rfl⟩, stored⟩ :=
    returned
  simp only [ne_eq, not_not, aligned_iff] at whatAligned virtAligned
  obtain rfl := (returns_cachePat cached).1
  exact ⟨⟨⟨whatAligned, virtAligned, notNull, exclusive⟩, cachePat_returns_iff.mp ⟨pat, cached⟩⟩,
    first, second, third, pdpt, pd, pt, _, ⟨toPdpt, toPd, toPt⟩, stored⟩

/-- A page that the mapper accepts is mapped when the levels are passed. -/
theorem Levels.returns (levels : Levels virt mm first second third pdpt pd pt) (mappable : PageMappable what virt flags) :
    ∃ mm', Returns (vmmMapPage what virt flags) mm () mm' := by
  obtain ⟨⟨whatAligned, virtAligned, notNull, exclusive⟩, cache⟩ := mappable
  obtain ⟨pat, cached⟩ := (@cachePat_returns_iff mm flags).mpr cache
  have whatPassed : ¬ what % pageSize ≠ 0 := not_not.mpr ((aligned_iff what).mpr whatAligned)
  have virtPassed : ¬ virt % pageSize ≠ 0 := not_not.mpr ((aligned_iff virt).mpr virtAligned)
  have passed : ∃ done mm', Returns (vmmMapPage what virt flags) mm done mm' := by
    unfold vmmMapPage
    rw [panicIf_bind_of_not whatPassed, panicIf_bind_of_not virtPassed, panicIf_bind_of_not notNull,
      panicIf_bind_of_not exclusive]
    refine Returns.exists_bind cached ?_
    refine Returns.exists_bind ((returns_get _ _ _).mpr ⟨rfl, rfl⟩) ?_
    refine Returns.exists_bind levels.fromPml4 ?_
    refine Returns.exists_bind levels.fromPdpt ?_
    refine Returns.exists_bind levels.fromPd ?_
    exact Returns.exists_bind (returns_load64.mpr ⟨rfl, rfl⟩) ⟨(), _, returns_store64.mpr rfl⟩
  obtain ⟨_, mm', returned⟩ := passed
  exact ⟨mm', returned⟩

/-- The levels fill the paths of the address and end at its last table. -/
theorem Levels.fills (tabled : Tabled mm live) (levels : Levels virt mm first second third pdpt pd pt) :
    Grown live mm third ∧ Fills (pagePaths virt) mm.absent third.absent mm.usableCount third.usableCount ∧
      third.poolPages = mm.poolPages ∧
      ∃ table, pt = third.tablePointer table ∧
        resolve (tableChild third.memory) third.root (walkPath virt) = some table := by
  obtain ⟨fromPml4, fromPdpt, fromPd⟩ := levels
  rw [← tabled.tablePointer_root] at fromPml4
  obtain ⟨firstGrown, _, _, _, rfl, firstSelected⟩ :=
    returns_vmmEnsurePresent tabled (by simp) (resolve_nil _ _) (toNat_tableIndex virt 3) fromPml4
  obtain ⟨secondGrown, _, _, _, rfl, secondSelected⟩ :=
    returns_vmmEnsurePresent firstGrown.tabled (by simp) firstSelected (toNat_tableIndex virt 2) fromPdpt
  obtain ⟨thirdGrown, _, _, table, rfl, thirdSelected⟩ :=
    returns_vmmEnsurePresent secondGrown.tabled (by simp) secondSelected (toNat_tableIndex virt 1) fromPd
  obtain ⟨firstFills, firstPool⟩ :=
    vmmEnsurePresent_fills tabled (by simp) (resolve_nil _ _) (toNat_tableIndex virt 3) fromPml4
  obtain ⟨secondFills, secondPool⟩ :=
    vmmEnsurePresent_fills firstGrown.tabled (by simp) firstSelected (toNat_tableIndex virt 2) fromPdpt
  obtain ⟨thirdFills, thirdPool⟩ :=
    vmmEnsurePresent_fills secondGrown.tabled (by simp) secondSelected (toNat_tableIndex virt 1) fromPd
  exact ⟨(firstGrown.trans secondGrown).trans thirdGrown, (firstFills.trans secondFills).trans thirdFills,
    (thirdPool.trans secondPool).trans firstPool, table, rfl, thirdSelected⟩

/-- The levels are passed when the usable pages can pay for the tables that are absent. -/
theorem levels_exist (tabled : Tabled mm live) (enough : shortfall mm.absent (pagePaths virt) ≤ mm.usableCount) :
    ∃ first second third pdpt pd pt, Levels virt mm first second third pdpt pd pt := by
  rw [pagePaths, Finset.union_assoc] at enough
  obtain ⟨_, first, fromPml4⟩ := vmmEnsurePresent_returns tabled (by simp) (resolve_nil _ _) (toNat_tableIndex virt 3)
    ((shortfall_mono _ Finset.subset_union_left).trans enough)
  obtain ⟨firstGrown, _, _, _, rfl, firstSelected⟩ :=
    returns_vmmEnsurePresent tabled (by simp) (resolve_nil _ _) (toNat_tableIndex virt 3) fromPml4
  have firstFills :=
    (vmmEnsurePresent_fills tabled (by simp) (resolve_nil _ _) (toNat_tableIndex virt 3) fromPml4).1
  have enough := firstFills.shortfall_le enough
  obtain ⟨_, second, fromPdpt⟩ := vmmEnsurePresent_returns firstGrown.tabled (by simp) firstSelected
    (toNat_tableIndex virt 2) ((shortfall_mono _ Finset.subset_union_left).trans enough)
  obtain ⟨secondGrown, _, _, _, rfl, secondSelected⟩ :=
    returns_vmmEnsurePresent firstGrown.tabled (by simp) firstSelected (toNat_tableIndex virt 2) fromPdpt
  have secondFills :=
    (vmmEnsurePresent_fills firstGrown.tabled (by simp) firstSelected (toNat_tableIndex virt 2) fromPdpt).1
  obtain ⟨_, third, fromPd⟩ := vmmEnsurePresent_returns secondGrown.tabled (by simp) secondSelected
    (toNat_tableIndex virt 1) (secondFills.shortfall_le enough)
  rw [tabled.tablePointer_root] at fromPml4
  exact ⟨first, second, third, _, _, _, fromPml4, fromPdpt, fromPd⟩

end Page

/-- The mapper works with tables over one pool of pages, one bitmap, and one direct map. -/
structure PoolState (pool bitmap live : Set Nat) (phhdm : Pointer) (mm : Mm) : Prop where
  tabled : Tabled mm live
  pool : mm.poolPages = pool
  bitmap : mm.bitmapPages = bitmap
  place : mm.pHHDM = phhdm

section Call

variable {pool bitmap live : Set Nat} {phhdm : Pointer}

/-- A page that the mapper accepts fills its three paths. -/
theorem supplied_vmmMapPage {what : Phy} {virt : Pointer} {flags : BitVec 32} (mappable : PageMappable what virt flags) :
    Supplied (PoolState pool bitmap live phhdm) Mm.absent Mm.usableCount (pagePaths virt) (vmmMapPage what virt flags) := by
  constructor
  · intro mm mm' start returned
    obtain ⟨_, first, second, third, pdpt, pd, pt, word, levels, stored⟩ := returns_vmmMapPage_levels returned
    obtain ⟨grown, fills, pooled, table, rfl, selected⟩ := levels.fills start.tabled
    have member := mem_tables (by simp [walkPath]) selected
    have place := physical_entryAt third (grown.tabled.small table member) (toNat_tableIndex virt 0)
    simp only [Nat.mul_zero, Nat.add_zero] at place
    rw [place] at stored
    have leaf : third.withWord table (walkIndex 0 virt) word = mm' := stored
    subst leaf
    obtain ⟨kept, same⟩ := grown.tabled.fills_withWord rfl selected word
    have filled := fills.trans kept
    rw [Finset.union_empty] at filled
    refine ⟨⟨(grown.tabled.grown_withWord rfl selected word).tabled, ?_, ?_, ?_⟩, filled⟩
    · rw [same, pooled, start.pool]
    · have bitmap : third.bitmapPages = mm.bitmapPages := by
        rw [grown.data]
        rfl
      exact bitmap.trans start.bitmap
    · exact grown.pHHDM_eq.trans start.place
  · intro mm start enough
    obtain ⟨first, second, third, pdpt, pd, pt, levels⟩ := levels_exist start.tabled enough
    exact levels.returns mappable

namespace MapCall

/-- The mapper accepts every page of the call, and it knows the caching mode when there is a page. -/
structure Mappable (call : MapCall) : Prop extends RangeAccepted call.what call.virt call.size call.flags where
  cache : 0 < call.size.toNat → CacheKnown call.flags

theorem Mappable.page {call : MapCall} (mappable : call.Mappable) {page : Nat} (inside : page < call.size.toNat / 4096) :
    PageMappable (call.what + BitVec.ofNat 64 page * pageSize) (call.virt + BitVec.ofNat 64 page * pageSize) call.flags :=
  ⟨mappable.pages page inside, mappable.cache (by omega)⟩

/-- A call that returns was acceptable. -/
theorem mappable_of_returns {call : MapCall} {mm mm' : Mm} (returned : Returns call.run mm () mm') : call.Mappable := by
  simp only [run, vmmMap, returns_bind, returns_panicIf, ne_eq, not_not, aligned_iff] at returned
  obtain ⟨_, _, ⟨whatAligned, rfl⟩, _, _, ⟨virtAligned, rfl⟩, _, _, ⟨sizeAligned, rfl⟩, loop⟩ := returned
  rw [toNat_div_pageSize] at loop
  have pages : ∀ page < call.size.toNat / 4096, PageMappable (call.what + BitVec.ofNat 64 page * pageSize)
      (call.virt + BitVec.ofNat 64 page * pageSize) call.flags := by
    refine returns_forRange (fun count _ _ => ∀ page < count, PageMappable (call.what + BitVec.ofNat 64 page * pageSize)
      (call.virt + BitVec.ofNat 64 page * pageSize) call.flags) (fun page below => absurd below (Nat.not_lt_zero page))
      (fun index _ _ _ _ _ reached mapped page below => ?_) loop
    rcases Nat.lt_succ_iff_lt_or_eq.mp below with before | rfl
    · exact reached page before
    · exact (returns_vmmMapPage_levels mapped).1
  exact ⟨⟨whatAligned, virtAligned, sizeAligned, fun page inside => (pages page inside).toPageAccepted⟩,
    fun some => (pages 0 (by omega)).cache⟩

/-- A call fills the paths of its pages. -/
theorem Mappable.supplied {call : MapCall} (mappable : call.Mappable) :
    Supplied (PoolState pool bitmap live phhdm) Mm.absent Mm.usableCount call.paths call.run := by
  have whatPassed : ¬ call.what % pageSize ≠ 0 := not_not.mpr ((aligned_iff _).mpr mappable.whatAligned)
  have virtPassed : ¬ call.virt % pageSize ≠ 0 := not_not.mpr ((aligned_iff _).mpr mappable.virtAligned)
  have sizePassed : ¬ call.size % pageSize ≠ 0 := not_not.mpr ((aligned_iff _).mpr mappable.sizeAligned)
  unfold run vmmMap
  rw [panicIf_bind_of_not whatPassed, panicIf_bind_of_not virtPassed, panicIf_bind_of_not sizePassed, toNat_div_pageSize]
  exact Supplied.forRange fun page inside => supplied_vmmMapPage (mappable.page inside)

end MapCall

end Call

/-- A call returns exactly when the mapper accepts every page of it and the usable pages can pay for the tables that are
absent. Then it takes one page for each of these tables and no other page. -/
theorem vmm_map_returns_iff {mm : Mm} {live : Set Nat} (tabled : Tabled mm live) (call : MapCall) :
    ((∃ mm', Returns call.run mm () mm') ↔ call.Mappable ∧ shortfall mm.absent call.paths ≤ mm.usableCount) ∧
    ∀ mm', Returns call.run mm () mm' →
      mm'.usableCount + shortfall mm.absent call.paths = mm.usableCount ∧ mm'.poolPages = mm.poolPages ∧
      ∀ path, mm'.absent path = true ↔ mm.absent path = true ∧ path ∉ call.paths := by
  have start : PoolState mm.poolPages mm.bitmapPages live mm.pHHDM mm := ⟨tabled, rfl, rfl, rfl⟩
  refine ⟨⟨fun given => ?_, fun given => ?_⟩, fun mm' returned => ?_⟩
  · obtain ⟨mm', returned⟩ := given
    have mappable := MapCall.mappable_of_returns returned
    exact ⟨mappable, (mappable.supplied.returns_iff start).mp ⟨mm', returned⟩⟩
  · obtain ⟨mappable, enough⟩ := given
    exact mappable.supplied.returns mm start enough
  · obtain ⟨reached, fills⟩ := (MapCall.mappable_of_returns returned).supplied.fills mm mm' start returned
    exact ⟨fills.paid, reached.pool, fills.filled⟩

/-- On the sample machine, the first call needs three tables. It leaves four of seven usable pages. -/
theorem vmm_map_returns_iff_sample : sampleFirst.usableCount + 3 = 7 := by
  have returned : Returns sampleFirstCall.run sampleRoot () sampleFirst := returns_lastState (by decide +kernel)
  have needed : shortfall sampleRoot.absent sampleFirstCall.paths = 3 := by decide +kernel
  have usable : sampleRoot.usableCount = 7 := by decide +kernel
  have paid := ((vmm_map_returns_iff sampleRoot_zeroed.tabled sampleFirstCall).2 sampleFirst returned).1
  rwa [needed, usable] at paid

end UmbralOS
