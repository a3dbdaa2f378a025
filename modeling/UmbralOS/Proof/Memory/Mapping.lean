import UmbralOS.Proof.Memory.Tables

/-!
This file proves that a mapped page changes one translation and no other.
-/

namespace UmbralOS

open Library PathTree

/-- A translation gives the physical page, the rights of the leaf, and its memory type. -/
@[ext] structure Translation where
  page : Nat
  rw : Bool
  us : Bool
  xd : Bool
  memoryType : BitVec 8
  deriving DecidableEq

/-- The leaf gives a translation under the attribute table. -/
def PageTableEntry.translation (entry : PageTableEntry) (pat : BitVec 64) : Translation :=
  ⟨entry.addr.toNat, entry.rw, entry.us, entry.xd, patLookup pat entry⟩

/-- The translation of an address by the built tables. -/
def Mm.translate (mm : Mm) (virt : Pointer) : Option Translation :=
  (mm.walk virt).map fun entry => entry.translation (mm.msr msrIa32Pat)

/-- Every directory entry on the walk of an address allows writing and execution. -/
def Mm.Granted (mm : Mm) (virt : Pointer) : Prop :=
  ∀ path index rest table, walkPath virt = path ++ index :: rest →
    resolve (tableChild mm.memory) mm.root path = some table →
    (mm.directoryEntry table index).rw = true ∧ (mm.directoryEntry table index).xd = false

/-- The memory type that the caching flags ask for. -/
def requestedType (flags : BitVec 32) : BitVec 8 :=
  if flags &&& mCacheMask = mCacheUc then patUcm.setWidth 8
  else if flags &&& mCacheMask = mCacheWc then patWc.setWidth 8
  else patWb.setWidth 8

/-- The translation that a call asks for. -/
def requested (page : Nat) (flags : BitVec 32) : Translation :=
  ⟨page, flags &&& mW != 0, flags &&& mU != 0, !(flags &&& mX != 0), requestedType flags⟩

/-- The bits of an address that the page walk reads. -/
def virtualPage (virt : Pointer) : Nat := virt.toNat / 4096 % 2 ^ 36

theorem virtualPage_eq_iff (first second : Pointer) :
    virtualPage first = virtualPage second ↔
      walkPath first = walkPath second ∧ walkIndex 0 first = walkIndex 0 second := by
  simp only [virtualPage, walkPath, walkIndex, List.cons.injEq, Fin.mk.injEq, and_true]
  omega

/-- A walk that finds a leaf passes only entries that allow every access. -/
theorem Tabled.granted {mm : Mm} {live : Set Nat} (tabled : Tabled mm live) {virt : Pointer}
    (found : mm.translate virt ≠ none) : mm.Granted virt := by
  intro path index rest table split reached
  have short : path.length ≤ 2 := by
    have total := congrArg List.length split
    simp [walkPath] at total
    omega
  have present : (mm.directoryEntry table index).p = true := by
    by_contra absent
    have stuck : tableChild mm.memory table index = none := by
      rw [Mm.directoryEntry] at absent
      simp [tableChild, absent]
    apply found
    rw [Mm.translate, Mm.walk, UmbralOS.walk, split, resolve_append, reached, Option.bind_some, resolve, stuck]
    rfl
  have grants := tabled.grants table index ⟨path, short, reached⟩ present
  exact ⟨grants.writable, grants.executable⟩

section Leaf

variable {mm : Mm} {live : Set Nat} {path : List (Fin 512)} {table : Nat} {slot : Fin 512}

/-- The memory after a store to one entry of a table. -/
def Mm.withWord (mm : Mm) (table : Nat) (slot : Fin 512) (word : BitVec 64) : Mm :=
  { mm with memory := mm.memory.store (table * 4096 + slot * 8) 8 word.toNat }

theorem tableChild_withWord (word : BitVec 64) {node : Nat} (different : node ≠ table) (index : Fin 512) :
    tableChild (mm.withWord table slot word).memory node index = tableChild mm.memory node index := by
  rw [tableChild, tableChild, Mm.withWord, tableWord_store_other _ _ (Or.inl different)]

/-- A last-level table is not a table of a shorter path. -/
theorem Tabled.notDirectory (tabled : Tabled mm live) (length : path.length = 3)
    (selected : resolve (tableChild mm.memory) mm.root path = some table) {node : Nat}
    (directory : Selected (tableChild mm.memory) mm.root 2 node) : node ≠ table := by
  rintro rfl
  obtain ⟨target, short, found⟩ := directory
  have same := tabled.distinct target path node (by omega) (by omega) found selected
  rw [same] at short
  omega

/-- A store to a leaf keeps every directory. -/
theorem Tabled.resolve_withWord (tabled : Tabled mm live) (length : path.length = 3)
    (selected : resolve (tableChild mm.memory) mm.root path = some table) (word : BitVec 64)
    {target : List (Fin 512)} (within : target.length ≤ 3) :
    resolve (tableChild (mm.withWord table slot word).memory) mm.root target =
      resolve (tableChild mm.memory) mm.root target := by
  refine @resolve_congr _ _ _ _ _ 2 (fun node directory index => ?_) _ within
  exact tableChild_withWord word (tabled.notDirectory length selected directory) index

theorem Tabled.selected_withWord (tabled : Tabled mm live) (length : path.length = 3)
    (selected : resolve (tableChild mm.memory) mm.root path = some table) (word : BitVec 64)
    {depth : Nat} (within : depth ≤ 3) {node : Nat} :
    Selected (tableChild (mm.withWord table slot word).memory) mm.root depth node ↔
      Selected (tableChild mm.memory) mm.root depth node := by
  constructor <;> rintro ⟨target, short, found⟩ <;> refine ⟨target, short, ?_⟩
  · rwa [tabled.resolve_withWord length selected word (by omega)] at found
  · rwa [tabled.resolve_withWord length selected word (by omega)]

/-- A store to a leaf changes no directory. -/
theorem Tabled.sameDirectories_withWord (tabled : Tabled mm live) (length : path.length = 3)
    (selected : resolve (tableChild mm.memory) mm.root path = some table) (word : BitVec 64) :
    SameDirectories mm (mm.withWord table slot word) := by
  refine ⟨fun node => (tabled.selected_withWord length selected word (by omega)).mp, fun node index directory => ?_⟩
  have different := tabled.notDirectory length selected directory
  rw [Mm.directoryEntry, Mm.directoryEntry, Mm.withWord, tableWord_store_other _ _ (Or.inl different)]

/-- A store to a leaf keeps the invariant. -/
theorem Tabled.grown_withWord (tabled : Tabled mm live) (length : path.length = 3)
    (selected : resolve (tableChild mm.memory) mm.root path = some table) (word : BitVec 64) :
    Grown live mm (mm.withWord table slot word) := by
  have inside := slot.isLt
  have member := mem_tables (by omega) selected
  have usable : (mm.withWord table slot word).usablePages = mm.usablePages := by
    refine @usablePages_congr mm (mm.withWord table slot word) rfl fun address kept => ?_
    have outside : address / 4096 ≠ table := fun equal => Set.disjoint_left.mp tabled.bitmap member (equal ▸ kept)
    exact Memory.store_outside _ (by omega)
  have tables : (mm.withWord table slot word).tables = mm.tables := by
    ext node
    exact tabled.selected_withWord length selected word le_rfl
  have paths {target : List (Fin 512)} (within : target.length ≤ 3) :=
    @Tabled.resolve_withWord mm live path table slot tabled length selected word target within
  have placed : (mm.withWord table slot word).Placed := ⟨tabled.pool.placed.fits, tabled.pool.placed.count⟩
  refine ⟨⟨tabled.pool.shrink placed usable.subset rfl, tabled.aligned, ?_, ?_, ?_, ?_, ?_, ?_⟩, rfl, ?_, ?_, ?_⟩
  · intro first second node firstShort secondShort firstFound secondFound
    rw [show (mm.withWord table slot word).root = mm.root from rfl, paths (by omega)] at firstFound secondFound
    exact tabled.distinct first second node firstShort secondShort firstFound secondFound
  · rw [tables]
    exact tabled.small
  · intro node index directory present
    have same := @Tabled.sameDirectories_withWord mm live path table slot tabled length selected word
    have before := same.selected node directory
    rw [same.entries node index before] at present ⊢
    exact tabled.grants node index before present
  · rw [tables, usable]
    exact tabled.usable
  · rw [tables]
    exact tabled.bitmap
  · rw [tables]
    exact tabled.live
  · exact usable.subset
  · rw [tables]
    exact Set.subset_union_left
  · intro target node within found
    rw [← found]
    exact paths within

/-- A store to a leaf changes only its table. -/
theorem Tabled.framed_withWord (tabled : Tabled mm live) (length : path.length = 3)
    (selected : resolve (tableChild mm.memory) mm.root path = some table) (word : BitVec 64) :
    Framed mm (mm.withWord table slot word) := by
  have inside := slot.isLt
  have member := mem_tables (by omega) selected
  refine (tabled.grown_withWord length selected word).framed fun address outside => ?_
  have notTable : address / 4096 ≠ table := fun equal => outside (Or.inl (Or.inr (equal ▸ member)))
  exact Memory.store_outside _ (by omega)

/-- A store to a leaf changes only the walks that end in it. -/
theorem Tabled.walk_withWord (tabled : Tabled mm live) (length : path.length = 3)
    (selected : resolve (tableChild mm.memory) mm.root path = some table) {word : BitVec 64}
    (present : (PageTableEntry.ofWord word).p = true) (virt : Pointer) :
    (mm.withWord table slot word).walk virt =
      if walkPath virt = path ∧ walkIndex 0 virt = slot then some (.ofWord word) else mm.walk virt := by
  have three : (walkPath virt).length = 3 := rfl
  rw [Mm.walk, Mm.walk, UmbralOS.walk, UmbralOS.walk, show (mm.withWord table slot word).root = mm.root from rfl,
    tabled.resolve_withWord length selected word (by omega)]
  split_ifs with here
  · rw [here.1, selected, Option.bind_some, here.2, Mm.withWord, tableWord_store_same]
    exact if_pos present
  · cases found : resolve (tableChild mm.memory) mm.root (walkPath virt) with
    | none => rw [Option.bind_none, Option.bind_none]
    | some last =>
        have different : last ≠ table ∨ walkIndex 0 virt ≠ slot := by
          by_contra both
          simp only [not_or, ne_eq, not_not] at both
          obtain ⟨rfl, same⟩ := both
          exact here ⟨tabled.distinct _ _ last (by omega) (by omega) found selected, same⟩
        rw [Option.bind_some, Option.bind_some, Mm.withWord, tableWord_store_other _ _ different]

end Leaf

/-- A sequence of single pages replaces translations in order, and it keeps the invariant. -/
structure Remapped (live : Set Nat) (rules : List (Pointer → Option Translation)) (mm mm' : Mm) : Prop where
  grown : Grown live mm mm'
  translate : ∀ virt, mm'.translate virt = (lastApplicable rules virt).or (mm.translate virt)

namespace Remapped

variable {live : Set Nat} {first second third : Mm} {earlier later : List (Pointer → Option Translation)}

theorem refl (tabled : Tabled first live) : Remapped live [] first first :=
  ⟨Grown.refl tabled, fun _ => rfl⟩

theorem trans (head : Remapped live earlier first second) (tail : Remapped live later second third) :
    Remapped live (earlier ++ later) first third := by
  refine ⟨head.grown.trans tail.grown, fun virt => ?_⟩
  rw [tail.translate, head.translate, lastApplicable_append, Option.or_assoc]

theorem msr_eq (remapped : Remapped live earlier first second) : second.msr = first.msr := by
  rw [remapped.grown.data]

end Remapped

/-- One mapped page translates every address of its virtual page. -/
def pageRule (what : Phy) (virt : Pointer) (flags : BitVec 32) : Pointer → Option Translation := fun found =>
  if virtualPage found = virtualPage virt then some (requested (what.toNat / 4096) flags) else none

/-- The three index bits select the memory type that the flags ask for. -/
theorem returns_cachePat {mm mm' : Mm} {flags : BitVec 32} {pat : BitVec 8}
    (returned : Returns (cachePat flags) mm pat mm') :
    mm = mm' ∧ ∀ entry what, patLookup patValue (PageTableEntry.mapTo entry what flags pat) = requestedType flags := by
  unfold cachePat at returned
  unfold requestedType
  by_cases writeBack : flags &&& mCacheMask = mCacheWb
  · rw [if_pos writeBack, returns_pure] at returned
    obtain ⟨rfl, rfl⟩ := returned
    rw [writeBack]
    exact ⟨rfl, fun _ _ => by dsimp only [patLookup, PageTableEntry.mapTo]; decide⟩
  · rw [if_neg writeBack] at returned
    by_cases uncached : flags &&& mCacheMask = mCacheUc
    · rw [if_pos uncached, returns_pure] at returned
      obtain ⟨rfl, rfl⟩ := returned
      rw [if_pos uncached]
      exact ⟨rfl, fun _ _ => by dsimp only [patLookup, PageTableEntry.mapTo]; decide⟩
    · rw [if_neg uncached] at returned
      by_cases combined : flags &&& mCacheMask = mCacheWc
      · rw [if_pos combined, returns_pure] at returned
        obtain ⟨rfl, rfl⟩ := returned
        rw [if_neg uncached, if_pos combined]
        exact ⟨rfl, fun _ _ => by dsimp only [patLookup, PageTableEntry.mapTo]; decide⟩
      · rw [if_neg combined] at returned
        exact absurd returned (returns_throw _ _ _ _)

/-- A new leaf translates to the requested page. -/
theorem translation_mapTo {mm mm' : Mm} {flags : BitVec 32} {pat : BitVec 8} {what : Phy}
    (returned : Returns (cachePat flags) mm pat mm') (small : what.toNat < 2 ^ 52) (entry : PageTableEntry) :
    (entry.mapTo what flags pat).translation patValue = requested (what.toNat / 4096) flags := by
  ext
  · exact toNat_frame (by omega)
  · rfl
  · rfl
  · rfl
  · rw [PageTableEntry.translation, (returns_cachePat returned).2]
    rfl

theorem Grown.translate_eq {live : Set Nat} {mm mm' : Mm} (grown : Grown live mm mm') (walk : mm'.walk = mm.walk)
    (virt : Pointer) : mm'.translate virt = mm.translate virt := by
  rw [Mm.translate, Mm.translate, walk, grown.data]

/-- The mapper refuses misaligned pages, the null page, and pages that are writable and executable. -/
structure PageAccepted (what : Phy) (virt : Pointer) (flags : BitVec 32) : Prop where
  whatAligned : what.toNat % 4096 = 0
  virtAligned : virt.toNat % 4096 = 0
  notNull : virt ≠ 0
  exclusive : ¬ (flags &&& mW ≠ 0 ∧ flags &&& mX ≠ 0)

/-- A mapped page is accepted, and after the three upper levels only its leaf changes. -/
theorem vmmMapPage_leaf {mm mm' : Mm} {live : Set Nat} {what : Phy} {virt : Pointer} {flags : BitVec 32}
    (tabled : Tabled mm live) (returned : Returns (vmmMapPage what virt flags) mm () mm') :
    PageAccepted what virt flags ∧ ∃ upper table old pat, Grown live mm upper ∧ Framed mm upper ∧ upper.walk = mm.walk ∧
      (mm.KernelOnly → upper.KernelOnly) ∧
      resolve (tableChild upper.memory) upper.root (walkPath virt) = some table ∧
      Returns (cachePat flags) mm pat mm ∧
      mm' = upper.withWord table (walkIndex 0 virt) (PageTableEntry.mapTo old what flags pat).toWord := by
  simp only [vmmMapPage, returns_bind, returns_panicIf, returns_get, returns_load64, returns_store64] at returned
  obtain ⟨_, _, ⟨whatAligned, rfl⟩, _, _, ⟨virtAligned, rfl⟩, _, _, ⟨notNull, rfl⟩, _, _, ⟨exclusive, rfl⟩,
    pat, _, cached, _, _, ⟨rfl, rfl⟩, pdpt, first, firstReturned, pd, second, secondReturned, pt, third, thirdReturned,
    _, _, ⟨rfl, rfl⟩, stored⟩ := returned
  simp only [ne_eq, not_not, aligned_iff] at whatAligned virtAligned
  refine ⟨⟨whatAligned, virtAligned, notNull, exclusive⟩, ?_⟩
  obtain rfl := (returns_cachePat cached).1
  -- Each level of the walk keeps the translations and selects the next table.
  rw [← tabled.tablePointer_root] at firstReturned
  obtain ⟨firstGrown, firstFramed, firstWalk, _, rfl, firstSelected⟩ :=
    returns_vmmEnsurePresent tabled (by simp) (resolve_nil _ _) (toNat_tableIndex virt 3) firstReturned
  obtain ⟨secondGrown, secondFramed, secondWalk, _, rfl, secondSelected⟩ :=
    returns_vmmEnsurePresent firstGrown.tabled (by simp) firstSelected (toNat_tableIndex virt 2) secondReturned
  obtain ⟨thirdGrown, thirdFramed, thirdWalk, table, rfl, thirdSelected⟩ :=
    returns_vmmEnsurePresent secondGrown.tabled (by simp) secondSelected (toNat_tableIndex virt 1) thirdReturned
  have kernel : mm.KernelOnly → third.KernelOnly := fun start =>
    have one := kernelOnly_vmmEnsurePresent tabled (by simp) (resolve_nil _ _) (toNat_tableIndex virt 3) firstReturned
      start
    have two := kernelOnly_vmmEnsurePresent firstGrown.tabled (by simp) firstSelected (toNat_tableIndex virt 2)
      secondReturned one
    kernelOnly_vmmEnsurePresent secondGrown.tabled (by simp) secondSelected (toNat_tableIndex virt 1) thirdReturned two
  have selected : resolve (tableChild third.memory) third.root (walkPath virt) = some table := thirdSelected
  have member := mem_tables (by simp [walkPath]) selected
  have place := physical_entryAt third (thirdGrown.tabled.small table member) (toNat_tableIndex virt 0)
  simp only [Nat.mul_zero, Nat.add_zero] at place
  rw [place] at stored
  refine ⟨third, table, _, pat, (firstGrown.trans secondGrown).trans thirdGrown,
    (firstFramed.trans secondFramed).trans thirdFramed, ?_, kernel, selected, cached, stored.symm⟩
  rw [thirdWalk, secondWalk, firstWalk]

/-- A new leaf is present. -/
theorem mapTo_p (entry : PageTableEntry) (what : Phy) (flags : BitVec 32) (pat : BitVec 8) :
    (PageTableEntry.ofWord (entry.mapTo what flags pat).toWord).p = true := by
  rw [PageTableEntry.ofWord_toWord]
  rfl

/-- A mapped page gets the requested translation, and no other page changes. -/
theorem returns_vmmMapPage {mm mm' : Mm} {live : Set Nat} {what : Phy} {virt : Pointer} {flags : BitVec 32}
    (tabled : Tabled mm live) (attributes : mm.msr msrIa32Pat = patValue) (small : what.toNat < 2 ^ 52)
    (returned : Returns (vmmMapPage what virt flags) mm () mm') :
    PageAccepted what virt flags ∧ Remapped live [pageRule what virt flags] mm mm' := by
  obtain ⟨accepted, upper, table, old, pat, grown, _, walks, _, selected, cached, rfl⟩ := vmmMapPage_leaf tabled returned
  refine ⟨accepted, grown.trans (grown.tabled.grown_withWord rfl selected _), fun found => ?_⟩
  have attributes' : upper.msr msrIa32Pat = patValue := by rw [grown.data, attributes]
  rw [Mm.translate, grown.tabled.walk_withWord rfl selected (mapTo_p old what flags pat)]
  simp only [← virtualPage_eq_iff]
  rw [lastApplicable_singleton, pageRule]
  split_ifs with here
  · rw [Option.map_some, Option.some_or, PageTableEntry.ofWord_toWord]
    exact congrArg some (attributes' ▸ translation_mapTo cached small old)
  · rw [Option.none_or]
    exact grown.translate_eq walks found

/-- The pages of a call in their order. -/
def mapRules (what : Phy) (virt : Pointer) (count : Nat) (flags : BitVec 32) : List (Pointer → Option Translation) :=
  (List.range count).map fun page =>
    pageRule (what + BitVec.ofNat 64 page * pageSize) (virt + BitVec.ofNat 64 page * pageSize) flags

theorem mapRules_succ (what : Phy) (virt : Pointer) (count : Nat) (flags : BitVec 32) :
    mapRules what virt (count + 1) flags = mapRules what virt count flags ++
      [pageRule (what + BitVec.ofNat 64 count * pageSize) (virt + BitVec.ofNat 64 count * pageSize) flags] := by
  rw [mapRules, List.range_succ, List.map_append]
  rfl

/-- The mapper refuses misaligned ranges, and each page of the range must be accepted. -/
structure RangeAccepted (what : Phy) (virt : Pointer) (size : BitVec 64) (flags : BitVec 32) : Prop where
  whatAligned : what.toNat % 4096 = 0
  virtAligned : virt.toNat % 4096 = 0
  sizeAligned : size.toNat % 4096 = 0
  pages : ∀ page < size.toNat / 4096, PageAccepted (what + BitVec.ofNat 64 page * pageSize)
    (virt + BitVec.ofNat 64 page * pageSize) flags

/-- An accepted range does not wrap, because the mapper refuses the null page. -/
theorem RangeAccepted.ends {what : Phy} {virt : Pointer} {size : BitVec 64} {flags : BitVec 32}
    (accepted : RangeAccepted what virt size flags) : virt.toNat + size.toNat ≤ 2 ^ 64 := by
  obtain ⟨_, virtAligned, sizeAligned, pages⟩ := accepted
  by_contra wraps
  have inside := virt.isLt
  have page := pages ((2 ^ 64 - virt.toNat) / 4096) (by omega)
  apply page.notNull
  rw [← BitVec.toNat_inj, toNat_pageOffset]
  change _ = 0
  omega

/-- The first pages of a call get the requested translations in their order. -/
theorem returns_mapPages {mm mm' : Mm} {live : Set Nat} {what : Phy} {virt : Pointer} {count : Nat}
    {flags : BitVec 32} (tabled : Tabled mm live) (attributes : mm.msr msrIa32Pat = patValue)
    (small : what.toNat + count * 4096 ≤ 2 ^ 52)
    (returned : Returns (forRange (fun page _ => vmmMapPage (what + BitVec.ofNat 64 page * pageSize)
      (virt + BitVec.ofNat 64 page * pageSize) flags) count ()) mm () mm') :
    (∀ page < count, PageAccepted (what + BitVec.ofNat 64 page * pageSize) (virt + BitVec.ofNat 64 page * pageSize)
      flags) ∧ Remapped live (mapRules what virt count flags) mm mm' := by
  refine returns_forRange (fun count _ state =>
    (∀ page < count, PageAccepted (what + BitVec.ofNat 64 page * pageSize)
      (virt + BitVec.ofNat 64 page * pageSize) flags) ∧ Remapped live (mapRules what virt count flags) mm state)
    ⟨fun page below => absurd below (Nat.not_lt_zero page), Remapped.refl tabled⟩ ?_ returned
  intro index _ _ state state' inside reached mapped
  obtain ⟨accepted, remapped⟩ := reached
  have below : (what + BitVec.ofNat 64 index * pageSize).toNat < 2 ^ 52 := by
    rw [toNat_pageOffset]
    omega
  have page := returns_vmmMapPage remapped.grown.tabled (by rw [remapped.msr_eq, attributes]) below mapped
  refine ⟨fun earlier earlierInside => ?_, ?_⟩
  · rcases Nat.lt_succ_iff_lt_or_eq.mp earlierInside with before | rfl
    · exact accepted earlier before
    · exact page.1
  · rw [mapRules_succ]
    exact remapped.trans page.2

/-- A mapped range replaces the translations of its pages in order. -/
theorem returns_vmmMap {mm mm' : Mm} {live : Set Nat} {what : Phy} {virt : Pointer} {size : BitVec 64}
    {flags : BitVec 32} (tabled : Tabled mm live) (attributes : mm.msr msrIa32Pat = patValue)
    (small : what.toNat + size.toNat ≤ 2 ^ 52) (returned : Returns (vmmMap what virt size flags) mm () mm') :
    RangeAccepted what virt size flags ∧ Remapped live (mapRules what virt (size.toNat / 4096) flags) mm mm' := by
  simp only [vmmMap, returns_bind, returns_panicIf, ne_eq, not_not, aligned_iff] at returned
  obtain ⟨_, _, ⟨whatAligned, rfl⟩, _, _, ⟨virtAligned, rfl⟩, _, _, ⟨sizeAligned, rfl⟩, loop⟩ := returned
  rw [toNat_div_pageSize] at loop
  obtain ⟨accepted, remapped⟩ := returns_mapPages tabled attributes (by omega) loop
  exact ⟨⟨whatAligned, virtAligned, sizeAligned, accepted⟩, remapped⟩

/-- A mapped range changes only pages of the allocator. -/
theorem vmmMap_framed {mm mm' : Mm} {live : Set Nat} {what : Phy} {virt : Pointer} {size : BitVec 64}
    {flags : BitVec 32} (tabled : Tabled mm live) (returned : Returns (vmmMap what virt size flags) mm () mm') :
    Grown live mm mm' ∧ Framed mm mm' := by
  simp only [vmmMap, returns_bind, returns_panicIf] at returned
  obtain ⟨_, _, ⟨_, rfl⟩, _, _, ⟨_, rfl⟩, _, _, ⟨_, rfl⟩, loop⟩ := returned
  refine returns_forRange (fun _ _ state => Grown live mm state ∧ Framed mm state) ⟨Grown.refl tabled, Framed.refl mm⟩ ?_ loop
  rintro index _ _ state state' _ ⟨grown, framed⟩ mapped
  obtain ⟨_, upper, table, old, pat, more, upperFramed, _, _, selected, _, rfl⟩ := vmmMapPage_leaf grown.tabled mapped
  exact ⟨grown.trans (more.trans (more.tabled.grown_withWord rfl selected _)),
    framed.trans (upperFramed.trans (more.tabled.framed_withWord rfl selected _))⟩

/-- One call of the mapper. -/
structure MapCall where
  what : Phy
  virt : Pointer
  size : BitVec 64
  flags : BitVec 32
  deriving DecidableEq

namespace MapCall

/-- The address lies in the range of the call. -/
def Covers (call : MapCall) (found : Pointer) : Prop :=
  call.virt.toNat ≤ found.toNat ∧ found.toNat < call.virt.toNat + call.size.toNat

instance (call : MapCall) (found : Pointer) : Decidable (call.Covers found) := inferInstanceAs (Decidable (_ ∧ _))

/-- A call translates its range to physical pages in the same order. -/
def rule (call : MapCall) : Pointer → Option Translation := fun found =>
  if call.Covers found then
    some (requested ((call.what.toNat + (found.toNat - call.virt.toNat)) / 4096) call.flags)
  else none

theorem rule_inside {call : MapCall} {found : Pointer} (inside : call.Covers found) :
    call.rule found = some (requested ((call.what.toNat + (found.toNat - call.virt.toNat)) / 4096) call.flags) :=
  if_pos inside

theorem rule_outside {call : MapCall} {found : Pointer} (outside : ¬ call.Covers found) : call.rule found = none :=
  if_neg outside

def rules (call : MapCall) : List (Pointer → Option Translation) :=
  mapRules call.what call.virt (call.size.toNat / 4096) call.flags

def run (call : MapCall) : MmProgram Unit := vmmMap call.what call.virt call.size call.flags

/-- The range of a call is canonical, and its physical pages have addresses below 2^52. -/
structure Fits (call : MapCall) : Prop where
  canonical : ∀ found, call.Covers found → Canonical found
  physical : call.what.toNat + call.size.toNat ≤ 2 ^ 52

/-- The range of a call consists of whole pages, and it does not wrap. -/
structure Whole (call : MapCall) : Prop extends call.Fits where
  whatAligned : call.what.toNat % 4096 = 0
  virtAligned : call.virt.toNat % 4096 = 0
  ends : call.virt.toNat + call.size.toNat ≤ 2 ^ 64

theorem Fits.whole {call : MapCall} (fits : call.Fits)
    (accepted : RangeAccepted call.what call.virt call.size call.flags) : call.Whole :=
  ⟨fits, accepted.whatAligned, accepted.virtAligned, accepted.ends⟩

/-- The rule of one page of a call gives the addresses of that page. -/
theorem Whole.pageRule_eq {call : MapCall} (whole : call.Whole) {page : Nat} (inside : page < call.size.toNat / 4096)
    {found : Pointer} (canonical : Canonical found) :
    pageRule (call.what + BitVec.ofNat 64 page * pageSize) (call.virt + BitVec.ofNat 64 page * pageSize) call.flags found =
      if call.virt.toNat + page * 4096 ≤ found.toNat ∧ found.toNat < call.virt.toNat + (page + 1) * 4096 then
        call.rule found
      else none := by
  obtain ⟨fits, whatAligned, virtAligned, ends⟩ := whole
  have physical := fits.physical
  have virtPage : (call.virt + BitVec.ofNat 64 page * pageSize).toNat = call.virt.toNat + page * 4096 := by
    rw [toNat_pageOffset, Nat.mod_eq_of_lt (by omega)]
  have whatPage : (call.what + BitVec.ofNat 64 page * pageSize).toNat = call.what.toNat + page * 4096 := by
    rw [toNat_pageOffset, Nat.mod_eq_of_lt (by omega)]
  have first : Canonical (call.virt + BitVec.ofNat 64 page * pageSize) := fits.canonical _ ⟨by omega, by omega⟩
  have here : virtualPage found = virtualPage (call.virt + BitVec.ofNat 64 page * pageSize) ↔
      call.virt.toNat + page * 4096 ≤ found.toNat ∧ found.toNat < call.virt.toNat + (page + 1) * 4096 := by
    unfold Canonical at canonical first
    unfold virtualPage
    rw [virtPage] at first ⊢
    omega
  rw [pageRule, whatPage]
  simp only [here]
  split_ifs with within
  · rw [rule_inside ⟨by omega, by omega⟩]
    congr 2
    omega
  · rfl

/-- The first pages of a call give only translations of its range. -/
theorem Whole.rule_of_mapRules {call : MapCall} (whole : call.Whole) {count : Nat} (within : count ≤ call.size.toNat / 4096)
    {found : Pointer} (canonical : Canonical found) {translation : Translation}
    (given : lastApplicable (mapRules call.what call.virt count call.flags) found = some translation) :
    call.rule found = some translation := by
  obtain ⟨_, rule, _, split, applied, _⟩ := lastApplicable_eq_some_iff.mp given
  have member : rule ∈ mapRules call.what call.virt count call.flags := by simp [split]
  obtain ⟨page, below, rfl⟩ := List.mem_map.mp member
  have inside := List.mem_range.mp below
  rw [whole.pageRule_eq (by omega) canonical] at applied
  split_ifs at applied
  exact applied

/-- The page rules of a call agree with its range at every canonical address. -/
theorem lastApplicable_rules {call : MapCall} (fits : call.Fits)
    (accepted : RangeAccepted call.what call.virt call.size call.flags) {found : Pointer} (canonical : Canonical found) :
    lastApplicable call.rules found = call.rule found := by
  have prefixes : ∀ count ≤ call.size.toNat / 4096,
      lastApplicable (mapRules call.what call.virt count call.flags) found =
        if call.virt.toNat ≤ found.toNat ∧ found.toNat < call.virt.toNat + count * 4096 then call.rule found else none := by
    intro count
    induction count with
    | zero =>
        intro _
        rw [if_neg (by omega)]
        rfl
    | succ count ih =>
        intro within
        rw [mapRules_succ, lastApplicable_snoc, ih (by omega), (fits.whole accepted).pageRule_eq within canonical]
        split_ifs with last before both <;> try omega
        · exact Option.or_none
        · rfl
        · rfl
  have sizeAligned := accepted.sizeAligned
  rw [rules, prefixes _ le_rfl, Nat.div_mul_cancel (Nat.dvd_of_mod_eq_zero sizeAligned)]
  split_ifs with covered
  · rfl
  · exact (rule_outside covered).symm

end MapCall

/-- The call that rounds a range out to whole pages. -/
def unalignedCall (what : Phy) (virt : Pointer) (size : BitVec 64) (flags : BitVec 32) : MapCall where
  what := roundDown what pageSize
  virt := roundDown virt pageSize
  size := roundUp (what + size) pageSize - roundDown what pageSize
  flags := flags

theorem vmmMapUnaligned_eq_run (what : Phy) (virt : Pointer) (size : BitVec 64) (flags : BitVec 32) :
    vmmMapUnaligned what virt size flags = (unalignedCall what virt size flags).run := rfl

theorem toNat_roundDown_page (word : BitVec 64) : (roundDown word pageSize).toNat = word.toNat / 4096 * 4096 := by
  rw [toNat_roundDown, show pageSize.toNat = 4096 from rfl]
  omega

/-- The length of the call comes from the physical range. -/
theorem toNat_unalignedCall_size {what : Phy} {size : BitVec 64} (physical : what.toNat + size.toNat ≤ 2 ^ 52)
    (virt : Pointer) (flags : BitVec 32) : (unalignedCall what virt size flags).size.toNat =
      (what.toNat + size.toNat + 4095) / 4096 * 4096 - what.toNat / 4096 * 4096 := by
  have finish : (what + size).toNat = what.toNat + size.toNat := by
    rw [BitVec.toNat_add, Nat.mod_eq_of_lt (by omega)]
  have rounded : (roundUp (what + size) pageSize).toNat = (what.toNat + size.toNat + 4095) / 4096 * 4096 := by
    rw [toNat_roundUp, show pageSize.toNat = 4096 from rfl, finish]
    split_ifs <;> omega
  rw [unalignedCall, BitVec.toNat_sub, rounded, toNat_roundDown_page]
  omega

end UmbralOS
