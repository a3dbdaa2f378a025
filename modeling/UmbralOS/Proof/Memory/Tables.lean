import UmbralOS.Proof.Memory.Accounting
import UmbralOS.Library.Overlay

/-!
This file proves that the page tables form a tree of pages that nothing else uses.
-/

namespace UmbralOS

open Library PathTree

/-- The virtual address of a table page. -/
def Mm.tablePointer (mm : Mm) (table : Nat) : Pointer := mm.pHHDM + BitVec.ofNat 64 (table * 4096)

/-- The page of the root table. -/
def Mm.root (mm : Mm) : Nat := mm.physical mm.pml4 / 4096

/-- The pages that the page walk reaches as tables. -/
def Mm.tables (mm : Mm) : Set Nat := { table | Selected (tableChild mm.memory) mm.root 3 table }

/-- The page walk over the built tables. -/
def Mm.walk (mm : Mm) (virt : Pointer) : Option PageTableEntry := UmbralOS.walk mm.memory mm.root virt

/-- The entry of a directory table. -/
def Mm.directoryEntry (mm : Mm) (table : Nat) (index : Fin 512) : PageDirectoryEntrySubdirectory :=
  .ofWord (tableWord mm.memory table index)

/-- A directory entry selects a table, and it forbids neither writing nor execution below it. -/
structure PageDirectoryEntrySubdirectory.Grants (entry : PageDirectoryEntrySubdirectory) : Prop where
  plain : entry.ps = false
  writable : entry.rw = true
  executable : entry.xd = false

theorem toNat_tableIndex (virt : Pointer) (level : Nat) :
    (tableIndex virt (12 + 9 * level)).toNat = walkIndex level virt := by
  have mask : virt.toNat >>> (12 + 9 * level) &&& 511 = virt.toNat >>> (12 + 9 * level) % 512 :=
    Nat.and_two_pow_sub_one_eq_mod _ 9
  simp only [tableIndex, walkIndex, BitVec.toNat_setWidth, BitVec.toNat_and, BitVec.toNat_ushiftRight]
  rw [show (0x1FF#64).toNat = 511 from rfl, mask, Nat.shiftRight_eq_div_pow]
  omega

/-- The kernel reaches a table entry at its place in the table page. -/
theorem physical_entryAt (mm : Mm) {table : Nat} (low : table < 2 ^ 40) {index : BitVec 16} {slot : Fin 512}
    (selects : index.toNat = slot) :
    mm.physical (entryAt (mm.tablePointer table) index) = table * 4096 + slot * 8 := by
  have inside := slot.isLt
  have offset : (index.setWidth 64 * 8#64).toNat = slot * 8 := by
    rw [BitVec.toNat_mul, BitVec.toNat_setWidth, selects, show (8#64).toNat = 8 from rfl]
    omega
  have cancel : mm.pHHDM + BitVec.ofNat 64 (table * 4096) + index.setWidth 64 * 8#64 - mm.pHHDM =
      BitVec.ofNat 64 (table * 4096) + index.setWidth 64 * 8#64 := by
    generalize index.setWidth 64 * 8#64 = offset
    bv_omega
  rw [Mm.physical, entryAt, Mm.tablePointer, cancel, BitVec.toNat_add, offset, BitVec.toNat_ofNat]
  omega

theorem tableWord_congr {first second : Memory} {table : Nat} (index : Fin 512)
    (same : ∀ address, address / 4096 = table → first address = second address) :
    tableWord first table index = tableWord second table index := by
  have inside := index.isLt
  unfold tableWord
  rw [Memory.load_congr]
  intro address lower upper
  exact same address (by omega)

theorem tableWord_zero {memory : Memory} {table : Nat} (index : Fin 512)
    (zero : ∀ address, address / 4096 = table → memory address = 0) : tableWord memory table index = 0 := by
  have inside := index.isLt
  unfold tableWord
  rw [Memory.load_of_zero fun address lower upper => zero address (by omega)]
  rfl

/-- A stored entry reads back at its slot. -/
theorem tableWord_store_same (memory : Memory) (table : Nat) (index : Fin 512) (word : BitVec 64) :
    tableWord (memory.store (table * 4096 + index * 8) 8 word.toNat) table index = word := by
  have total := word.isLt
  unfold tableWord
  rw [Memory.load_store_same, Nat.mod_eq_of_lt (by omega), BitVec.ofNat_toNat, BitVec.setWidth_eq]

/-- A stored entry changes no other slot. -/
theorem tableWord_store_other (memory : Memory) {table other : Nat} {index slot : Fin 512} (word : BitVec 64)
    (different : other ≠ table ∨ slot ≠ index) :
    tableWord (memory.store (table * 4096 + index * 8) 8 word.toNat) other slot = tableWord memory other slot := by
  have indexInside := index.isLt
  have slotInside := slot.isLt
  unfold tableWord
  rw [Memory.load_store_separate]
  by_cases same : other = table
  · subst same
    have apart : slot.val ≠ index.val := fun equal => by
      rcases different with different | different
      · exact different rfl
      · exact different (Fin.ext equal)
    omega
  · omega

/-- The allocator hands out only pages below 2^52 bytes that hold neither the bitmap nor live data. -/
structure PoolSound (mm : Mm) (live : Set Nat) : Prop where
  placed : mm.Placed
  usableSmall : ∀ page ∈ mm.usablePages, page < 2 ^ 40
  usableBitmap : Disjoint mm.usablePages mm.bitmapPages
  liveSmall : ∀ page ∈ live, page < 2 ^ 40
  liveUsable : Disjoint live mm.usablePages
  liveBitmap : Disjoint live mm.bitmapPages

/-- The pool stays sound when usable pages leave it. -/
theorem PoolSound.shrink {mm mm' : Mm} {live : Set Nat} (pool : PoolSound mm live) (placed : mm'.Placed)
    (fewer : mm'.usablePages ⊆ mm.usablePages) (bitmap : mm'.bitmapPages = mm.bitmapPages) : PoolSound mm' live where
  placed := placed
  usableSmall page available := pool.usableSmall page (fewer available)
  usableBitmap := by
    rw [bitmap]
    exact Set.disjoint_of_subset_left fewer pool.usableBitmap
  liveSmall := pool.liveSmall
  liveUsable := Set.disjoint_of_subset_right fewer pool.liveUsable
  liveBitmap := by
    rw [bitmap]
    exact pool.liveBitmap

/-- The tables form a tree without sharing, on pages that are not usable, not live, and not in the bitmap. -/
structure Tabled (mm : Mm) (live : Set Nat) : Prop where
  pool : PoolSound mm live
  aligned : mm.physical mm.pml4 % 4096 = 0
  distinct : Distinct (tableChild mm.memory) mm.root 3
  small : ∀ table ∈ mm.tables, table < 2 ^ 40
  grants : ∀ table index, Selected (tableChild mm.memory) mm.root 2 table →
    (mm.directoryEntry table index).p = true → (mm.directoryEntry table index).Grants
  usable : Disjoint mm.tables mm.usablePages
  bitmap : Disjoint mm.tables mm.bitmapPages
  live : Disjoint mm.tables live

/-- A step of the mapper keeps the invariant and every table, and takes new tables from the usable pages. -/
structure Grown (live : Set Nat) (mm mm' : Mm) : Prop where
  tabled : Tabled mm' live
  data : mm' = { mm with memory := mm'.memory }
  usable : mm'.usablePages ⊆ mm.usablePages
  tables : mm'.tables ⊆ mm.tables ∪ mm.usablePages
  paths : ∀ path table, path.length ≤ 3 → resolve (tableChild mm.memory) mm.root path = some table →
    resolve (tableChild mm'.memory) mm'.root path = some table

namespace Grown

variable {live : Set Nat} {first second third : Mm}

theorem refl (tabled : Tabled first live) : Grown live first first :=
  ⟨tabled, rfl, subset_rfl, Set.subset_union_left, fun _ _ _ found => found⟩

theorem trans (head : Grown live first second) (tail : Grown live second third) : Grown live first third := by
  refine ⟨tail.tabled, by rw [tail.data, head.data], tail.usable.trans head.usable, ?_,
    fun path table short found => tail.paths path table short (head.paths path table short found)⟩
  exact tail.tables.trans (Set.union_subset head.tables (head.usable.trans Set.subset_union_right))

theorem pHHDM_eq (grown : Grown live first second) : second.pHHDM = first.pHHDM := by
  rw [grown.data]

theorem root_eq (grown : Grown live first second) : second.root = first.root := by
  rw [grown.data]
  rfl

theorem tablePointer_eq (grown : Grown live first second) (table : Nat) :
    second.tablePointer table = first.tablePointer table := by
  rw [Mm.tablePointer, Mm.tablePointer, grown.pHHDM_eq]

end Grown

/-- The usable pages, the tables, and the pages of the bitmap. -/
def Mm.allocatorPages (mm : Mm) : Set Nat := mm.usablePages ∪ mm.tables ∪ mm.bitmapPages

/-- A step of the mapper changes only pages of the allocator, and it adds no page to them. -/
structure Framed (mm mm' : Mm) : Prop where
  pages : mm'.allocatorPages ⊆ mm.allocatorPages
  memory : ∀ address, address / 4096 ∉ mm.allocatorPages → mm'.memory address = mm.memory address

namespace Framed

variable {live : Set Nat} {first second third : Mm}

theorem refl (mm : Mm) : Framed mm mm := ⟨subset_rfl, fun _ _ => rfl⟩

theorem trans (head : Framed first second) (tail : Framed second third) : Framed first third := by
  refine ⟨tail.pages.trans head.pages, fun address outside => ?_⟩
  rw [tail.memory address fun inside => outside (head.pages inside), head.memory address outside]

end Framed

/-- New tables come from the usable pages, so a step of the mapper adds no page to those of the allocator. -/
theorem Grown.framed {live : Set Nat} {mm mm' : Mm} (grown : Grown live mm mm')
    (memory : ∀ address, address / 4096 ∉ mm.allocatorPages → mm'.memory address = mm.memory address) :
    Framed mm mm' := by
  have bitmap : mm'.bitmapPages = mm.bitmapPages := by
    rw [grown.data]
    rfl
  refine ⟨?_, memory⟩
  rw [Mm.allocatorPages, Mm.allocatorPages, bitmap]
  apply Set.union_subset_union_left
  exact Set.union_subset (grown.usable.trans Set.subset_union_left) (grown.tables.trans (Set.union_comm _ _).subset)

theorem Tabled.tablePointer_root {mm : Mm} {live : Set Nat} (tabled : Tabled mm live) :
    mm.tablePointer mm.root = mm.pml4 := by
  have aligned := tabled.aligned
  simp only [Mm.tablePointer, Mm.root, Mm.physical] at aligned ⊢
  rw [Nat.div_mul_cancel (Nat.dvd_of_mod_eq_zero aligned), BitVec.ofNat_toNat, BitVec.setWidth_eq]
  bv_omega

/-- A table inside the tree has its own page. -/
theorem mem_tables {mm : Mm} {path : List (Fin 512)} {table : Nat} (short : path.length ≤ 3)
    (selected : resolve (tableChild mm.memory) mm.root path = some table) : table ∈ mm.tables :=
  ⟨path, short, selected⟩

theorem linkTo_p (entry : PageDirectoryEntrySubdirectory) (page : Phy) : (entry.linkTo page).p = true := rfl

theorem linkTo_grants (entry : PageDirectoryEntrySubdirectory) (page : Phy) : (entry.linkTo page).Grants :=
  ⟨rfl, rfl, rfl⟩

/-- An entry holds the number of an aligned page below 2^52. -/
theorem toNat_frame {page : Phy} (small : page.toNat / 4096 < 2 ^ 40) :
    ((page >>> 12).setWidth 40 : BitVec 40).toNat = page.toNat / 4096 := by
  rw [BitVec.toNat_setWidth, BitVec.toNat_ushiftRight, Nat.shiftRight_eq_div_pow]
  omega

/-- The address field of an entry gives the address of its table. -/
theorem frame_pointer (addr : BitVec 40) : addr.setWidth 64 <<< 12 = BitVec.ofNat 64 (addr.toNat * 4096) := by
  have total := addr.isLt
  rw [← BitVec.toNat_inj, BitVec.toNat_shiftLeft, BitVec.toNat_setWidth, BitVec.toNat_ofNat, Nat.shiftLeft_eq]
  omega

section Link

variable {mm marked mm' : Mm} {live : Set Nat} {path : List (Fin 512)} {table fresh : Nat} {slot : Fin 512}
  {word : BitVec 64}

/-- The memory after one usable page became the table of an absent entry. -/
structure Linked (mm marked mm' : Mm) (table fresh : Nat) (slot : Fin 512) (word : BitVec 64) : Prop where
  available : mm.usable fresh = true
  taken : Marked mm marked fresh 1 false
  present : (PageDirectoryEntrySubdirectory.ofWord word).p = true
  grants : (PageDirectoryEntrySubdirectory.ofWord word).Grants
  frame : (PageDirectoryEntrySubdirectory.ofWord word).addr.toNat = fresh
  result : mm' = { marked with memory :=
    (marked.memory.fill (fresh * 4096) 4096 0).store (table * 4096 + slot * 8) 8 word.toNat }

namespace Linked

theorem data (linked : Linked mm marked mm' table fresh slot word) : mm' = { mm with memory := mm'.memory } := by
  rw [linked.result, linked.taken.only.data]

theorem root_eq (linked : Linked mm marked mm' table fresh slot word) : mm'.root = mm.root := by
  rw [linked.data]
  rfl

/-- Every entry of another table keeps its word. -/
theorem word_keep (linked : Linked mm marked mm' table fresh slot word) {node : Nat} {index : Fin 512}
    (notFresh : node ≠ fresh) (notBitmap : node ∉ mm.bitmapPages) (different : node ≠ table ∨ index ≠ slot) :
    tableWord mm'.memory node index = tableWord mm.memory node index := by
  rw [linked.result, tableWord_store_other _ _ different]
  apply tableWord_congr
  intro address inside
  rw [Memory.fill_outside _ _ (by omega), linked.taken.only.frame_page (by rwa [inside])]

theorem word_linked (linked : Linked mm marked mm' table fresh slot word) :
    tableWord mm'.memory table slot = word := by
  rw [linked.result, tableWord_store_same]

theorem word_fresh (linked : Linked mm marked mm' table fresh slot word) (different : fresh ≠ table)
    (index : Fin 512) : tableWord mm'.memory fresh index = 0 := by
  rw [linked.result, tableWord_store_other _ _ (Or.inl different)]
  apply tableWord_zero
  intro address inside
  exact Memory.fill_inside _ _ (by omega) (by omega)

theorem usablePages_eq (linked : Linked mm marked mm' table fresh slot word)
    (freshBitmap : fresh ∉ mm.bitmapPages) (tableBitmap : table ∉ mm.bitmapPages) :
    mm'.usablePages = mm.usablePages \ {fresh} := by
  have inside := slot.isLt
  have same : mm'.usablePages = marked.usablePages := by
    apply usablePages_congr
    · rw [linked.result]
    · intro address kept
      rw [linked.taken.only.bitmapPages_eq] at kept
      have notFresh : address / 4096 ≠ fresh := fun equal => freshBitmap (equal ▸ kept)
      have notTable : address / 4096 ≠ table := fun equal => tableBitmap (equal ▸ kept)
      rw [linked.result]
      change Memory.store _ _ _ _ address = _
      rw [Memory.store_outside _ (by omega), Memory.fill_outside _ _ (by omega)]
  rw [same, linked.taken.usablePages_take]

variable (tabled : Tabled mm live) (short : path.length ≤ 2)
  (selected : resolve (tableChild mm.memory) mm.root path = some table)
  (absent : (mm.directoryEntry table slot).p = false)

include tabled short selected absent

/-- The new table is a link of the tree. -/
theorem link (linked : Linked mm marked mm' table fresh slot word) :
    Link (tableChild mm.memory) (tableChild mm'.memory) mm.root 3 path table slot fresh := by
  have member := mem_tables (by omega) selected
  have unused : fresh ∉ mm.tables := Set.disjoint_right.mp tabled.usable linked.available
  have different : fresh ≠ table := fun equal => unused (equal ▸ member)
  refine ⟨by omega, selected, ?_, unused, ?_, fun index => ?_, fun node index inside changed => ?_⟩
  · simp only [Mm.directoryEntry] at absent
    simp [tableChild, absent]
  · simp [tableChild, linked.word_linked, linked.present, linked.grants.plain, linked.frame]
  · simp [tableChild, linked.word_fresh different, PageDirectoryEntrySubdirectory.ofWord]
  · have notFresh : node ≠ fresh := fun equal => unused (equal ▸ inside)
    have notBitmap : node ∉ mm.bitmapPages := Set.disjoint_left.mp tabled.bitmap inside
    rw [tableChild, tableChild, linked.word_keep notFresh notBitmap changed]

/-- The new table is the only new page of the tree. -/
theorem mem_tables_iff (linked : Linked mm marked mm' table fresh slot word) (node : Nat) :
    node ∈ mm'.tables ↔ node ∈ mm.tables ∨ node = fresh := by
  have link := linked.link tabled short selected absent
  change Selected _ _ _ _ ↔ _
  rw [linked.root_eq]
  exact link.selected_iff tabled.distinct node

/-- A present directory entry is an old entry, or it is the new link. -/
theorem directory_cases (linked : Linked mm marked mm' table fresh slot word) {node : Nat} {index : Fin 512}
    (directory : Selected (tableChild mm'.memory) mm'.root 2 node) (set : (mm'.directoryEntry node index).p = true) :
    Selected (tableChild mm.memory) mm.root 2 node ∧ mm'.directoryEntry node index = mm.directoryEntry node index ∨
      mm'.directoryEntry node index = .ofWord word := by
  have link := linked.link tabled short selected absent
  have unused : fresh ∉ mm.tables := link.unused
  obtain ⟨target, within, found⟩ := directory
  rw [linked.root_eq] at found
  rcases (link.resolve_iff tabled.distinct (by omega)).mp found with old | ⟨_, rfl⟩
  · by_cases here : node = table ∧ index = slot
    · obtain ⟨rfl, rfl⟩ := here
      right
      rw [Mm.directoryEntry, linked.word_linked]
    · have inside := mem_tables (by omega) old
      have notFresh : node ≠ fresh := fun equal => unused (equal ▸ inside)
      have notBitmap : node ∉ mm.bitmapPages := Set.disjoint_left.mp tabled.bitmap inside
      left
      refine ⟨⟨target, within, old⟩, ?_⟩
      rw [Mm.directoryEntry, Mm.directoryEntry, linked.word_keep notFresh notBitmap (by tauto)]
  · have member := mem_tables (by omega) selected
    rw [Mm.directoryEntry, linked.word_fresh fun equal => unused (equal ▸ member)] at set
    cases set

/-- Every present directory entry still grants all rights. -/
theorem grants_directory (linked : Linked mm marked mm' table fresh slot word) {node : Nat} {index : Fin 512}
    (directory : Selected (tableChild mm'.memory) mm'.root 2 node) (set : (mm'.directoryEntry node index).p = true) :
    (mm'.directoryEntry node index).Grants := by
  rcases linked.directory_cases tabled short selected absent directory set with ⟨old, same⟩ | new
  · rw [same] at set ⊢
    exact tabled.grants node index old set
  · rw [new]
    exact linked.grants

/-- The new table keeps the invariant. -/
theorem grown (linked : Linked mm marked mm' table fresh slot word) : Grown live mm mm' := by
  have link := linked.link tabled short selected absent
  have tables := linked.mem_tables_iff tabled short selected absent
  have freshBitmap := Set.disjoint_left.mp tabled.pool.usableBitmap linked.available
  have tableBitmap := Set.disjoint_left.mp tabled.bitmap (mem_tables (by omega) selected)
  have usable := linked.usablePages_eq freshBitmap tableBitmap
  have bitmap : mm'.bitmapPages = mm.bitmapPages := by rw [linked.data]; rfl
  have fewer : mm'.usablePages ⊆ mm.usablePages := by
    rw [usable]
    exact Set.sdiff_subset
  refine ⟨⟨tabled.pool.shrink ?_ fewer bitmap, ?_, ?_, ?_, ?_, ?_, ?_, ?_⟩, linked.data, fewer, ?_, ?_⟩
  · have placed := tabled.pool.placed
    rw [linked.data]
    exact ⟨placed.fits, placed.count⟩
  · rw [linked.data]
    exact tabled.aligned
  · rw [linked.root_eq]
    exact link.distinct tabled.distinct
  · intro node inside
    rcases (tables node).mp inside with old | rfl
    · exact tabled.small node old
    · exact tabled.pool.usableSmall _ linked.available
  · intro node index directory set
    exact linked.grants_directory tabled short selected absent directory set
  · rw [Set.disjoint_left]
    intro node inside available
    rcases (tables node).mp inside with old | rfl
    · exact Set.disjoint_left.mp tabled.usable old (fewer available)
    · rw [usable] at available
      exact available.2 rfl
  · rw [bitmap, Set.disjoint_left]
    intro node inside
    rcases (tables node).mp inside with old | rfl
    · exact Set.disjoint_left.mp tabled.bitmap old
    · exact freshBitmap
  · rw [Set.disjoint_left]
    intro node inside used
    rcases (tables node).mp inside with old | rfl
    · exact Set.disjoint_left.mp tabled.live old used
    · exact Set.disjoint_left.mp tabled.pool.liveUsable used linked.available
  · intro node inside
    rcases (tables node).mp inside with old | rfl
    · exact Or.inl old
    · exact Or.inr linked.available
  · intro target node within found
    rw [linked.root_eq]
    exact link.resolve_old tabled.distinct within found

/-- Only the new table, its entry, and the bitmap change. -/
theorem framed (linked : Linked mm marked mm' table fresh slot word) : Framed mm mm' := by
  have inside := slot.isLt
  have member := mem_tables (by omega) selected
  refine (linked.grown tabled short selected absent).framed fun address outside => ?_
  have notFresh : address / 4096 ≠ fresh := fun equal => outside (Or.inl (Or.inl (equal ▸ linked.available)))
  have notTable : address / 4096 ≠ table := fun equal => outside (Or.inl (Or.inr (equal ▸ member)))
  have notBitmap : address / 4096 ∉ mm.bitmapPages := fun kept => outside (Or.inr kept)
  rw [linked.result]
  change Memory.store _ _ _ _ address = _
  rw [Memory.store_outside _ (by omega), Memory.fill_outside _ _ (by omega), linked.taken.only.frame_page notBitmap]

/-- The new table translates no address. -/
theorem walk_eq (linked : Linked mm marked mm' table fresh slot word) : mm'.walk = mm.walk := by
  have link := linked.link tabled short selected absent
  have member := mem_tables (by omega) selected
  have unused : fresh ∉ mm.tables := link.unused
  have different : fresh ≠ table := fun equal => unused (equal ▸ member)
  funext virt
  have length : (walkPath virt).length = 3 := rfl
  simp only [Mm.walk, UmbralOS.walk, linked.root_eq]
  generalize walkPath virt = target at length ⊢
  cases old : resolve (tableChild mm.memory) mm.root target with
  | some last =>
      have lastMember := mem_tables (by omega) old
      have notFresh : last ≠ fresh := fun equal => unused (equal ▸ lastMember)
      have notBitmap : last ∉ mm.bitmapPages := Set.disjoint_left.mp tabled.bitmap lastMember
      -- A last-level table is never the table of a directory entry.
      have notTable : last ≠ table := by
        rintro rfl
        have same := tabled.distinct target path last (by omega) (by omega) old selected
        rw [← same] at short
        omega
      rw [link.resolve_old tabled.distinct (by omega) old]
      simp only [Option.bind_some, linked.word_keep notFresh notBitmap (Or.inl notTable)]
  | none =>
      cases new : resolve (tableChild mm'.memory) mm.root target with
      | none => rw [Option.bind_none, Option.bind_none]
      | some last =>
          rcases (link.resolve_iff tabled.distinct (by omega)).mp new with found | ⟨_, rfl⟩
          · rw [found] at old
            cases old
          · rw [Option.bind_some, Option.bind_none, linked.word_fresh different]
            rfl

end Linked

end Link

/-- A present directory entry gives the address of its table. -/
theorem next_table {mm : Mm} {path : List (Fin 512)} {table : Nat} {slot : Fin 512}
    (selected : resolve (tableChild mm.memory) mm.root path = some table)
    (present : (mm.directoryEntry table slot).p = true) (plain : (mm.directoryEntry table slot).ps = false) :
    ∃ child, mm.pHHDM + (mm.directoryEntry table slot).addr.setWidth 64 <<< 12 = mm.tablePointer child ∧
      resolve (tableChild mm.memory) mm.root (path ++ [slot]) = some child := by
  refine ⟨_, by rw [frame_pointer]; rfl, ?_⟩
  rw [Mm.directoryEntry] at present plain
  rw [resolve_snoc, selected, Option.bind_some, tableChild, present, plain]
  rfl

/-- The directory entry at a pointer. -/
def Mm.entryOf (mm : Mm) (entry : Pointer) : PageDirectoryEntrySubdirectory :=
  .ofWord (BitVec.ofNat 64 (mm.memory.load (mm.physical entry) 8))

/-- The mapper keeps a present entry, and it links an absent entry to a zeroed page of the allocator. -/
theorem returns_vmmEnsurePresent_cases {mm mm' : Mm} {entry next : Pointer}
    (returned : Returns (vmmEnsurePresent entry) mm next mm') :
    mm'.pHHDM + (mm'.entryOf entry).addr.setWidth 64 <<< 12 = next ∧
      ((mm.entryOf entry).p = true ∧ mm = mm' ∨
        (mm.entryOf entry).p = false ∧ ∃ page marked zeroed old, Returns pmmAllocPage mm page marked ∧
          marked.memory.fill (marked.physical (marked.pHHDM + page)) pageSize.toNat 0 = zeroed ∧
          { marked with memory := zeroed.store (marked.physical entry) 8
                          (PageDirectoryEntrySubdirectory.linkTo old page).toWord.toNat } = mm') := by
  simp only [vmmEnsurePresent, returns_bind, returns_load64] at returned
  obtain ⟨_, _, ⟨rfl, rfl⟩, rest⟩ := returned
  change Returns (if !(mm.entryOf entry).p then _ else _) _ _ _ at rest
  cases present : (mm.entryOf entry).p with
  | true =>
      rw [present] at rest
      simp only [Bool.not_true, Bool.false_eq_true, if_false, returns_bind, returns_load64, returns_phyToVirt] at rest
      obtain ⟨_, _, ⟨rfl, rfl⟩, found, rfl⟩ := rest
      exact ⟨found, Or.inl ⟨rfl, rfl⟩⟩
  | false =>
      rw [present] at rest
      simp only [Bool.not_false, if_true, returns_bind, returns_load64, returns_store64, returns_memzero,
        returns_phyToVirt] at rest
      obtain ⟨page, marked, allocated, _, _, ⟨rfl, rfl⟩, _, _, rfl, _, _, ⟨rfl, rfl⟩, _, linked, stored, rest⟩ := rest
      obtain ⟨_, _, ⟨rfl, rfl⟩, found, rfl⟩ := rest
      exact ⟨found, Or.inr ⟨rfl, page, marked, _, _, allocated, rfl, stored⟩⟩

section EnsurePresent

variable {mm mm' : Mm} {live : Set Nat} {path : List (Fin 512)} {table : Nat} {index : BitVec 16} {slot : Fin 512}
  {next : Pointer}

/-- The mapper keeps a present entry of a table, or it links an absent entry to a new table. -/
theorem vmmEnsurePresent_linked (tabled : Tabled mm live) (short : path.length ≤ 2)
    (selected : resolve (tableChild mm.memory) mm.root path = some table) (selects : index.toNat = slot)
    (returned : Returns (vmmEnsurePresent (entryAt (mm.tablePointer table) index)) mm next mm') :
    mm'.pHHDM + (mm'.directoryEntry table slot).addr.setWidth 64 <<< 12 = next ∧
      ((mm.directoryEntry table slot).p = true ∧ mm = mm' ∨
        (mm.directoryEntry table slot).p = false ∧ ∃ marked fresh old page,
          Linked mm marked mm' table fresh slot (PageDirectoryEntrySubdirectory.linkTo old page).toWord) := by
  have member := mem_tables (by omega) selected
  have place := physical_entryAt mm (tabled.small table member) selects
  have placed (state : Mm) (same : state.pHHDM = mm.pHHDM) :
      state.physical (entryAt (mm.tablePointer table) index) = table * 4096 + slot * 8 := by
    rw [Mm.physical, same, ← Mm.physical, place]
  have read (state : Mm) (same : state.pHHDM = mm.pHHDM) :
      state.entryOf (entryAt (mm.tablePointer table) index) = state.directoryEntry table slot := by
    rw [Mm.entryOf, placed state same]
    rfl
  obtain ⟨rfl, ⟨present, rfl⟩ | ⟨absent, page, marked, _, old, allocated, rfl, stored⟩⟩ :=
    returns_vmmEnsurePresent_cases returned
  · rw [read mm rfl] at present ⊢
    exact ⟨rfl, Or.inl ⟨present, rfl⟩⟩
  · rw [read mm rfl] at absent
    obtain ⟨_, _, available, taken⟩ := returns_pmmAllocPages tabled.pool.placed allocated
    have free : mm.usable (page.toNat / 4096) = true := available ⟨le_rfl, by simp⟩
    have kept : marked.pHHDM = mm.pHHDM := taken.only.pHHDM_eq
    have start : marked.physical (marked.pHHDM + page) = page.toNat / 4096 * 4096 := by
      rw [Mm.physical, show marked.pHHDM + page - marked.pHHDM = page by bv_omega]
      omega
    rw [start, placed marked kept] at stored
    have linked : Linked mm marked mm' table (page.toNat / 4096) slot (old.linkTo page).toWord := by
      refine ⟨free, taken, ?_, ?_, ?_, stored.symm⟩
      · rw [PageDirectoryEntrySubdirectory.ofWord_toWord, linkTo_p]
      · rw [PageDirectoryEntrySubdirectory.ofWord_toWord]
        exact linkTo_grants old page
      · rw [PageDirectoryEntrySubdirectory.ofWord_toWord]
        exact toNat_frame (tabled.pool.usableSmall _ free)
    rw [read mm' (by rw [linked.data])]
    exact ⟨rfl, Or.inr ⟨absent, marked, _, old, page, linked⟩⟩

/-- The mapper returns the next table of an entry. It translates nothing new, and it changes only pages of the allocator. -/
theorem returns_vmmEnsurePresent (tabled : Tabled mm live) (short : path.length ≤ 2)
    (selected : resolve (tableChild mm.memory) mm.root path = some table) (selects : index.toNat = slot)
    (returned : Returns (vmmEnsurePresent (entryAt (mm.tablePointer table) index)) mm next mm') :
    Grown live mm mm' ∧ Framed mm mm' ∧ mm'.walk = mm.walk ∧ ∃ child, next = mm'.tablePointer child ∧
      resolve (tableChild mm'.memory) mm'.root (path ++ [slot]) = some child := by
  obtain ⟨rfl, ⟨present, rfl⟩ | ⟨absent, marked, _, old, page, linked⟩⟩ :=
    vmmEnsurePresent_linked tabled short selected selects returned
  · have grants := tabled.grants table slot ⟨path, short, selected⟩ present
    exact ⟨Grown.refl tabled, Framed.refl _, rfl, next_table selected present grants.plain⟩
  · have grown := linked.grown tabled short selected absent
    have reached := grown.paths path table (by omega) selected
    refine ⟨grown, linked.framed tabled short selected absent, linked.walk_eq tabled short selected absent,
      next_table reached ?_ ?_⟩
    · rw [Mm.directoryEntry, linked.word_linked]
      exact linked.present
    · rw [Mm.directoryEntry, linked.word_linked]
      exact linked.grants.plain

end EnsurePresent

/-- No present directory entry lets user code pass. -/
def Mm.KernelOnly (mm : Mm) : Prop :=
  ∀ table index, Selected (tableChild mm.memory) mm.root 2 table →
    (mm.directoryEntry table index).p = true → (mm.directoryEntry table index).us = false

/-- The directory tables and their entries are the same in both states. -/
structure SameDirectories (mm mm' : Mm) : Prop where
  selected : ∀ node, Selected (tableChild mm'.memory) mm'.root 2 node → Selected (tableChild mm.memory) mm.root 2 node
  entries : ∀ node index, Selected (tableChild mm.memory) mm.root 2 node →
    mm'.directoryEntry node index = mm.directoryEntry node index

theorem SameDirectories.kernelOnly {mm mm' : Mm} (same : SameDirectories mm mm') (kernel : mm.KernelOnly) :
    mm'.KernelOnly := by
  intro table index directory present
  have before := same.selected table directory
  rw [same.entries table index before] at present ⊢
  exact kernel table index before present

theorem linkTo_us (entry : PageDirectoryEntrySubdirectory) (page : Phy) : (entry.linkTo page).us = false := rfl

/-- The mapper builds no directory entry that lets user code pass. -/
theorem kernelOnly_vmmEnsurePresent {mm mm' : Mm} {live : Set Nat} {path : List (Fin 512)} {table : Nat}
    {index : BitVec 16} {slot : Fin 512} {next : Pointer} (tabled : Tabled mm live) (short : path.length ≤ 2)
    (selected : resolve (tableChild mm.memory) mm.root path = some table) (selects : index.toNat = slot)
    (returned : Returns (vmmEnsurePresent (entryAt (mm.tablePointer table) index)) mm next mm')
    (kernel : mm.KernelOnly) : mm'.KernelOnly := by
  obtain ⟨_, ⟨_, rfl⟩ | ⟨absent, marked, _, old, page, linked⟩⟩ :=
    vmmEnsurePresent_linked tabled short selected selects returned
  · exact kernel
  · intro node index directory present
    rcases linked.directory_cases tabled short selected absent directory present with ⟨before, same⟩ | new
    · rw [same] at present ⊢
      exact kernel node index before present
    · rw [new, PageDirectoryEntrySubdirectory.ofWord_toWord]
      exact linkTo_us old page

end UmbralOS
