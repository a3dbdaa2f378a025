import UmbralOS.Proof.Memory.Bitmap

/-!
This file proves which pages of the memory map the allocator owns.
-/

namespace UmbralOS

open Library

theorem toNat_roundDown (value multiple : BitVec 64) :
    (roundDown value multiple).toNat = value.toNat - value.toNat % multiple.toNat := by
  have small := Nat.mod_le value.toNat multiple.toNat
  have total := value.isLt
  unfold roundDown
  split_ifs with rest
  · rw [BitVec.toNat_sub, BitVec.toNat_umod]
    omega
  · have zero : value.toNat % multiple.toNat = 0 := by
      have equal := congrArg BitVec.toNat (not_not.mp rest)
      rwa [BitVec.toNat_umod] at equal
    omega

theorem toNat_roundUp (value multiple : BitVec 64) :
    (roundUp value multiple).toNat =
      if value.toNat % multiple.toNat = 0 then value.toNat
      else (value.toNat - value.toNat % multiple.toNat + multiple.toNat) % 2 ^ 64 := by
  have zero : value % multiple = 0 ↔ value.toNat % multiple.toNat = 0 := by
    rw [← BitVec.toNat_inj, BitVec.toNat_umod]
    rfl
  unfold roundUp
  by_cases exact : value.toNat % multiple.toNat = 0
  · rw [if_pos exact, if_neg (not_not.mpr (zero.mpr exact))]
  · rw [if_neg exact, if_pos (mt zero.mp exact), BitVec.toNat_add, toNat_roundDown]

/-- A size rounds up to its number of pages when the sum does not wrap. -/
theorem toNat_pageCount {size : BitVec 64} (fits : size.toNat ≤ 2 ^ 64 - 4096) :
    (roundUp size pageSize / pageSize).toNat = (size.toNat + 4095) / 4096 := by
  rw [toNat_div_pageSize, toNat_roundUp, show pageSize.toNat = 4096 from rfl]
  split_ifs <;> omega

/-- A size above the last page boundary rounds up to no page. -/
theorem pageCount_wraps {size : BitVec 64} (large : 2 ^ 64 - 4096 < size.toNat) :
    roundUp size pageSize / pageSize = 0 := by
  have total := size.isLt
  apply BitVec.eq_of_toNat_eq
  rw [toNat_div_pageSize, toNat_roundUp, show pageSize.toNat = 4096 from rfl, if_neg (by omega)]
  change _ = 0
  omega

theorem toNat_bitmapSize {numPages : BitVec 64} (counted : numPages.toNat < 2 ^ 52) :
    (bitmapSize numPages).toNat = (numPages.toNat + 7) / 8 := by
  rw [bitmapSize, BitVec.toNat_udiv, toNat_roundUp, show charBit.toNat = 8 from rfl]
  split_ifs <;> omega

namespace LimineMemmapEntry

/-- The physical bytes of an entry. -/
def bytes (entry : LimineMemmapEntry) : Set Nat :=
  { address | entry.base.toNat ≤ address ∧ address < entry.base.toNat + entry.length.toNat }

/-- The pages that hold a byte of an entry. -/
def pages (entry : LimineMemmapEntry) : Set Nat := { page | ∃ address ∈ entry.bytes, address / 4096 = page }

/-- Both ends of an entry are page aligned. -/
def Aligned (entry : LimineMemmapEntry) : Prop :=
  entry.base.toNat % 4096 = 0 ∧ entry.length.toNat % 4096 = 0

def Usable (entry : LimineMemmapEntry) : Prop := entry.type = .usable

def Reclaimable (entry : LimineMemmapEntry) : Prop :=
  entry.type = .acpiReclaimable ∨ entry.type = .bootloaderReclaimable

instance (entry : LimineMemmapEntry) : Decidable entry.Aligned := inferInstanceAs (Decidable (_ ∧ _))
instance (entry : LimineMemmapEntry) : Decidable entry.Usable := inferInstanceAs (Decidable (_ = _))
instance (entry : LimineMemmapEntry) : Decidable entry.Reclaimable := inferInstanceAs (Decidable (_ ∨ _))

/-- An aligned entry consists of whole pages. -/
theorem mem_pages {entry : LimineMemmapEntry} (aligned : entry.Aligned) {page : Nat} :
    page ∈ entry.pages ↔
      entry.base.toNat / 4096 ≤ page ∧ page < entry.base.toNat / 4096 + entry.length.toNat / 4096 := by
  obtain ⟨baseAligned, lengthAligned⟩ := aligned
  constructor
  · intro given
    obtain ⟨address, ⟨lower, upper⟩, rfl⟩ := given
    omega
  · intro given
    obtain ⟨lower, upper⟩ := given
    exact ⟨page * 4096, ⟨by omega, by omega⟩, by omega⟩

/-- A page of an aligned entry lies in the entry with all its bytes. -/
theorem mem_bytes_of_pages {entry : LimineMemmapEntry} (aligned : entry.Aligned) {address : Nat}
    (inside : address / 4096 ∈ entry.pages) : address ∈ entry.bytes := by
  have within := (mem_pages aligned).mp inside
  obtain ⟨baseAligned, lengthAligned⟩ := aligned
  exact ⟨by omega, by omega⟩

end LimineMemmapEntry

/-- The pages of all selected entries. -/
def pagesOf (select : LimineMemmapEntry → Prop) (memmap : List LimineMemmapEntry) : Set Nat :=
  { page | ∃ entry ∈ memmap, select entry ∧ page ∈ entry.pages }

theorem pagesOf_nil (select : LimineMemmapEntry → Prop) : pagesOf select [] = ∅ := by
  ext page
  simp [pagesOf]

theorem pagesOf_snoc (select : LimineMemmapEntry → Prop) (memmap : List LimineMemmapEntry)
    (entry : LimineMemmapEntry) :
    pagesOf select (memmap ++ [entry]) = pagesOf select memmap ∪ { page | select entry ∧ page ∈ entry.pages } := by
  ext page
  simp only [pagesOf, List.mem_append, List.mem_singleton, Set.mem_union, Set.mem_ofPred_eq]
  constructor
  · rintro ⟨found, member | rfl, chosen, inside⟩
    · exact Or.inl ⟨found, member, chosen, inside⟩
    · exact Or.inr ⟨chosen, inside⟩
  · rintro (⟨found, member, chosen, inside⟩ | ⟨chosen, inside⟩)
    · exact ⟨found, Or.inl member, chosen, inside⟩
    · exact ⟨entry, Or.inr rfl, chosen, inside⟩

/-- A marked range of an entry makes the pages of the entry usable. -/
theorem usablePages_markEntry {mm mm' : Mm} (placed : mm.Placed) {entry : LimineMemmapEntry}
    (returned : Returns (pmmMarkRange entry.base entry.length true) mm () mm') :
    BitmapOnly mm mm' ∧ mm'.usablePages = mm.usablePages ∪ entry.pages := by
  obtain ⟨baseAligned, lengthAligned, marked⟩ := returns_pmmMarkRange placed returned
  refine ⟨marked.only, ?_⟩
  rw [marked.usablePages_true]
  congr 1
  ext page
  exact (LimineMemmapEntry.mem_pages ⟨baseAligned, lengthAligned⟩).symm

/-- A loop that marks the selected entries makes exactly their pages usable. -/
theorem usablePages_markEntries {mm mm' : Mm} (placed : mm.Placed) {memmap : List LimineMemmapEntry}
    {body : LimineMemmapEntry → MmProgram Unit} (select : LimineMemmapEntry → Prop)
    (chosen : ∀ entry, select entry → body entry = pmmMarkRange entry.base entry.length true)
    (skipped : ∀ entry, ¬ select entry → body entry = pure ())
    (returned : Returns (memmap.forM body) mm () mm') :
    BitmapOnly mm mm' ∧ mm'.usablePages = mm.usablePages ∪ pagesOf select memmap := by
  refine returns_forM (fun processed state => BitmapOnly mm state ∧
    state.usablePages = mm.usablePages ∪ pagesOf select processed)
    ⟨BitmapOnly.refl mm, by simp [pagesOf_nil]⟩ ?_ returned
  rintro processed entry state state' _ ⟨only, usable⟩ stepped
  rw [pagesOf_snoc]
  by_cases selected : select entry
  · rw [chosen entry selected] at stepped
    obtain ⟨marked, pages⟩ := usablePages_markEntry (only.placed placed) stepped
    refine ⟨only.trans marked, ?_⟩
    rw [pages, usable, Set.union_assoc]
    simp [selected]
  · rw [skipped entry selected] at stepped
    obtain ⟨_, rfl⟩ := (returns_pure _ _ _ _).mp stepped
    refine ⟨only, ?_⟩
    rw [usable]
    simp [selected]

/-- The bitmap stands at the start of a usable entry that is longer than the bitmap. -/
structure BitmapRegion (memmap : List LimineMemmapEntry) (mm : Mm) (entry : LimineMemmapEntry) : Prop where
  member : entry ∈ memmap
  usable : entry.Usable
  base : mm.bitmapBase = entry.base.toNat
  room : mm.bitmapBytes < entry.length.toNat

theorem bitmapRegion_spec {memmap : List LimineMemmapEntry} {size : BitVec 64}
    (found : bitmapRegion memmap size ≠ 0) :
    ∃ entry ∈ memmap, entry.Usable ∧ size < entry.length ∧ bitmapRegion memmap size = entry.base := by
  unfold bitmapRegion at found ⊢
  cases search : memmap.find? fun entry => entry.type = .usable ∧ size < entry.length with
  | none =>
      rw [search] at found
      exact absurd rfl found
  | some entry =>
      have chosen := List.find?_some search
      simp only [decide_eq_true_eq] at chosen
      exact ⟨entry, List.mem_of_find?_eq_some search, chosen.1, chosen.2, rfl⟩

/-- A started allocator owns the usable entries without the pages of its bitmap. -/
structure PmmStarted (memmap : List LimineMemmapEntry) (phhdm : Pointer) (before after : Mm) : Prop where
  placed : after.Placed
  pHHDM : after.pHHDM = phhdm
  registers : after.cpuid = before.cpuid ∧ after.msr = before.msr ∧ after.cr3 = before.cr3
  aligned : after.bitmapBase % 4096 = 0
  region : ∃ entry, BitmapRegion memmap after entry
  usablePages : after.usablePages = pagesOf LimineMemmapEntry.Usable memmap \ after.bitmapPages

theorem returns_pmmInit {memmap : List LimineMemmapEntry} {phhdm : Pointer} {mm mm' : Mm}
    (ends : ∀ entry ∈ memmap, entry.Usable → entry.base.toNat + entry.length.toNat ≤ 2 ^ 64)
    (returned : Returns (pmmInit memmap phhdm) mm () mm') : PmmStarted memmap phhdm mm mm' := by
  simp only [pmmInit, returns_bind, returns_modify, returns_panicIf, returns_phyToVirt, returns_memzero] at returned
  obtain ⟨_, _, rfl, _, _, rfl, _, _, ⟨found, rfl⟩, _, _, ⟨rfl, rfl⟩, _, _, rfl, _, _, rfl, _, marked, loop, last⟩ :=
    returned
  generalize counted : roundUp (highestAddr memmap) pageSize / pageSize = numPages at *
  have count : numPages.toNat < 2 ^ 52 := by
    rw [← counted, toNat_div_pageSize]
    omega
  obtain ⟨entry, member, usable, room, base⟩ := bitmapRegion_spec found
  rw [base] at loop last
  have size := toNat_bitmapSize count
  have longer : (numPages.toNat + 7) / 8 < entry.length.toNat := by
    rw [← size]
    exact BitVec.lt_def.mp room
  have inside := ends entry member usable
  -- The bitmap is zero when the marking starts, so no page is usable yet.
  let start : Mm := {
    memory := mm.memory.fill (phhdm + entry.base - phhdm).toNat (bitmapSize numPages).toNat 0
    pmmData := ⟨numPages, phhdm + entry.base⟩
    pHHDM := phhdm, pml4 := mm.pml4, cr3 := mm.cr3, msr := mm.msr, cpuid := mm.cpuid }
  have cancel : phhdm + entry.base - phhdm = entry.base := by bv_omega
  have startBase : start.bitmapBase = entry.base.toNat := by
    simp only [Mm.bitmapBase, Mm.physical, start, cancel]
  have startBytes : start.bitmapBytes = (numPages.toNat + 7) / 8 := rfl
  have placed : start.Placed := ⟨by rw [startBase, startBytes]; omega, count⟩
  have empty : start.usablePages = ∅ := by
    apply usablePages_zeroed
    intro address lower upper
    rw [startBase] at lower upper
    rw [startBytes, ← size] at upper
    simp only [start, cancel]
    exact Memory.fill_inside _ _ lower upper
  change Returns _ start () marked at loop
  obtain ⟨only, pages⟩ := usablePages_markEntries placed LimineMemmapEntry.Usable
    (fun entry chosen => if_pos chosen) (fun entry skipped => if_neg skipped) loop
  obtain ⟨aligned, _, kept⟩ := returns_pmmMarkRange (only.placed placed) last
  have all := only.trans kept.only
  have finalBase := all.bitmapBase_eq
  have finalBytes := all.bitmapBytes_eq
  have finalPages := all.bitmapPages_eq
  refine ⟨all.placed placed, all.pHHDM_eq, ?_, ?_, ⟨entry, member, usable, ?_, ?_⟩, ?_⟩
  · rw [all.data]
    exact ⟨rfl, rfl, rfl⟩
  · rw [finalBase, startBase]
    exact aligned
  · rw [finalBase, startBase]
  · rw [finalBytes, startBytes]
    exact longer
  · rw [kept.usablePages_false, pages, empty, Set.empty_union, finalPages,
      bitmapPages_eq_range (by rw [startBase]; exact aligned), startBase, startBytes]
    have small : (numPages.toNat + 7) / 8 < 2 ^ 52 := by omega
    have whole : (roundUp (bitmapSize numPages) pageSize).toNat / 4096 = ((numPages.toNat + 7) / 8 + 4095) / 4096 := by
      rw [toNat_roundUp, size, show pageSize.toNat = 4096 from rfl]
      split_ifs <;> omega
    rw [whole]

/-- The pages of the boot stack below its origin. -/
def stackPages (mm : Mm) (stackOrigin : Pointer) (stackSize : BitVec 64) : Set Nat :=
  { page | (stackOrigin - stackSize - mm.pHHDM).toNat / 4096 ≤ page ∧
    page < (stackOrigin - stackSize - mm.pHHDM).toNat / 4096 + stackSize.toNat / 4096 }

/-- The donation adds the reclaimable entries and takes away the stack. -/
theorem returns_pmmReclaim {memmap : List LimineMemmapEntry} {mm mm' : Mm} {stackOrigin : Pointer}
    {stackSize : BitVec 64} (placed : mm.Placed)
    (returned : Returns (pmmReclaim memmap stackOrigin stackSize) mm () mm') :
    BitmapOnly mm mm' ∧ mm'.usablePages =
      (mm.usablePages ∪ pagesOf LimineMemmapEntry.Reclaimable memmap) \ stackPages mm stackOrigin stackSize := by
  simp only [pmmReclaim, returns_bind, returns_get] at returned
  obtain ⟨_, middle, loop, _, _, ⟨rfl, rfl⟩, last⟩ := returned
  obtain ⟨only, pages⟩ := usablePages_markEntries placed LimineMemmapEntry.Reclaimable
    (fun entry chosen => by rcases chosen with type | type <;> simp only [type])
    (fun entry skipped => by
      simp only [LimineMemmapEntry.Reclaimable, not_or] at skipped
      split
      · exact absurd ‹_› skipped.1
      · exact absurd ‹_› skipped.2
      · rfl) loop
  obtain ⟨_, _, kept⟩ := returns_pmmMarkRange (only.placed placed) last
  refine ⟨only.trans kept.only, ?_⟩
  rw [kept.usablePages_false, pages, only.pHHDM_eq]
  rfl

end UmbralOS
