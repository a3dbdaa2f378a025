import UmbralOS.Kernel.Mm
import Mathlib.Data.Set.Lattice

/-!
This file proves that the bitmap of the allocator holds a set of pages.
-/

namespace UmbralOS

open Library

/-- The physical address of the bitmap. -/
def Mm.bitmapBase (mm : Mm) : Nat := mm.physical mm.pmmData.bitmap

/-- The number of bytes that hold one bit for each page. -/
def Mm.bitmapBytes (mm : Mm) : Nat := (mm.pmmData.numPages.toNat + 7) / 8

/-- The bit of a page says that the page is usable. -/
def Mm.usable (mm : Mm) (page : Nat) : Bool :=
  decide (page < mm.pmmData.numPages.toNat) && (mm.memory (mm.bitmapBase + page / 8)).getLsbD (page % 8)

/-- The pages whose bit says that they are usable. -/
def Mm.usablePages (mm : Mm) : Set Nat := { page | mm.usable page = true }

/-- The pages that hold the bitmap. -/
def Mm.bitmapPages (mm : Mm) : Set Nat :=
  { page | ∃ address, mm.bitmapBase ≤ address ∧ address < mm.bitmapBase + mm.bitmapBytes ∧ address / 4096 = page }

/-- The bitmap and the pages that it counts lie inside the address space. -/
structure Mm.Placed (mm : Mm) : Prop where
  fits : mm.bitmapBase + mm.bitmapBytes ≤ 2 ^ 64
  count : mm.pmmData.numPages.toNat < 2 ^ 52

/-- Only the bytes of the bitmap differ. -/
structure BitmapOnly (before after : Mm) : Prop where
  data : after = { before with memory := after.memory }
  frame : ∀ address, address < before.bitmapBase ∨ before.bitmapBase + before.bitmapBytes ≤ address →
    after.memory address = before.memory address

namespace BitmapOnly

variable {first second third : Mm}

theorem refl (mm : Mm) : BitmapOnly mm mm := ⟨rfl, fun _ _ => rfl⟩

theorem bitmapBase_eq (only : BitmapOnly first second) : second.bitmapBase = first.bitmapBase := by
  rw [only.data]
  rfl

theorem numPages_eq (only : BitmapOnly first second) : second.pmmData.numPages = first.pmmData.numPages := by
  rw [only.data]

theorem pHHDM_eq (only : BitmapOnly first second) : second.pHHDM = first.pHHDM := by
  rw [only.data]

theorem bitmapBytes_eq (only : BitmapOnly first second) : second.bitmapBytes = first.bitmapBytes := by
  rw [only.data]
  rfl

theorem bitmapPages_eq (only : BitmapOnly first second) : second.bitmapPages = first.bitmapPages := by
  simp only [Mm.bitmapPages, only.bitmapBase_eq, only.bitmapBytes_eq]

theorem placed (only : BitmapOnly first second) (placed : first.Placed) : second.Placed :=
  ⟨by rw [only.bitmapBase_eq, only.bitmapBytes_eq]; exact placed.fits,
    by rw [only.numPages_eq]; exact placed.count⟩

theorem trans (head : BitmapOnly first second) (tail : BitmapOnly second third) : BitmapOnly first third := by
  constructor
  · rw [tail.data, head.data]
  · intro address outside
    rw [tail.frame address (by rwa [head.bitmapBase_eq, head.bitmapBytes_eq]), head.frame address outside]

/-- A page that holds no part of the bitmap keeps its bytes. -/
theorem frame_page (only : BitmapOnly first second) {address : Nat} (outside : address / 4096 ∉ first.bitmapPages) :
    second.memory address = first.memory address := by
  apply only.frame
  by_contra inside
  exact outside ⟨address, by omega, by omega, rfl⟩

end BitmapOnly

/-- Equal bytes on the pages of the bitmap give the same usable pages. -/
theorem usablePages_congr {mm mm' : Mm} (data : mm' = { mm with memory := mm'.memory })
    (same : ∀ address, address / 4096 ∈ mm.bitmapPages → mm'.memory address = mm.memory address) :
    mm'.usablePages = mm.usablePages := by
  ext page
  have base : mm'.bitmapBase = mm.bitmapBase := by rw [data]; rfl
  have count : mm'.pmmData.numPages = mm.pmmData.numPages := by rw [data]
  simp only [Mm.usablePages, Mm.usable, Set.mem_ofPred_eq, Bool.and_eq_true, decide_eq_true_eq, base, count,
    and_congr_right_iff]
  intro counted
  rw [same]
  refine ⟨_, Nat.le_add_right _ _, ?_, rfl⟩
  simp only [Mm.bitmapBytes]
  omega

/-- A zeroed bitmap has no usable page. -/
theorem usablePages_zeroed {mm : Mm}
    (zero : ∀ address, mm.bitmapBase ≤ address → address < mm.bitmapBase + mm.bitmapBytes → mm.memory address = 0) :
    mm.usablePages = ∅ := by
  ext page
  simp only [Mm.usablePages, Mm.usable, Set.mem_ofPred_eq, Set.mem_empty_iff_false, iff_false, Bool.and_eq_true,
    decide_eq_true_eq, not_and]
  intro counted
  rw [zero _ (Nat.le_add_right _ _) (by rw [Mm.bitmapBytes]; omega)]
  simp

/-- The pages of an aligned bitmap follow each other. -/
theorem bitmapPages_eq_range {mm : Mm} (aligned : mm.bitmapBase % 4096 = 0) :
    mm.bitmapPages = { page | mm.bitmapBase / 4096 ≤ page ∧
      page < mm.bitmapBase / 4096 + (mm.bitmapBytes + 4095) / 4096 } := by
  ext page
  simp only [Mm.bitmapPages, Set.mem_ofPred_eq]
  constructor
  · intro given
    obtain ⟨address, lower, upper, rfl⟩ := given
    omega
  · intro given
    obtain ⟨lower, upper⟩ := given
    exact ⟨max mm.bitmapBase (page * 4096), by omega, by omega, by omega⟩

theorem aligned_iff (word : BitVec 64) : word % pageSize = 0 ↔ word.toNat % 4096 = 0 := by
  rw [← BitVec.toNat_inj, BitVec.toNat_umod]
  rfl

theorem toNat_div_pageSize (word : BitVec 64) : (word / pageSize).toNat = word.toNat / 4096 := by
  rw [BitVec.toNat_udiv]
  rfl

/-- The kernel reaches the bytes of the bitmap without wrapping. -/
theorem Mm.physical_bitmap {mm : Mm} (fits : mm.bitmapBase + mm.bitmapBytes ≤ 2 ^ 64) {index : BitVec 64}
    (inside : index.toNat < mm.bitmapBytes) :
    mm.physical (mm.pmmData.bitmap + index) = mm.bitmapBase + index.toNat := by
  simp only [Mm.bitmapBase, Mm.physical] at fits ⊢
  bv_omega

theorem returns_pmmAddrToBitmapLocation {mm mm' : Mm} {page : Phy} {location : BitVec 64 × BitVec 8} :
    Returns (pmmAddrToBitmapLocation page) mm location mm' ↔
      page.toNat % 4096 = 0 ∧ page.toNat / 4096 < mm.pmmData.numPages.toNat ∧
      location = (page / pageSize / charBit, 1#8 <<< (page / pageSize % charBit).toNat) ∧ mm' = mm := by
  have inRange : ¬ mm.pmmData.numPages ≤ page / pageSize ↔
      page.toNat / 4096 < mm.pmmData.numPages.toNat := by
    rw [BitVec.not_le, BitVec.lt_def, toNat_div_pageSize]
  simp only [pmmAddrToBitmapLocation, returns_bind, returns_panicIf, returns_get, returns_pure,
    ne_eq, not_not, aligned_iff]
  constructor
  · intro returned
    obtain ⟨_, _, ⟨aligned, rfl⟩, _, _, ⟨rfl, rfl⟩, _, _, ⟨inside, rfl⟩, rfl, rfl⟩ := returned
    exact ⟨aligned, inRange.mp inside, rfl, rfl⟩
  · intro given
    obtain ⟨aligned, inside, rfl, rfl⟩ := given
    exact ⟨(), mm', ⟨aligned, rfl⟩, mm', mm', ⟨rfl, rfl⟩, (), mm', ⟨inRange.mpr inside, rfl⟩, rfl, rfl⟩

/-- This function sets the bit of one page. -/
def Mm.mark (mm : Mm) (page : Nat) (usable : Bool) : Mm :=
  let address := mm.bitmapBase + page / 8
  let mask := 1#8 <<< (page % 8)
  let byte := if usable then mm.memory address ||| mask else mm.memory address &&& ~~~mask
  { mm with memory := mm.memory.store address 1 byte.toNat }

theorem bitmapOnly_mark (mm : Mm) {page : Nat} (usable : Bool) (inside : page < mm.pmmData.numPages.toNat) :
    BitmapOnly mm (mm.mark page usable) := by
  constructor
  · rfl
  · intro address outside
    have different : address ≠ mm.bitmapBase + page / 8 := by
      simp only [Mm.bitmapBytes] at outside
      omega
    simp only [Mm.mark]
    rw [Memory.store_byte, if_neg different]

theorem getLsbD_mask (position index : Nat) (inside : index < 8) :
    (1#8 <<< position).getLsbD index = decide (index = position) := by
  simp only [BitVec.getLsbD_shiftLeft, BitVec.getLsbD_one]
  by_cases same : index = position
  · simp [same, show position < 8 by omega]
  · by_cases below : index < position
    · simp [below, same]
    · simp [same, show ¬ index - position = 0 by omega]

/-- A mask of one bit tests that bit. -/
theorem and_mask_ne_zero (byte : BitVec 8) {position : Nat} (inside : position < 8) :
    (byte &&& 1#8 <<< position != 0) = byte.getLsbD position := by
  have masked (index : Nat) (within : index < 8) : (byte &&& 1#8 <<< position).getLsbD index =
      (byte.getLsbD index && decide (index = position)) := by
    rw [BitVec.getLsbD_and, getLsbD_mask _ _ within]
  cases set : byte.getLsbD position
  · rw [bne_eq_false_iff_eq]
    apply BitVec.eq_of_getLsbD_eq
    intro index within
    rw [masked index within]
    by_cases same : index = position <;> simp [same, set]
  · rw [bne_iff_ne]
    intro zero
    have bit := masked position inside
    rw [zero, set] at bit
    simp at bit

/-- This function reads one bit of the bitmap. -/
def Mm.bit (mm : Mm) (index : Nat) : Bool := (mm.memory (mm.bitmapBase + index / 8)).getLsbD (index % 8)

/-- Setting the bit of one page changes no other bit, even in the same byte. -/
theorem bit_mark (mm : Mm) (page : Nat) (usable : Bool) (other : Nat) :
    (mm.mark page usable).bit other = if other = page then usable else mm.bit other := by
  have base : (mm.mark page usable).bitmapBase = mm.bitmapBase := rfl
  simp only [Mm.bit, base]
  simp only [Mm.mark, Memory.store_byte]
  have bit : other % 8 < 8 := Nat.mod_lt _ (by decide)
  by_cases sameByte : mm.bitmapBase + other / 8 = mm.bitmapBase + page / 8
  · rw [if_pos sameByte, ← sameByte]
    have samePage : other % 8 = page % 8 ↔ other = page := by omega
    cases usable
    · simp only [Bool.false_eq_true, if_false, BitVec.getLsbD_and, BitVec.getLsbD_not, bit, decide_true,
        Bool.true_and, getLsbD_mask _ _ bit, samePage]
      by_cases same : other = page <;> simp [same]
    · simp only [if_true, BitVec.getLsbD_or, getLsbD_mask _ _ bit, samePage]
      by_cases same : other = page <;> simp [same]
  · have different : other ≠ page := by
      rintro rfl
      exact sameByte rfl
    rw [if_neg sameByte, if_neg different]

/-- Setting the bit of one page changes no other page. -/
theorem usable_mark (mm : Mm) {page : Nat} (usable : Bool) (inside : page < mm.pmmData.numPages.toNat)
    (other : Nat) : (mm.mark page usable).usable other = if other = page then usable else mm.usable other := by
  have bit := bit_mark mm page usable other
  simp only [Mm.bit] at bit
  simp only [Mm.usable, bit]
  rw [show (mm.mark page usable).pmmData = mm.pmmData from rfl]
  by_cases same : other = page
  · subst same
    simp [inside]
  · simp [same]

section Page

variable {mm mm' : Mm} {page : Phy}

/-- A marked page is aligned and counted, and only its bit changes. -/
theorem returns_pmmMarkPage_of_fits (fits : mm.bitmapBase + mm.bitmapBytes ≤ 2 ^ 64) {usable : Bool} :
    Returns (pmmMarkPage page usable) mm () mm' ↔
      page.toNat % 4096 = 0 ∧ page.toNat / 4096 < mm.pmmData.numPages.toNat ∧
      mm' = mm.mark (page.toNat / 4096) usable := by
  have located (inside : page.toNat / 4096 < mm.pmmData.numPages.toNat) :
      mm.physical (mm.pmmData.bitmap + page / pageSize / charBit) = mm.bitmapBase + page.toNat / 4096 / 8 := by
    have quotient : (page / pageSize / charBit).toNat = page.toNat / 4096 / 8 := by
      rw [BitVec.toNat_udiv, toNat_div_pageSize]
      rfl
    rw [Mm.physical_bitmap fits (by rw [quotient, Mm.bitmapBytes]; omega), quotient]
  have remainder : (page / pageSize % charBit).toNat = page.toNat / 4096 % 8 := by
    rw [BitVec.toNat_umod, toNat_div_pageSize]
    rfl
  simp only [pmmMarkPage, returns_bind, returns_pmmAddrToBitmapLocation, returns_get, returns_load8]
  constructor
  · intro returned
    obtain ⟨_, _, ⟨aligned, inside, rfl, rfl⟩, _, _, ⟨rfl, rfl⟩, _, _, ⟨rfl, rfl⟩, marked⟩ := returned
    refine ⟨aligned, inside, ?_⟩
    cases usable <;> simp only [if_true, Bool.false_eq_true, if_false, returns_store8] at marked <;>
      rw [← marked, located inside, remainder] <;> rfl
  · intro given
    obtain ⟨aligned, inside, rfl⟩ := given
    refine ⟨_, mm, ⟨aligned, inside, rfl, rfl⟩, mm, mm, ⟨rfl, rfl⟩, _, mm, ⟨rfl, rfl⟩, ?_⟩
    cases usable <;> simp only [if_true, Bool.false_eq_true, if_false, returns_store8] <;>
      rw [located inside, remainder] <;> rfl

/-- A query answers with the bit of the page and changes nothing. -/
theorem returns_pmmQueryPage_of_fits (fits : mm.bitmapBase + mm.bitmapBytes ≤ 2 ^ 64) {found : Bool} :
    Returns (pmmQueryPage page) mm found mm' ↔
      page.toNat % 4096 = 0 ∧ page.toNat / 4096 < mm.pmmData.numPages.toNat ∧
      found = mm.usable (page.toNat / 4096) ∧ mm' = mm := by
  have quotient : (page / pageSize / charBit).toNat = page.toNat / 4096 / 8 := by
    rw [BitVec.toNat_udiv, toNat_div_pageSize]
    rfl
  have remainder : (page / pageSize % charBit).toNat = page.toNat / 4096 % 8 := by
    rw [BitVec.toNat_umod, toNat_div_pageSize]
    rfl
  have answer (inside : page.toNat / 4096 < mm.pmmData.numPages.toNat) :
      (mm.memory (mm.physical (mm.pmmData.bitmap + page / pageSize / charBit)) &&&
        1#8 <<< (page / pageSize % charBit).toNat != 0) = mm.usable (page.toNat / 4096) := by
    rw [Mm.physical_bitmap fits (by rw [quotient, Mm.bitmapBytes]; omega), quotient, remainder]
    simp only [Mm.usable, inside, decide_true, Bool.true_and]
    exact and_mask_ne_zero _ (Nat.mod_lt _ (by decide))
  simp only [pmmQueryPage, returns_bind, returns_pmmAddrToBitmapLocation, returns_get, returns_load8, returns_pure]
  constructor
  · intro returned
    obtain ⟨_, _, ⟨aligned, inside, rfl, rfl⟩, _, _, ⟨rfl, rfl⟩, _, _, ⟨rfl, rfl⟩, rfl, rfl⟩ := returned
    exact ⟨aligned, inside, answer inside, rfl⟩
  · intro given
    obtain ⟨aligned, inside, rfl, rfl⟩ := given
    exact ⟨_, _, ⟨aligned, inside, rfl, rfl⟩, mm', mm', ⟨rfl, rfl⟩, _, mm', ⟨rfl, rfl⟩, answer inside, rfl⟩

theorem returns_pmmMarkPage (placed : mm.Placed) {usable : Bool} :
    Returns (pmmMarkPage page usable) mm () mm' ↔
      page.toNat % 4096 = 0 ∧ page.toNat / 4096 < mm.pmmData.numPages.toNat ∧
      mm' = mm.mark (page.toNat / 4096) usable :=
  returns_pmmMarkPage_of_fits placed.fits

theorem returns_pmmQueryPage (placed : mm.Placed) {found : Bool} :
    Returns (pmmQueryPage page) mm found mm' ↔
      page.toNat % 4096 = 0 ∧ page.toNat / 4096 < mm.pmmData.numPages.toNat ∧
      found = mm.usable (page.toNat / 4096) ∧ mm' = mm :=
  returns_pmmQueryPage_of_fits placed.fits

end Page

section Panics

/-- A program of the memory manager stops only in a panic. -/
abbrev Panics {A : Type} (program : MmProgram A) : Prop := StopsOnly Stop.IsPanic program

theorem panics_load64 (pointer : Pointer) : Panics (load64 pointer) :=
  stopsOnly_bind stopsOnly_get fun _ => stopsOnly_pure _

theorem panics_store64 (pointer : Pointer) (word : BitVec 64) : Panics (store64 pointer word) :=
  stopsOnly_modify _

theorem panics_phyToVirt (paddr : Phy) : Panics (phyToVirt paddr) :=
  stopsOnly_bind stopsOnly_get fun _ => stopsOnly_pure _

theorem panics_memzero (s : Pointer) (n : BitVec 64) : Panics (memzero s n) := stopsOnly_modify _

theorem panics_pmmAddrToBitmapLocation (page : Phy) : Panics (pmmAddrToBitmapLocation page) := by
  refine stopsOnly_bind stopsOnly_panicIf fun _ => ?_
  refine stopsOnly_bind stopsOnly_get fun mm => ?_
  exact stopsOnly_bind stopsOnly_panicIf fun _ => stopsOnly_pure _

theorem panics_pmmMarkPage (page : Phy) (usable : Bool) : Panics (pmmMarkPage page usable) := by
  refine stopsOnly_bind (panics_pmmAddrToBitmapLocation page) fun location => ?_
  refine stopsOnly_bind stopsOnly_get fun mm => ?_
  refine stopsOnly_bind (stopsOnly_bind stopsOnly_get fun _ => stopsOnly_pure _) fun byte => ?_
  cases usable
  · exact stopsOnly_modify _
  · exact stopsOnly_modify _

theorem panics_pmmQueryPage (page : Phy) : Panics (pmmQueryPage page) := by
  refine stopsOnly_bind (panics_pmmAddrToBitmapLocation page) fun location => ?_
  refine stopsOnly_bind stopsOnly_get fun mm => ?_
  exact stopsOnly_bind (stopsOnly_bind stopsOnly_get fun _ => stopsOnly_pure _) fun _ => stopsOnly_pure _

theorem panics_pmmSearch (numPages : BitVec 64) (remaining i : Nat) : Panics (pmmSearch numPages remaining i) := by
  induction remaining generalizing i with
  | zero => exact stopsOnly_throw trivial
  | succ remaining ih =>
      have window : Panics (pmmQueryWindow i numPages) :=
        stopsOnly_forRange (fun _ _ => stopsOnly_bind (panics_pmmQueryPage _) fun _ => stopsOnly_pure _) _ _
      refine stopsOnly_bind window fun usable => ?_
      cases usable
      · exact ih (i + 1)
      · exact stopsOnly_bind (stopsOnly_forRange (fun _ _ => panics_pmmMarkPage _ _) _ _) fun _ => stopsOnly_pure _

theorem panics_pmmAllocPages (numPages : BitVec 64) : Panics (pmmAllocPages numPages) :=
  stopsOnly_bind stopsOnly_get fun _ => panics_pmmSearch numPages _ 0

end Panics

/-- Every page of a range got the same bit, and nothing else changed. -/
structure Marked (before after : Mm) (first count : Nat) (usable : Bool) : Prop where
  only : BitmapOnly before after
  within : 0 < count → first + count ≤ before.pmmData.numPages.toNat
  bits : ∀ page, after.usable page =
    if first ≤ page ∧ page < first + count then usable else before.usable page

namespace Marked

variable {before middle after : Mm} {first count : Nat} {usable : Bool}

theorem none (mm : Mm) (first : Nat) (usable : Bool) : Marked mm mm first 0 usable :=
  ⟨BitmapOnly.refl mm, by omega, fun page => by rw [if_neg (by omega)]⟩

/-- One more marked page extends the range. -/
theorem snoc (marked : Marked before middle first count usable)
    (inside : first + count < middle.pmmData.numPages.toNat) :
    Marked before (middle.mark (first + count) usable) first (count + 1) usable := by
  refine ⟨marked.only.trans (bitmapOnly_mark middle usable inside), fun _ => ?_, fun page => ?_⟩
  · rw [marked.only.numPages_eq] at inside
    omega
  · rw [usable_mark middle usable inside, marked.bits]
    split_ifs <;> first | rfl | omega

theorem usablePages_true (marked : Marked before after first count true) :
    after.usablePages = before.usablePages ∪ { page | first ≤ page ∧ page < first + count } := by
  ext page
  simp only [Mm.usablePages, Set.mem_ofPred_eq, Set.mem_union, marked.bits page]
  by_cases inside : first ≤ page ∧ page < first + count <;> simp [inside]

theorem usablePages_false (marked : Marked before after first count false) :
    after.usablePages = before.usablePages \ { page | first ≤ page ∧ page < first + count } := by
  ext page
  simp only [Mm.usablePages, Set.mem_ofPred_eq, Set.mem_sdiff, marked.bits page]
  by_cases inside : first ≤ page ∧ page < first + count <;> simp [inside]

/-- One taken page leaves the usable pages. -/
theorem usablePages_take (marked : Marked before after first 1 false) :
    after.usablePages = before.usablePages \ {first} := by
  rw [marked.usablePages_false]
  congr 1
  ext page
  simp only [Set.mem_ofPred_eq, Set.mem_singleton_iff]
  omega

end Marked

/-- A loop that marks consecutive addresses marks a range of pages. -/
theorem returns_markLoop {mm mm' : Mm} (placed : mm.Placed) {address : Nat → Phy} {base : Phy}
    {count : Nat} {usable : Bool}
    (steps : ∀ index, (address index).toNat = (base.toNat + index * 4096) % 2 ^ 64)
    (returned : Returns (forRange (fun index _ => pmmMarkPage (address index) usable) count ()) mm () mm') :
    Marked mm mm' (base.toNat / 4096) count usable := by
  refine returns_forRange (fun index _ state => Marked mm state (base.toNat / 4096) index usable)
    (Marked.none mm _ usable) ?_ returned
  intro index _ _ state state' _ marked stepped
  obtain ⟨aligned, inside, rfl⟩ := (returns_pmmMarkPage (marked.only.placed placed)).mp stepped
  have counted := placed.count
  have within := marked.within
  have total := base.isLt
  have step := steps index
  have place : (address index).toNat / 4096 = base.toNat / 4096 + index := by
    by_cases start : index = 0
    · subst start
      omega
    · have reached := within (by omega)
      omega
  rw [place] at inside ⊢
  exact marked.snoc inside

theorem toNat_pageOffset (base : BitVec 64) (index : Nat) :
    (base + BitVec.ofNat 64 index * pageSize).toNat = (base.toNat + index * 4096) % 2 ^ 64 := by
  simp [pageSize, BitVec.toNat_add, BitVec.toNat_mul, Nat.add_mod, Nat.mul_mod]

/-- A marked range is aligned, and exactly its pages change. -/
theorem returns_pmmMarkRange {mm mm' : Mm} (placed : mm.Placed) {base : Phy} {len : BitVec 64} {usable : Bool}
    (returned : Returns (pmmMarkRange base len usable) mm () mm') :
    base.toNat % 4096 = 0 ∧ len.toNat % 4096 = 0 ∧
      Marked mm mm' (base.toNat / 4096) (len.toNat / 4096) usable := by
  simp only [pmmMarkRange, returns_bind, returns_panicIf, ne_eq, not_not, aligned_iff] at returned
  obtain ⟨_, _, ⟨baseAligned, rfl⟩, _, _, ⟨lenAligned, rfl⟩, loop⟩ := returned
  rw [toNat_div_pageSize] at loop
  exact ⟨baseAligned, lenAligned, returns_markLoop placed (toNat_pageOffset base) loop⟩

/-- Freed pages become usable, and nothing else changes. -/
theorem returns_pmmFreePages {mm mm' : Mm} (placed : mm.Placed) {paddr : Phy} {numPages : BitVec 64}
    (returned : Returns (pmmFreePages paddr numPages) mm () mm') :
    Marked mm mm' (paddr.toNat / 4096) numPages.toNat true :=
  returns_markLoop placed (toNat_pageOffset paddr) returned

theorem toNat_window (start index : Nat) :
    ((BitVec.ofNat 64 start + BitVec.ofNat 64 index) * pageSize).toNat = (start + index) * 4096 % 2 ^ 64 := by
  simp [pageSize, BitVec.toNat_add, BitVec.toNat_mul, Nat.mul_mod]

/-- A window query stays inside memory and answers for every page of the window. -/
theorem returns_pmmQueryWindow {mm mm' : Mm} (placed : mm.Placed) {start : Nat} {numPages : BitVec 64}
    {found : Bool} (inside : start < mm.pmmData.numPages.toNat)
    (returned : Returns (pmmQueryWindow start numPages) mm found mm') :
    mm' = mm ∧ start + numPages.toNat ≤ mm.pmmData.numPages.toNat ∧
      (found = true ↔ ∀ index < numPages.toNat, mm.usable (start + index) = true) := by
  refine returns_forRange (fun index usable state => state = mm ∧ start + index ≤ mm.pmmData.numPages.toNat ∧
    (usable = true ↔ ∀ earlier < index, mm.usable (start + earlier) = true))
    ⟨rfl, by omega, by simp⟩ ?_ returned
  rintro index current next state state' _ ⟨rfl, reached, sofar⟩ stepped
  simp only [returns_bind, returns_pmmQueryPage placed, returns_pure, toNat_window] at stepped
  obtain ⟨_, _, ⟨_, bound, rfl, rfl⟩, rfl, rfl⟩ := stepped
  have counted := placed.count
  have place : (start + index) * 4096 % 2 ^ 64 / 4096 = start + index := by omega
  rw [place] at bound ⊢
  refine ⟨rfl, by omega, ?_⟩
  rw [Bool.and_eq_true, sofar]
  constructor
  · rintro ⟨before, last⟩ earlier below
    by_cases same : earlier = index
    · rw [same]; exact last
    · exact before earlier (by omega)
  · intro all
    exact ⟨fun earlier below => all earlier (by omega), all index (by omega)⟩

/-- The search hands out the first page of a usable window and marks the window. -/
theorem returns_pmmSearch {numPages : BitVec 64} {remaining start : Nat} {mm mm' : Mm} {paddr : Phy}
    (placed : mm.Placed) (total : start + remaining = mm.pmmData.numPages.toNat)
    (returned : Returns (pmmSearch numPages remaining start) mm paddr mm') :
    ∃ first, first < mm.pmmData.numPages.toNat ∧ paddr.toNat = first * 4096 ∧
      (∀ index < numPages.toNat, mm.usable (first + index) = true) ∧
      Marked mm mm' first numPages.toNat false := by
  induction remaining generalizing start with
  | zero => exact absurd returned (returns_throw _ _ _ _)
  | succ remaining ih =>
      have counted := placed.count
      rw [pmmSearch, returns_bind] at returned
      obtain ⟨found, middle, asked, next⟩ := returned
      obtain ⟨rfl, fits, answer⟩ := returns_pmmQueryWindow placed (by omega) asked
      cases found with
      | false => exact ih (by omega) next
      | true =>
          simp only [if_true, returns_bind, returns_pure] at next
          obtain ⟨_, _, taken, rfl, rfl⟩ := next
          have place : (BitVec.ofNat 64 start * pageSize).toNat = start * 4096 := by
            have exact := toNat_window start 0
            simp only [Nat.add_zero, BitVec.add_zero] at exact
            rw [exact]
            omega
          have steps (index : Nat) : ((BitVec.ofNat 64 start + BitVec.ofNat 64 index) * pageSize).toNat =
              ((BitVec.ofNat 64 start * pageSize).toNat + index * 4096) % 2 ^ 64 := by
            rw [toNat_window, place, Nat.add_mul]
          have marked := returns_markLoop placed steps taken
          rw [place, Nat.mul_div_cancel _ (by decide)] at marked
          exact ⟨start, by omega, place, answer.mp rfl, marked⟩

/-- An allocation hands out usable pages and marks exactly these pages. -/
theorem returns_pmmAllocPages {mm mm' : Mm} (placed : mm.Placed) {numPages : BitVec 64} {paddr : Phy}
    (returned : Returns (pmmAllocPages numPages) mm paddr mm') :
    paddr.toNat % 4096 = 0 ∧ paddr.toNat / 4096 < mm.pmmData.numPages.toNat ∧
      { page | paddr.toNat / 4096 ≤ page ∧ page < paddr.toNat / 4096 + numPages.toNat } ⊆ mm.usablePages ∧
      Marked mm mm' (paddr.toNat / 4096) numPages.toNat false := by
  simp only [pmmAllocPages, returns_bind, returns_get] at returned
  obtain ⟨_, _, ⟨rfl, rfl⟩, searched⟩ := returned
  obtain ⟨first, inside, place, free, marked⟩ := returns_pmmSearch placed (by omega) searched
  have quotient : paddr.toNat / 4096 = first := by omega
  rw [quotient]
  refine ⟨by omega, inside, ?_, marked⟩
  intro page given
  obtain ⟨lower, upper⟩ := given
  have found := free (page - first) (by omega)
  rwa [Nat.add_sub_cancel' lower] at found

end UmbralOS
