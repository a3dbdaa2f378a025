import UmbralOS.Proof.Memory.Bitmap

/-!
This file proves that the packed bitmap refines a map from pages to Booleans.
-/

namespace UmbralOS

open Library

/-- The abstract map says of each page whether it is usable. -/
abbrev PageMap := Nat → Bool

/-- The abstract update gives one value to a range of pages. -/
def PageMap.setRange (map : PageMap) (first count : Nat) (value : Bool) : PageMap := fun page =>
  if first ≤ page ∧ page < first + count then value else map page

/-- A call that updates the bitmap. -/
inductive MarkCall where
  | markPage (page : Phy) (usable : Bool)
  | markRange (base : Phy) (len : BitVec 64) (usable : Bool)

def MarkCall.run : MarkCall → MmProgram Unit
  | .markPage page usable => pmmMarkPage page usable
  | .markRange base len usable => pmmMarkRange base len usable

/-- The same update of the abstract map. -/
def MarkCall.apply (map : PageMap) : MarkCall → PageMap
  | .markPage page usable => map.setRange (page.toNat / 4096) 1 usable
  | .markRange base len usable => map.setRange (base.toNat / 4096) (len.toNat / 4096) usable

/-- The arguments are aligned, and they lie among the managed pages and in the address space. -/
def MarkCall.Inside (numPages : BitVec 64) : MarkCall → Prop
  | .markPage page _ => page.toNat % 4096 = 0 ∧ page.toNat / 4096 < numPages.toNat
  | .markRange base len _ => base.toNat % 4096 = 0 ∧ len.toNat % 4096 = 0 ∧
      base.toNat / 4096 + len.toNat / 4096 ≤ numPages.toNat ∧ base.toNat + len.toNat ≤ 2 ^ 64

/-- The bits of a range got one value, and every other bit and every other byte is unchanged. -/
structure BitsSet (before after : Mm) (first count : Nat) (usable : Bool) : Prop where
  only : BitmapOnly before after
  bits : after.bit = PageMap.setRange before.bit first count usable

namespace BitsSet

variable {before middle : Mm} {first count : Nat} {usable : Bool}

theorem none (mm : Mm) (first : Nat) (usable : Bool) : BitsSet mm mm first 0 usable where
  only := BitmapOnly.refl mm
  bits := by
    funext page
    rw [PageMap.setRange, if_neg (by omega)]

/-- One more marked page extends the range. -/
theorem snoc (set : BitsSet before middle first count usable)
    (inside : first + count < middle.pmmData.numPages.toNat) :
    BitsSet before (middle.mark (first + count) usable) first (count + 1) usable where
  only := set.only.trans (bitmapOnly_mark middle usable inside)
  bits := by
    funext page
    rw [bit_mark, set.bits, PageMap.setRange, PageMap.setRange]
    split_ifs <;> first | rfl | omega

end BitsSet

section Calls

variable {mm : Mm}

theorem BitmapOnly.fits {before after : Mm} (only : BitmapOnly before after)
    (fits : before.bitmapBase + before.bitmapBytes ≤ 2 ^ 64) : after.bitmapBase + after.bitmapBytes ≤ 2 ^ 64 := by
  rw [only.bitmapBase_eq, only.bitmapBytes_eq]
  exact fits

/-- A marked page is one set bit. -/
theorem pmmMarkPage_sets (fits : mm.bitmapBase + mm.bitmapBytes ≤ 2 ^ 64) {page : Phy} (usable : Bool)
    (aligned : page.toNat % 4096 = 0) (inside : page.toNat / 4096 < mm.pmmData.numPages.toNat) :
    ∃ mm', Returns (pmmMarkPage page usable) mm () mm' ∧ BitsSet mm mm' (page.toNat / 4096) 1 usable := by
  refine ⟨_, (returns_pmmMarkPage_of_fits fits).mpr ⟨aligned, inside, rfl⟩, ?_⟩
  exact (BitsSet.none mm (page.toNat / 4096) usable).snoc inside

/-- A marked range is one set bit for each of its pages. -/
theorem pmmMarkRange_sets (fits : mm.bitmapBase + mm.bitmapBytes ≤ 2 ^ 64) {base : Phy} {len : BitVec 64}
    (usable : Bool) (baseAligned : base.toNat % 4096 = 0) (lenAligned : len.toNat % 4096 = 0)
    (inside : base.toNat / 4096 + len.toNat / 4096 ≤ mm.pmmData.numPages.toNat)
    (ends : base.toNat + len.toNat ≤ 2 ^ 64) :
    ∃ mm', Returns (pmmMarkRange base len usable) mm () mm' ∧
      BitsSet mm mm' (base.toNat / 4096) (len.toNat / 4096) usable := by
  have loop : ∃ found mm', Returns (forRange (fun page _ => pmmMarkPage (base + BitVec.ofNat 64 page * pageSize) usable)
      (len / pageSize).toNat ()) mm found mm' ∧
      BitsSet mm mm' (base.toNat / 4096) (len / pageSize).toNat usable := by
    apply forRange_returns (fun page _ state => BitsSet mm state (base.toNat / 4096) page usable)
      (BitsSet.none mm _ usable)
    intro page current state below set
    rw [toNat_div_pageSize] at below
    have place : (base + BitVec.ofNat 64 page * pageSize).toNat = base.toNat + page * 4096 := by
      rw [toNat_pageOffset]
      omega
    have counted : base.toNat / 4096 + page < state.pmmData.numPages.toNat := by
      rw [set.only.numPages_eq]
      omega
    have quotient : (base + BitVec.ofNat 64 page * pageSize).toNat / 4096 = base.toNat / 4096 + page := by
      omega
    refine ⟨(), _, (returns_pmmMarkPage_of_fits (set.only.fits fits)).mpr ⟨by omega, by omega, rfl⟩, ?_⟩
    rw [quotient]
    exact set.snoc counted
  obtain ⟨_, mm', returned, set⟩ := loop
  rw [toNat_div_pageSize] at set
  refine ⟨mm', ?_, set⟩
  simp only [pmmMarkRange, returns_bind, returns_panicIf, ne_eq, not_not, aligned_iff]
  exact ⟨(), mm, ⟨baseAligned, rfl⟩, (), mm, ⟨lenAligned, rfl⟩, returned⟩

/-- Every call updates the bits as it updates the abstract map. -/
theorem MarkCall.refines (fits : mm.bitmapBase + mm.bitmapBytes ≤ 2 ^ 64) (call : MarkCall)
    (inside : call.Inside mm.pmmData.numPages) :
    ∃ mm', Returns call.run mm () mm' ∧ BitmapOnly mm mm' ∧ mm'.bit = call.apply mm.bit := by
  cases call with
  | markPage page usable =>
      obtain ⟨mm', returned, set⟩ := pmmMarkPage_sets fits usable inside.1 inside.2
      exact ⟨mm', returned, set.only, set.bits⟩
  | markRange base len usable =>
      obtain ⟨baseAligned, lenAligned, managed, ends⟩ := inside
      obtain ⟨mm', returned, set⟩ := pmmMarkRange_sets fits usable baseAligned lenAligned managed ends
      exact ⟨mm', returned, set.only, set.bits⟩

/-- A sequence of calls updates the bits as it updates the abstract map. -/
theorem markCalls_refine (fits : mm.bitmapBase + mm.bitmapBytes ≤ 2 ^ 64) (calls : List MarkCall)
    (inside : ∀ call ∈ calls, call.Inside mm.pmmData.numPages) :
    ∃ mm', Returns (calls.forM MarkCall.run) mm () mm' ∧ BitmapOnly mm mm' ∧
      mm'.bit = calls.foldl MarkCall.apply mm.bit := by
  refine forM_returns (fun processed state => BitmapOnly mm state ∧ state.bit = processed.foldl MarkCall.apply mm.bit)
    ⟨BitmapOnly.refl mm, rfl⟩ ?_
  intro processed call state member reached
  obtain ⟨only, bits⟩ := reached
  have within : call.Inside state.pmmData.numPages := by
    rw [only.numPages_eq]
    exact inside call member
  obtain ⟨state', returned, next, set⟩ := call.refines (only.fits fits) within
  refine ⟨state', returned, only.trans next, ?_⟩
  rw [set, bits, List.foldl_append]
  rfl

/-- A call inside the managed pages changes no bit above them. -/
theorem MarkCall.apply_above (map : PageMap) {numPages : BitVec 64} {call : MarkCall} (inside : call.Inside numPages)
    {index : Nat} (above : numPages.toNat ≤ index) : call.apply map index = map index := by
  cases call with
  | markPage page usable =>
      have counted := inside.2
      exact if_neg (by omega)
  | markRange base len usable =>
      obtain ⟨_, _, managed, _⟩ := inside
      exact if_neg (by omega)

theorem foldl_apply_above (map : PageMap) {numPages : BitVec 64} {calls : List MarkCall}
    (inside : ∀ call ∈ calls, call.Inside numPages) {index : Nat} (above : numPages.toNat ≤ index) :
    calls.foldl MarkCall.apply map index = map index := by
  induction calls generalizing map with
  | nil => rfl
  | cons call calls ih =>
      rw [List.foldl_cons, ih _ fun other member => inside other (by simp [member])]
      exact MarkCall.apply_above map (inside call (by simp)) above

/-- The index of a located page is inside the bitmap. -/
theorem pmmAddrToBitmapLocation_inside {mm' : Mm} {page : Phy} {location : BitVec 64 × BitVec 8}
    (located : Returns (pmmAddrToBitmapLocation page) mm location mm') : location.1.toNat < mm.bitmapBytes := by
  obtain ⟨_, inside, rfl, _⟩ := returns_pmmAddrToBitmapLocation.mp located
  rw [BitVec.toNat_udiv, toNat_div_pageSize, Mm.bitmapBytes]
  change page.toNat / 4096 / 8 < _
  omega

end Calls

/-- After any sequence of updates inside the managed pages, each query answers as the abstract map, each byte index
is inside the bitmap, and the padding bits are as they were. -/
theorem bitmap_refines_page_map {mm : Mm} (fits : mm.bitmapBase + mm.bitmapBytes ≤ 2 ^ 64) (calls : List MarkCall)
    (inside : ∀ call ∈ calls, call.Inside mm.pmmData.numPages) :
    ∃ mm', Returns (calls.forM MarkCall.run) mm () mm' ∧ BitmapOnly mm mm' ∧
      (∀ page : Phy, page.toNat % 4096 = 0 → page.toNat / 4096 < mm.pmmData.numPages.toNat →
        Returns (pmmQueryPage page) mm' (calls.foldl MarkCall.apply mm.bit (page.toNat / 4096)) mm') ∧
      (∀ (state state' : Mm) (page : Phy) (location : BitVec 64 × BitVec 8),
        Returns (pmmAddrToBitmapLocation page) state location state' →
        location.1.toNat < (state.pmmData.numPages.toNat + 7) / 8) ∧
      ∀ index, mm.pmmData.numPages.toNat ≤ index → mm.bit index = false → mm'.bit index = false := by
  obtain ⟨mm', returned, only, bits⟩ := markCalls_refine fits calls inside
  refine ⟨mm', returned, only, ?_, fun _ _ _ _ located => pmmAddrToBitmapLocation_inside located, ?_⟩
  · intro page aligned counted
    apply (returns_pmmQueryPage_of_fits (only.fits fits)).mpr
    refine ⟨aligned, by rwa [only.numPages_eq], ?_, rfl⟩
    rw [← bits, Mm.usable, only.numPages_eq, decide_eq_true counted, Bool.true_and]
    rfl
  · intro index above clear
    rw [bits, foldl_apply_above mm.bit inside above]
    exact clear

/-- Eleven pages need two bytes, and the second byte has five padding bits. -/
def sampleBitmap : Mm where
  memory := fun _ => 0
  pmmData := ⟨11#64, 0x3000#64⟩
  pHHDM := 0
  pml4 := 0
  cr3 := 0
  msr := fun _ => 0
  cpuid := fun _ _ => ⟨0, 0, 0, 0⟩

/-- A taken page in a usable range is not usable, and its neighbour in the same byte is. -/
theorem bitmap_refines_page_map_sample : ∃ mm',
    Returns ([MarkCall.markRange 0#64 0xB000#64 true, .markPage 0x9000#64 false].forM MarkCall.run) sampleBitmap () mm' ∧
      Returns (pmmQueryPage 0x9000#64) mm' false mm' ∧ Returns (pmmQueryPage 0xA000#64) mm' true mm' := by
  have inside : ∀ call ∈ [MarkCall.markRange 0#64 0xB000#64 true, .markPage 0x9000#64 false],
      call.Inside sampleBitmap.pmmData.numPages := by
    intro call member
    simp only [List.mem_cons, List.not_mem_nil, or_false] at member
    rcases member with rfl | rfl
    · exact ⟨by decide, by decide, by decide, by decide⟩
    · exact ⟨by decide, by decide⟩
  obtain ⟨mm', returned, _, answers, _⟩ := bitmap_refines_page_map (by decide) _ inside
  exact ⟨mm', returned, answers 0x9000#64 (by decide) (by decide), answers 0xA000#64 (by decide) (by decide)⟩

end UmbralOS
