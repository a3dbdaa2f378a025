import UmbralOS.Proof.Memory.FirstFit
import Mathlib.Data.List.MinMax
import Mathlib.Order.Nat

/-!
This file proves when the allocator finds room for its bitmap at boot.
-/

namespace UmbralOS

open Library

/-- The highest end of an entry of the memory map. -/
def highestEnd (memmap : List LimineMemmapEntry) : Nat :=
  (memmap.map fun entry => entry.base.toNat + entry.length.toNat).foldr max 0

/-- The bitmap needs one bit for each page below the highest end. -/
def bitmapRoom (memmap : List LimineMemmapEntry) : Nat := ((highestEnd memmap + 4095) / 4096 + 7) / 8

/-- The allocator reports that no usable entry holds its bitmap. -/
def noRoom (size : Nat) : Stop :=
  .panic "Unable to locate usable memory region suitable for PMM bitmap. Needed 0x%lx bytes\n" [BitVec.ofNat 64 size]

section Highest

variable {memmap : List LimineMemmapEntry}

/-- The machine word of the highest end does not wrap. -/
theorem toNat_highestAddr (ends : ∀ entry ∈ memmap, entry.base.toNat + entry.length.toNat ≤ 2 ^ 52) :
    (highestAddr memmap).toNat = highestEnd memmap := by
  have general : ∀ (rest : List LimineMemmapEntry) (word : BitVec 64),
      (∀ entry ∈ rest, entry.base.toNat + entry.length.toNat ≤ 2 ^ 52) →
      (rest.foldl (fun highest entry => if highest < entry.base + entry.length then entry.base + entry.length
        else highest) word).toNat = max word.toNat (highestEnd rest) := by
    intro rest
    induction rest with
    | nil => exact fun word _ => (Nat.max_zero word.toNat).symm
    | cons entry rest ih =>
        intro word bounds
        have bound := bounds entry (by simp)
        have sum : (entry.base + entry.length).toNat = entry.base.toNat + entry.length.toNat := by
          rw [BitVec.toNat_add]
          omega
        have first : highestEnd (entry :: rest) = max (entry.base.toNat + entry.length.toNat) (highestEnd rest) := rfl
        rw [List.foldl_cons, ih _ fun found member => bounds found (by simp [member]), first, ← Nat.max_assoc]
        congr 1
        split_ifs with below
        · rw [BitVec.lt_def, sum] at below
          omega
        · rw [BitVec.lt_def, sum] at below
          omega
  have started := general memmap 0 ends
  rwa [show BitVec.toNat (0 : BitVec 64) = 0 from rfl, Nat.zero_max] at started

/-- Every entry ends at the highest end or before it. -/
theorem le_highestEnd {entry : LimineMemmapEntry} (member : entry ∈ memmap) :
    entry.base.toNat + entry.length.toNat ≤ highestEnd memmap :=
  List.le_max_of_le (List.mem_map_of_mem member) (Nat.le_refl _)

/-- The highest end is below the bound of the entries. -/
theorem highestEnd_le (ends : ∀ entry ∈ memmap, entry.base.toNat + entry.length.toNat ≤ 2 ^ 52) :
    highestEnd memmap ≤ 2 ^ 52 := by
  apply List.max_le_of_forall_le
  intro found member
  obtain ⟨entry, inside, rfl⟩ := List.mem_map.mp member
  exact ends entry inside

/-- The kernel counts the pages up to the highest end. -/
theorem toNat_numPages (ends : ∀ entry ∈ memmap, entry.base.toNat + entry.length.toNat ≤ 2 ^ 52) :
    (roundUp (highestAddr memmap) pageSize / pageSize).toNat = (highestEnd memmap + 4095) / 4096 := by
  have bound := highestEnd_le ends
  have word := toNat_highestAddr ends
  rw [toNat_pageCount (by omega), word]

/-- The kernel computes the room of the bitmap. -/
theorem toNat_bitmapRoom (ends : ∀ entry ∈ memmap, entry.base.toNat + entry.length.toNat ≤ 2 ^ 52) :
    (bitmapSize (roundUp (highestAddr memmap) pageSize / pageSize)).toNat = bitmapRoom memmap := by
  have bound := highestEnd_le ends
  have count := toNat_numPages ends
  rw [toNat_bitmapSize (by omega), count, bitmapRoom]

end Highest

/-- The first usable entry that is longer than the bitmap does not start at address zero. -/
def FirstLongerEntry (memmap : List LimineMemmapEntry) : Prop :=
  ∃ earlier entry later, memmap = earlier ++ entry :: later ∧ entry.Usable ∧
    bitmapRoom memmap < entry.length.toNat ∧ entry.base ≠ 0 ∧
    ∀ found ∈ earlier, found.Usable → found.length.toNat ≤ bitmapRoom memmap

theorem bitmapRegion_ne_zero_iff {memmap : List LimineMemmapEntry} {size : BitVec 64}
    (room : size.toNat = bitmapRoom memmap) : bitmapRegion memmap size ≠ 0 ↔ FirstLongerEntry memmap := by
  constructor
  · intro found
    unfold bitmapRegion at found
    cases search : memmap.find? fun entry => entry.type = .usable ∧ size < entry.length with
    | none =>
        rw [search] at found
        exact absurd rfl found
    | some entry =>
        rw [search] at found
        obtain ⟨chosen, earlier, later, split, skipped⟩ := List.find?_eq_some_iff_append.mp search
        rw [decide_eq_true_eq, BitVec.lt_def, room] at chosen
        refine ⟨earlier, entry, later, split, chosen.1, chosen.2, found, fun other member usable => ?_⟩
        have short := skipped other member
        rw [Bool.not_eq_true', decide_eq_false_iff_not, BitVec.lt_def, room, not_and, Nat.not_lt] at short
        exact short usable
  · intro given
    obtain ⟨earlier, entry, later, split, usable, longer, base, skipped⟩ := given
    have search : memmap.find? (fun entry => entry.type = .usable ∧ size < entry.length) = some entry := by
      apply List.find?_eq_some_iff_append.mpr
      refine ⟨?_, earlier, later, split, fun other member => ?_⟩
      · rw [decide_eq_true_eq, BitVec.lt_def, room]
        exact ⟨usable, longer⟩
      · rw [Bool.not_eq_true', decide_eq_false_iff_not, BitVec.lt_def, room, not_and, Nat.not_lt]
        exact skipped other member
    unfold bitmapRegion
    rw [search]
    exact base

/-- An aligned range inside memory is marked. -/
theorem pmmMarkRange_returns {mm : Mm} (placed : mm.Placed) {base : Phy} {len : BitVec 64} {usable : Bool}
    (baseAligned : base.toNat % 4096 = 0) (lenAligned : len.toNat % 4096 = 0)
    (fits : base.toNat / 4096 + len.toNat / 4096 ≤ mm.pmmData.numPages.toNat) :
    ∃ mm', Returns (pmmMarkRange base len usable) mm () mm' ∧ BitmapOnly mm mm' := by
  rw [← toNat_div_pageSize len] at fits
  obtain ⟨mm', loop, marked⟩ := @markLoop_returns mm placed _ _ _ usable baseAligned (toNat_pageOffset base) fits
  refine ⟨mm', ?_, marked.only⟩
  simp only [pmmMarkRange, returns_bind, returns_panicIf, ne_eq, not_not, aligned_iff]
  exact ⟨(), mm, ⟨baseAligned, rfl⟩, (), mm, ⟨lenAligned, rfl⟩, loop⟩

/-- The usable entries inside memory are marked. -/
theorem markEntries_returns {mm : Mm} (placed : mm.Placed) {memmap : List LimineMemmapEntry}
    (aligned : ∀ entry ∈ memmap, entry.Usable → entry.Aligned)
    (fits : ∀ entry ∈ memmap, entry.base.toNat + entry.length.toNat ≤ mm.pmmData.numPages.toNat * 4096) :
    ∃ mm', Returns (memmap.forM fun entry =>
      if entry.type = .usable then pmmMarkRange entry.base entry.length true else pure ()) mm () mm' ∧
      BitmapOnly mm mm' := by
  apply forM_returns (fun _ state => BitmapOnly mm state) (BitmapOnly.refl mm)
  intro _ entry state member only
  by_cases usable : entry.type = .usable
  · obtain ⟨baseAligned, lengthAligned⟩ := aligned entry member usable
    have inside := fits entry member
    rw [← only.numPages_eq] at inside
    obtain ⟨state', marked, kept⟩ := @pmmMarkRange_returns state (only.placed placed) _ _ true baseAligned lengthAligned
      (by omega)
    rw [if_pos usable]
    exact ⟨state', marked, only.trans kept⟩
  · rw [if_neg usable]
    exact ⟨state, (returns_pure _ _ _ _).mpr ⟨rfl, rfl⟩, only⟩

section Init

variable {memmap : List LimineMemmapEntry} {phhdm : Pointer} {mm : Mm}

/-- The start of the allocator returns when it finds a region for its bitmap. -/
theorem pmmInit_returns (aligned : ∀ entry ∈ memmap, entry.Usable → entry.Aligned)
    (ends : ∀ entry ∈ memmap, entry.base.toNat + entry.length.toNat ≤ 2 ^ 52)
    (found : bitmapRegion memmap (bitmapSize (roundUp (highestAddr memmap) pageSize / pageSize)) ≠ 0) :
    ∃ mm', Returns (pmmInit memmap phhdm) mm () mm' := by
  obtain ⟨entry, member, usable, longer, base⟩ := bitmapRegion_spec found
  have bound := highestEnd_le ends
  have count := toNat_numPages ends
  have size := toNat_bitmapRoom ends
  have last := le_highestEnd member
  obtain ⟨baseAligned, lengthAligned⟩ := aligned entry member usable
  rw [BitVec.lt_def] at longer
  simp only [pmmInit, returns_bind, returns_modify, returns_panicIf, returns_phyToVirt, returns_memzero]
  generalize roundUp (highestAddr memmap) pageSize / pageSize = numPages at *
  generalize bitmapSize numPages = bytes at *
  have room : bytes.toNat = (numPages.toNat + 7) / 8 := by
    rw [size, bitmapRoom, count]
  let start : Mm := {
    memory := mm.memory.fill (phhdm + entry.base - phhdm).toNat bytes.toNat 0
    pmmData := ⟨numPages, phhdm + entry.base⟩
    pHHDM := phhdm, pml4 := mm.pml4, cr3 := mm.cr3, msr := mm.msr, cpuid := mm.cpuid }
  have startBase : start.bitmapBase = entry.base.toNat := by
    simp only [Mm.bitmapBase, Mm.physical, start]
    congr 1
    bv_omega
  have startBytes : start.bitmapBytes = (numPages.toNat + 7) / 8 := rfl
  have placed : start.Placed := by
    refine ⟨?_, ?_⟩
    · rw [startBase, startBytes]
      omega
    · change numPages.toNat < 2 ^ 52
      omega
  obtain ⟨marked, loop, only⟩ := @markEntries_returns start placed memmap aligned fun other inside => by
    have upper := le_highestEnd inside
    change _ ≤ numPages.toNat * 4096
    omega
  have whole : (roundUp bytes pageSize).toNat = (bytes.toNat + 4095) / 4096 * 4096 := by
    rw [toNat_roundUp, show pageSize.toNat = 4096 from rfl]
    split_ifs <;> omega
  have total : marked.pmmData.numPages.toNat = numPages.toNat := by rw [only.numPages_eq]
  obtain ⟨mm', taken, _⟩ := @pmmMarkRange_returns marked (only.placed placed) entry.base (roundUp bytes pageSize) false
    baseAligned (by omega) (by omega)
  refine ⟨mm', (), _, rfl, (), _, rfl, (), _, ⟨found, rfl⟩, _, _, ⟨rfl, rfl⟩, (), _, rfl, (), _, rfl, (), marked, ?_, ?_⟩
  · rw [base]
    exact loop
  · rw [base]
    exact taken

/-- The start of the allocator stops in its own report when it finds no region. -/
theorem stops_pmmInit (none : bitmapRegion memmap (bitmapSize (roundUp (highestAddr memmap) pageSize / pageSize)) = 0) :
    ∃ mm', Stops (pmmInit memmap phhdm) mm
      (noRoom (bitmapSize (roundUp (highestAddr memmap) pageSize / pageSize)).toNat) mm' := by
  have report : noRoom (bitmapSize (roundUp (highestAddr memmap) pageSize / pageSize)).toNat = .panic
      "Unable to locate usable memory region suitable for PMM bitmap. Needed 0x%lx bytes\n"
      [bitmapSize (roundUp (highestAddr memmap) pageSize / pageSize)] := by
    rw [noRoom, BitVec.ofNat_toNat, BitVec.setWidth_eq]
  simp only [pmmInit, stops_bind, returns_modify, stops_modify, stops_panicIf, false_or]
  exact ⟨_, (), _, rfl, (), _, rfl, Or.inl ⟨none, report.symm, rfl⟩⟩

end Init

/-- The start of the allocator completes exactly when a usable entry holds its bitmap, and it stops only in its own
report. -/
def FindsRoom (memmap : List LimineMemmapEntry) (phhdm : Pointer) (mm : Mm) : Prop :=
  ((∃ mm', Returns (pmmInit memmap phhdm) mm () mm') ↔
    ∃ entry ∈ memmap, entry.Usable ∧ bitmapRoom memmap ≤ entry.length.toNat) ∧
  ∀ reason mm', Stops (pmmInit memmap phhdm) mm reason mm' → reason = noRoom (bitmapRoom memmap)

/-- The allocator finds room exactly when no usable entry holds the bitmap, or when the first usable entry that is
longer than the bitmap does not start at address zero. -/
theorem pmm_init_finds_room_iff {memmap : List LimineMemmapEntry} {phhdm : Pointer} {mm : Mm}
    (aligned : ∀ entry ∈ memmap, entry.Usable → entry.Aligned)
    (ends : ∀ entry ∈ memmap, entry.base.toNat + entry.length.toNat ≤ 2 ^ 52) :
    FindsRoom memmap phhdm mm ↔
      (∀ entry ∈ memmap, entry.Usable → entry.length.toNat < bitmapRoom memmap) ∨ FirstLongerEntry memmap := by
  have size := toNat_bitmapRoom ends
  by_cases found : bitmapRegion memmap (bitmapSize (roundUp (highestAddr memmap) pageSize / pageSize)) = 0
  · obtain ⟨mm', stopped⟩ := @stops_pmmInit memmap phhdm mm found
    have absent : ¬ FirstLongerEntry memmap := fun longer => (bitmapRegion_ne_zero_iff size).mpr longer found
    have fails : ¬ ∃ mm', Returns (pmmInit memmap phhdm) mm () mm' := fun ⟨_, returned⟩ =>
      returned.not_stops stopped
    rw [size] at stopped
    simp only [absent, or_false]
    constructor
    · intro finds entry member usable
      by_contra room
      exact fails (finds.1.mpr ⟨entry, member, usable, by omega⟩)
    · intro short
      refine ⟨iff_of_false fails ?_, fun _ _ other => (stopped.unique other).1.symm⟩
      intro given
      obtain ⟨entry, member, usable, room⟩ := given
      have less := short entry member usable
      omega
  · obtain ⟨mm', returned⟩ := @pmmInit_returns memmap phhdm mm aligned ends found
    obtain ⟨entry, member, usable, longer, _⟩ := bitmapRegion_spec found
    rw [BitVec.lt_def, size] at longer
    refine iff_of_true ⟨iff_of_true ⟨mm', returned⟩ ⟨entry, member, usable, by omega⟩, ?_⟩
      (Or.inr ((bitmapRegion_ne_zero_iff size).mp found))
    exact fun _ _ stopped => absurd stopped returned.not_stops

theorem pmm_init_finds_room_iff_sample : FindsRoom sampleMemmap sampleHhdm sampleBoot ↔
    (∀ entry ∈ sampleMemmap, entry.Usable → entry.length.toNat < bitmapRoom sampleMemmap) ∨
      FirstLongerEntry sampleMemmap :=
  pmm_init_finds_room_iff (by decide) (by decide)

/-- The one usable entry has exactly the size of the bitmap. -/
def exactFitMemmap : List LimineMemmapEntry :=
  [⟨0x1000#64, 0x1000#64, .usable⟩, ⟨0x7FFF000#64, 0x1000#64, .reserved⟩]

/-- The first usable entry starts at address zero. -/
def zeroBaseMemmap : List LimineMemmapEntry :=
  [⟨0x0#64, 0x1000#64, .usable⟩, ⟨0x1000#64, 0x1000#64, .usable⟩]

/-- A map with room for the bitmap finds none when its region counts as absent. -/
theorem not_findsRoom {memmap : List LimineMemmapEntry} {phhdm : Pointer} {mm : Mm}
    (none : bitmapRegion memmap (bitmapSize (roundUp (highestAddr memmap) pageSize / pageSize)) = 0)
    (room : ∃ entry ∈ memmap, entry.Usable ∧ bitmapRoom memmap ≤ entry.length.toNat) :
    ¬ FindsRoom memmap phhdm mm := by
  intro finds
  obtain ⟨_, returned⟩ := finds.1.mpr room
  obtain ⟨_, stopped⟩ := @stops_pmmInit memmap phhdm mm none
  exact returned.not_stops stopped

/-- The length test rejects an entry that fits exactly, and the address zero counts as absent. -/
theorem room_is_missed :
    (PooledMap exactFitMemmap ∧ (∀ entry ∈ exactFitMemmap, entry.base.toNat + entry.length.toNat ≤ 2 ^ 52) ∧
      ¬ FindsRoom exactFitMemmap sampleHhdm sampleBoot) ∧
    PooledMap zeroBaseMemmap ∧ (∀ entry ∈ zeroBaseMemmap, entry.base.toNat + entry.length.toNat ≤ 2 ^ 52) ∧
      ¬ FindsRoom zeroBaseMemmap sampleHhdm sampleBoot := by
  refine ⟨⟨pooledMap_of_sorted (by decide) (by decide), by decide, not_findsRoom (by decide) ?_⟩,
    pooledMap_of_sorted (by decide) (by decide), by decide, not_findsRoom (by decide) ?_⟩
  · exact ⟨⟨0x1000#64, 0x1000#64, .usable⟩, by decide, by decide, by decide⟩
  · exact ⟨⟨0x0#64, 0x1000#64, .usable⟩, by decide, by decide, by decide⟩

end UmbralOS
