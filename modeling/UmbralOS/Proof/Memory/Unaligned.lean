import UmbralOS.Proof.Memory.Rights

/-!
This file proves that an unaligned mapping call covers exactly the requested bytes.
-/

namespace UmbralOS

open Library PathTree

/-- The physical address of an address under its translation. -/
def Translation.address (translation : Translation) (virt : Pointer) : Nat :=
  translation.page * 4096 + virt.toNat % 4096

section Unaligned

variable {what : Phy} {virt : Pointer} {size : BitVec 64} {flags : BitVec 32}

/-- The rounded call covers the pages that share a byte with the range. -/
theorem unalignedCall_covers (congruent : what.toNat % 4096 = virt.toNat % 4096) (some : 1 ≤ size.toNat)
    (physical : what.toNat + size.toNat ≤ 2 ^ 52) (found : Pointer) :
    (unalignedCall what virt size flags).Covers found ↔
      ∃ k < size.toNat, (virt.toNat + k) / 4096 = found.toNat / 4096 := by
  have length := toNat_unalignedCall_size physical virt flags
  have start : (unalignedCall what virt size flags).virt.toNat = virt.toNat / 4096 * 4096 := toNat_roundDown_page virt
  rw [MapCall.Covers, start, length]
  constructor
  · intro ⟨lower, upper⟩
    -- The page starts before the range, or its first byte lies in the range.
    by_cases first : found.toNat / 4096 = virt.toNat / 4096
    · exact ⟨0, by omega, by omega⟩
    · exact ⟨found.toNat / 4096 * 4096 - virt.toNat, by omega, by omega⟩
  · intro ⟨k, inside, same⟩
    omega

/-- The rounded call fits when the bytes of the range are canonical. -/
theorem unalignedCall_fits (congruent : what.toNat % 4096 = virt.toNat % 4096) (some : 1 ≤ size.toNat)
    (physical : what.toNat + size.toNat ≤ 2 ^ 52) (ends : virt.toNat + size.toNat ≤ 2 ^ 64)
    (canonical : ∀ k < size.toNat, Canonical (virt + BitVec.ofNat 64 k)) :
    (unalignedCall what virt size flags).Fits := by
  have length := toNat_unalignedCall_size physical virt flags
  have start : (unalignedCall what virt size flags).what.toNat = what.toNat / 4096 * 4096 := toNat_roundDown_page what
  refine ⟨fun found inside => ?_, ?_⟩
  · obtain ⟨k, below, same⟩ := (unalignedCall_covers congruent some physical found).mp inside
    have byte := canonical k below
    have sum : (virt + BitVec.ofNat 64 k).toNat = virt.toNat + k := by
      rw [BitVec.toNat_add, BitVec.toNat_ofNat]
      omega
    unfold Canonical at byte ⊢
    rw [sum] at byte
    omega
  · rw [start, length]
    omega

theorem unalignedCall_whole (congruent : what.toNat % 4096 = virt.toNat % 4096) (some : 1 ≤ size.toNat)
    (physical : what.toNat + size.toNat ≤ 2 ^ 52) (ends : virt.toNat + size.toNat ≤ 2 ^ 64)
    (canonical : ∀ k < size.toNat, Canonical (virt + BitVec.ofNat 64 k)) :
    (unalignedCall what virt size flags).Whole := by
  have length := toNat_unalignedCall_size physical virt flags
  have first : (unalignedCall what virt size flags).what.toNat = what.toNat / 4096 * 4096 := toNat_roundDown_page what
  have start : (unalignedCall what virt size flags).virt.toNat = virt.toNat / 4096 * 4096 := toNat_roundDown_page virt
  refine ⟨unalignedCall_fits congruent some physical ends canonical, by omega, by omega, ?_⟩
  rw [start, length]
  omega

end Unaligned

/-- An unaligned call that returns translates each byte of its range to the byte at the same offset, with the
requested rights and memory type. It changes no page that shares no byte with the range. -/
theorem vmm_map_unaligned_exact {start mm mm' : Mm} {owned live : Set Nat} {calls : List MapCall}
    (zeroed : RootZeroed start owned) (run : TableRun start owned calls mm live) {what : Phy} {virt : Pointer}
    {size : BitVec 64} {flags : BitVec 32} (congruent : what.toNat % 4096 = virt.toNat % 4096) (some : 1 ≤ size.toNat)
    (physical : what.toNat + size.toNat ≤ 2 ^ 52) (ends : virt.toNat + size.toNat ≤ 2 ^ 64)
    (canonical : ∀ k < size.toNat, Canonical (virt + BitVec.ofNat 64 k))
    (returned : Returns (vmmMapUnaligned what virt size flags) mm () mm') :
    (∀ k < size.toNat, ∃ translation, mm'.translate (virt + BitVec.ofNat 64 k) = .some translation ∧
      translation.address (virt + BitVec.ofNat 64 k) = what.toNat + k ∧
      translation = requested translation.page flags ∧ mm'.Granted (virt + BitVec.ofNat 64 k)) ∧
    ∀ found, Canonical found → (∀ k < size.toNat, (virt.toNat + k) / 4096 ≠ found.toNat / 4096) →
      mm'.translate found = mm.translate found := by
  have invariant := run.invariant zeroed
  have fits := @unalignedCall_fits what virt size flags congruent some physical ends canonical
  rw [vmmMapUnaligned_eq_run] at returned
  obtain ⟨accepted, remapped⟩ := returns_vmmMap invariant.tabled invariant.attributes fits.physical returned
  have translate (found : Pointer) (inside : Canonical found) : mm'.translate found =
      ((unalignedCall what virt size flags).rule found).or (mm.translate found) := by
    rw [remapped.translate, ← MapCall.lastApplicable_rules fits accepted inside]
    rfl
  have whatStart : (unalignedCall what virt size flags).what.toNat = what.toNat / 4096 * 4096 :=
    toNat_roundDown_page what
  have virtStart : (unalignedCall what virt size flags).virt.toNat = virt.toNat / 4096 * 4096 :=
    toNat_roundDown_page virt
  constructor
  · intro k below
    have sum : (virt + BitVec.ofNat 64 k).toNat = virt.toNat + k := by
      rw [BitVec.toNat_add, BitVec.toNat_ofNat]
      omega
    have covered : (unalignedCall what virt size flags).Covers (virt + BitVec.ofNat 64 k) :=
      (unalignedCall_covers congruent some physical _).mpr ⟨k, below, by rw [sum]⟩
    have found := translate _ (canonical k below)
    rw [MapCall.rule_inside covered, Option.some_or] at found
    refine ⟨_, found, ?_, rfl, remapped.grown.tabled.granted (by rw [found]; exact Option.some_ne_none _)⟩
    simp only [Translation.address, requested, whatStart, virtStart, sum]
    omega
  · intro found inside apart
    have outside : ¬ (unalignedCall what virt size flags).Covers found := by
      intro covered
      obtain ⟨k, below, same⟩ := (unalignedCall_covers congruent some physical found).mp covered
      exact apart k below same
    rw [translate found inside, MapCall.rule_outside outside, Option.none_or]

/-- A sample range of two bytes lies in two pages. -/
theorem vmm_map_unaligned_exact_sample :
    ∃ translation, (lastState (vmmMapUnaligned 0xCFFF#64 0xFFFF900000000FFF#64 0x2#64 mW) sampleRoot).translate
        (0xFFFF900000000FFF#64 + BitVec.ofNat 64 1) = some translation ∧
      translation.address (0xFFFF900000000FFF#64 + BitVec.ofNat 64 1) = 0xD000 := by
  have mapped : Returns (vmmMapUnaligned 0xCFFF#64 0xFFFF900000000FFF#64 0x2#64 mW) sampleRoot ()
      (lastState (vmmMapUnaligned 0xCFFF#64 0xFFFF900000000FFF#64 0x2#64 mW) sampleRoot) :=
    returns_lastState (by decide +kernel)
  obtain ⟨translation, found, place, _⟩ := (vmm_map_unaligned_exact sampleRoot_zeroed (@TableRun.start sampleRoot ∅)
    (by decide) (by decide) (by decide) (by decide) (by decide) mapped).1 1 (by decide)
  exact ⟨translation, found, place⟩

end UmbralOS
