import Mathlib.Tactic.Common
import Mathlib.Data.Set.Lattice
import Mathlib.Order.CompletePartialOrder

/-!
This file gives the accounts of an allocator over sets of items.
-/

namespace UmbralOS.Library

variable {Item : Type}

/-- Every item of the pool is kept back, in use, or free, and never two of these. -/
structure Balanced (pool kept live free : Set Item) : Prop where
  free_eq : free = pool \ (kept ∪ live)
  live_within : live ⊆ pool \ kept

namespace Balanced

variable {pool kept live free handed released donated stack : Set Item}

/-- An allocator starts with every item of its pool free except the kept ones. -/
theorem start (pool kept : Set Item) : Balanced pool kept ∅ (pool \ kept) :=
  ⟨by simp, Set.empty_subset _⟩

/-- A free item is not in use. -/
theorem free_live (balanced : Balanced pool kept live free) : Disjoint free live := by
  rw [balanced.free_eq, Set.disjoint_left]
  rintro item ⟨_, outside⟩ used
  exact outside (Or.inr used)

/-- The allocator hands out free items. -/
theorem hand (balanced : Balanced pool kept live free) (available : handed ⊆ free) :
    Balanced pool kept (live ∪ handed) (free \ handed) := by
  constructor
  · rw [balanced.free_eq, Set.sdiff_sdiff, Set.union_assoc]
  · apply Set.union_subset balanced.live_within
    intro item member
    have found := available member
    rw [balanced.free_eq] at found
    exact ⟨found.1, fun keeps => found.2 (Or.inl keeps)⟩

/-- A client gives back items that are in use. -/
theorem release (balanced : Balanced pool kept live free) (owned : released ⊆ live) :
    Balanced pool kept (live \ released) (free ∪ released) := by
  constructor
  · ext item
    have within := @balanced.live_within item
    have back := @owned item
    simp only [balanced.free_eq, Set.mem_union, Set.mem_sdiff] at within ⊢
    tauto
  · exact fun item member => balanced.live_within member.1

/-- A donation adds new items to the pool and keeps back a part of the items that are not in use. -/
theorem donate (balanced : Balanced pool kept live free)
    (fresh : Disjoint donated kept) (unused : Disjoint donated live) (idle : Disjoint stack live) :
    Balanced (pool ∪ donated) (kept ∪ stack) live ((free ∪ donated) \ stack) := by
  constructor
  · ext item
    have notKept : item ∈ donated → item ∉ kept := fun member => Set.disjoint_left.mp fresh member
    have notLive : item ∈ donated → item ∉ live := fun member => Set.disjoint_left.mp unused member
    simp only [balanced.free_eq, Set.mem_union, Set.mem_sdiff]
    tauto
  · intro item member
    have within := balanced.live_within member
    have notStack := Set.disjoint_right.mp idle member
    exact ⟨Or.inl within.1, by rintro (keeps | stacked); exacts [within.2 keeps, notStack stacked]⟩

end Balanced

end UmbralOS.Library
