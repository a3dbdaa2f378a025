import UmbralOS.Library.Program
import Mathlib.Data.Finset.Union
import Mathlib.Data.Finset.Card

/-!
This file gives the rules for programs that fill absent keys and pay for each of them from a budget.
-/

namespace UmbralOS.Library

variable {Stop State Key : Type}

/-- The number of keys that are absent. -/
def shortfall (absent : Key → Bool) (keys : Finset Key) : Nat := (keys.filter fun key => absent key = true).card

@[simp] theorem shortfall_empty (absent : Key → Bool) : shortfall absent ∅ = 0 := rfl

theorem shortfall_mono (absent : Key → Bool) {keys more : Finset Key} (within : keys ⊆ more) :
    shortfall absent keys ≤ shortfall absent more :=
  Finset.card_le_card (Finset.filter_subset_filter _ within)

/-- Keys that are all absent cost one unit each. -/
theorem shortfall_of_absent {absent : Key → Bool} {keys : Finset Key} (all : ∀ key ∈ keys, absent key = true) :
    shortfall absent keys = keys.card := by
  rw [shortfall, Finset.filter_true_of_mem all]

/-- A single key costs one unit when it is absent. -/
theorem shortfall_singleton (absent : Key → Bool) (key : Key) : shortfall absent {key} = (absent key).toNat := by
  rw [shortfall, Finset.filter_singleton]
  cases absent key <;> rfl

/-- The keys are no longer absent, the other keys are as before, and each key that was absent has cost one unit. -/
structure Fills (keys : Finset Key) (absent absent' : Key → Bool) (budget budget' : Nat) : Prop where
  filled : ∀ key, absent' key = true ↔ absent key = true ∧ key ∉ keys
  paid : budget' + shortfall absent keys = budget

namespace Fills

variable {keys more : Finset Key} {absent absent' absent'' : Key → Bool} {budget budget' budget'' : Nat}

theorem refl (absent : Key → Bool) (budget : Nat) : Fills ∅ absent absent budget budget := ⟨by simp, by simp⟩

/-- A key that is not absent costs nothing. -/
theorem present {key : Key} (found : absent key = false) (budget : Nat) : Fills {key} absent absent budget budget := by
  refine ⟨fun other => ?_, by rw [shortfall_singleton, found]; rfl⟩
  rw [Finset.mem_singleton, iff_self_and]
  rintro missing rfl
  rw [found] at missing
  cases missing

/-- A key that is absent costs one unit. -/
theorem link {key : Key} (missing : absent key = true)
    (filled : ∀ other, absent' other = true ↔ absent other = true ∧ other ≠ key) (paid : budget' + 1 = budget) :
    Fills {key} absent absent' budget budget' := by
  refine ⟨fun other => by rw [filled, Finset.mem_singleton], ?_⟩
  rw [shortfall_singleton, missing]
  exact paid

variable [DecidableEq Key]

/-- The keys of a second step are absent only when the first step has not filled them. -/
theorem shortfall_union (fills : Fills keys absent absent' budget budget') (more : Finset Key) :
    shortfall absent (keys ∪ more) = shortfall absent keys + shortfall absent' more := by
  have rest : (keys ∪ more).filter (fun key => absent key = true) =
      keys.filter (fun key => absent key = true) ∪ more.filter (fun key => absent' key = true) := by
    ext key
    simp only [Finset.mem_filter, Finset.mem_union, fills.filled]
    tauto
  rw [shortfall, rest, Finset.card_union_of_disjoint]
  · rfl
  · rw [Finset.disjoint_left]
    intro key first second
    exact ((fills.filled key).mp (Finset.mem_filter.mp second).2).2 (Finset.mem_filter.mp first).1

theorem trans (head : Fills keys absent absent' budget budget') (tail : Fills more absent' absent'' budget' budget'') :
    Fills (keys ∪ more) absent absent'' budget budget'' := by
  refine ⟨fun key => ?_, ?_⟩
  · rw [tail.filled, head.filled, Finset.mem_union, not_or, and_assoc]
  · have first := head.paid
    have second := tail.paid
    rw [head.shortfall_union]
    omega

/-- What the budget can pay for both steps, the rest of the budget can pay for the second step. -/
theorem shortfall_le (fills : Fills keys absent absent' budget budget') (enough : shortfall absent (keys ∪ more) ≤ budget) :
    shortfall absent' more ≤ budget' := by
  have paid := fills.paid
  rw [fills.shortfall_union] at enough
  omega

end Fills

/-- From a good state, the program fills its keys when it returns, and it returns when the budget can pay for them. -/
structure Supplied (good : State → Prop) (absent : State → Key → Bool) (budget : State → Nat) (keys : Finset Key)
    (program : Program Stop State Unit) : Prop where
  fills : ∀ before after, good before → Returns program before () after →
    good after ∧ Fills keys (absent before) (absent after) (budget before) (budget after)
  returns : ∀ before, good before → shortfall (absent before) keys ≤ budget before → ∃ after, Returns program before () after

namespace Supplied

variable {good : State → Prop} {absent : State → Key → Bool} {budget : State → Nat} {keys more : Finset Key}
  {first second : Program Stop State Unit}

/-- The program returns exactly when the budget can pay for the absent keys. -/
theorem returns_iff (supplied : Supplied good absent budget keys first) {before : State} (start : good before) :
    (∃ after, Returns first before () after) ↔ shortfall (absent before) keys ≤ budget before := by
  constructor
  · intro given
    obtain ⟨after, returned⟩ := given
    have paid := (supplied.fills before after start returned).2.paid
    omega
  · exact supplied.returns before start

/-- A program that runs in the same way from every good state fills the same keys. -/
theorem congr (supplied : Supplied good absent budget keys first)
    (same : ∀ before, good before → second.run before = first.run before) :
    Supplied good absent budget keys second := by
  constructor
  · intro before after start returned
    refine supplied.fills before after start ?_
    rwa [Returns, ← same before start]
  · intro before start enough
    obtain ⟨after, returned⟩ := supplied.returns before start enough
    refine ⟨after, ?_⟩
    rwa [Returns, same before start]

theorem done : Supplied good absent budget (∅ : Finset Key) (pure () : Program Stop State Unit) := by
  refine ⟨fun before after start returned => ?_, fun before _ _ => ⟨before, (returns_pure _ _ _ _).mpr ⟨rfl, rfl⟩⟩⟩
  obtain ⟨_, rfl⟩ := (returns_pure _ _ _ _).mp returned
  exact ⟨start, Fills.refl _ _⟩

variable [DecidableEq Key]

/-- Two programs in a row fill the keys of both. -/
theorem bind (head : Supplied good absent budget keys first) (tail : Supplied good absent budget more second) :
    Supplied good absent budget (keys ∪ more) (first >>= fun _ => second) := by
  constructor
  · intro before after start returned
    obtain ⟨_, middle, headReturned, tailReturned⟩ := (returns_bind _ _ _ _ _).mp returned
    obtain ⟨reached, headFills⟩ := head.fills before middle start headReturned
    obtain ⟨finished, tailFills⟩ := tail.fills middle after reached tailReturned
    exact ⟨finished, headFills.trans tailFills⟩
  · intro before start enough
    obtain ⟨middle, headReturned⟩ :=
      head.returns before start ((shortfall_mono _ Finset.subset_union_left).trans enough)
    obtain ⟨reached, headFills⟩ := head.fills before middle start headReturned
    obtain ⟨after, tailReturned⟩ := tail.returns middle reached (headFills.shortfall_le enough)
    exact ⟨after, (returns_bind _ _ _ _ _).mpr ⟨(), middle, headReturned, tailReturned⟩⟩

/-- A loop fills the keys of all its steps. -/
theorem forRange {body : Nat → Unit → Program Stop State Unit} {keysAt : Nat → Finset Key} {count : Nat}
    (each : ∀ index < count, Supplied good absent budget (keysAt index) (body index ())) :
    Supplied good absent budget ((Finset.range count).biUnion keysAt) (Library.forRange body count ()) := by
  induction count with
  | zero => exact done
  | succ count ih =>
      rw [Finset.range_add_one, Finset.biUnion_insert, Finset.union_comm]
      exact (ih fun index inside => each index (by omega)).bind (each count (by omega))

/-- A loop over a list fills the keys of all its items. -/
theorem forM {X : Type} [DecidableEq X] {body : X → Program Stop State Unit} {keysOf : X → Finset Key} {items : List X}
    (each : ∀ item ∈ items, Supplied good absent budget (keysOf item) (body item)) :
    Supplied good absent budget (items.toFinset.biUnion keysOf) (items.forM body) := by
  induction items with
  | nil => exact done
  | cons item items ih =>
      rw [List.toFinset_cons, Finset.biUnion_insert]
      exact (each item (by simp)).bind (ih fun other member => each other (by simp [member]))

end Supplied

end UmbralOS.Library
