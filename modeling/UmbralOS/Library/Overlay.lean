import Mathlib.Tactic.Common
import Mathlib.Data.List.Induction

/-!
This file gives the meaning of an ordered list of rules in which the last rule wins.
-/

namespace UmbralOS.Library

variable {Key Value : Type}

/-- The last rule that applies to the key gives its value. -/
def lastApplicable (rules : List (Key → Option Value)) (key : Key) : Option Value :=
  rules.foldl (fun found rule => (rule key).or found) none

@[simp] theorem lastApplicable_nil (key : Key) :
    lastApplicable ([] : List (Key → Option Value)) key = none := rfl

/-- One more rule overrides the earlier rules where it applies. -/
@[simp] theorem lastApplicable_snoc (rules : List (Key → Option Value)) (rule : Key → Option Value)
    (key : Key) : lastApplicable (rules ++ [rule]) key = (rule key).or (lastApplicable rules key) := by
  simp [lastApplicable]

@[simp] theorem lastApplicable_singleton (rule : Key → Option Value) (key : Key) :
    lastApplicable [rule] key = rule key := by
  rw [← List.nil_append [rule], lastApplicable_snoc, lastApplicable_nil, Option.or_none]

/-- Later rules override the earlier rules where they apply. -/
theorem lastApplicable_append (earlier later : List (Key → Option Value)) (key : Key) :
    lastApplicable (earlier ++ later) key = (lastApplicable later key).or (lastApplicable earlier key) := by
  induction later using List.reverseRecOn with
  | nil => simp
  | append_singleton later rule ih =>
      rw [← List.append_assoc, lastApplicable_snoc, lastApplicable_snoc, ih, Option.or_assoc]

/-- The result comes from one rule, and no later rule applies. -/
theorem lastApplicable_eq_some_iff {rules : List (Key → Option Value)} {key : Key} {value : Value} :
    lastApplicable rules key = some value ↔
      ∃ earlier rule later, rules = earlier ++ rule :: later ∧ rule key = some value ∧
        ∀ other ∈ later, other key = none := by
  constructor
  · intro found
    induction rules using List.reverseRecOn with
    | nil => simp at found
    | append_singleton rules rule ih =>
        rw [lastApplicable_snoc] at found
        cases applied : rule key with
        | some applies =>
            rw [applied] at found
            exact ⟨rules, rule, [], rfl, by rw [applied]; simpa using found, by simp⟩
        | none =>
            rw [applied, Option.none_or] at found
            obtain ⟨earlier, chosen, later, split, chosenApplies, silent⟩ := ih found
            refine ⟨earlier, chosen, later ++ [rule], by simp [split], chosenApplies, ?_⟩
            intro other member
            rcases List.mem_append.mp member with old | last
            · exact silent other old
            · rw [List.mem_singleton.mp last, applied]
  · intro given
    obtain ⟨earlier, rule, later, rfl, applies, silent⟩ := given
    induction later using List.reverseRecOn with
    | nil => rw [lastApplicable_snoc, applies, Option.some_or]
    | append_singleton later last ih =>
        rw [show earlier ++ rule :: (later ++ [last]) = earlier ++ rule :: later ++ [last] by simp,
          lastApplicable_snoc, silent last (by simp), Option.none_or]
        exact ih fun other member => silent other (by simp [member])

/-- A key has no value exactly when no rule applies to it. -/
theorem lastApplicable_eq_none_iff {rules : List (Key → Option Value)} {key : Key} :
    lastApplicable rules key = none ↔ ∀ rule ∈ rules, rule key = none := by
  induction rules using List.reverseRecOn with
  | nil => simp
  | append_singleton rules rule ih =>
      rw [lastApplicable_snoc, Option.or_eq_none_iff, ih]
      simp only [List.mem_append, List.mem_singleton]
      constructor
      · rintro ⟨last, earlier⟩ other (member | rfl)
        · exact earlier other member
        · exact last
      · intro silent
        exact ⟨silent rule (Or.inr rfl), fun other member => silent other (Or.inl member)⟩

/-- A key has a value when one rule gives it and no rule gives another value. -/
theorem lastApplicable_eq_of_agree {rules : List (Key → Option Value)} {key : Key} {value : Value}
    (given : ∃ rule ∈ rules, rule key = some value)
    (agree : ∀ rule ∈ rules, ∀ other, rule key = some other → other = value) : lastApplicable rules key = some value := by
  cases found : lastApplicable rules key with
  | none =>
      obtain ⟨rule, member, applied⟩ := given
      rw [lastApplicable_eq_none_iff.mp found rule member] at applied
      cases applied
  | some other =>
      obtain ⟨earlier, rule, later, rfl, applied, _⟩ := lastApplicable_eq_some_iff.mp found
      rw [agree rule (by simp) other applied]

/-- Two rules give the same value where both apply. -/
def Agree (first second : Key → Option Value) : Prop :=
  ∀ key value other, first key = some value → second key = some other → value = other

theorem Agree.refl (rule : Key → Option Value) : Agree rule rule := by
  intro key value other applies given
  exact Option.some_inj.mp (applies.symm.trans given)

theorem Agree.symm {first second : Key → Option Value} (agree : Agree first second) : Agree second first :=
  fun key value other applies given => (agree key other value given applies).symm

/-- Rules that never apply to the same key agree. -/
theorem agree_of_apart {first second : Key → Option Value} (apart : ∀ key, first key ≠ none → second key = none) :
    Agree first second := by
  intro key value other applies given
  rw [apart key (by rw [applies]; exact Option.some_ne_none value)] at given
  cases given

end UmbralOS.Library
