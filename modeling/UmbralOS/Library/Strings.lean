import Mathlib.Data.List.Lex
import Mathlib.Order.Lattice

/-!
This file gives terminated strings, their first difference and their lexicographic order.
-/

namespace UmbralOS.Library

variable {A K : Type}

/-- The characters from an index up to the terminator, which is included, and at most the given number. -/
def cut [DecidableEq A] (terminator : A) (s : Nat → A) : Nat → Nat → List A
  | 0, _ => []
  | count + 1, i => if s i = terminator then [terminator] else s i :: cut terminator s count (i + 1)

/-- The two strings differ first at this index, which is one of the given number from a start. -/
structure DiffersFirst (terminator : A) (s1 s2 : Nat → A) (count start i : Nat) : Prop where
  lower : start ≤ i
  upper : i < start + count
  differ : s1 i ≠ s2 i
  earlier : ∀ j, start ≤ j → j < i → s1 j = s2 j ∧ s1 j ≠ terminator

section DiffersFirst

variable {terminator : A} {s1 s2 : Nat → A} {count start i : Nat}

theorem DiffersFirst.symm (found : DiffersFirst terminator s1 s2 count start i) :
    DiffersFirst terminator s2 s1 count start i where
  lower := found.lower
  upper := found.upper
  differ := found.differ.symm
  earlier j lower before := by
    obtain ⟨same, running⟩ := found.earlier j lower before
    exact ⟨same.symm, same ▸ running⟩

/-- Two strings have at most one first difference. -/
theorem DiffersFirst.unique {i' : Nat} (found : DiffersFirst terminator s1 s2 count start i)
    (other : DiffersFirst terminator s1 s2 count start i') : i = i' := by
  rcases Nat.lt_trichotomy i i' with before | same | behind
  · exact absurd (other.earlier i found.lower before).1 found.differ
  · exact same
  · exact absurd (found.earlier i' other.lower behind).1 other.differ

theorem not_differsFirst_zero : ¬ DiffersFirst terminator s1 s2 0 start i := by
  intro found
  have lower := found.lower
  have upper := found.upper
  omega

/-- Two strings that differ at the start have their first difference there. -/
theorem differsFirst_of_ne (differ : s1 start ≠ s2 start) :
    DiffersFirst terminator s1 s2 (count + 1) start i ↔ i = start := by
  constructor
  · intro found
    by_contra other
    have lower := found.lower
    exact differ (found.earlier start (le_refl start) (by omega)).1
  · intro same
    subst same
    exact ⟨le_refl i, by omega, differ, fun j lower before => by omega⟩

/-- Two strings that end at the start have no difference. -/
theorem not_differsFirst_of_end (same : s1 start = s2 start) (ended : s1 start = terminator) :
    ¬ DiffersFirst terminator s1 s2 (count + 1) start i := by
  intro found
  have lower := found.lower
  rcases Nat.lt_or_eq_of_le lower with behind | here
  · exact (found.earlier start (le_refl start) behind).2 ended
  · subst here
    exact found.differ same

/-- Two strings that agree at the start and go on have the first difference of their rests. -/
theorem differsFirst_succ (same : s1 start = s2 start) (running : s1 start ≠ terminator) :
    DiffersFirst terminator s1 s2 (count + 1) start i ↔ DiffersFirst terminator s1 s2 count (start + 1) i := by
  constructor
  · intro found
    have lower := found.lower
    have upper := found.upper
    have moved : i ≠ start := by
      intro here
      subst here
      exact found.differ same
    exact ⟨by omega, by omega, found.differ, fun j inside before => found.earlier j (by omega) before⟩
  · intro found
    have lower := found.lower
    have upper := found.upper
    refine ⟨by omega, by omega, found.differ, ?_⟩
    intro j inside before
    by_cases here : j = start
    · subst here
      exact ⟨same, running⟩
    · exact found.earlier j (by omega) before

/-- Two strings agree, up to the terminator, exactly when they have no first difference. -/
theorem agree_iff_not_differsFirst (count : Nat) :
    (∀ i < count, (∀ j < i, ¬ (s1 j = terminator ∧ s2 j = terminator)) → s1 i = s2 i) ↔
      ∀ i, ¬ DiffersFirst terminator s1 s2 count 0 i := by
  constructor
  · intro agree i found
    apply found.differ
    apply agree i (by simpa using found.upper)
    intro j before ended
    exact (found.earlier j (Nat.zero_le j) before).2 ended.1
  · intro none i inside open'
    induction i using Nat.strong_induction_on with
    | _ i ih =>
      by_contra differ
      apply none i
      refine ⟨Nat.zero_le i, by omega, differ, ?_⟩
      intro j _ before
      have same := ih j before (by omega) fun k earlier => open' k (by omega)
      exact ⟨same, fun ended => open' j before ⟨ended, same ▸ ended⟩⟩

end DiffersFirst

section Order

variable [DecidableEq A] [LinearOrder K] {terminator : A} {s1 s2 : Nat → A} {key : A → K}

/-- The cut strings are ordered by the keys of the first characters in which they differ. -/
theorem cut_lt_iff (injective : Function.Injective key) (count start : Nat) :
    (cut terminator s1 count start).map key < (cut terminator s2 count start).map key ↔
      ∃ i, DiffersFirst terminator s1 s2 count start i ∧ key (s1 i) < key (s2 i) := by
  induction count generalizing start with
  | zero => simp [cut, not_differsFirst_zero]
  | succ count ih =>
      by_cases same : s1 start = s2 start
      · by_cases ended : s1 start = terminator
        · simp [cut, ended, ← same, not_differsFirst_of_end same ended]
        · simp only [cut, same ▸ ended, if_false, List.map_cons, same, List.cons_lt_cons_iff, lt_irrefl,
            true_and, false_or, ih, differsFirst_succ same ended]
      · have apart : key (s1 start) ≠ key (s2 start) := fun equal => same (injective equal)
        have head : ∀ s : Nat → A, ∃ rest, (cut terminator s (count + 1) start).map key = key (s start) :: rest := by
          intro s
          by_cases ended : s start = terminator
          · exact ⟨[], by simp [cut, ended]⟩
          · exact ⟨(cut terminator s count (start + 1)).map key, by simp [cut, ended]⟩
        obtain ⟨rest1, shape1⟩ := head s1
        obtain ⟨rest2, shape2⟩ := head s2
        rw [shape1, shape2, List.cons_lt_cons_iff]
        simp [differsFirst_of_ne same, apart]

end Order

/-- A text up to its first separator is determined by the whole text. -/
theorem append_separator_inj {A : Type} {separator : A} {first second rest rest' : List A} (before : separator ∉ first)
    (before' : separator ∉ second) (same : first ++ separator :: rest = second ++ separator :: rest') :
    first = second ∧ rest = rest' := by
  induction first generalizing second with
  | nil =>
      cases second with
      | nil => exact ⟨rfl, (List.cons.inj same).2⟩
      | cons c second =>
          obtain ⟨rfl, _⟩ := List.cons.inj same
          exact absurd (by simp) before'
  | cons c first ih =>
      cases second with
      | nil =>
          obtain ⟨rfl, _⟩ := List.cons.inj same
          exact absurd (by simp) before
      | cons c' second =>
          obtain ⟨head, tail⟩ := List.cons.inj same
          rw [List.mem_cons, not_or] at before before'
          obtain ⟨texts, rests⟩ := ih before.2 before'.2 tail
          exact ⟨by rw [head, texts], rests⟩

end UmbralOS.Library
