import UmbralOS.Library.Program

/-!
This file gives the rules for a program that erases to a plain program over a part of its state, and whose other part
keeps a record.
-/

namespace UmbralOS.Library

variable {Stop Detailed State A B : Type} {view : Detailed → State} {good : Detailed → Prop}

/-- On the viewed part of the state, the program does what the plain program does. -/
structure Erases (view : Detailed → State) (program : Program Stop Detailed A) (plain : Program Stop State A) :
    Prop where
  returns : ∀ before value after, Returns program before value after → Returns plain (view before) value (view after)
  stops : ∀ before reason after, Stops program before reason after → Stops plain (view before) reason (view after)

/-- The program erases to the plain program, and its record stays good exactly when the viewed state meets the need. -/
structure Needs (view : Detailed → State) (good : Detailed → Prop) (program : Program Stop Detailed A)
    (plain : Program Stop State A) (need : State → Prop) : Prop extends Erases view program plain where
  exact : ∀ before, good (lastState program before) ↔ good before ∧ need (view before)

/-- The sequence of two programs needs what the first one needs, and what the second one needs after the first. -/
def NeedThen (plain : Program Stop State A) (need : State → Prop) (next : A → State → Prop) (state : State) : Prop :=
  need state ∧ ∀ value middle, Returns plain state value middle → next value middle

section Erases

theorem erases_bind {first : Program Stop Detailed A} {first' : Program Stop State A} {next : A → Program Stop Detailed B}
    {next' : A → Program Stop State B} (head : Erases view first first')
    (tail : ∀ value, Erases view (next value) (next' value)) : Erases view (first >>= next) (first' >>= next') := by
  constructor
  · intro before value after returned
    obtain ⟨found, middle, started, finished⟩ := (returns_bind _ _ _ _ _).mp returned
    exact (returns_bind _ _ _ _ _).mpr
      ⟨found, view middle, head.returns _ _ _ started, (tail found).returns _ _ _ finished⟩
  · intro before reason after stopped
    apply (stops_bind _ _ _ _ _).mpr
    rcases (stops_bind _ _ _ _ _).mp stopped with fault | ⟨found, middle, started, fault⟩
    · exact Or.inl (head.stops _ _ _ fault)
    · exact Or.inr ⟨found, view middle, head.returns _ _ _ started, (tail found).stops _ _ _ fault⟩

/-- A change of the hidden part leaves no trace. -/
theorem erases_modify {change : Detailed → Detailed} (hidden : ∀ state, view (change state) = view state) :
    Erases view (modify change : Program Stop Detailed Unit) (pure () : Program Stop State Unit) := by
  constructor
  · intro before value after returned
    obtain rfl := (returns_modify _ _ _ _).mp returned
    exact (returns_pure _ _ _ _).mpr ⟨rfl, (hidden before).symm⟩
  · intro before reason after stopped
    exact absurd stopped (stops_modify _ _ _ _)

end Erases

section Needs

variable {need need' : State → Prop}

theorem Needs.congr {program : Program Stop Detailed A} {plain : Program Stop State A}
    (needs : Needs view good program plain need) (same : ∀ state, need state ↔ need' state) :
    Needs view good program plain need' :=
  ⟨needs.toErases, fun before => (needs.exact before).trans (and_congr_right fun _ => same _)⟩

theorem needs_pure (value : A) : Needs view good (pure value) (pure value : Program Stop State A) fun _ => True := by
  refine ⟨⟨?_, ?_⟩, ?_⟩
  · intro before found after returned
    obtain ⟨rfl, rfl⟩ := (returns_pure _ _ _ _).mp returned
    exact (returns_pure _ _ _ _).mpr ⟨rfl, rfl⟩
  · intro before reason after stopped
    exact absurd stopped (stops_pure _ _ _ _)
  · intro before
    exact (and_iff_left trivial).symm

theorem needs_throw (reason : Stop) :
    Needs view good (throw reason) (throw reason : Program Stop State A) fun _ => True := by
  refine ⟨⟨?_, ?_⟩, ?_⟩
  · intro before found after returned
    exact absurd returned (returns_throw _ _ _ _)
  · intro before found after stopped
    obtain ⟨rfl, rfl⟩ := (stops_throw _ _ _ _).mp stopped
    exact (stops_throw _ _ _ _).mpr ⟨rfl, rfl⟩
  · intro before
    exact (and_iff_left trivial).symm

theorem needs_bind {first : Program Stop Detailed A} {first' : Program Stop State A} {next : A → Program Stop Detailed B}
    {next' : A → Program Stop State B} {later : A → State → Prop} (head : Needs view good first first' need)
    (tail : ∀ value, Needs view good (next value) (next' value) (later value)) :
    Needs view good (first >>= next) (first' >>= next') (NeedThen first' need later) := by
  refine ⟨erases_bind head.toErases fun value => (tail value).toErases, ?_⟩
  intro before
  have reached := head.exact before
  rcases returns_or_stops first before with ⟨value, middle, returned⟩ | ⟨reason, middle, stopped⟩
  · have plain := head.returns _ _ _ returned
    have further : (∀ found state, Returns first' (view before) found state → later found state) ↔
        later value (view middle) := by
      constructor
      · intro every
        exact every value _ plain
      · intro holds found state other
        obtain ⟨rfl, rfl⟩ := plain.unique other
        exact holds
    rw [returned.lastState_eq] at reached
    rw [returned.lastState_bind, (tail value).exact, reached, NeedThen, further, and_assoc]
  · have never : ∀ found state, Returns first' (view before) found state → later found state :=
      fun found state other => absurd (head.stops _ _ _ stopped) other.not_stops
    rw [stopped.lastState_eq] at reached
    rw [stopped.lastState_bind, reached, NeedThen, and_iff_left never]

/-- A first step that only computes a value leaves its need. -/
theorem needs_step {first : Program Stop Detailed A} {value : A} {next : A → Program Stop Detailed B}
    {plain : Program Stop State B} (head : Needs view good first (pure value) need)
    (tail : Needs view good (next value) plain need') :
    Needs view good (first >>= next) plain fun state => need state ∧ need' state := by
  have ends : ∀ before, ∃ middle, Returns first before value middle ∧ view middle = view before := by
    intro before
    rcases returns_or_stops first before with ⟨found, middle, returned⟩ | ⟨reason, middle, stopped⟩
    · obtain ⟨rfl, same⟩ := (returns_pure _ _ _ _).mp (head.returns _ _ _ returned)
      exact ⟨middle, returned, same.symm⟩
    · exact absurd (head.stops _ _ _ stopped) (stops_pure _ _ _ _)
  refine ⟨⟨?_, ?_⟩, ?_⟩
  · intro before found after finished
    obtain ⟨middle, returned, same⟩ := ends before
    obtain ⟨given, state, started, rest⟩ := (returns_bind _ _ _ _ _).mp finished
    obtain ⟨rfl, rfl⟩ := returned.unique started
    rw [← same]
    exact tail.returns _ _ _ rest
  · intro before reason after ended
    obtain ⟨middle, returned, same⟩ := ends before
    rcases (stops_bind _ _ _ _ _).mp ended with fault | ⟨given, state, started, rest⟩
    · exact absurd fault returned.not_stops
    · obtain ⟨rfl, rfl⟩ := returned.unique started
      rw [← same]
      exact tail.stops _ _ _ rest
  · intro before
    obtain ⟨middle, returned, same⟩ := ends before
    have reached := head.exact before
    rw [returned.lastState_eq] at reached
    rw [returned.lastState_bind, tail.exact, reached, same, and_assoc]

/-- A first step whose need is met leaves the need of the rest. -/
theorem needs_skip {first : Program Stop Detailed A} {value : A} {next : A → Program Stop Detailed B}
    {plain : Program Stop State B} (head : Needs view good first (pure value) need) (met : ∀ state, need state)
    (tail : Needs view good (next value) plain need') : Needs view good (first >>= next) plain need' :=
  (needs_step head tail).congr fun state => and_iff_right (met state)

/-- A read of the state in the program is a read of its viewed part in the plain program. -/
theorem needs_get {next : Detailed → Program Stop Detailed B} {next' : State → Program Stop State B}
    (later : State → State → Prop)
    (tail : ∀ detailed, Needs view good (next detailed) (next' (view detailed)) (later (view detailed))) :
    Needs view good (get >>= next) (get >>= next') fun state => later state state :=
  ⟨⟨fun before => (tail before).returns before, fun before => (tail before).stops before⟩,
    fun before => (tail before).exact before⟩

theorem needs_ite (guard : Prop) [Decidable guard] {first second : Program Stop Detailed A}
    {first' second' : Program Stop State A} (positive : guard → Needs view good first first' need)
    (negative : ¬ guard → Needs view good second second' need') :
    Needs view good (if guard then first else second) (if guard then first' else second') fun state =>
      if guard then need state else need' state := by
  split_ifs with holds
  · exact positive holds
  · exact negative holds

/-- What follows a check is needed only when the check passes. -/
theorem needs_stopIf {guard : Prop} [Decidable guard] {reason : Stop} {next : Unit → Program Stop Detailed B}
    {next' : Unit → Program Stop State B} (tail : ¬ guard → Needs view good (next ()) (next' ()) need) :
    Needs view good (stopIf guard reason >>= next) (stopIf guard reason >>= next') fun state => ¬ guard → need state := by
  unfold stopIf
  by_cases holds : guard
  · rw [if_pos holds, if_pos holds]
    exact Needs.congr (needs_throw reason) fun _ => by simp [holds]
  · rw [if_neg holds, if_neg holds]
    exact Needs.congr (tail holds) fun _ => by simp [holds]

/-- A change of the hidden part that adds to the record has the need of what it adds. -/
theorem needs_modify {change : Detailed → Detailed} {added : Prop} (hidden : ∀ state, view (change state) = view state)
    (adds : ∀ state, good (change state) ↔ good state ∧ added) :
    Needs view good (modify change) (pure () : Program Stop State Unit) fun _ => added :=
  ⟨erases_modify hidden, adds⟩

end Needs

end UmbralOS.Library
