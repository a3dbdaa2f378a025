import Mathlib.Tactic.Common

/-!
This file gives the rules for programs that return a value or stop.
-/

namespace UmbralOS.Library

/-- A program returns a value, or it stops with a reason, and it keeps the last state. -/
abbrev Program (Stop State A : Type) := EStateM Stop State A

variable {Stop State A B X : Type}

/-- The program returns this value and leaves this state. -/
def Returns (program : Program Stop State A) (before : State) (value : A) (after : State) : Prop :=
  program.run before = .ok value after

/-- The program stops with this reason and leaves this state. -/
def Stops (program : Program Stop State A) (before : State) (reason : Stop) (after : State) : Prop :=
  program.run before = .error reason after

/-- This program stops when the guard holds. -/
def stopIf (guard : Prop) [Decidable guard] (reason : Stop) : Program Stop State Unit :=
  if guard then throw reason else pure ()

@[simp] theorem returns_pure (value found : A) (before after : State) :
    Returns (pure value : Program Stop State A) before found after ↔ value = found ∧ before = after := by
  simp [Returns]

@[simp] theorem stops_pure (value : A) (before after : State) (reason : Stop) :
    ¬ Stops (pure value : Program Stop State A) before reason after := by
  simp [Stops]

@[simp] theorem returns_throw (reason : Stop) (value : A) (before after : State) :
    ¬ Returns (throw reason : Program Stop State A) before value after := by
  intro returned
  cases returned

@[simp] theorem stops_throw (reason found : Stop) (before after : State) :
    Stops (throw reason : Program Stop State A) before found after ↔ reason = found ∧ before = after := by
  change (EStateM.Result.error reason before : EStateM.Result Stop State A) = .error found after ↔ _
  simp

@[simp] theorem returns_get (value before after : State) :
    Returns (get : Program Stop State State) before value after ↔ before = value ∧ before = after := by
  simp [Returns]

@[simp] theorem stops_get (before after : State) (reason : Stop) :
    ¬ Stops (get : Program Stop State State) before reason after := by
  simp [Stops]

@[simp] theorem returns_modify (change : State → State) (value : Unit) (before after : State) :
    Returns (modify change : Program Stop State Unit) before value after ↔ change before = after := by
  simp [Returns]

@[simp] theorem stops_modify (change : State → State) (before after : State) (reason : Stop) :
    ¬ Stops (modify change : Program Stop State Unit) before reason after := by
  simp [Stops]

/-- A sequence returns exactly when its two parts return. -/
@[simp] theorem returns_bind (first : Program Stop State A) (next : A → Program Stop State B)
    (before after : State) (value : B) :
    Returns (first >>= next) before value after ↔
      ∃ found middle, Returns first before found middle ∧ Returns (next found) middle value after := by
  simp only [Returns, EStateM.run_bind]
  cases first.run before <;> simp

/-- A read of the state returns a view of it and changes nothing. -/
theorem returns_read (view : State → A) (value : A) (before after : State) :
    Returns (get >>= fun state => pure (view state) : Program Stop State A) before value after ↔
      view before = value ∧ before = after := by
  rw [returns_bind]
  simp only [returns_get, returns_pure]
  constructor
  · intro returned
    obtain ⟨_, _, ⟨rfl, rfl⟩, found⟩ := returned
    exact found
  · exact fun found => ⟨before, before, ⟨rfl, rfl⟩, found⟩

theorem not_stops_read (view : State → A) (before after : State) (reason : Stop) :
    ¬ Stops (get >>= fun state => pure (view state) : Program Stop State A) before reason after := by
  intro stopped
  cases stopped

/-- A sequence stops in its first part or in its second part. -/
@[simp] theorem stops_bind (first : Program Stop State A) (next : A → Program Stop State B)
    (before after : State) (reason : Stop) :
    Stops (first >>= next) before reason after ↔
      Stops first before reason after ∨
      ∃ found middle, Returns first before found middle ∧ Stops (next found) middle reason after := by
  simp only [Stops, Returns, EStateM.run_bind]
  cases first.run before <;> simp

@[simp] theorem returns_stopIf (guard : Prop) [Decidable guard] (reason : Stop) (value : Unit)
    (before after : State) :
    Returns (stopIf guard reason : Program Stop State Unit) before value after ↔
      ¬ guard ∧ before = after := by
  by_cases holds : guard <;> simp [stopIf, holds]

@[simp] theorem stops_stopIf (guard : Prop) [Decidable guard] (reason found : Stop)
    (before after : State) :
    Stops (stopIf guard reason : Program Stop State Unit) before found after ↔
      guard ∧ reason = found ∧ before = after := by
  by_cases holds : guard <;> simp [stopIf, holds]

/-- A sequence whose first part is optional returns exactly when its second part returns after it. -/
theorem returns_optional (guard : Prop) [Decidable guard] (first : Program Stop State Unit) (next : Program Stop State B)
    (before after : State) (value : B) :
    Returns (if guard then first >>= fun _ => next else next) before value after ↔
      ∃ middle, (if guard then Returns first before () middle else before = middle) ∧ Returns next middle value after := by
  split_ifs
  · rw [returns_bind]
    exact ⟨fun ⟨_, middle, head, tail⟩ => ⟨middle, head, tail⟩, fun ⟨middle, head, tail⟩ => ⟨(), middle, head, tail⟩⟩
  · simp

/-- A program has one result for each state. -/
theorem Returns.unique {program : Program Stop State A} {before after after' : State} {value value' : A}
    (first : Returns program before value after) (second : Returns program before value' after') :
    value = value' ∧ after = after' := by
  have same := first.symm.trans second
  simpa using same

/-- A program that stops has one reason for each state. -/
theorem Stops.unique {program : Program Stop State A} {before after after' : State} {reason reason' : Stop}
    (first : Stops program before reason after) (second : Stops program before reason' after') :
    reason = reason' ∧ after = after' := by
  have same := first.symm.trans second
  simpa using same

/-- A program that returns does not stop. -/
theorem Returns.not_stops {program : Program Stop State A} {before after after' : State} {value : A}
    {reason : Stop} (returned : Returns program before value after) :
    ¬ Stops program before reason after' := by
  intro stopped
  have same := returned.symm.trans stopped
  cases same

/-- Every run returns or stops. -/
theorem returns_or_stops (program : Program Stop State A) (before : State) :
    (∃ value after, Returns program before value after) ∨
      ∃ reason after, Stops program before reason after := by
  cases result : program.run before with
  | ok value after => exact Or.inl ⟨value, after, result⟩
  | error reason after => exact Or.inr ⟨reason, after, result⟩

/-- This function gives the value that the program returns. -/
def outcome (program : Program Stop State A) (before : State) : Option A :=
  match program.run before with
  | .ok value _ => some value
  | .error _ _ => none

/-- This function gives the last state of the program. -/
def lastState (program : Program Stop State A) (before : State) : State :=
  match program.run before with
  | .ok _ after => after
  | .error _ after => after

/-- A program with an outcome returns it with the last state. -/
theorem returns_lastState {program : Program Stop State A} {before : State} {value : A}
    (found : outcome program before = some value) :
    Returns program before value (lastState program before) := by
  unfold outcome lastState Returns at *
  cases result : program.run before <;> simp [result] at found ⊢
  exact found

theorem Returns.lastState_eq {program : Program Stop State A} {before after : State} {value : A}
    (returned : Returns program before value after) : lastState program before = after := by
  unfold lastState
  rw [returned]

theorem Stops.lastState_eq {program : Program Stop State A} {before after : State} {reason : Stop}
    (stopped : Stops program before reason after) : lastState program before = after := by
  unfold lastState
  rw [stopped]

/-- A sequence whose first part returns runs as its second part. -/
theorem Returns.run_bind {first : Program Stop State A} {before middle : State} {value : A}
    (head : Returns first before value middle) (next : A → Program Stop State B) :
    (first >>= next).run before = (next value).run middle := by
  rw [EStateM.run_bind, head]

/-- A sequence returns when its first part returns and its second part returns from there. -/
theorem Returns.exists_bind {first : Program Stop State A} {before middle : State} {value : A}
    (head : Returns first before value middle) {next : A → Program Stop State B}
    (tail : ∃ found after, Returns (next value) middle found after) :
    ∃ found after, Returns (first >>= next) before found after := by
  obtain ⟨found, after, returned⟩ := tail
  exact ⟨found, after, (returns_bind _ _ _ _ _).mpr ⟨value, middle, head, returned⟩⟩

/-- A sequence whose first part returns ends where its second part ends. -/
theorem Returns.lastState_bind {first : Program Stop State A} {before middle : State} {value : A}
    (head : Returns first before value middle) (next : A → Program Stop State B) :
    lastState (first >>= next) before = lastState (next value) middle := by
  unfold lastState
  rw [head.run_bind]

/-- A sequence whose first part stops ends there. -/
theorem Stops.lastState_bind {first : Program Stop State A} {before after : State} {reason : Stop}
    (head : Stops first before reason after) (next : A → Program Stop State B) :
    lastState (first >>= next) before = after :=
  Stops.lastState_eq ((stops_bind _ _ _ _ _).mpr (Or.inl head))

/-- The loop runs its body for each index below the count, and threads one value. -/
def forRange (body : Nat → B → Program Stop State B) : Nat → B → Program Stop State B
  | 0, value => pure value
  | count + 1, value => do
      let next ← forRange body count value
      body count next

section ForRange

variable {body : Nat → B → Program Stop State B} (invariant : Nat → B → State → Prop)

/-- A loop that returns carries its invariant from the first index to the count. -/
theorem returns_forRange {count : Nat} {value found : B} {before after : State}
    (start : invariant 0 value before)
    (step : ∀ index current next state state', index < count → invariant index current state →
      Returns (body index current) state next state' → invariant (index + 1) next state')
    (returned : Returns (forRange body count value) before found after) :
    invariant count found after := by
  induction count generalizing found after with
  | zero =>
      obtain ⟨rfl, rfl⟩ := (returns_pure _ _ _ _).mp returned
      exact start
  | succ count ih =>
      obtain ⟨next, middle, head, last⟩ := (returns_bind _ _ _ _ _).mp returned
      have reached := ih (fun index current next state state' inside =>
        step index current next state state' (by omega)) head
      exact step count next found middle after (by omega) reached last

/-- A loop that stops has stopped in its body at some index that satisfies the invariant. -/
theorem stops_forRange {count : Nat} {value : B} {before after : State} {reason : Stop}
    (start : invariant 0 value before)
    (step : ∀ index current next state state', index < count → invariant index current state →
      Returns (body index current) state next state' → invariant (index + 1) next state')
    (stopped : Stops (forRange body count value) before reason after) :
    ∃ index current state, index < count ∧ invariant index current state ∧
      Stops (body index current) state reason after := by
  induction count with
  | zero => simp [forRange] at stopped
  | succ count ih =>
      have earlier : ∀ index current next state state', index < count → invariant index current state →
          Returns (body index current) state next state' → invariant (index + 1) next state' :=
        fun index current next state state' inside => step index current next state state' (by omega)
      rcases (stops_bind _ _ _ _ _).mp stopped with stopped | ⟨next, middle, head, last⟩
      · obtain ⟨index, current, state, inside, reached, last⟩ := ih earlier stopped
        exact ⟨index, current, state, by omega, reached, last⟩
      · exact ⟨count, next, middle, by omega, returns_forRange invariant start earlier head, last⟩

/-- A loop returns when its body returns at each index and keeps the invariant. -/
theorem forRange_returns {count : Nat} {value : B} {before : State} (start : invariant 0 value before)
    (step : ∀ index current state, index < count → invariant index current state →
      ∃ next state', Returns (body index current) state next state' ∧ invariant (index + 1) next state') :
    ∃ found after, Returns (forRange body count value) before found after ∧ invariant count found after := by
  induction count with
  | zero => exact ⟨value, before, (returns_pure _ _ _ _).mpr ⟨rfl, rfl⟩, start⟩
  | succ count ih =>
      obtain ⟨next, middle, head, reached⟩ := ih fun index current state inside =>
        step index current state (by omega)
      obtain ⟨found, after, last, finished⟩ := step count next middle (by omega) reached
      exact ⟨found, after, (returns_bind _ _ _ _ _).mpr ⟨next, middle, head, last⟩, finished⟩

omit invariant in
/-- A loop stops when its body stops after the loop over the earlier indices returned. -/
theorem forRange_stops {index count : Nat} {value current : B} {before middle after : State} {reason : Stop}
    (inside : index < count) (head : Returns (forRange body index value) before current middle)
    (stopped : Stops (body index current) middle reason after) :
    Stops (forRange body count value) before reason after := by
  induction count with
  | zero => omega
  | succ count ih =>
      apply (stops_bind _ _ _ _ _).mpr
      by_cases last : index = count
      · subst last
        exact Or.inr ⟨current, middle, head, stopped⟩
      · exact Or.inl (ih (by omega))

end ForRange

/-- A loop over a list that returns carries its invariant along the processed prefix. -/
theorem returns_forM {body : X → Program Stop State Unit} (invariant : List X → State → Prop)
    {items : List X} {before after : State} {value : Unit} (start : invariant [] before)
    (step : ∀ processed item state state', item ∈ items → invariant processed state →
      Returns (body item) state () state' → invariant (processed ++ [item]) state')
    (returned : Returns (items.forM body) before value after) : invariant items after := by
  have general : ∀ rest processed state, (∀ item ∈ rest, item ∈ items) → invariant processed state →
      Returns (rest.forM body) state value after → invariant (processed ++ rest) after := by
    intro rest
    induction rest with
    | nil =>
        intro processed state _ reached finished
        obtain ⟨_, rfl⟩ := (returns_pure _ _ _ _).mp finished
        simpa using reached
    | cons item rest ih =>
        intro processed state members reached finished
        change Returns (body item >>= fun _ => rest.forM body) state value after at finished
        obtain ⟨_, middle, head, tail⟩ := (returns_bind _ _ _ _ _).mp finished
        have moved := step processed item state middle (members item (by simp)) reached head
        have rested := ih (processed ++ [item]) middle (fun found member =>
          members found (by simp [member])) moved tail
        simpa using rested
  simpa using general items [] before (fun _ member => member) start returned

/-- A loop over a list returns when its body returns at each item and keeps the invariant. -/
theorem forM_returns {body : X → Program Stop State Unit} (invariant : List X → State → Prop)
    {items : List X} {before : State} (start : invariant [] before)
    (step : ∀ processed item state, item ∈ items → invariant processed state →
      ∃ state', Returns (body item) state () state' ∧ invariant (processed ++ [item]) state') :
    ∃ after, Returns (items.forM body) before () after ∧ invariant items after := by
  have general : ∀ rest processed state, (∀ item ∈ rest, item ∈ items) → invariant processed state →
      ∃ after, Returns (rest.forM body) state () after ∧ invariant (processed ++ rest) after := by
    intro rest
    induction rest with
    | nil =>
        intro processed state _ reached
        exact ⟨state, (returns_pure _ _ _ _).mpr ⟨rfl, rfl⟩, by simpa using reached⟩
    | cons item rest ih =>
        intro processed state members reached
        obtain ⟨middle, head, moved⟩ := step processed item state (members item (by simp)) reached
        obtain ⟨after, tail, rested⟩ := ih (processed ++ [item]) middle (fun found member =>
          members found (by simp [member])) moved
        refine ⟨after, ?_, by simpa using rested⟩
        change Returns (body item >>= fun _ => rest.forM body) state () after
        exact (returns_bind _ _ _ _ _).mpr ⟨(), middle, head, tail⟩
  simpa using general items [] before (fun _ member => member) start

/-- A loop over two lists is a loop over the first list and then over the second list. -/
theorem forM_append (body : X → Program Stop State Unit) (earlier later : List X) :
    (earlier ++ later).forM body = earlier.forM body >>= fun _ => later.forM body := by
  induction earlier with
  | nil => rfl
  | cons item earlier ih =>
      change (body item >>= fun _ => (earlier ++ later).forM body) = (body item >>= fun _ => earlier.forM body) >>= _
      rw [ih, bind_assoc]

/-- A loop over a list that stops has stopped at one item, after it returned at the earlier items. -/
theorem stops_forM {body : X → Program Stop State Unit} {items : List X} {before after : State} {reason : Stop}
    (stopped : Stops (items.forM body) before reason after) :
    ∃ earlier item later state, items = earlier ++ item :: later ∧ Returns (earlier.forM body) before () state ∧
      Stops (body item) state reason after := by
  induction items generalizing before with
  | nil => exact absurd stopped (stops_pure _ _ _ _)
  | cons item items ih =>
      change Stops (body item >>= fun _ => items.forM body) before reason after at stopped
      rcases (stops_bind _ _ _ _ _).mp stopped with stopped | ⟨_, middle, head, stopped⟩
      · exact ⟨[], item, items, before, rfl, (returns_pure _ _ _ _).mpr ⟨rfl, rfl⟩, stopped⟩
      · obtain ⟨earlier, found, later, state, rfl, returned, stopped⟩ := ih stopped
        refine ⟨item :: earlier, found, later, state, rfl, ?_, stopped⟩
        change Returns (body item >>= fun _ => earlier.forM body) before () state
        exact (returns_bind _ _ _ _ _).mpr ⟨(), middle, head, returned⟩

/-- The program stops only with an allowed reason. -/
def StopsOnly (allowed : Stop → Prop) (program : Program Stop State A) : Prop :=
  ∀ before reason after, Stops program before reason after → allowed reason

section StopsOnly

variable {allowed : Stop → Prop}

/-- A program that stops only with some reasons stops only with more reasons. -/
theorem StopsOnly.mono {weaker : Stop → Prop} {program : Program Stop State A} (only : StopsOnly allowed program)
    (weaken : ∀ reason, allowed reason → weaker reason) : StopsOnly weaker program :=
  fun before reason after stopped => weaken reason (only before reason after stopped)

theorem stopsOnly_pure (value : A) : StopsOnly allowed (pure value : Program Stop State A) :=
  fun _ _ _ stopped => absurd stopped (stops_pure _ _ _ _)

theorem stopsOnly_get : StopsOnly allowed (get : Program Stop State State) :=
  fun _ _ _ stopped => absurd stopped (stops_get _ _ _)

theorem stopsOnly_modify (change : State → State) : StopsOnly allowed (modify change : Program Stop State Unit) :=
  fun _ _ _ stopped => absurd stopped (stops_modify _ _ _ _)

theorem stopsOnly_throw {reason : Stop} (permitted : allowed reason) :
    StopsOnly allowed (throw reason : Program Stop State A) := by
  intro before found after stopped
  obtain ⟨rfl, _⟩ := (stops_throw _ _ _ _).mp stopped
  exact permitted

theorem stopsOnly_stopIf {guard : Prop} [Decidable guard] {reason : Stop} (permitted : allowed reason) :
    StopsOnly allowed (stopIf guard reason : Program Stop State Unit) := by
  intro before found after stopped
  obtain ⟨_, rfl, _⟩ := (stops_stopIf _ _ _ _ _).mp stopped
  exact permitted

theorem stopsOnly_bind {first : Program Stop State A} {next : A → Program Stop State B}
    (head : StopsOnly allowed first) (tail : ∀ value, StopsOnly allowed (next value)) :
    StopsOnly allowed (first >>= next) := by
  intro before reason after stopped
  rcases (stops_bind _ _ _ _ _).mp stopped with stopped | ⟨value, middle, _, stopped⟩
  · exact head before reason after stopped
  · exact tail value middle reason after stopped

theorem stopsOnly_forRange {body : Nat → B → Program Stop State B}
    (each : ∀ index value, StopsOnly allowed (body index value)) (count : Nat) (value : B) :
    StopsOnly allowed (forRange body count value) := by
  induction count with
  | zero => exact stopsOnly_pure value
  | succ count ih => exact stopsOnly_bind ih fun next => each count next

theorem stopsOnly_forM {body : X → Program Stop State Unit} (each : ∀ item, StopsOnly allowed (body item))
    (items : List X) : StopsOnly allowed (items.forM body) := by
  induction items with
  | nil => exact stopsOnly_pure ()
  | cons item items ih => exact stopsOnly_bind (each item) fun _ => ih

end StopsOnly

/-- Every run of the program that returns keeps the invariant. -/
def Preserves (invariant : State → Prop) (program : Program Stop State A) : Prop :=
  ∀ before value after, invariant before → Returns program before value after → invariant after

section Preserves

variable {invariant : State → Prop}

theorem preserves_pure (value : A) : Preserves invariant (pure value : Program Stop State A) := by
  intro before found after holds returned
  obtain ⟨_, rfl⟩ := (returns_pure _ _ _ _).mp returned
  exact holds

theorem preserves_get : Preserves invariant (get : Program Stop State State) := by
  intro before found after holds returned
  obtain ⟨_, rfl⟩ := (returns_get _ _ _).mp returned
  exact holds

theorem preserves_modify {change : State → State} (kept : ∀ state, invariant state → invariant (change state)) :
    Preserves invariant (modify change : Program Stop State Unit) := by
  intro before found after holds returned
  have same := (returns_modify _ _ _ _).mp returned
  rw [← same]
  exact kept before holds

theorem preserves_bind {first : Program Stop State A} {next : A → Program Stop State B}
    (head : Preserves invariant first) (tail : ∀ value, Preserves invariant (next value)) :
    Preserves invariant (first >>= next) := by
  intro before value after holds returned
  obtain ⟨found, middle, started, finished⟩ := (returns_bind _ _ _ _ _).mp returned
  exact tail found middle value after (head before found middle holds started) finished

theorem preserves_ite (guard : Prop) [Decidable guard] {first second : Program Stop State A}
    (positive : Preserves invariant first) (negative : Preserves invariant second) :
    Preserves invariant (if guard then first else second) := by
  split_ifs
  · exact positive
  · exact negative

theorem preserves_throw (reason : Stop) : Preserves invariant (throw reason : Program Stop State A) := by
  intro before found after _ returned
  exact absurd returned (returns_throw _ _ _ _)

theorem preserves_stopIf (guard : Prop) [Decidable guard] (reason : Stop) :
    Preserves invariant (stopIf guard reason : Program Stop State Unit) :=
  preserves_ite guard (preserves_throw reason) (preserves_pure ())

theorem preserves_forRange {body : Nat → B → Program Stop State B} (each : ∀ index value, Preserves invariant (body index value))
    (count : Nat) (value : B) : Preserves invariant (forRange body count value) := by
  induction count with
  | zero => exact preserves_pure value
  | succ count ih => exact preserves_bind ih (each count)

theorem preserves_forM {X : Type} {body : X → Program Stop State Unit} (each : ∀ item, Preserves invariant (body item))
    (items : List X) : Preserves invariant (items.forM body) := fun _ _ _ holds returned =>
  returns_forM (fun _ => invariant) holds (fun _ item _ _ _ reached ran => each item _ _ _ reached ran) returned

/-- The first part of a sequence keeps the invariant for the second part. -/
theorem Preserves.head {first : Program Stop State A} {next : A → Program Stop State B} {before after : State}
    {value : B} (keeps : Preserves invariant first) (holds : invariant before)
    (returned : Returns (first >>= next) before value after) :
    ∃ found middle, invariant middle ∧ Returns (next found) middle value after := by
  obtain ⟨found, middle, started, finished⟩ := (returns_bind _ _ _ _ _).mp returned
  exact ⟨found, middle, keeps before found middle holds started, finished⟩

end Preserves

/-- A program runs on the part of a larger state that it sees. -/
def focus {Large : Type} (view : Large → State) (update : State → Large → Large) (program : Program Stop State A) :
    Program Stop Large A := fun large =>
  match program.run (view large) with
  | .ok value state => .ok value (update state large)
  | .error reason state => .error reason (update state large)

section Focus

variable {Large : Type} {view : Large → State} {update : State → Large → Large} {program : Program Stop State A}

theorem returns_focus {before after : Large} {value : A} : Returns (focus view update program) before value after ↔
    ∃ state, Returns program (view before) value state ∧ update state before = after := by
  unfold focus Returns
  change (match program.run (view before) with | .ok value state => _ | .error reason state => _) = _ ↔ _
  cases program.run (view before) with
  | ok found state => simp [and_comm]
  | error reason state => simp

/-- An invariant of the part is an invariant of the larger state. -/
theorem preserves_focus {invariant : State → Prop} (seen : ∀ state large, view (update state large) = state)
    (part : Preserves invariant program) :
    Preserves (fun large => invariant (view large)) (focus view update program) := by
  intro before value after holds returned
  obtain ⟨state, ran, rfl⟩ := returns_focus.mp returned
  rw [seen]
  exact part _ _ _ holds ran

end Focus

/-- Every run of the program keeps the invariant, whether it returns or stops. -/
def Leaves (invariant : State → Prop) (program : Program Stop State A) : Prop :=
  ∀ before, invariant before → invariant (lastState program before)

section Leaves

variable {invariant : State → Prop}

theorem leaves_pure (value : A) : Leaves invariant (pure value : Program Stop State A) :=
  fun _ holds => holds

theorem leaves_get : Leaves invariant (get : Program Stop State State) :=
  fun _ holds => holds

theorem leaves_throw (reason : Stop) : Leaves invariant (throw reason : Program Stop State A) :=
  fun _ holds => holds

theorem leaves_modify {change : State → State} (kept : ∀ state, invariant state → invariant (change state)) :
    Leaves invariant (modify change : Program Stop State Unit) :=
  fun before holds => kept before holds

theorem leaves_stopIf (guard : Prop) [Decidable guard] (reason : Stop) :
    Leaves invariant (stopIf guard reason : Program Stop State Unit) := by
  unfold stopIf
  split_ifs
  · exact leaves_throw reason
  · exact leaves_pure ()

theorem leaves_bind {first : Program Stop State A} {next : A → Program Stop State B}
    (head : Leaves invariant first) (tail : ∀ value, Leaves invariant (next value)) :
    Leaves invariant (first >>= next) := by
  intro before holds
  have reached := head before holds
  rcases returns_or_stops first before with ⟨value, middle, returned⟩ | ⟨reason, middle, stopped⟩
  · rw [returned.lastState_eq] at reached
    rw [returned.lastState_bind]
    exact tail value middle reached
  · rw [stopped.lastState_eq] at reached
    rw [stopped.lastState_bind]
    exact reached

theorem leaves_ite (guard : Prop) [Decidable guard] {first second : Program Stop State A}
    (positive : Leaves invariant first) (negative : Leaves invariant second) :
    Leaves invariant (if guard then first else second) := by
  split_ifs
  · exact positive
  · exact negative

theorem leaves_forRange {body : Nat → B → Program Stop State B} {count : Nat}
    (each : ∀ index < count, ∀ value, Leaves invariant (body index value)) (value : B) :
    Leaves invariant (forRange body count value) := by
  induction count with
  | zero => exact leaves_pure value
  | succ count ih =>
      apply leaves_bind
      · exact ih fun index inside => each index (by omega)
      · exact each count (by omega)

/-- What the first index establishes and every index keeps holds at the end of a loop that is not empty. -/
theorem forRange_establishes {body : Nat → B → Program Stop State B} {count : Nat} {value : B} {before : State}
    (some : 0 < count) (first : invariant (lastState (body 0 value) before))
    (each : ∀ index value, Leaves invariant (body index value)) :
    invariant (lastState (forRange body count value) before) := by
  induction count with
  | zero => omega
  | succ count ih =>
      by_cases only : count = 0
      · subst only
        exact first
      · have reached := ih (by omega)
        change invariant (lastState (forRange body count value >>= body count) before)
        rcases returns_or_stops (forRange body count value) before with
          ⟨next, middle, returned⟩ | ⟨reason, middle, stopped⟩
        · rw [returned.lastState_eq] at reached
          rw [returned.lastState_bind]
          exact each count next middle reached
        · rw [stopped.lastState_eq] at reached
          rw [stopped.lastState_bind]
          exact reached

end Leaves

/-- From a start state, a run that returns finishes as stated, and a run that stops leaves a safe state. -/
def Ensures (start : State → Prop) (program : Program Stop State A) (finish : A → State → Prop)
    (safe : State → Prop) : Prop :=
  ∀ before, start before → (∀ value after, Returns program before value after → finish value after) ∧
    ∀ reason after, Stops program before reason after → safe after

section Ensures

variable {start : State → Prop} {safe : State → Prop}

theorem ensures_bind {first : Program Stop State A} {next : A → Program Stop State B} {middle : A → State → Prop}
    {finish : B → State → Prop} (head : Ensures start first middle safe)
    (tail : ∀ value, Ensures (middle value) (next value) finish safe) : Ensures start (first >>= next) finish safe := by
  intro before begun
  obtain ⟨returns, stops⟩ := head before begun
  constructor
  · intro value after returned
    obtain ⟨found, state, started, finished⟩ := (returns_bind _ _ _ _ _).mp returned
    exact (tail found state (returns found state started)).1 value after finished
  · intro reason after stopped
    rcases (stops_bind _ _ _ _ _).mp stopped with fault | ⟨found, state, started, fault⟩
    · exact stops reason after fault
    · exact (tail found state (returns found state started)).2 reason after fault

theorem ensures_pure {finish : A → State → Prop} {value : A} (holds : ∀ state, start state → finish value state) :
    Ensures start (pure value : Program Stop State A) finish safe := by
  intro before begun
  constructor
  · intro found after returned
    obtain ⟨rfl, rfl⟩ := (returns_pure _ _ _ _).mp returned
    exact holds before begun
  · intro reason after stopped
    exact absurd stopped (stops_pure _ _ _ _)

theorem ensures_throw {finish : A → State → Prop} {reason : Stop} (holds : ∀ state, start state → safe state) :
    Ensures start (throw reason : Program Stop State A) finish safe := by
  intro before begun
  constructor
  · intro found after returned
    exact absurd returned (returns_throw _ _ _ _)
  · intro found after stopped
    obtain ⟨_, rfl⟩ := (stops_throw _ _ _ _).mp stopped
    exact holds before begun

theorem ensures_modify {change : State → State} {finish : Unit → State → Prop}
    (holds : ∀ state, start state → finish () (change state)) :
    Ensures start (modify change : Program Stop State Unit) finish safe := by
  intro before begun
  constructor
  · intro found after returned
    obtain rfl := (returns_modify _ _ _ _).mp returned
    exact holds before begun
  · intro reason after stopped
    exact absurd stopped (stops_modify _ _ _ _)

theorem ensures_get {finish : State → State → Prop} (holds : ∀ state, start state → finish state state) :
    Ensures start (get : Program Stop State State) finish safe := by
  intro before begun
  constructor
  · intro found after returned
    obtain ⟨rfl, rfl⟩ := (returns_get _ _ _).mp returned
    exact holds before begun
  · intro reason after stopped
    exact absurd stopped (stops_get _ _ _)

theorem ensures_ite (guard : Prop) [Decidable guard] {first second : Program Stop State A} {finish : A → State → Prop}
    (positive : guard → Ensures start first finish safe) (negative : ¬ guard → Ensures start second finish safe) :
    Ensures start (if guard then first else second) finish safe := by
  split_ifs with holds
  · exact positive holds
  · exact negative holds

/-- A stronger start allows the run too. -/
theorem Ensures.strengthen {program : Program Stop State A} {finish : A → State → Prop} {stronger : State → Prop}
    (ensures : Ensures start program finish safe) (implies : ∀ state, stronger state → start state) :
    Ensures stronger program finish safe :=
  fun before begun => ensures before (implies before begun)

/-- When every finish is safe, the last state is safe. -/
theorem Ensures.lastState {program : Program Stop State A} {before : State}
    (ensures : Ensures start program (fun _ => safe) safe) (begun : start before) : safe (lastState program before) := by
  rcases returns_or_stops program before with ⟨value, after, returned⟩ | ⟨reason, after, stopped⟩
  · rw [returned.lastState_eq]
    exact (ensures before begun).1 value after returned
  · rw [stopped.lastState_eq]
    exact (ensures before begun).2 reason after stopped

end Ensures

/-- An unsafe state stays unsafe, and from a start state the program ends in a safe state exactly under the condition. -/
structure Decides (safe start : State → Prop) (program : Program Stop State A) (condition : Prop) : Prop where
  broken : Leaves (fun state => ¬ safe state) program
  exactly : ∀ before, start before → (safe (lastState program before) ↔ condition)

section Decides

variable {safe start : State → Prop}

/-- The first part returns a known value to the middle states when it goes well, and to an unsafe state otherwise. -/
theorem decides_bind {first : Program Stop State A} {next : A → Program Stop State B} {middle : State → Prop}
    {well : Prop} {condition : A → Prop} (found : A) (broken : Leaves (fun state => ¬ safe state) first)
    (head : ∀ before, start before → ∃ value after, Returns first before value after ∧
      (well → value = found ∧ middle after) ∧ (¬ well → ¬ safe after))
    (tail : ∀ value, Decides safe middle (next value) (condition value)) :
    Decides safe start (first >>= next) (well ∧ condition found) := by
  constructor
  · exact leaves_bind broken fun value => (tail value).broken
  · intro before begun
    obtain ⟨value, after, returned, leads, breaks⟩ := head before begun
    rw [returned.lastState_bind]
    by_cases good : well
    · obtain ⟨rfl, reached⟩ := leads good
      rw [(tail value).exactly after reached]
      exact (and_iff_right good).symm
    · have lost := (tail value).broken after (breaks good)
      exact ⟨fun holds => absurd holds lost, fun holds => absurd holds.1 good⟩

/-- The start states may be replaced by stronger ones, and the condition by an equivalent one. -/
theorem Decides.convert {program : Program Stop State A} {stronger : State → Prop} {condition other : Prop}
    (decides : Decides safe start program condition) (implies : ∀ state, stronger state → start state)
    (same : condition ↔ other) : Decides safe stronger program other :=
  ⟨decides.broken, fun before begun => (decides.exactly before (implies before begun)).trans same⟩

/-- A program that ensures safe states needs no condition. -/
theorem decides_of_ensures {program : Program Stop State A} (broken : Leaves (fun state => ¬ safe state) program)
    (ensures : Ensures start program (fun _ => safe) safe) : Decides safe start program True :=
  ⟨broken, fun _ begun => iff_true_intro (ensures.lastState begun)⟩

theorem decides_ite (guard : Prop) [Decidable guard] {first second : Program Stop State A} {positive negative : Prop}
    (head : Decides safe start first positive) (tail : Decides safe start second negative) :
    Decides safe start (if guard then first else second) (if guard then positive else negative) := by
  split_ifs
  · exact head
  · exact tail

/-- A stop keeps the state. -/
theorem decides_stopIf_bind {guard : Prop} [Decidable guard] {reason : Stop} {next : Unit → Program Stop State A}
    {condition : Prop} (safely : ∀ state, start state → safe state) (tail : Decides safe start (next ()) condition) :
    Decides safe start (stopIf guard reason >>= next) (¬ guard → condition) := by
  constructor
  · exact leaves_bind (leaves_stopIf guard reason) fun _ => tail.broken
  · intro before begun
    by_cases holds : guard
    · have stopped : Stops (stopIf guard reason : Program Stop State Unit) before reason before := by
        rw [stops_stopIf]
        exact ⟨holds, rfl, rfl⟩
      rw [stopped.lastState_bind]
      exact ⟨fun _ free => absurd holds free, fun _ => safely before begun⟩
    · have returned : Returns (stopIf guard reason : Program Stop State Unit) before () before := by
        rw [returns_stopIf]
        exact ⟨holds, rfl⟩
      rw [returned.lastState_bind, tail.exactly before begun]
      exact ⟨fun holds _ => holds, fun implied => implied holds⟩

end Decides

/-- The same result with a changed state. -/
def mapState (change : State → State) : EStateM.Result Stop State A → EStateM.Result Stop State A
  | .ok value after => .ok value (change after)
  | .error reason after => .error reason (change after)

/-- From a changed state, the program has the same result with a changed state. -/
def Respects (change : State → State) (program : Program Stop State A) : Prop :=
  ∀ before, program.run (change before) = mapState change (program.run before)

section Respects

variable {change : State → State}

theorem respects_pure (value : A) : Respects change (pure value : Program Stop State A) := fun _ => rfl

theorem respects_throw (reason : Stop) : Respects change (throw reason : Program Stop State A) := fun _ => rfl

theorem respects_modify {step : State → State} (same : ∀ state, step (change state) = change (step state)) :
    Respects change (modify step : Program Stop State Unit) :=
  fun before => congrArg (EStateM.Result.ok ()) (same before)

theorem respects_bind {first : Program Stop State A} {next : A → Program Stop State B} (head : Respects change first)
    (tail : ∀ value, Respects change (next value)) : Respects change (first >>= next) := by
  intro before
  rw [EStateM.run_bind, EStateM.run_bind, head before]
  cases first.run before with
  | ok value after => exact tail value after
  | error reason after => rfl

/-- The part of the state that the program reads does not change. -/
theorem respects_get_bind {next : State → Program Stop State A} (same : ∀ state, next (change state) = next state)
    (tail : ∀ state, Respects change (next state)) : Respects change (get >>= next) := by
  intro before
  change (next (change before)).run (change before) = mapState change ((next before).run before)
  rw [same]
  exact tail before before

theorem respects_ite (guard : Prop) [Decidable guard] {first second : Program Stop State A}
    (positive : Respects change first) (negative : Respects change second) :
    Respects change (if guard then first else second) := by
  split_ifs
  · exact positive
  · exact negative

theorem respects_stopIf (guard : Prop) [Decidable guard] (reason : Stop) :
    Respects change (stopIf guard reason : Program Stop State Unit) :=
  respects_ite guard (respects_throw reason) (respects_pure ())

/-- A change that keeps a state keeps the last state of a run from it. -/
theorem Respects.lastState {program : Program Stop State A} {before : State} (respects : Respects change program)
    (fixed : change before = before) : change (lastState program before) = Library.lastState program before := by
  have same := respects before
  rw [fixed] at same
  rcases returns_or_stops program before with ⟨value, after, returned⟩ | ⟨reason, after, stopped⟩
  · rw [returned.lastState_eq]
    rw [returned] at same
    exact (EStateM.Result.ok.inj same).2.symm
  · rw [stopped.lastState_eq]
    rw [stopped] at same
    exact (EStateM.Result.error.inj same).2.symm

/-- Two loops whose bodies agree up to a change of the state agree up to this change. -/
theorem forRange_agree {body body' : Nat → B → Program Stop State B} {count : Nat} {value : B} {before before' : State}
    (invariant : Nat → State → Prop) (start : invariant 0 before) (same : change before = change before')
    (kept : ∀ index current next state after, index < count → invariant index state →
      Returns (body index current) state next after → invariant (index + 1) after)
    (step : ∀ index current state state', index < count → invariant index state → change state = change state' →
      mapState change ((body index current).run state) = mapState change ((body' index current).run state')) :
    mapState change ((forRange body count value).run before) =
      mapState change ((forRange body' count value).run before') := by
  induction count with
  | zero => exact congrArg (EStateM.Result.ok value) same
  | succ count ih =>
      have reached := ih (fun index current next state after inside => kept index current next state after (by omega))
        fun index current state state' inside => step index current state state' (by omega)
      change mapState change ((forRange body count value >>= body count).run before) =
        mapState change ((forRange body' count value >>= body' count).run before')
      rw [EStateM.run_bind, EStateM.run_bind]
      cases first : (forRange body count value).run before with
      | ok next after =>
          cases second : (forRange body' count value).run before' with
          | ok next' after' =>
              rw [first, second] at reached
              obtain ⟨rfl, agree⟩ := EStateM.Result.ok.inj reached
              have holds := returns_forRange (fun index _ state => invariant index state) start
                (fun index current next state after inside => kept index current next state after (by omega)) first
              exact step count next after after' (by omega) holds agree
          | error reason after' =>
              rw [first, second] at reached
              cases reached
      | error reason after =>
          cases second : (forRange body' count value).run before' with
          | ok next' after' =>
              rw [first, second] at reached
              cases reached
          | error reason' after' =>
              rw [first, second] at reached
              exact reached

end Respects

end UmbralOS.Library
