import Mathlib.Data.List.Basic

/-!
This file gives a queue of limited room, and what a run of arrivals and readers does to it.
-/

namespace UmbralOS.Library

/-- An item arrives at the queue, a reader takes the first item, or nothing happens. -/
inductive QueueEvent (Item : Type) where
  | put (item : Item)
  | take
  | rest

namespace QueueEvent

variable {Item : Type}

/-- An item that finds no room is lost. -/
def step (capacity : Nat) (queue : List Item) : QueueEvent Item → List Item
  | put item => if queue.length < capacity then queue ++ [item] else queue
  | take => queue.tail
  | rest => queue

/-- The items that the queue accepts. -/
def accepted (capacity : Nat) (queue : List Item) : QueueEvent Item → List Item
  | put item => if queue.length < capacity then [item] else []
  | _ => []

/-- The items that a reader takes. -/
def taken (queue : List Item) : QueueEvent Item → List Item
  | take => queue.head?.toList
  | _ => []

/-- The items that arrive. -/
def arrived : QueueEvent Item → List Item
  | put item => [item]
  | _ => []

def isTake : QueueEvent Item → Bool
  | take => true
  | _ => false

/-- One event moves items, and it keeps their order. -/
theorem conserved (capacity : Nat) (queue : List Item) (event : QueueEvent Item) :
    queue ++ event.accepted capacity queue = event.taken queue ++ event.step capacity queue := by
  cases event with
  | put item =>
      unfold accepted taken step
      split_ifs
      · rfl
      · rw [List.append_nil, List.nil_append]
  | take =>
      cases queue with
      | nil => rfl
      | cons item queue => exact List.append_nil _
  | rest => exact List.append_nil _

end QueueEvent

namespace Queue

variable {Item : Type}

/-- The items in the queue after the events. -/
def final (capacity : Nat) : List Item → List (QueueEvent Item) → List Item
  | queue, [] => queue
  | queue, event :: events => final capacity (event.step capacity queue) events

/-- The items that the queue accepts in a run. -/
def accepted (capacity : Nat) : List Item → List (QueueEvent Item) → List Item
  | _, [] => []
  | queue, event :: events => event.accepted capacity queue ++ accepted capacity (event.step capacity queue) events

/-- The items that the readers take in a run. -/
def taken (capacity : Nat) : List Item → List (QueueEvent Item) → List Item
  | _, [] => []
  | queue, event :: events => event.taken queue ++ taken capacity (event.step capacity queue) events

/-- Every reader finds an item. -/
def Paced (capacity : Nat) : List Item → List (QueueEvent Item) → Prop
  | _, [] => True
  | queue, event :: events => (event.isTake = true → queue ≠ []) ∧ Paced capacity (event.step capacity queue) events

/-- Every item finds room. -/
def Fits (capacity : Nat) : List Item → List (QueueEvent Item) → Prop
  | _, [] => True
  | queue, event :: events => (event.arrived ≠ [] → queue.length < capacity) ∧ Fits capacity (event.step capacity queue) events

variable {capacity : Nat} {queue : List Item} {events : List (QueueEvent Item)}

/-- The readers take the items in their order, and the others wait. -/
theorem conserved (capacity : Nat) (queue : List Item) (events : List (QueueEvent Item)) :
    queue ++ accepted capacity queue events = taken capacity queue events ++ final capacity queue events := by
  induction events generalizing queue with
  | nil => exact List.append_nil _
  | cons event events ih =>
      unfold accepted taken final
      rw [← List.append_assoc, event.conserved, List.append_assoc, ih, List.append_assoc]

/-- In a paced run, every reader takes one item. -/
theorem Paced.length_taken (paced : Paced capacity queue events) :
    (taken capacity queue events).length = events.countP QueueEvent.isTake := by
  induction events generalizing queue with
  | nil => rfl
  | cons event events ih =>
      obtain ⟨waiting, later⟩ := paced
      unfold taken
      rw [List.length_append, ih later, List.countP_cons, Nat.add_comm]
      cases event with
      | take =>
          obtain ⟨item, rest, rfl⟩ := List.exists_cons_of_ne_nil (waiting rfl)
          rfl
      | _ => rfl

/-- The queue accepts no more items than arrive. -/
theorem length_accepted_le (capacity : Nat) (queue : List Item) (events : List (QueueEvent Item)) :
    (accepted capacity queue events).length ≤ (events.flatMap QueueEvent.arrived).length := by
  induction events generalizing queue with
  | nil => exact Nat.le_refl 0
  | cons event events ih =>
      have later := ih (event.step capacity queue)
      have first : (event.accepted capacity queue).length ≤ event.arrived.length := by
        cases event with
        | put item =>
            unfold QueueEvent.accepted QueueEvent.arrived
            split_ifs <;> simp
        | _ => exact Nat.le_refl 0
      unfold accepted
      rw [List.flatMap_cons, List.length_append, List.length_append]
      omega

/-- The queue accepts all items exactly when every item finds room. -/
theorem accepted_eq_iff : accepted capacity queue events = events.flatMap QueueEvent.arrived ↔
    Fits capacity queue events := by
  induction events generalizing queue with
  | nil => exact iff_of_true rfl trivial
  | cons event events ih =>
      unfold accepted Fits
      rw [List.flatMap_cons, ← ih]
      cases event with
      | put item =>
          have fewer := length_accepted_le capacity ((QueueEvent.put item).step capacity queue) events
          by_cases room : queue.length < capacity
          · simp [QueueEvent.accepted, QueueEvent.arrived, room]
          · simp only [QueueEvent.accepted, QueueEvent.arrived, room, if_false, List.nil_append, List.singleton_append,
              ne_eq, reduceCtorEq, not_false_eq_true, true_implies, false_and, iff_false]
            intro same
            have length := congrArg List.length same
            rw [List.length_cons] at length
            omega
      | _ => simp [QueueEvent.accepted, QueueEvent.arrived]

end Queue

end UmbralOS.Library
