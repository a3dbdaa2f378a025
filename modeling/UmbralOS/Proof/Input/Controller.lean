import UmbralOS.Kernel.Ps2

/-!
This file gives what the controller does between two accesses of the driver.
-/

namespace UmbralOS

namespace I8042

variable {replies : Nat → Nat → BitVec 8} {controller : I8042} {sent : Ps2Sent}

/-- The controller has nothing to post and nothing to take. -/
structure Idle (controller : I8042) (awaiting : Option (BitVec 8)) : Prop where
  input : controller.input = none
  pending : controller.pending = []
  awaiting : controller.awaiting = awaiting

@[simp] theorem run_cons (first : I8042Step) (rest : List I8042Step) :
    controller.run replies (first :: rest) = (controller.step replies first).run replies rest := rfl

theorem consume_of_empty (empty : controller.input = none) : controller.consume replies = controller := by
  rw [consume, empty]

theorem post_of_nothing (nothing : controller.pending = []) : controller.post = controller := by
  rw [post, nothing]
  cases controller.outputFull <;> rfl

@[simp] theorem consume_input (replies : Nat → Nat → BitVec 8) (controller : I8042) :
    (controller.consume replies).input = none := by
  unfold consume
  split
  · assumption
  · rfl

@[simp] theorem consume_outputFull (replies : Nat → Nat → BitVec 8) (controller : I8042) :
    (controller.consume replies).outputFull = controller.outputFull := by
  unfold consume
  split <;> rfl

@[simp] theorem consume_output (replies : Nat → Nat → BitVec 8) (controller : I8042) :
    (controller.consume replies).output = controller.output := by
  unfold consume
  split <;> rfl

/-- The byte of the input buffer does not depend on the output buffer. -/
theorem consume_taken (replies : Nat → Nat → BitVec 8) (controller : I8042) :
    consume replies { controller with outputFull := false } = { controller.consume replies with outputFull := false } := by
  rcases controller with ⟨input, outputFull, output, pending, awaiting⟩
  cases input <;> rfl

/-- The byte of the input buffer has no answer, so the buffer hides nothing. -/
theorem pending_of_consume (silent : (controller.consume replies).pending = []) : controller.pending = [] := by
  unfold consume at silent
  split at silent
  · exact silent
  · exact (List.append_eq_nil_iff.mp silent).1

/-- An idle controller does not change. -/
theorem run_idle (empty : controller.input = none) (nothing : controller.pending = []) (steps : List I8042Step) :
    controller.run replies steps = controller := by
  induction steps with
  | nil => rfl
  | cons first rest ih =>
      cases first with
      | consume => rw [run_cons, step, consume_of_empty empty, ih]
      | post => rw [run_cons, step, post_of_nothing nothing, ih]

/-- A byte without an answer is only consumed. -/
theorem run_silent (silent : (controller.consume replies).pending = []) (steps : List I8042Step) :
    controller.run replies steps = if .consume ∈ steps then controller.consume replies else controller := by
  induction steps with
  | nil => rfl
  | cons first rest ih =>
      cases first with
      | consume =>
          rw [run_cons, step, run_idle (consume_input replies controller) silent, if_pos List.mem_cons_self]
      | post =>
          rw [run_cons, step, post_of_nothing (pending_of_consume silent), ih]
          simp only [List.mem_cons, reduceCtorEq, false_or]

/-- One answer that waits is posted at the first chance. -/
theorem run_waiting {posted : Ps2Posted} (empty : controller.input = none) (waiting : controller.pending = [posted])
    (taken : controller.outputFull = false) (steps : List I8042Step) :
    controller.run replies steps = if .post ∈ steps then
      { controller with outputFull := true, output := posted, pending := [] } else controller := by
  induction steps with
  | nil => rfl
  | cons first rest ih =>
      cases first with
      | consume =>
          rw [run_cons, step, consume_of_empty empty, ih]
          simp only [List.mem_cons, reduceCtorEq, false_or]
      | post =>
          have posts : controller.post = { controller with outputFull := true, output := posted, pending := [] } := by
            rw [post, waiting, taken]
          have last := @run_idle replies { controller with outputFull := true, output := posted, pending := [] } empty rfl rest
          rw [run_cons, step, posts, last, if_pos List.mem_cons_self]

theorem IsQuery.not_waitsForData {command : BitVec 8} (query : IsQuery command) : ¬ WaitsForData command := by
  rcases query with rfl | rfl | rfl | rfl <;> decide

/-- The answer of a query is in the output buffer exactly when the controller consumed the query and then posted. -/
theorem run_query {number : Nat} {command : BitVec 8} (query : IsQuery command)
    (asked : controller.input = some ⟨number, commandStatusPort, command⟩) (nothing : controller.pending = [])
    (taken : controller.outputFull = false) (steps : List I8042Step) :
    if [I8042Step.consume, .post].Sublist steps then
      (controller.run replies steps).Idle none ∧ (controller.run replies steps).output = ⟨some number, replies number 0⟩
    else (controller.run replies steps).output = controller.output := by
  have consumed : (controller.consume replies).pending = [⟨some number, replies number 0⟩] := by
    rw [consume, asked]
    simp [nothing, answers, query]
  have awaits : (controller.consume replies).awaiting = none := by
    rw [consume, asked]
    simp [query.not_waitsForData]
  induction steps with
  | nil =>
      rw [if_neg (by simp)]
      rfl
  | cons first rest ih =>
      cases first with
      | consume =>
          rw [run_cons, step, run_waiting (consume_input replies controller) consumed
            ((consume_outputFull replies controller).trans taken)]
          simp only [List.cons_sublist_cons, List.singleton_sublist]
          split_ifs
          · exact ⟨⟨consume_input replies controller, rfl, awaits⟩, rfl⟩
          · exact consume_output replies controller
      | post =>
          have skips : [I8042Step.consume, .post].Sublist (.post :: rest) ↔ [I8042Step.consume, .post].Sublist rest := by
            simp [List.sublist_cons_iff]
          rw [run_cons, step, post_of_nothing nothing]
          simp only [skips]
          exact ih

/-- The controller owes some answers: they wait or one of them is posted, or the input buffer holds the byte that they
answer and the earlier answers are taken. -/
def Owes (controller : I8042) (count : Nat) : Prop :=
  controller.input = none ∧ controller.awaiting = none ∧ controller.pending.length + controller.outputFull.toNat = count ∨
    ∃ sent, controller.input = some sent ∧ sent.port ≠ commandStatusPort ∧ controller.answers sent = count ∧
      controller.pending = [] ∧ controller.outputFull = false

/-- The controller's steps change nothing of what it owes. -/
theorem Owes.step {count : Nat} (owes : controller.Owes count) (first : I8042Step) :
    (controller.step replies first).Owes count := by
  rcases owes with ⟨empty, awaits, total⟩ | ⟨sent, asked, device, single, nothing, taken⟩
  · left
    cases first with
    | consume =>
        rw [I8042.step, consume_of_empty empty]
        exact ⟨empty, awaits, total⟩
    | post =>
        rw [I8042.step, post]
        split
        · rename_i full waiting
          rw [full, waiting] at total
          exact ⟨empty, awaits, total⟩
        · exact ⟨empty, awaits, total⟩
  · cases first with
    | consume =>
        left
        rw [I8042.step, consume, asked]
        refine ⟨rfl, if_neg fun command => device command.1, ?_⟩
        simp [nothing, taken, single]
    | post =>
        right
        rw [I8042.step, post_of_nothing nothing]
        exact ⟨sent, asked, device, single, nothing, taken⟩

theorem Owes.run {count : Nat} (owes : controller.Owes count) (steps : List I8042Step) :
    (controller.run replies steps).Owes count := by
  induction steps generalizing controller with
  | nil => exact owes
  | cons first rest ih => exact ih (owes.step first)

/-- A full output buffer stays full until the driver reads it. -/
theorem outputFull_run (full : controller.outputFull = true) (steps : List I8042Step) :
    (controller.run replies steps).outputFull = true := by
  induction steps generalizing controller with
  | nil => exact full
  | cons first rest ih =>
      apply ih
      cases first with
      | consume => exact (consume_outputFull replies controller).trans full
      | post =>
          rw [step, post, full]
          exact full

end I8042

end UmbralOS
