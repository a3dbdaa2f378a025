import UmbralOS.Proof.Input.Controller

/-!
This file proves that the polled part of `ps2_init` keeps the handshake for every timing.
-/

namespace UmbralOS

open Library

/-- No byte was written while the input buffer was full, and each answer that the driver used is the answer to its own
query. -/
structure Ps2.Handshake (ps2 : Ps2) : Prop where
  writes : ps2.overruns = []
  answers : ∀ use ∈ ps2.uses, use.2 = some use.1

namespace I8042

variable {controller : I8042}

theorem status_output (controller : I8042) : controller.status &&& (1#8 <<< 0) = 0 ↔ controller.outputFull = false := by
  unfold status
  cases controller.outputFull <;> cases controller.input.isSome <;> decide

theorem status_input (controller : I8042) : controller.status &&& (1#8 <<< 1) ≠ 0 ↔ controller.input.isSome = true := by
  unfold status
  cases controller.outputFull <;> cases controller.input.isSome <;> decide

/-- The input buffer holds at most a byte without an answer. -/
structure Silent (controller : I8042) (awaiting : Option (BitVec 8)) : Prop where
  pending : ∀ replies, (controller.consume replies).pending = []
  awaiting : ∀ replies, (controller.consume replies).awaiting = awaiting

/-- The output buffer is empty too. -/
structure Quiet (controller : I8042) (awaiting : Option (BitVec 8)) : Prop extends controller.Silent awaiting where
  taken : controller.outputFull = false

variable {awaiting : Option (BitVec 8)}

theorem Idle.silent (idle : controller.Idle awaiting) : controller.Silent awaiting := by
  constructor
  · intro replies
    rw [consume_of_empty idle.input, idle.pending]
  · intro replies
    rw [consume_of_empty idle.input, idle.awaiting]

/-- A silent controller whose input buffer is empty is idle. -/
theorem Silent.idle (silent : controller.Silent awaiting) (empty : controller.input = none) : controller.Idle awaiting := by
  have pending := silent.pending fun _ _ => 0#8
  have awaits := silent.awaiting fun _ _ => 0#8
  rw [consume_of_empty empty] at pending awaits
  exact ⟨empty, pending, awaits⟩

theorem Silent.consume (silent : controller.Silent awaiting) (replies : Nat → Nat → BitVec 8) :
    (controller.consume replies).Silent awaiting :=
  Idle.silent ⟨consume_input replies controller, silent.pending replies, silent.awaiting replies⟩

theorem Quiet.run (quiet : controller.Quiet awaiting) (replies : Nat → Nat → BitVec 8) (steps : List I8042Step) :
    (controller.run replies steps).Quiet awaiting := by
  rw [run_silent (quiet.pending replies)]
  split_ifs
  · exact ⟨quiet.consume replies, (consume_outputFull replies controller).trans quiet.taken⟩
  · exact quiet

end I8042

/-- The handshake holds, and the controller is idle with an empty output buffer. -/
def Ps2.Ready (awaiting : Option (BitVec 8)) (ps2 : Ps2) : Prop :=
  ps2.Handshake ∧ ps2.controller.Idle awaiting ∧ ps2.controller.outputFull = false

def Ps2.Quiet (awaiting : Option (BitVec 8)) (ps2 : Ps2) : Prop := ps2.Handshake ∧ ps2.controller.Quiet awaiting

def Ps2.Owes (count : Nat) (ps2 : Ps2) : Prop := ps2.Handshake ∧ ps2.controller.Owes count

section Polling

variable {timing : Ps2Timing} {ps2 : Ps2} {awaiting : Option (BitVec 8)} {count : Nat}

/-- A driver that has taken every answer can write again. -/
theorem Ps2.Owes.ready (owes : ps2.Owes 0) (empty : ps2.controller.input = none) : ps2.Ready none := by
  obtain ⟨handshake, ⟨_, awaits, total⟩ | ⟨sent, asked, _⟩⟩ := owes
  · obtain ⟨waiting, full⟩ := Nat.add_eq_zero_iff.mp total
    refine ⟨handshake, ⟨empty, List.eq_nil_of_length_eq_zero waiting, awaits⟩, ?_⟩
    exact Bool.toNat_eq_zero.mp full
  · rw [empty] at asked
    cases asked

theorem Ps2.Ready.advance (ready : ps2.Ready awaiting) : (ps2.advance timing).Ready awaiting := by
  obtain ⟨handshake, idle, taken⟩ := ready
  have same : (ps2.advance timing).controller = ps2.controller := I8042.run_idle idle.input idle.pending _
  exact ⟨⟨handshake.writes, handshake.answers⟩, same ▸ idle, same ▸ taken⟩

/-- A write to an empty input buffer keeps the handshake. -/
theorem Ps2.Handshake.send (handshake : ps2.Handshake) (empty : ps2.controller.input = none) (port : BitVec 16)
    (value : BitVec 8) : (ps2.send port value).Handshake := by
  constructor
  · rw [Ps2.send, empty]
    exact handshake.writes
  · exact handshake.answers

theorem ensures_kprint {start : Ps2 → Prop} (format : String) (arguments : List (BitVec 64))
    (kept : ∀ before messages, start before → start { before with messages := messages }) :
    Ensures start (kprint format arguments) (fun _ => start) Ps2.Handshake :=
  ensures_modify fun before begun => kept before _ begun

theorem ensures_inbStatus {start middle : Ps2 → Prop} (advance : ∀ before, start before → middle (before.advance timing)) :
    Ensures start (inbStatus timing) (fun status after => status = after.controller.status ∧ middle after)
      Ps2.Handshake := by
  have begun : Ensures start (modify (Ps2.advance timing) : Ps2Program Unit) (fun _ => middle) Ps2.Handshake := ensures_modify advance
  have found : Ensures middle (get : Ps2Program Ps2) (fun found after => found = after ∧ middle after) Ps2.Handshake :=
    ensures_get fun state holds => ⟨rfl, holds⟩
  apply ensures_bind begun
  intro _
  apply ensures_bind found
  intro state
  exact ensures_pure fun after ⟨same, holds⟩ => ⟨same ▸ rfl, holds⟩

theorem ensures_inbData {start middle : Ps2 → Prop} (drain : ∀ before, start before → middle (before.advance timing).drain) :
    Ensures start (inbData timing) (fun _ => middle) Ps2.Handshake := by
  have begun : Ensures start (modify (Ps2.advance timing) : Ps2Program Unit) (fun _ after => middle after.drain) Ps2.Handshake :=
    ensures_modify drain
  have found : Ensures (fun state => middle state.drain) (get : Ps2Program Ps2) (fun _ state => middle state.drain) Ps2.Handshake :=
    ensures_get fun state holds => holds
  have taken : Ensures (fun state => middle state.drain) (modify Ps2.drain : Ps2Program Unit) (fun _ => middle) Ps2.Handshake :=
    ensures_modify fun before holds => holds
  apply ensures_bind begun
  intro _
  apply ensures_bind found
  intro state
  apply ensures_bind taken
  intro _
  exact ensures_pure fun after holds => holds

/-- The driver leaves the loop of `send_to_device` when the input buffer is empty. -/
theorem ensures_waitDevice (fuel : Nat) :
    Ensures (Ps2.Quiet awaiting) (waitDevice timing fuel) (fun _ => Ps2.Ready awaiting) Ps2.Handshake := by
  induction fuel with
  | zero => exact ensures_throw fun state quiet => quiet.1
  | succ fuel ih =>
      have kept : ∀ before, Ps2.Quiet awaiting before → (before.advance timing).Quiet awaiting :=
        fun before ⟨handshake, quiet⟩ => ⟨⟨handshake.writes, handshake.answers⟩, quiet.run timing.replies _⟩
      apply ensures_bind (ensures_inbStatus kept)
      intro status
      apply ensures_ite
      · intro full
        exact ih.strengthen fun state found => found.2
      · intro empty
        apply ensures_pure
        rintro state ⟨rfl, handshake, quiet⟩
        rw [I8042.status_input, Bool.not_eq_true, Option.isSome_eq_false_iff, Option.isNone_iff_eq_none] at empty
        exact ⟨handshake, quiet.idle empty, quiet.taken⟩

/-- A byte to an idle controller changes its state only through the input buffer. -/
theorem ensures_outbPs2 {finish : Ps2 → Prop} {port : BitVec 16} {value : BitVec 8}
    (written : ∀ before, Ps2.Ready awaiting before → finish (before.send port value)) :
    Ensures (Ps2.Ready awaiting) (outbPs2 timing port value) (fun _ => finish) Ps2.Handshake := by
  have begun : Ensures (Ps2.Ready awaiting) (modify (Ps2.advance timing) : Ps2Program Unit) (fun _ => Ps2.Ready awaiting) Ps2.Handshake :=
    ensures_modify fun before ready => Ps2.Ready.advance ready
  apply ensures_bind begun
  intro _
  exact ensures_modify written

/-- The device owes its answers to a byte that it is sent. -/
theorem ensures_sendToDevice {value : BitVec 8} (fuel : Nat)
    (counts : ∀ controller : I8042, controller.awaiting = awaiting → ∀ number,
      controller.answers ⟨number, dataPort, value⟩ = count) :
    Ensures (Ps2.Quiet awaiting) (sendToDevice timing fuel value) (fun _ => Ps2.Owes count) Ps2.Handshake := by
  apply ensures_bind (ensures_waitDevice fuel)
  intro _
  apply ensures_outbPs2
  intro before ⟨handshake, idle, taken⟩
  have device : dataPort ≠ commandStatusPort := by decide
  have count := counts (before.send dataPort value).controller idle.awaiting before.written
  exact ⟨handshake.send idle.input _ _, Or.inr ⟨_, rfl, device, count, idle.pending, taken⟩⟩

theorem Ps2.Owes.advance (owes : ps2.Owes count) : (ps2.advance timing).Owes count :=
  ⟨⟨owes.1.writes, owes.1.answers⟩, owes.2.run _⟩

/-- The driver leaves the loop of `poll_reply` when the output buffer is full. -/
theorem ensures_waitReply (fuel : Nat) :
    Ensures (Ps2.Owes count) (waitReply timing fuel)
      (fun _ after => Ps2.Owes count after ∧ after.controller.outputFull = true) Ps2.Handshake := by
  induction fuel with
  | zero => exact ensures_throw fun state owes => owes.1
  | succ fuel ih =>
      have kept : ∀ before, Ps2.Owes count before → (before.advance timing).Owes count := fun _ owes => owes.advance
      apply ensures_bind (ensures_inbStatus kept)
      intro status
      apply ensures_ite
      · intro empty
        exact ih.strengthen fun state found => found.2
      · intro full
        apply ensures_pure
        rintro state ⟨rfl, owes⟩
        rw [I8042.status_output, Bool.not_eq_false] at full
        exact ⟨owes, full⟩

/-- One answer fewer is outstanding after a polled read, and the input buffer is empty. -/
theorem Ps2.Owes.drain (owes : ps2.Owes (count + 1)) (full : ps2.controller.outputFull = true) :
    ps2.drain.Owes count ∧ ps2.drain.controller.input = none := by
  obtain ⟨handshake, ⟨empty, awaits, total⟩ | ⟨sent, _, _, _, _, taken⟩⟩ := owes
  · refine ⟨⟨⟨handshake.writes, handshake.answers⟩, Or.inl ⟨empty, awaits, ?_⟩⟩, empty⟩
    rw [full] at total
    exact Nat.succ.inj total
  · rw [full] at taken
    cases taken

theorem ensures_pollReply (fuel : Nat) :
    Ensures (Ps2.Owes (count + 1)) (pollReply timing fuel)
      (fun _ after => Ps2.Owes count after ∧ after.controller.input = none) Ps2.Handshake := by
  apply ensures_bind (ensures_waitReply fuel)
  intro _
  have taken : Ensures (fun before => Ps2.Owes (count + 1) before ∧ before.controller.outputFull = true) (inbData timing)
      (fun _ after => Ps2.Owes count after ∧ after.controller.input = none) Ps2.Handshake :=
    ensures_inbData fun before ⟨owes, full⟩ => Ps2.Owes.drain owes.advance (I8042.outputFull_run full _)
  apply ensures_bind taken
  intro reply
  apply ensures_bind
  · exact ensures_kprint _ _ fun before messages ⟨owes, empty⟩ => ⟨⟨⟨owes.1.writes, owes.1.answers⟩, owes.2⟩, empty⟩
  · intro _
    exact ensures_pure fun state holds => holds

end Polling

section Reset

variable {timing : Ps2Timing} {awaiting : Option (BitVec 8)}

theorem Ps2.Ready.quiet {ps2 : Ps2} (ready : ps2.Ready awaiting) : ps2.Quiet awaiting := by
  obtain ⟨handshake, idle, taken⟩ := ready
  exact ⟨handshake, idle.silent, taken⟩

theorem ensures_kprint_ready (format : String) (arguments : List (BitVec 64)) :
    Ensures (Ps2.Ready awaiting) (kprint format arguments) (fun _ => Ps2.Ready awaiting) Ps2.Handshake :=
  ensures_kprint _ _ fun _ _ ⟨handshake, idle⟩ => ⟨⟨handshake.writes, handshake.answers⟩, idle⟩

/-- A device that is sent a byte answers, and the driver polls every answer. -/
theorem ensures_lastReply (fuel : Nat) :
    Ensures (Ps2.Owes 1) (pollReply timing fuel) (fun _ => Ps2.Ready none) Ps2.Handshake := by
  intro before owes
  obtain ⟨returns, stops⟩ := ensures_pollReply fuel before owes
  exact ⟨fun value after returned => Ps2.Owes.ready (returns value after returned).1 (returns value after returned).2, stops⟩

theorem ensures_nextReply {count : Nat} (fuel : Nat) :
    Ensures (Ps2.Owes (count + 1)) (pollReply timing fuel) (fun _ => Ps2.Owes count) Ps2.Handshake := by
  intro before owes
  obtain ⟨returns, stops⟩ := ensures_pollReply fuel before owes
  exact ⟨fun value after returned => (returns value after returned).1, stops⟩

/-- The keyboard owes two answers to its reset and one answer to the enabling of its scanning. -/
theorem ensures_ps2ResetKb (fuel : Nat) :
    Ensures (Ps2.Quiet none) (ps2ResetKb timing fuel) (fun _ => Ps2.Ready none) Ps2.Handshake := by
  have resets : ∀ controller : I8042, controller.awaiting = none → ∀ number,
      controller.answers ⟨number, dataPort, 0xFF#8⟩ = 2 := by
    intro controller awaits number
    simp [I8042.answers, awaits, dataPort, commandStatusPort]
  have scans : ∀ controller : I8042, controller.awaiting = none → ∀ number,
      controller.answers ⟨number, dataPort, 0xF4#8⟩ = 1 := by
    intro controller awaits number
    simp [I8042.answers, awaits, dataPort, commandStatusPort]
  unfold ps2ResetKb
  apply ensures_bind (ensures_kprint _ _ fun before messages quiet => ⟨⟨quiet.1.writes, quiet.1.answers⟩, quiet.2⟩)
  intro _
  apply ensures_bind (ensures_sendToDevice fuel resets)
  intro _
  apply ensures_bind (ensures_nextReply fuel)
  intro _
  apply ensures_bind (ensures_lastReply fuel)
  intro _
  apply ensures_bind (ensures_kprint_ready _ _)
  intro _
  apply ensures_bind ((ensures_sendToDevice fuel scans).strengthen fun state ready => Ps2.Ready.quiet ready)
  intro _
  apply ensures_bind (ensures_lastReply fuel)
  intro _
  exact ensures_pure fun state ready => ready

/-- The command that addresses the mouse waits in the input buffer of an idle controller. -/
theorem ensures_addressMouse :
    Ensures (Ps2.Ready awaiting) (sendCommandNoreply timing 0xD4) (fun _ => Ps2.Quiet (some 0xD4#8)) Ps2.Handshake := by
  apply ensures_outbPs2
  intro before ⟨handshake, idle, taken⟩
  refine ⟨handshake.send idle.input _ _, ⟨fun replies => ?_, fun replies => ?_⟩, taken⟩
  · simp [I8042.consume, Ps2.send, idle.pending, I8042.answers, I8042.IsQuery]
  · simp [I8042.consume, Ps2.send, I8042.WaitsForData]

/-- The mouse owes three answers to its reset and one answer to the enabling of its scanning. -/
theorem ensures_ps2ResetMouse (fuel : Nat) :
    Ensures (Ps2.Ready none) (ps2ResetMouse timing fuel) (fun _ => Ps2.Ready none) Ps2.Handshake := by
  have resets : ∀ controller : I8042, controller.awaiting = some 0xD4#8 → ∀ number,
      controller.answers ⟨number, dataPort, 0xFF#8⟩ = 3 := by
    intro controller awaits number
    simp [I8042.answers, awaits, dataPort, commandStatusPort]
  have scans : ∀ controller : I8042, controller.awaiting = some 0xD4#8 → ∀ number,
      controller.answers ⟨number, dataPort, 0xF4#8⟩ = 1 := by
    intro controller awaits number
    simp [I8042.answers, awaits, dataPort, commandStatusPort]
  unfold ps2ResetMouse
  apply ensures_bind (ensures_kprint_ready _ _)
  intro _
  apply ensures_bind ensures_addressMouse
  intro _
  apply ensures_bind (ensures_sendToDevice fuel resets)
  intro _
  apply ensures_bind (ensures_nextReply fuel)
  intro _
  apply ensures_bind (ensures_nextReply fuel)
  intro _
  apply ensures_bind (ensures_lastReply fuel)
  intro _
  apply ensures_bind (ensures_kprint_ready _ _)
  intro _
  apply ensures_bind ensures_addressMouse
  intro _
  apply ensures_bind (ensures_sendToDevice fuel scans)
  intro _
  apply ensures_bind (ensures_lastReply fuel)
  intro _
  exact ensures_pure fun state ready => ready

/-- The I/O APIC driver does not speak to the controller. -/
theorem lastState_liftPs2 {A : Type} (program : MachineProgram A) (before : Ps2) :
    lastState (liftPs2 program) before = { before with machine := lastState program before.machine } := by
  rcases returns_or_stops program before.machine with ⟨value, machine, returned⟩ | ⟨reason, machine, stopped⟩
  · have lifted : Returns (liftPs2 program) before value { before with machine := machine } := by
      simp only [Returns, EStateM.run] at returned
      simp only [Returns, EStateM.run, liftPs2, returned]
    rw [lifted.lastState_eq, returned.lastState_eq]
  · have lifted : Stops (liftPs2 program) before reason { before with machine := machine } := by
      simp only [Stops, EStateM.run] at stopped
      simp only [Stops, EStateM.run, liftPs2, stopped]
    rw [lifted.lastState_eq, stopped.lastState_eq]

theorem ensures_liftPs2 {A : Type} (program : MachineProgram A) :
    Ensures Ps2.Handshake (liftPs2 program) (fun _ => Ps2.Handshake) Ps2.Handshake := by
  intro before handshake
  have last : (lastState (liftPs2 program) before).Handshake := by
    rw [lastState_liftPs2]
    exact ⟨handshake.writes, handshake.answers⟩
  constructor
  · intro value after returned
    exact returned.lastState_eq ▸ last
  · intro reason after stopped
    exact stopped.lastState_eq ▸ last

/-- The reset of the devices keeps the handshake for every timing. -/
theorem ensures_ps2ResetDevices (fuel : Nat) (hasMouse : Bool) :
    Ensures (Ps2.Quiet none) (ps2ResetDevices timing fuel hasMouse) (fun _ => Ps2.Handshake) Ps2.Handshake := by
  have keyboard := (ensures_liftPs2 (ioapicEnableIsaInterrupt irqKb)).strengthen fun state (ready : Ps2.Ready none state) =>
    ready.1
  unfold ps2ResetDevices
  apply ensures_bind (ensures_ps2ResetKb fuel)
  intro _
  cases hasMouse with
  | false =>
      apply ensures_bind keyboard
      intro _
      exact ensures_pure fun state handshake => handshake
  | true =>
      apply ensures_bind (ensures_ps2ResetMouse fuel)
      intro _
      apply ensures_bind keyboard
      intro _
      exact ensures_liftPs2 _

end Reset

end UmbralOS
