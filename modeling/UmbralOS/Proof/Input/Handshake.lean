import UmbralOS.Proof.Input.Polling
import UmbralOS.Proof.Interrupts.Routing

/-!
This file decides for which timings `ps2_init` keeps the handshake with its controller.
-/

namespace UmbralOS

open Library

/-- The controller takes the byte of its input buffer before this access. -/
def Ps2Timing.Consumes (timing : Ps2Timing) (access : Nat) : Prop := .consume ∈ timing.steps access

instance (timing : Ps2Timing) (access : Nat) : Decidable (timing.Consumes access) :=
  inferInstanceAs (Decidable (_ ∈ _))

/-- The controller takes a command and posts its answer before this access. -/
def Ps2Timing.Answers (timing : Ps2Timing) (access : Nat) : Prop :=
  [I8042Step.consume, .post].Sublist (timing.steps access)

instance (timing : Ps2Timing) (access : Nat) : Decidable (timing.Answers access) :=
  inferInstanceAs (Decidable (List.Sublist _ _))

/-- The controller is in time for the part of `ps2_init` from the last read of the configuration on. -/
def Ps2Timing.PromptEnable (timing : Ps2Timing) (access : Nat) : Prop :=
  timing.Consumes access ∧ timing.Answers (access + 1) ∧ timing.Consumes (access + 3)

instance (timing : Ps2Timing) (access : Nat) : Decidable (timing.PromptEnable access) :=
  inferInstanceAs (Decidable (_ ∧ _))

/-- The controller is in time for the test of the port of the mouse, and for what follows a passed test. -/
def Ps2Timing.PromptPort2 (timing : Ps2Timing) (hasMouse : Bool) (access number : Nat) : Prop :=
  if hasMouse then timing.Consumes access ∧ timing.Answers (access + 1) ∧
    (timing.replies number 0 = 0 → timing.PromptEnable (access + 3))
  else timing.PromptEnable access

instance (timing : Ps2Timing) (hasMouse : Bool) (access number : Nat) :
    Decidable (timing.PromptPort2 hasMouse access number) :=
  inferInstanceAs (Decidable (if hasMouse then _ else _))

/-- The controller is in time for the tests of the ports, and for what follows the passed tests. -/
def Ps2Timing.PromptPorts (timing : Ps2Timing) : Prop :=
  timing.Consumes 10 ∧ timing.Consumes 11 ∧ timing.Consumes 12 ∧ timing.Answers 13 ∧ timing.Answers 15 ∧
    (timing.replies 10 0 = 0 → timing.PromptPort2 (timing.replies 9 0 &&& (1#8 <<< 5) = 0) 17 12)

instance (timing : Ps2Timing) : Decidable timing.PromptPorts := inferInstanceAs (Decidable (_ ∧ _))

/-- The controller is in time for each access that `ps2_init` makes without a look at the status. -/
def Ps2Timing.Prompt (timing : Ps2Timing) : Prop :=
  timing.Consumes 1 ∧ (timing.Consumes 2 ∨ timing.Consumes 3) ∧ timing.Answers 4 ∧ timing.Consumes 6 ∧
    timing.Consumes 7 ∧ timing.Answers 8 ∧ (timing.replies 5 0 = 0x55#8 → timing.PromptPorts)

instance (timing : Ps2Timing) : Decidable timing.Prompt := inferInstanceAs (Decidable (_ ∧ _))

/-- The handshake held so far, and the input buffer holds at most a byte without an answer. The output buffer shows an
answer to an earlier byte. -/
structure Ps2.Phase (access number : Nat) (busy : Prop) (awaiting : Option (BitVec 8))
    (drained : Prop) (ps2 : Ps2) : Prop where
  handshake : ps2.Handshake
  accesses : ps2.accesses = access
  written : ps2.written = number
  busy : ps2.controller.input.isSome = true ↔ busy
  silent : ps2.controller.Silent awaiting
  drained : drained → ps2.controller.outputFull = false
  stale : ∀ earlier, ps2.controller.output.answers = some earlier → earlier < number

section Phase

variable {timing : Ps2Timing} {access number : Nat} {busy drained : Prop} {awaiting : Option (BitVec 8)} {ps2 : Ps2}

theorem Ps2.Phase.empty (phase : ps2.Phase access number busy awaiting drained) (free : ¬ busy) :
    ps2.controller.input = none := by
  rw [← phase.busy, Bool.not_eq_true, Option.isSome_eq_false_iff, Option.isNone_iff_eq_none] at free
  exact free

/-- The controller's steps before an access can only empty the input buffer. -/
theorem Ps2.Phase.advance (phase : ps2.Phase access number busy awaiting drained) :
    (ps2.advance timing).Phase (access + 1) number (busy ∧ ¬ timing.Consumes access) awaiting drained := by
  have run : (ps2.advance timing).controller = if .consume ∈ timing.steps access then
      ps2.controller.consume timing.replies else ps2.controller := by
    rw [← phase.accesses]
    exact I8042.run_silent (phase.silent.pending timing.replies) _
  have next : (ps2.advance timing).accesses = access + 1 := congrArg (· + 1) phase.accesses
  have handshake : (ps2.advance timing).Handshake := ⟨phase.handshake.writes, phase.handshake.answers⟩
  by_cases consumes : I8042Step.consume ∈ timing.steps access
  · rw [if_pos consumes] at run
    refine ⟨handshake, next, phase.written, ?_, ?_, fun full => ?_, ?_⟩
    · simp [run, Ps2Timing.Consumes, consumes]
    · exact run ▸ phase.silent.consume timing.replies
    · rw [run, I8042.consume_outputFull]
      exact phase.drained full
    · rw [run, I8042.consume_output]
      exact phase.stale
  · rw [if_neg consumes] at run
    refine ⟨handshake, next, phase.written, ?_, ?_, fun full => ?_, ?_⟩
    · rw [run, phase.busy]
      exact (and_iff_left consumes).symm
    · exact run ▸ phase.silent
    · exact run ▸ phase.drained full
    · exact run ▸ phase.stale

theorem Ps2.Phase.drain (phase : ps2.Phase access number busy awaiting drained) :
    ps2.drain.Phase access number busy awaiting True := by
  refine ⟨⟨phase.handshake.writes, phase.handshake.answers⟩, phase.accesses, phase.written, phase.busy,
    ⟨fun replies => ?_, fun replies => ?_⟩, fun _ => rfl, phase.stale⟩
  · rw [Ps2.drain, I8042.consume_taken]
    exact phase.silent.pending replies
  · rw [Ps2.drain, I8042.consume_taken]
    exact phase.silent.awaiting replies

/-- A write to a full input buffer breaks the handshake. -/
theorem Ps2.overruns_send (full : ps2.controller.input.isSome = true) (port : BitVec 16) (value : BitVec 8) :
    (ps2.send port value).overruns ≠ [] := by
  rw [Ps2.send, if_pos full]
  exact List.append_ne_nil_of_right_ne_nil _ (List.cons_ne_nil _ _)

/-- A byte without an answer fills the empty input buffer. -/
theorem Ps2.Phase.send {port : BitVec 16} {value : BitVec 8}
    (phase : ps2.Phase access number busy awaiting drained) (free : ¬ busy)
    (unanswered : ∀ controller : I8042, controller.awaiting = awaiting → controller.answers ⟨number, port, value⟩ = 0) :
    (ps2.send port value).Phase access (number + 1) True
      (if port = commandStatusPort ∧ I8042.WaitsForData value then some value else none) drained := by
  have empty := phase.empty free
  have idle := phase.silent.idle empty
  have taken : ∀ replies, (ps2.send port value).controller.consume replies = { ps2.controller with
      input := none
      awaiting := if port = commandStatusPort ∧ I8042.WaitsForData value then some value else none } := by
    intro replies
    have zero : I8042.answers { ps2.controller with input := some ⟨ps2.written, port, value⟩ } ⟨ps2.written, port, value⟩ = 0 := by
      rw [phase.written]
      exact unanswered _ idle.awaiting
    simp only [Ps2.send, I8042.consume, zero, List.range_zero, List.map_nil, List.append_nil]
  refine ⟨phase.handshake.send empty port value, phase.accesses, congrArg (· + 1) phase.written, ?_,
    ⟨fun replies => ?_, fun replies => ?_⟩, phase.drained, fun earlier shown => ?_⟩
  · simp [Ps2.send]
  · rw [taken]
    exact idle.pending
  · rw [taken]
  · exact Nat.lt_succ_of_lt (phase.stale earlier shown)

/-- The answer of a query is the byte that the driver reads, or the byte is older. -/
theorem Ps2.Phase.ask (timing : Ps2Timing) {command : BitVec 8} (phase : ps2.Phase access number busy awaiting True) (free : ¬ busy)
    (query : I8042.IsQuery command) :
    if timing.Answers access then
      ((ps2.send commandStatusPort command).advance timing).controller.Idle none ∧
        ((ps2.send commandStatusPort command).advance timing).controller.output = ⟨some number, timing.replies number 0⟩
    else ((ps2.send commandStatusPort command).advance timing).controller.output = ps2.controller.output := by
  have empty := phase.empty free
  have nothing := (phase.silent.idle empty).pending
  have asked : (ps2.send commandStatusPort command).controller.input = some ⟨number, commandStatusPort, command⟩ := by
    rw [Ps2.send, phase.written]
  have run : ((ps2.send commandStatusPort command).advance timing).controller =
      (ps2.send commandStatusPort command).controller.run timing.replies (timing.steps access) := by
    rw [← phase.accesses]
    rfl
  rw [run]
  exact I8042.run_query query asked nothing (phase.drained trivial) (timing.steps access)

end Phase

/-- The state after a query and the read of the data port. -/
def Ps2.asked (timing : Ps2Timing) (ps2 : Ps2) (command : BitVec 8) : Ps2 :=
  ((ps2.advance timing).send commandStatusPort command).advance timing

section Helpers

variable {timing : Ps2Timing}

theorem returns_outbPs2 (port : BitVec 16) (value : BitVec 8) (before : Ps2) :
    Returns (outbPs2 timing port value) before () ((before.advance timing).send port value) := rfl

theorem returns_inbData (before : Ps2) :
    Returns (inbData timing) before (before.advance timing).controller.output (before.advance timing).drain := rfl

theorem returns_sendCommand (command : BitVec 8) (before : Ps2) :
    Returns (sendCommand timing command) before (before.asked timing command).controller.output.byte
      { (before.asked timing command).drain with
        uses := before.uses ++ [(before.written, (before.asked timing command).controller.output.answers)] } := rfl

/-- A broken handshake stays broken in every part of the driver. -/
def Irreparable {A : Type} (program : Ps2Program A) : Prop := Leaves (fun ps2 : Ps2 => ¬ ps2.Handshake) program

theorem irreparable_modify {change : Ps2 → Ps2} (overruns : ∀ ps2, ps2.overruns <+: (change ps2).overruns)
    (uses : ∀ ps2, ps2.uses <+: (change ps2).uses) : Irreparable (modify change) := by
  apply leaves_modify
  intro ps2 broken handshake
  apply broken
  constructor
  · have earlier := overruns ps2
    rw [handshake.writes] at earlier
    exact List.prefix_nil.mp earlier
  · exact fun use used => handshake.answers use ((uses ps2).subset used)

theorem irreparable_advance : Irreparable (modify (Ps2.advance timing)) :=
  irreparable_modify (fun _ => List.prefix_rfl) fun _ => List.prefix_rfl

theorem irreparable_kprint (format : String) (arguments : List (BitVec 64)) : Irreparable (kprint format arguments) :=
  irreparable_modify (fun _ => List.prefix_rfl) fun _ => List.prefix_rfl

theorem irreparable_inbStatus : Irreparable (inbStatus timing) :=
  leaves_bind irreparable_advance fun _ => leaves_bind leaves_get fun _ => leaves_pure _

theorem irreparable_inbData : Irreparable (inbData timing) := by
  have drains : Irreparable (modify Ps2.drain) := irreparable_modify (fun _ => List.prefix_rfl) fun _ => List.prefix_rfl
  apply leaves_bind irreparable_advance
  intro _
  exact leaves_bind leaves_get fun _ => leaves_bind drains fun _ => leaves_pure _

theorem irreparable_outbPs2 (port : BitVec 16) (value : BitVec 8) : Irreparable (outbPs2 timing port value) := by
  apply leaves_bind irreparable_advance
  intro _
  refine irreparable_modify (fun ps2 => ?_) fun _ => List.prefix_rfl
  unfold Ps2.send
  split_ifs
  · exact List.prefix_append _ _
  · exact List.prefix_rfl

theorem irreparable_sendCommand (command : BitVec 8) : Irreparable (sendCommand timing command) := by
  refine leaves_bind leaves_get fun before => ?_
  apply leaves_bind (irreparable_outbPs2 _ _)
  intro _
  apply leaves_bind irreparable_inbData
  intro reply
  refine leaves_bind (irreparable_modify (fun _ => ?_) fun _ => ?_) fun _ => leaves_pure _
  · exact List.prefix_rfl
  · exact List.prefix_append _ _

theorem irreparable_waitReply (fuel : Nat) : Irreparable (waitReply timing fuel) := by
  induction fuel with
  | zero => exact leaves_throw _
  | succ fuel ih => exact leaves_bind irreparable_inbStatus fun _ => leaves_ite _ ih (leaves_pure _)

theorem irreparable_waitDevice (fuel : Nat) : Irreparable (waitDevice timing fuel) := by
  induction fuel with
  | zero => exact leaves_throw _
  | succ fuel ih => exact leaves_bind irreparable_inbStatus fun _ => leaves_ite _ ih (leaves_pure _)

theorem irreparable_pollReply (fuel : Nat) : Irreparable (pollReply timing fuel) := by
  apply leaves_bind (irreparable_waitReply fuel)
  intro _
  apply leaves_bind irreparable_inbData
  intro _
  exact leaves_bind (irreparable_kprint _ _) fun _ => leaves_pure _

theorem irreparable_sendToDevice (fuel : Nat) (value : BitVec 8) : Irreparable (sendToDevice timing fuel value) :=
  leaves_bind (irreparable_waitDevice fuel) fun _ => irreparable_outbPs2 _ _

theorem irreparable_liftPs2 {A : Type} (program : MachineProgram A) : Irreparable (liftPs2 program) := by
  intro before broken handshake
  rw [lastState_liftPs2] at handshake
  exact broken ⟨handshake.writes, handshake.answers⟩

theorem irreparable_ps2ResetKb (fuel : Nat) : Irreparable (ps2ResetKb timing fuel) := by
  have poll : Irreparable (pollReply timing fuel) := irreparable_pollReply fuel
  apply leaves_bind (irreparable_kprint _ _)
  intro _
  apply leaves_bind (irreparable_sendToDevice fuel _)
  intro _
  apply leaves_bind poll
  intro _
  apply leaves_bind poll
  intro _
  apply leaves_bind (irreparable_kprint _ _)
  intro _
  apply leaves_bind (irreparable_sendToDevice fuel _)
  intro _
  exact leaves_bind poll fun _ => leaves_pure _

theorem irreparable_ps2ResetMouse (fuel : Nat) : Irreparable (ps2ResetMouse timing fuel) := by
  have poll : Irreparable (pollReply timing fuel) := irreparable_pollReply fuel
  have address : Irreparable (sendCommandNoreply timing 0xD4) := irreparable_outbPs2 _ _
  apply leaves_bind (irreparable_kprint _ _)
  intro _
  apply leaves_bind address
  intro _
  apply leaves_bind (irreparable_sendToDevice fuel _)
  intro _
  apply leaves_bind poll
  intro _
  apply leaves_bind poll
  intro _
  apply leaves_bind poll
  intro _
  apply leaves_bind (irreparable_kprint _ _)
  intro _
  apply leaves_bind address
  intro _
  apply leaves_bind (irreparable_sendToDevice fuel _)
  intro _
  exact leaves_bind poll fun _ => leaves_pure _

theorem irreparable_ps2ResetDevices (fuel : Nat) (hasMouse : Bool) :
    Irreparable (ps2ResetDevices timing fuel hasMouse) := by
  apply leaves_bind (irreparable_ps2ResetKb fuel)
  intro _
  cases hasMouse with
  | false => exact leaves_bind (irreparable_liftPs2 _) fun _ => leaves_pure _
  | true =>
      apply leaves_bind (irreparable_ps2ResetMouse fuel)
      intro _
      exact leaves_bind (irreparable_liftPs2 _) fun _ => irreparable_liftPs2 _

end Helpers

section Conditions

variable {timing : Ps2Timing} {access number : Nat} {busy : Prop}

/-- The handshake of the driver from a phase on holds exactly under the condition. -/
abbrev Hinges {A : Type} (start : Ps2 → Prop) (program : Ps2Program A) (condition : Prop) : Prop :=
  Decides Ps2.Handshake start program condition

/-- A write without a look at the status needs that the controller has taken the last byte. -/
theorem hinges_outbPs2 {A : Type} {next : Unit → Ps2Program A} {condition drained : Prop} {port : BitVec 16}
    {value : BitVec 8} {awaiting : Option (BitVec 8)}
    (unanswered : ∀ controller : I8042, controller.awaiting = awaiting → controller.answers ⟨number, port, value⟩ = 0)
    (tail : Hinges (Ps2.Phase (access + 1) (number + 1) True
      (if port = commandStatusPort ∧ I8042.WaitsForData value then some value else none) drained) (next ()) condition) :
    Hinges (Ps2.Phase access number busy awaiting drained) (outbPs2 timing port value >>= next)
      ((busy → timing.Consumes access) ∧ condition) := by
  refine decides_bind () (irreparable_outbPs2 port value) (fun before phase => ?_) fun _ => tail
  have reached : (before.advance timing).Phase _ _ _ _ _ := phase.advance
  refine ⟨(), _, returns_outbPs2 port value before, fun free => ⟨rfl, ?_⟩, fun taken handshake => ?_⟩
  · exact reached.send (fun held => held.2 (free held.1)) unanswered
  · have full := reached.busy.mpr (Classical.not_imp.mp taken)
    exact Ps2.overruns_send full port value handshake.writes

/-- The answer of a query is used, so the controller must take the last byte and the query, and then post the answer. -/
theorem hinges_sendCommand {A : Type} {next : BitVec 8 → Ps2Program A} {condition : BitVec 8 → Prop}
    {command : BitVec 8} {awaiting : Option (BitVec 8)} (query : I8042.IsQuery command)
    (tail : ∀ value, Hinges (Ps2.Phase (access + 2) (number + 1) False none True) (next value) (condition value)) :
    Hinges (Ps2.Phase access number busy awaiting True) (sendCommand timing command >>= next)
      (((busy → timing.Consumes access) ∧ timing.Answers (access + 1)) ∧ condition (timing.replies number 0)) := by
  refine decides_bind _ (irreparable_sendCommand command) (fun before phase => ?_) tail
  have reached : (before.advance timing).Phase _ _ _ _ _ := phase.advance
  refine ⟨_, _, returns_sendCommand command before, fun ⟨free, answered⟩ => ?_, fun missed handshake => ?_⟩
  · have taken : ¬ (busy ∧ ¬ timing.Consumes access) := fun held => held.2 (free held.1)
    have asked := reached.ask timing taken query
    rw [if_pos answered] at asked
    obtain ⟨idle, shown⟩ := asked
    refine ⟨congrArg Ps2Posted.byte shown, ⟨?_, fun use used => ?_⟩, ?_, ?_, ?_, ?_, fun _ => rfl, fun earlier found => ?_⟩
    · exact (reached.handshake.send (reached.empty taken) commandStatusPort command).writes
    · rcases List.mem_append.mp used with old | new
      · exact phase.handshake.answers use old
      · rw [List.mem_singleton.mp new, phase.written]
        exact congrArg Ps2Posted.answers shown
    · exact congrArg (· + 2) phase.accesses
    · exact congrArg (· + 1) phase.written
    · exact iff_false_intro (idle.input ▸ Bool.false_ne_true)
    · exact I8042.Idle.silent ⟨idle.input, idle.pending, idle.awaiting⟩
    · have number_eq := (congrArg Ps2Posted.answers shown).symm.trans found
      rw [← Option.some.inj number_eq]
      exact Nat.lt_succ_self number
  · by_cases taken : busy ∧ ¬ timing.Consumes access
    · exact Ps2.overruns_send (reached.busy.mpr taken) commandStatusPort command handshake.writes
    · have asked := reached.ask timing taken query
      rw [if_neg fun answered => missed ⟨fun held => not_not.mp fun not => taken ⟨held, not⟩, answered⟩] at asked
      have used := handshake.answers _ (List.mem_append_right _ List.mem_cons_self)
      have old := reached.stale before.written ((congrArg Ps2Posted.answers asked).symm.trans used)
      rw [phase.written] at old
      exact Nat.lt_irrefl number old

/-- A read of the data port empties the output buffer. -/
theorem hinges_inbData {A : Type} {next : Ps2Posted → Ps2Program A} {condition drained : Prop}
    {awaiting : Option (BitVec 8)}
    (tail : ∀ value, Hinges (Ps2.Phase (access + 1) number (busy ∧ ¬ timing.Consumes access) awaiting True)
      (next value) condition) :
    Hinges (Ps2.Phase access number busy awaiting drained) (inbData timing >>= next) condition := by
  constructor
  · exact leaves_bind irreparable_inbData fun value => (tail value).broken
  · intro before phase
    rw [(returns_inbData before).lastState_bind]
    exact (tail _).exactly _ phase.advance.drain

theorem hinges_sendCommandNoreply {A : Type} {next : Unit → Ps2Program A} {condition drained : Prop}
    {awaiting : Option (BitVec 8)} {command : BitVec 8} (silent : ¬ I8042.IsQuery command)
    (plain : ¬ I8042.WaitsForData command)
    (tail : Hinges (Ps2.Phase (access + 1) (number + 1) True none drained) (next ()) condition) :
    Hinges (Ps2.Phase access number busy awaiting drained) (sendCommandNoreply timing command >>= next)
      ((busy → timing.Consumes access) ∧ condition) := by
  apply hinges_outbPs2
  · intro controller _
    rw [I8042.answers, if_pos rfl, if_neg silent]
  · rw [if_neg fun waits => plain waits.2]
    exact tail

theorem hinges_writeConfigByte {A : Type} {next : Unit → Ps2Program A} {condition drained : Prop}
    {awaiting : Option (BitVec 8)} {config : BitVec 8}
    (tail : Hinges (Ps2.Phase (access + 2) (number + 2) True none drained) (next ()) condition) :
    Hinges (Ps2.Phase access number busy awaiting drained) (writeConfigByte timing config >>= next)
      ((busy → timing.Consumes access) ∧ (True → timing.Consumes (access + 1)) ∧ condition) := by
  have device : dataPort ≠ commandStatusPort := by decide
  have command : commandStatusPort = commandStatusPort ∧ I8042.WaitsForData 0x60#8 := by decide
  rw [writeConfigByte, bind_assoc]
  apply hinges_outbPs2
  · intro controller _
    rfl
  · apply hinges_outbPs2
    · intro controller awaits
      have configures : controller.awaiting = some 0x60#8 := awaits.trans (if_pos command)
      rw [I8042.answers, if_neg device, if_pos configures]
    · exact tail

/-- From the last read of the configuration on. -/
theorem hinges_ps2EnableDevices (fuel : Nat) (hasMouse : Bool) :
    Hinges (Ps2.Phase access number True none True) (ps2EnableDevices timing fuel hasMouse)
      (timing.PromptEnable access) := by
  have devices : Hinges (Ps2.Phase (access + 4) (number + 3) True none True)
      (ps2ResetDevices timing fuel hasMouse) True :=
    decides_of_ensures (irreparable_ps2ResetDevices fuel hasMouse)
      ((ensures_ps2ResetDevices fuel hasMouse).strengthen fun state phase => ⟨phase.handshake, phase.silent, phase.drained trivial⟩)
  have query : I8042.IsQuery 0x20#8 := by decide
  apply (hinges_sendCommand query fun value => hinges_writeConfigByte devices).convert (fun _ phase => phase)
  simp only [Ps2Timing.PromptEnable, forall_const, false_imp_iff, true_and, and_true, and_assoc]

/-- The test of the port of the mouse, and what follows it. -/
theorem hinges_ps2TestMouse (fuel : Nat) :
    Hinges (Ps2.Phase access number True none True)
      (ps2TestMouse timing >>= fun _ => ps2EnableDevices timing fuel true)
      (timing.Consumes access ∧ timing.Answers (access + 1) ∧
        (timing.replies number 0 = 0 → timing.PromptEnable (access + 3))) := by
  have query : I8042.IsQuery 0xA9#8 := by decide
  have silent : ¬ I8042.IsQuery 0xA8#8 := by decide
  have plain : ¬ I8042.WaitsForData 0xA8#8 := by decide
  rw [ps2TestMouse, bind_assoc]
  simp only [bind_assoc]
  apply (hinges_sendCommand query fun value => decides_stopIf_bind (fun state phase => phase.handshake)
    (hinges_sendCommandNoreply silent plain (hinges_ps2EnableDevices fuel true))).convert fun _ phase => phase
  simp only [forall_const, false_imp_iff, true_and, not_not, and_assoc]

/-- What follows a passed test of the port of the keyboard. -/
theorem hinges_restOfPorts (fuel : Nat) (hasMouse : Bool) :
    Hinges (Ps2.Phase access number True none True)
      (if hasMouse then ps2TestMouse timing >>= fun _ => ps2EnableDevices timing fuel hasMouse
        else ps2EnableDevices timing fuel hasMouse) (timing.PromptPort2 hasMouse access number) := by
  cases hasMouse with
  | false => exact hinges_ps2EnableDevices fuel false
  | true => exact hinges_ps2TestMouse fuel

/-- The tests of the ports, and what follows them. -/
theorem hinges_ps2TestPorts (fuel : Nat) (hasMouse : Bool) :
    Hinges (Ps2.Phase access number False none True) (ps2TestPorts timing fuel hasMouse)
      (timing.Answers (access + 1) ∧
        (timing.replies number 0 = 0 → timing.PromptPort2 hasMouse (access + 3) (number + 2))) := by
  have query : I8042.IsQuery 0xAB#8 := by decide
  have silent : ¬ I8042.IsQuery 0xAE#8 := by decide
  have plain : ¬ I8042.WaitsForData 0xAE#8 := by decide
  apply (hinges_sendCommand query fun value => decides_stopIf_bind (fun state phase => phase.handshake)
    (hinges_sendCommandNoreply silent plain (hinges_restOfPorts fuel hasMouse))).convert fun _ phase => phase
  simp only [false_imp_iff, true_and, not_not]

/-- The part after a passed self test. -/
theorem hinges_ps2InitPorts (fuel : Nat) (config : BitVec 8) :
    Hinges (Ps2.Phase 9 6 False none True) (ps2InitPorts timing fuel config) timing.PromptPorts := by
  have query : I8042.IsQuery 0x20#8 := by decide
  have silent : ¬ I8042.IsQuery 0xA8#8 := by decide
  have plain : ¬ I8042.WaitsForData 0xA8#8 := by decide
  apply (hinges_writeConfigByte (hinges_sendCommandNoreply silent plain (hinges_sendCommand query fun value =>
    hinges_ps2TestPorts fuel _))).convert fun _ phase => phase
  simp only [Ps2Timing.PromptPorts, false_imp_iff, forall_const, true_and, and_assoc]

/-- The self test, and what follows it. -/
theorem hinges_ps2Init (fuel : Nat) :
    Hinges (Ps2.Phase 0 0 False none False) (ps2Init timing fuel) timing.Prompt := by
  have queries : I8042.IsQuery 0x20#8 ∧ I8042.IsQuery 0xAA#8 := by decide
  have silent : ¬ I8042.IsQuery 0xAD#8 ∧ ¬ I8042.IsQuery 0xA7#8 := by decide
  have plain : ¬ I8042.WaitsForData 0xAD#8 ∧ ¬ I8042.WaitsForData 0xA7#8 := by decide
  have ports : ∀ config selfTestResult : BitVec 8, Hinges (Ps2.Phase 9 6 False none True)
      (if selfTestResult ≠ 0x55#8 then
        kprint "PS/2 self test failed with 0x%x.\nSkipping activation of PS/2 input devices.\n"
          [selfTestResult.setWidth 64]
      else ps2InitPorts timing fuel config) (if selfTestResult ≠ 0x55#8 then True else timing.PromptPorts) := by
    intro config selfTestResult
    apply decides_ite
    · exact decides_of_ensures (irreparable_kprint _ _) ((ensures_kprint _ _
        fun _ _ handshake => ⟨handshake.writes, handshake.answers⟩).strengthen fun state phase => phase.handshake)
    · exact hinges_ps2InitPorts fuel config
  apply (hinges_sendCommandNoreply silent.1 plain.1 (hinges_sendCommandNoreply silent.2 plain.2
    (hinges_inbData fun _ => hinges_sendCommand queries.1 fun config => hinges_writeConfigByte
      (hinges_sendCommand queries.2 fun value => ports _ value)))).convert fun _ phase => phase
  simp only [Ps2Timing.Prompt, false_imp_iff, forall_const, true_and, and_assoc, ne_eq, ite_not, if_true_right,
    or_iff_not_imp_left, Nat.reduceAdd]

end Conditions

/-- No access was made yet. The output buffer may hold a byte that answers no byte of the driver. -/
structure Ps2.Fresh (ps2 : Ps2) : Prop where
  accesses : ps2.accesses = 0
  written : ps2.written = 0
  overruns : ps2.overruns = []
  uses : ps2.uses = []
  idle : ps2.controller.Idle none
  stale : ps2.controller.output.answers = none

/-- `ps2_init` keeps the handshake with a fresh controller exactly when the controller is in time for each access that
the driver makes without a look at the status. -/
theorem ps2Init_handshake_exact (timing : Ps2Timing) (fuel : Nat) (start : Ps2) (fresh : start.Fresh) :
    (lastState (ps2Init timing fuel) start).Handshake ↔ timing.Prompt := by
  apply (hinges_ps2Init fuel).exactly
  refine ⟨⟨fresh.overruns, ?_⟩, fresh.accesses, fresh.written, ?_, fresh.idle.silent, False.elim, ?_⟩
  · simp [fresh.uses]
  · simp [fresh.idle.input]
  · simp [fresh.stale]

/-- The controller takes and answers each byte before the next access. -/
def instantTiming : Ps2Timing where
  steps := fun _ => [.consume, .post]
  replies := fun number _ => if number = 5 then 0x55#8 else 0#8

/-- The controller takes the first command and the first query one access later. -/
def slowTiming : Ps2Timing where
  steps := fun access => if access = 1 ∨ access = 4 then [] else [.consume, .post]
  replies := instantTiming.replies

def sampleController : Ps2 where
  machine := sampleMachine
  controller := ⟨none, false, ⟨none, 0#8⟩, [], none⟩
  accesses := 0
  written := 0
  overruns := []
  uses := []
  messages := []

theorem sampleController_fresh : sampleController.Fresh := ⟨rfl, rfl, rfl, rfl, ⟨rfl, rfl, rfl⟩, rfl⟩

theorem ps2Init_handshake_instant : (lastState (ps2Init instantTiming 8) sampleController).Handshake :=
  (ps2Init_handshake_exact instantTiming 8 sampleController sampleController_fresh).mpr (by decide)

/-- The driver writes its second command over the first one. It takes an old byte as the configuration, and the late
configuration as the result of the self test. -/
theorem not_handshake_slow : sampleController.Fresh ∧
    (∀ access, ∃ later, access ≤ later ∧ slowTiming.steps later = [.consume, .post]) ∧
    (lastState (ps2Init slowTiming 8) sampleController).overruns = [1] ∧
    (lastState (ps2Init slowTiming 8) sampleController).uses = [(2, none), (5, some 2)] ∧
    ¬ (lastState (ps2Init slowTiming 8) sampleController).Handshake := by
  have overruns : (lastState (ps2Init slowTiming 8) sampleController).overruns = [1] := by decide +kernel
  have uses : (lastState (ps2Init slowTiming 8) sampleController).uses = [(2, none), (5, some 2)] := by decide +kernel
  have prompt : ∀ access, slowTiming.steps (access + 5) = [.consume, .post] := by
    intro access
    have late : ¬ (access + 5 = 1 ∨ access + 5 = 4) := by omega
    simp only [slowTiming, late, if_false]
  refine ⟨sampleController_fresh, fun access => ⟨access + 5, by omega, prompt access⟩, overruns, uses, fun handshake => ?_⟩
  have writes := handshake.writes
  rw [overruns] at writes
  cases writes

end UmbralOS
