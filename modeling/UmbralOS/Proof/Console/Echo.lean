import UmbralOS.Library.Queue
import UmbralOS.Proof.Console.Log
import UmbralOS.Proof.Input.Handshake
import UmbralOS.Proof.Interrupts.Service

/-!
This file proves that the serial port echoes the received characters in their order.
-/

namespace UmbralOS

open Library

/-- A carriage return is echoed as a newline, and both layers expand a newline. -/
def echoBytes (c : BitVec 8) : List (BitVec 8) :=
  if c = char '\r' then [char '\r', char '\r', char '\n'] else lineEnding c

/-- The character survives the way through the argument slot. -/
theorem echoArgument (c : BitVec 8) : BitVec.ofNat 8 (((c.signExtend 32).setWidth 64).toNat % 2 ^ 32) = c := by
  have slot : ((c.signExtend 32).setWidth 64).toNat % 2 ^ 32 = (c.signExtend 32).toNat := by
    have bound := (c.signExtend 32).isLt
    rw [BitVec.toNat_setWidth]
    omega
  rw [slot, BitVec.ofNat_toNat]
  apply BitVec.eq_of_getLsbD_eq
  intro bit inside
  rw [BitVec.getLsbD_setWidth, BitVec.getLsbD_signExtend]
  simp [inside, show bit < 32 by omega]

theorem sendsLog_echo {memory : Memory} (c : BitVec 8) (uart : Uart) (drains : uart.Drains) :
    SendsLog memory [Handling.echoMessage c] uart (echoBytes c) := by
  unfold Handling.echoMessage echoBytes
  split_ifs with enter
  · have accepted : Accepts ("\n".toList.map char) [.literal (char '\n')] := ⟨by simp [Piece.Plain]; decide, by decide⟩
    exact sendsLog_message accepted (by decide) (by simp [Piece.TakesString]) [] drains
  · have accepted : Accepts ("%c".toList.map char) [.escape 0 .c] := ⟨by simp [Piece.Plain], by decide⟩
    have sent := @sendsLog_message memory uart _ _ accepted (by decide) (by simp [Piece.TakesString])
      [(c.signExtend 32).setWidth 64] drains
    have bytes : messageBytes [.escape 0 .c] [(c.signExtend 32).setWidth 64] = lineEnding c := by
      change [BitVec.ofNat 8 (((c.signExtend 32).setWidth 64).toNat % 2 ^ 32)].flatMap lineEnding = _
      rw [echoArgument, List.flatMap_singleton]
    rwa [bytes] at sent

namespace InterruptEvent

/-- The event is an arrival at the serial port, or an interrupt of a device. -/
def FromDevice : InterruptEvent → Prop
  | receive _ => True
  | deliver vector _ => vector ∈ deviceVectors
  | direct _ _ => False

/-- What the event does to the receive buffer. -/
def buffer : InterruptEvent → QueueEvent (BitVec 8)
  | receive c => .put c
  | deliver vector _ => if vector = idtIdxIsaBase + irqCom1 then .take else .rest
  | direct _ _ => .rest

/-- The characters that arrive in the event. -/
def arrived (event : InterruptEvent) : List (BitVec 8) := event.buffer.arrived

/-- The event is an interrupt of the serial port. -/
def isEcho (event : InterruptEvent) : Bool := event.buffer.isTake

end InterruptEvent

/-- The state after an event of the receive buffer, with the echoes of the taken characters. -/
structure Echoed (before : Handling) (taken final : List (BitVec 8)) (after : Handling) : Prop where
  ready : after.ps2.machine.LapicReady
  received : after.received = final
  messages : after.ps2.messages = before.ps2.messages ++ taken.map Handling.echoMessage

section Run

variable {timing : Ps2Timing} {handling : Handling} {events : List InterruptEvent} {event : InterruptEvent}

/-- An arrival prints nothing. -/
theorem echoed_receive (ready : handling.ps2.machine.LapicReady) (c : BitVec 8) :
    ∃ after, Returns ((InterruptEvent.receive c).handle timing) handling () after ∧
      Echoed handling [] ((QueueEvent.put c).step serialFifoSize handling.received) after := by
  refine ⟨_, (returns_modify _ _ _ _).mpr rfl, ?_⟩
  unfold QueueEvent.step
  split_ifs
  · exact ⟨ready, rfl, (List.append_nil _).symm⟩
  · exact ⟨ready, rfl, (List.append_nil _).symm⟩

/-- An interrupt of the serial port echoes the first waiting character. -/
theorem echoed_answered {c : BitVec 8} {received : List (BitVec 8)} (waiting : handling.received = c :: received)
    (stackFrame : StackFrame) (inService : List (BitVec 8)) :
    (({ handling with inService := inService } : Handling).answered timing (idtIdxIsaBase + irqCom1) stackFrame).received =
        received ∧
      (({ handling with inService := inService } : Handling).answered timing (idtIdxIsaBase + irqCom1)
        stackFrame).ps2.messages = handling.ps2.messages ++ [Handling.echoMessage c] := by
  have first : ({ handling with inService := inService } : Handling).enforced.received = c :: received := waiting
  rw [Handling.answered, if_pos rfl, Handling.echo, first]
  exact ⟨rfl, rfl⟩

/-- An interrupt of the keyboard or of the mouse prints nothing and leaves the receive buffer alone. -/
theorem silent_answered {vector : BitVec 8} (member : vector ∈ deviceVectors) (other : vector ≠ idtIdxIsaBase + irqCom1)
    (stackFrame : StackFrame) :
    (handling.answered timing vector stackFrame).received = handling.received ∧
      (handling.answered timing vector stackFrame).ps2.messages = handling.ps2.messages := by
  rw [Handling.answered, if_neg other, if_pos member]
  exact ⟨rfl, rfl⟩

/-- Each event does to the receive buffer what the queue does, and it echoes the characters that the readers take. -/
theorem echo_step (device : event.FromDevice) (ready : handling.ps2.machine.LapicReady)
    (waiting : event.isEcho = true → handling.received ≠ []) :
    ∃ after, Returns (event.handle timing) handling () after ∧
      Echoed handling (event.buffer.taken handling.received) (event.buffer.step serialFifoSize handling.received) after := by
  cases event with
  | receive c => exact echoed_receive ready c
  | direct vector stackFrame => exact device.elim
  | deliver vector stackFrame =>
      have member : vector ∈ deviceVectors := device
      have answered : Answered vector := Or.inr (Or.inr (Or.inr (Or.inl member)))
      have ran : Returns ((InterruptEvent.deliver vector stackFrame).handle timing) handling ()
          (({ handling with inService := vector :: handling.inService } : Handling).answered timing vector stackFrame) :=
        (returns_bind _ _ _ _ _).mpr ⟨(), _, (returns_modify _ _ _ _).mpr rfl, returns_interruptHandler.mpr
          ⟨answered, fun _ => ready, rfl⟩⟩
      obtain ⟨_, machine, _⟩ := @answered_device timing vector member stackFrame
        { handling with inService := vector :: handling.inService }
      refine ⟨_, ran, ?_⟩
      by_cases serial : vector = idtIdxIsaBase + irqCom1
      · subst serial
        have some := waiting (by rw [InterruptEvent.isEcho, InterruptEvent.buffer, if_pos rfl]; rfl)
        obtain ⟨c, received, shape⟩ := List.exists_cons_of_ne_nil some
        obtain ⟨buffer, messages⟩ := @echoed_answered timing handling c received shape stackFrame
          ((idtIdxIsaBase + irqCom1) :: handling.inService)
        rw [InterruptEvent.buffer, if_pos rfl]
        refine ⟨by rw [machine]; exact ready, ?_, ?_⟩
        · rw [buffer, shape]
          rfl
        · rw [messages, shape]
          rfl
      · obtain ⟨buffer, messages⟩ := @silent_answered timing { handling with inService := vector :: handling.inService }
          vector member serial stackFrame
        rw [InterruptEvent.buffer, if_neg serial]
        exact ⟨by rw [machine]; exact ready, buffer, messages.trans (List.append_nil _).symm⟩

/-- A run of the devices does to the receive buffer what the queue does. -/
theorem echo_run (devices : ∀ event ∈ events, event.FromDevice) (ready : handling.ps2.machine.LapicReady)
    (paced : Queue.Paced serialFifoSize handling.received (events.map InterruptEvent.buffer)) :
    ∃ after, Returns (events.forM fun event => event.handle timing) handling () after ∧
      Echoed handling (Queue.taken serialFifoSize handling.received (events.map InterruptEvent.buffer))
        (Queue.final serialFifoSize handling.received (events.map InterruptEvent.buffer)) after := by
  induction events generalizing handling with
  | nil => exact ⟨handling, (returns_pure _ _ _ _).mpr ⟨rfl, rfl⟩, ready, rfl, (List.append_nil _).symm⟩
  | cons event events ih =>
      obtain ⟨waiting, paced⟩ := paced
      obtain ⟨middle, ran, head⟩ := @echo_step timing handling event (devices event List.mem_cons_self) ready waiting
      rw [← head.received] at paced
      obtain ⟨after, returned, tail⟩ := ih (fun other member => devices other (List.mem_cons_of_mem event member))
        head.ready paced
      refine ⟨after, (returns_bind _ _ _ _ _).mpr ⟨(), middle, ran, returned⟩, tail.ready, ?_, ?_⟩
      · rw [tail.received, head.received]
        rfl
      · rw [tail.messages, head.messages, head.received, List.append_assoc, ← List.map_append]
        rfl

/-- Whatever characters arrive and whatever interrupts of the devices come between them, the serial port echoes the
characters that its buffer accepts in the order of their arrival, each once, and the others wait in the buffer. It accepts
all of them exactly when each finds room. The echo of a carriage return is `CR CR LF`, and the echo of a newline is
`CR LF`. -/
theorem serial_echo_exact {memory : Memory} {uart : Uart} (ready : handling.ps2.machine.LapicReady)
    (devices : ∀ event ∈ events, event.FromDevice)
    (paced : Queue.Paced serialFifoSize handling.received (events.map InterruptEvent.buffer)) (drains : uart.Drains) :
    ∃ after accepted echoed, Returns (events.forM fun event => event.handle timing) handling () after ∧
      accepted = Queue.accepted serialFifoSize handling.received (events.map InterruptEvent.buffer) ∧
      (accepted = events.flatMap InterruptEvent.arrived ↔
        Queue.Fits serialFifoSize handling.received (events.map InterruptEvent.buffer)) ∧
      handling.received ++ accepted = echoed ++ after.received ∧
      echoed.length = events.countP InterruptEvent.isEcho ∧
      ∃ log, after.ps2.messages = handling.ps2.messages ++ log ∧ SendsLog memory log uart (echoed.flatMap echoBytes) := by
  obtain ⟨after, returned, done⟩ := @echo_run timing handling events devices ready paced
  refine ⟨after, _, _, returned, rfl, ?_, ?_, ?_, _, done.messages, sendsLog_map sendsLog_echo _ uart drains⟩
  · rw [← Queue.accepted_eq_iff, List.flatMap_map]
    rfl
  · rw [Queue.conserved, done.received]
  · rw [paced.length_taken, List.countP_map]
    rfl

end Run

/-- The local APIC of this machine is ready, and nothing has arrived. -/
def sampleQuiet : Handling :=
  ⟨{ sampleController with machine := { sampleMachine with hasX2apic := true } }, [], 0, [], false, false, 0⟩

/-- A letter and a carriage return arrive before their interrupts. -/
def sampleTyping : List InterruptEvent :=
  [.receive (char 'A'), .deliver 0x34#8 sampleFrame, .receive (char '\r'), .deliver 0x34#8 sampleFrame]

/-- The letter and the carriage return are echoed. -/
theorem serial_echo_exact_sample :
    ∃ (after : Handling) (accepted echoed : List (BitVec 8)) (log : List (String × List (BitVec 64))),
      accepted = [char 'A', char '\r'] ∧ accepted = echoed ++ after.received ∧ echoed.length = 2 ∧
        SendsLog (fun _ => 0) log sampleConsole.world (echoed.flatMap echoBytes) := by
  have devices : ∀ event ∈ sampleTyping, event.FromDevice := by
    intro event member
    simp only [sampleTyping, List.mem_cons, List.not_mem_nil, or_false] at member
    rcases member with rfl | rfl | rfl | rfl
    · trivial
    · exact List.mem_of_elem_eq_true rfl
    · trivial
    · exact List.mem_of_elem_eq_true rfl
  have paced : Queue.Paced serialFifoSize sampleQuiet.received (sampleTyping.map InterruptEvent.buffer) :=
    ⟨by decide, by decide, by decide, by decide, trivial⟩
  obtain ⟨after, accepted, echoed, _, rfl, _, split, count, log, _, sends⟩ := @serial_echo_exact instantTiming sampleQuiet
    sampleTyping (fun _ => 0) sampleConsole.world (Or.inl rfl) devices paced sampleConsole_drains
  exact ⟨after, _, echoed, log, by decide, split, count, sends⟩

end UmbralOS
