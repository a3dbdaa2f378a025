import UmbralOS.Kernel.Ioapic

/-!
This file gives the PS/2 driver of `ps2.c` and the controller that it speaks to.
-/

namespace UmbralOS

open Library

def dataPort : BitVec 16 := 0x60#16
def commandStatusPort : BitVec 16 := 0x64#16

def irqKb : BitVec 8 := 1#8
def irqMouse : BitVec 8 := 12#8

/-- A byte that the driver wrote, with its number among the written bytes. -/
structure Ps2Sent where
  number : Nat
  port : BitVec 16
  byte : BitVec 8

/-- A byte of the output buffer, with the number of the written byte that it answers. -/
structure Ps2Posted where
  answers : Option Nat
  byte : BitVec 8

/-- The input buffer is full while it holds a byte. The output buffer shows its last byte even when it is not full. -/
structure I8042 where
  input : Option Ps2Sent
  outputFull : Bool
  output : Ps2Posted
  pending : List Ps2Posted
  awaiting : Option (BitVec 8)

/-- The controller takes the byte of its input buffer, or it posts the next answer. -/
inductive I8042Step where
  | consume
  | post
  deriving DecidableEq

/-- The controller's steps before each access of the driver, and the values of the answers to each written byte. -/
structure Ps2Timing where
  steps : Nat → List I8042Step
  replies : Nat → Nat → BitVec 8

namespace I8042

/-- The commands that the controller itself answers. -/
def IsQuery (command : BitVec 8) : Prop :=
  command = 0x20#8 ∨ command = 0xAA#8 ∨ command = 0xAB#8 ∨ command = 0xA9#8

instance (command : BitVec 8) : Decidable (IsQuery command) := inferInstanceAs (Decidable (_ ∨ _))

/-- The commands that wait for a byte at the data port. -/
def WaitsForData (command : BitVec 8) : Prop := command = 0x60#8 ∨ command = 0xD4#8

instance (command : BitVec 8) : Decidable (WaitsForData command) := inferInstanceAs (Decidable (_ ∨ _))

/-- The number of bytes that answer a written byte. A reset keyboard acknowledges and reports its self test, and a reset
mouse also reports its type. -/
def answers (controller : I8042) (sent : Ps2Sent) : Nat :=
  if sent.port = commandStatusPort then if IsQuery sent.byte then 1 else 0
  else if controller.awaiting = some 0x60#8 then 0
  else if sent.byte = 0xFF#8 then if controller.awaiting = some 0xD4#8 then 3 else 2
  else 1

def consume (replies : Nat → Nat → BitVec 8) (controller : I8042) : I8042 :=
  match controller.input with
  | none => controller
  | some sent => { controller with
      input := none
      pending := controller.pending ++
        (List.range (controller.answers sent)).map fun i => ⟨some sent.number, replies sent.number i⟩
      awaiting := if sent.port = commandStatusPort ∧ WaitsForData sent.byte then some sent.byte else none }

/-- The controller posts an answer only when the driver has read the last one. -/
def post (controller : I8042) : I8042 :=
  match controller.outputFull, controller.pending with
  | false, posted :: pending => { controller with outputFull := true, output := posted, pending := pending }
  | _, _ => controller

def step (replies : Nat → Nat → BitVec 8) (controller : I8042) : I8042Step → I8042
  | .consume => controller.consume replies
  | .post => controller.post

def run (replies : Nat → Nat → BitVec 8) (controller : I8042) (steps : List I8042Step) : I8042 :=
  steps.foldl (step replies) controller

/-- Bit 0 of the status is for the output buffer, and bit 1 is for the input buffer. -/
def status (controller : I8042) : BitVec 8 :=
  (if controller.outputFull then 1#8 <<< 0 else 0) ||| (if controller.input.isSome then 1#8 <<< 1 else 0)

end I8042

/-- The machine with its controller. The numbers count the accesses and the written bytes. The notes give the bytes that
the driver wrote while the input buffer was full, the answers that it took for each query, and the messages. -/
structure Ps2 where
  machine : Machine
  controller : I8042
  accesses : Nat
  written : Nat
  overruns : List Nat
  uses : List (Nat × Option Nat)
  messages : List (String × List (BitVec 64))

abbrev Ps2Program (A : Type) := Program Stop Ps2 A

/-- The I/O APIC driver runs on its part of the state. -/
def liftPs2 {A : Type} (program : MachineProgram A) : Ps2Program A := fun ps2 =>
  match program.run ps2.machine with
  | .ok value machine => .ok value { ps2 with machine := machine }
  | .error reason machine => .error reason { ps2 with machine := machine }

/-- The controller takes its steps before the next access. -/
def Ps2.advance (timing : Ps2Timing) (ps2 : Ps2) : Ps2 :=
  { ps2 with
    controller := ps2.controller.run timing.replies (timing.steps ps2.accesses), accesses := ps2.accesses + 1 }

/-- A read of the data port takes the byte of the output buffer. -/
def Ps2.drain (ps2 : Ps2) : Ps2 := { ps2 with controller := { ps2.controller with outputFull := false } }

/-- A write fills the input buffer, even when it is full. -/
def Ps2.send (ps2 : Ps2) (port : BitVec 16) (value : BitVec 8) : Ps2 :=
  { ps2 with
    controller := { ps2.controller with input := some ⟨ps2.written, port, value⟩ }
    written := ps2.written + 1
    overruns := if ps2.controller.input.isSome then ps2.overruns ++ [ps2.written] else ps2.overruns }

/-- The read of `COMMAND_STATUS_PORT`. -/
def inbStatus (timing : Ps2Timing) : Ps2Program (BitVec 8) := do
  modify (Ps2.advance timing)
  let ps2 ← get
  pure ps2.controller.status

/-- The read of `DATA_PORT`. -/
def inbData (timing : Ps2Timing) : Ps2Program Ps2Posted := do
  modify (Ps2.advance timing)
  let ps2 ← get
  modify Ps2.drain
  pure ps2.controller.output

def outbPs2 (timing : Ps2Timing) (port : BitVec 16) (value : BitVec 8) : Ps2Program Unit := do
  modify (Ps2.advance timing)
  modify fun ps2 => ps2.send port value

def kprint (format : String) (arguments : List (BitVec 64)) : Ps2Program Unit :=
  modify fun ps2 => { ps2 with messages := ps2.messages ++ [(format, arguments)] }

/-- The loop waits until the output buffer is full. -/
def waitReply (timing : Ps2Timing) : Nat → Ps2Program Unit
  | 0 => throw .running
  | fuel + 1 => do
      let status ← inbStatus timing
      if status &&& (1#8 <<< 0) = 0 then waitReply timing fuel else pure ()

def pollReply (timing : Ps2Timing) (fuel : Nat) : Ps2Program (BitVec 8) := do
  waitReply timing fuel
  let ret ← inbData timing
  kprint "0x%x\n" [ret.byte.setWidth 64]
  pure ret.byte

def sendCommandNoreply (timing : Ps2Timing) (command : BitVec 8) : Ps2Program Unit :=
  outbPs2 timing commandStatusPort command

/-- The byte of the data port is taken as the answer to the command. -/
def sendCommand (timing : Ps2Timing) (command : BitVec 8) : Ps2Program (BitVec 8) := do
  let ps2 ← get
  outbPs2 timing commandStatusPort command
  let reply ← inbData timing
  modify fun after => { after with uses := after.uses ++ [(ps2.written, reply.answers)] }
  pure reply.byte

/-- The loop waits until the input buffer is empty. -/
def waitDevice (timing : Ps2Timing) : Nat → Ps2Program Unit
  | 0 => throw .running
  | fuel + 1 => do
      let status ← inbStatus timing
      if status &&& (1#8 <<< 1) ≠ 0 then waitDevice timing fuel else pure ()

def sendToDevice (timing : Ps2Timing) (fuel : Nat) (value : BitVec 8) : Ps2Program Unit := do
  waitDevice timing fuel
  outbPs2 timing dataPort value

def writeConfigByte (timing : Ps2Timing) (config : BitVec 8) : Ps2Program Unit := do
  sendCommandNoreply timing 0x60
  outbPs2 timing dataPort config

def ps2ResetKb (timing : Ps2Timing) (fuel : Nat) : Ps2Program Unit := do
  kprint "KB RESET\n" []
  sendToDevice timing fuel 0xFF
  let _ ← pollReply timing fuel
  let _ ← pollReply timing fuel
  kprint "KB Enable Scanning\n" []
  sendToDevice timing fuel 0xF4
  let _ ← pollReply timing fuel

def ps2ResetMouse (timing : Ps2Timing) (fuel : Nat) : Ps2Program Unit := do
  kprint "MOUSE RESET\n" []
  sendCommandNoreply timing 0xD4
  sendToDevice timing fuel 0xFF
  let _ ← pollReply timing fuel
  let _ ← pollReply timing fuel
  let _ ← pollReply timing fuel
  kprint "MOUSE Enable Scanning\n" []
  sendCommandNoreply timing 0xD4
  sendToDevice timing fuel 0xF4
  let _ ← pollReply timing fuel

/-- The devices are reset, and then their interrupts are enabled. -/
def ps2ResetDevices (timing : Ps2Timing) (fuel : Nat) (hasMouse : Bool) : Ps2Program Unit := do
  ps2ResetKb timing fuel
  if hasMouse then ps2ResetMouse timing fuel
  liftPs2 (ioapicEnableIsaInterrupt irqKb)
  if hasMouse then liftPs2 (ioapicEnableIsaInterrupt irqMouse)

/-- The part from the last read of the configuration on. -/
def ps2EnableDevices (timing : Ps2Timing) (fuel : Nat) (hasMouse : Bool) : Ps2Program Unit := do
  let config ← sendCommand timing 0x20
  let config := config ||| 0b01#8
  writeConfigByte timing (if hasMouse then config ||| 0b10#8 else config)
  ps2ResetDevices timing fuel hasMouse

/-- A faulty port stops the kernel, so the flag of the port stays set. -/
def ps2TestMouse (timing : Ps2Timing) : Ps2Program Unit := do
  let port2SelftestResult ← sendCommand timing 0xA9
  panicIf (port2SelftestResult ≠ 0) "PS/2 port 2 (mouse) faulty with code 0x%x\n" [port2SelftestResult.setWidth 64]
  sendCommandNoreply timing 0xA8

/-- The tests of the ports, and what follows them. -/
def ps2TestPorts (timing : Ps2Timing) (fuel : Nat) (hasMouse : Bool) : Ps2Program Unit := do
  let port1SelftestResult ← sendCommand timing 0xAB
  panicIf (port1SelftestResult ≠ 0) "PS/2 port 1 (kb) faulty with code 0x%x\n" [port1SelftestResult.setWidth 64]
  sendCommandNoreply timing 0xAE
  if hasMouse then ps2TestMouse timing
  ps2EnableDevices timing fuel hasMouse

/-- The part after a passed self test. -/
def ps2InitPorts (timing : Ps2Timing) (fuel : Nat) (config : BitVec 8) : Ps2Program Unit := do
  writeConfigByte timing config
  sendCommandNoreply timing 0xA8
  let config ← sendCommand timing 0x20
  let hasMouse : Bool := config &&& (1#8 <<< 5) = 0
  ps2TestPorts timing fuel hasMouse

def ps2Init (timing : Ps2Timing) (fuel : Nat) : Ps2Program Unit := do
  sendCommandNoreply timing 0xAD
  sendCommandNoreply timing 0xA7
  let _ ← inbData timing
  let config ← sendCommand timing 0x20
  let config := config &&& ~~~((1#8 <<< 6) ||| (1#8 <<< 0))
  writeConfigByte timing config
  let selfTestResult ← sendCommand timing 0xAA
  if selfTestResult ≠ 0x55#8 then
    kprint "PS/2 self test failed with 0x%x.\nSkipping activation of PS/2 input devices.\n" [selfTestResult.setWidth 64]
  else
    ps2InitPorts timing fuel config

end UmbralOS
