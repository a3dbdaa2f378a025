import UmbralOS.Kernel.Interrupt
import UmbralOS.Kernel.Madt
import UmbralOS.Kernel.Ps2
import UmbralOS.Kernel.Serial

/-!
This file gives the interrupt handler of `interrupt.c` and the handlers of the devices.
-/

namespace UmbralOS

open Library

def idtIdxExceptionNmi : BitVec 8 := 0x02#8
def idtIdxExceptionBp : BitVec 8 := 0x03#8
def idtIdxExceptionPf : BitVec 8 := 0x0E#8
def idtIdxLapicSpurious : BitVec 8 := 0xFF#8

def lapicRegisterIdxEoi : BitVec 8 := 0x0B#8

/-- The receive buffer of the serial port holds as many characters, once `serial_early_init` has enabled it. -/
def serialFifoSize : Nat := 16

/-- The state of the interrupt handler. The receive buffer of the serial port shows its last byte when it is empty.
The local APIC holds the vectors in service, and the vector of the highest priority stands first. -/
structure Handling where
  ps2 : Ps2
  received : List (BitVec 8)
  lastReceived : BitVec 8
  inService : List (BitVec 8)
  hasSmap : Bool
  rflagsAc : Bool
  cr2 : BitVec 64

abbrev HandlingProgram (A : Type) := Program Stop Handling A

/-- The PS/2 driver runs on its part of the state. -/
def liftHandling {A : Type} (program : Ps2Program A) : HandlingProgram A :=
  focus Handling.ps2 (fun ps2 handling => { handling with ps2 := ps2 }) program

/-- A message of the handlers. -/
def kprintHandling (format : String) (arguments : List (BitVec 64)) : HandlingProgram Unit :=
  liftHandling (kprint format arguments)

/-- No function sets a driver for the ports, so the byte of the data port is dropped. -/
def ps2HandlePort1Interrupt (timing : Ps2Timing) : HandlingProgram Unit := do
  let _ ← liftHandling (inbData timing)

def ps2HandlePort2Interrupt (timing : Ps2Timing) : HandlingProgram Unit := do
  let _ ← liftHandling (inbData timing)

/-- The read of `COM1` takes the first byte of the receive buffer. -/
def serialRead : HandlingProgram (BitVec 8) := do
  let handling ← get
  match handling.received with
  | [] => pure handling.lastReceived
  | c :: received => do
      set { handling with received := received, lastReceived := c }
      pure c

def serialHandleInterrupt : HandlingProgram Unit := do
  let c ← serialRead
  if c = char '\r' then
    kprintHandling "\n" []
  else
    kprintHandling "%c" [(c.signExtend 32).setWidth 64]

/-- The write of the register ends the service of the highest priority. -/
def lapicEoi : HandlingProgram Unit := do
  liftHandling (liftPs2 (lapicWrite lapicRegisterIdxEoi 0))
  modify fun handling => { handling with inService := handling.inService.tail }

def enforceSmap : HandlingProgram Unit :=
  modify fun handling => { handling with rflagsAc := if handling.hasSmap then false else handling.rflagsAc }

/-- The lines of `dump_interrupt_frame`. -/
def StackFrame.lines (stackFrame : StackFrame) : List (String × BitVec 64) :=
  [("r11: 0x%lx\n", stackFrame.r11), ("r10: 0x%lx\n", stackFrame.r10), ("r9: 0x%lx\n", stackFrame.r9),
    ("r8: 0x%lx\n", stackFrame.r8), ("rsi: 0x%lx\n", stackFrame.rsi), ("rdx: 0x%lx\n", stackFrame.rdx),
    ("rcx: 0x%lx\n", stackFrame.rcx), ("rax: 0x%lx\n", stackFrame.rax), ("rdi: 0x%lx\n", stackFrame.rdi),
    ("reserved: 0x%lx\n", stackFrame.reserved), ("error_code: 0x%lx\n", stackFrame.errorCode),
    ("rip: 0x%lx\n", stackFrame.rip), ("cs: 0x%lx\n", stackFrame.cs), ("rflags: 0x%lx\n", stackFrame.rflags),
    ("rsp: 0x%lx\n", stackFrame.rsp), ("ss: 0x%lx\n", stackFrame.ss)]

def dumpInterruptFrame (stackFrame : StackFrame) : HandlingProgram Unit :=
  stackFrame.lines.forM fun line => kprintHandling line.1 [line.2]

/-- The exceptions that have a name. -/
def vectorToMenemonic (vector : BitVec 8) : Option String :=
  match vector.toNat with
  | 0x00 => some "#DE"
  | 0x01 => some "#DB"
  | 0x02 => some "#NMI"
  | 0x03 => some "#BP"
  | 0x04 => some "#OF"
  | 0x05 => some "#BR"
  | 0x06 => some "#UD"
  | 0x07 => some "#NM"
  | 0x08 => some "#DF"
  | 0x09 => some "#CSO"
  | 0x0A => some "#TS"
  | 0x0B => some "#NP"
  | 0x0C => some "#SS"
  | 0x0D => some "#GP"
  | 0x0E => some "#PF"
  | 0x10 => some "#MF"
  | 0x11 => some "#AC"
  | 0x12 => some "#MC"
  | 0x13 => some "#XM/#XF"
  | 0x14 => some "#VE"
  | 0x15 => some "#CP"
  | 0x1C => some "#HV"
  | 0x1D => some "#VC"
  | 0x1E => some "#SX"
  | _ => none

/-- The panic of a vector without a case. The text of a named exception holds its name. -/
def unhandledVector (vector : BitVec 8) : Stop :=
  match vectorToMenemonic vector with
  | some mnemonic => .panic ("Unhandled Exception " ++ mnemonic) []
  | none =>
      if vector < 32#8 then .panic "Unhandled Exception 0x%x" [vector.setWidth 64]
      else .panic "Unhandled Interrupt 0x%x" [vector.setWidth 64]

/-- The eight vectors of a legacy controller. -/
def legacyPicVector (base vector : BitVec 8) : Prop := base.toNat ≤ vector.toNat ∧ vector.toNat < base.toNat + 8

instance (base vector : BitVec 8) : Decidable (legacyPicVector base vector) := inferInstanceAs (Decidable (_ ∧ _))

def interruptHandler (timing : Ps2Timing) (vector : BitVec 8) (stackFrame : StackFrame) : HandlingProgram Unit := do
  enforceSmap
  if vector = idtIdxExceptionBp then
    dumpInterruptFrame stackFrame
    kprintHandling "Continuing after #BP...\n" []
  else if vector = idtIdxExceptionPf then
    let handling ← get
    dumpInterruptFrame stackFrame
    throw (.panic "Unhandled #PF at 0x%lx" [handling.cr2])
  else if legacyPicVector idtIdxLegacyPicMasterBase vector then
    kprintHandling "Spurious Interrupt 0x%x (Legacy PIC Master)" [vector.setWidth 64]
  else if legacyPicVector idtIdxLegacyPicSlaveBase vector then
    kprintHandling "Spurious Interrupt 0x%x (Legacy PIC Slave)" [vector.setWidth 64]
  else if vector = idtIdxIsaBase + irqKb then
    ps2HandlePort1Interrupt timing
    lapicEoi
  else if vector = idtIdxIsaBase + irqCom1 then
    serialHandleInterrupt
    lapicEoi
  else if vector = idtIdxIsaBase + irqMouse then
    ps2HandlePort2Interrupt timing
    lapicEoi
  else if vector = idtIdxLapicSpurious then
    kprintHandling "Spurious Interrupt (LAPIC)" []
  else
    dumpInterruptFrame stackFrame
    throw (unhandledVector vector)

end UmbralOS
