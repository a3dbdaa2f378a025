import UmbralOS.Kernel.Print
import UmbralOS.Kernel.Ioapic

/-!
This file gives the driver of `serial.c`.
-/

namespace UmbralOS

open Library

/-- The serial port shows a line status at each poll and sends the characters that it gets. -/
structure Uart where
  lineStatus : Nat → BitVec 8
  polls : Nat
  sent : List (BitVec 8)

abbrev UartProgram (A : Type) := Program Stop Uart A

/-- The read of the line status register at `COM1 + 5`. -/
def inbLineStatus : UartProgram (BitVec 8) := do
  let uart ← get
  set { uart with polls := uart.polls + 1 }
  pure (uart.lineStatus uart.polls)

/-- The write of the transmit register at `COM1`. -/
def outbCom1 (c : BitVec 8) : UartProgram Unit := modify fun uart => { uart with sent := uart.sent ++ [c] }

/-- The loop waits until the transmit buffer is empty. -/
def serialWaitTransmit : Nat → UartProgram Unit
  | 0 => throw .running
  | fuel + 1 => do
      let status ← inbLineStatus
      if status &&& 0x20 = 0 then serialWaitTransmit fuel else pure ()

def serialPutc (fuel : Nat) (c : BitVec 8) : UartProgram Unit := do
  serialWaitTransmit fuel
  outbCom1 c

/-- The loop body of `serial_write`. -/
def serialWriteChar (fuel : Nat) (c : BitVec 8) : UartProgram Unit := do
  if c = char '\n' then serialPutc fuel (char '\r')
  serialPutc fuel c

def serialWrite (fuel : Nat) : Writer Uart := fun buf => buf.forM (serialWriteChar fuel)

def com1 : BitVec 16 := 0x3F8#16

def irqCom1 : BitVec 8 := 4#8

/-- The divisor, the line format, the buffers, the modem lines and the receive interrupt are set in this order. -/
def serialEarlyInit : MachineProgram Unit := do
  outb (com1 + 1) 0x00
  outb (com1 + 3) 0x80
  outb (com1 + 0) 0x01
  outb (com1 + 1) 0x00
  outb (com1 + 3) 0x03
  outb (com1 + 2) 0xC7
  outb (com1 + 4) 0x0B
  outb (com1 + 1) 0x01

/-- The flag tells whether `serial_early_init` has run. -/
def serialInit (earlyInitComplete : Bool) : MachineProgram Unit := do
  if !earlyInitComplete then serialEarlyInit
  ioapicEnableIsaInterrupt irqCom1

end UmbralOS
