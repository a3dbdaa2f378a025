import UmbralOS.Kernel.Serial

/-!
This file gives the legacy devices that the kernel programs through ports.
-/

namespace UmbralOS

open Library

/-- What a controller takes the next byte of its data port for. -/
inductive PicPhase where
  | icw2
  | icw3
  | icw4
  | ready
  deriving DecidableEq

structure Pic where
  phase : PicPhase
  needsIcw4 : Bool
  single : Bool
  base : BitVec 8
  cascade : BitVec 8
  mode8086 : Bool
  mask : BitVec 8
  deriving DecidableEq

namespace Pic

/-- The first word of an initialization clears the mask. The other commands change no setting. -/
def command (pic : Pic) (value : BitVec 8) : Pic :=
  if value &&& 0x10 ≠ 0 then
    { pic with
      phase := .icw2, needsIcw4 := value &&& 1 != 0, single := value &&& 2 != 0, mode8086 := false, mask := 0 }
  else pic

/-- The phase after the words that every initialization has. -/
def lastPhase (pic : Pic) : PicPhase := if pic.needsIcw4 then .icw4 else .ready

def data (pic : Pic) (value : BitVec 8) : Pic :=
  match pic.phase with
  | .icw2 => { pic with base := value &&& 0xF8, phase := if pic.single then pic.lastPhase else .icw3 }
  | .icw3 => { pic with cascade := value, phase := pic.lastPhase }
  | .icw4 => { pic with mode8086 := value &&& 1 != 0, phase := .ready }
  | .ready => { pic with mask := value }

/-- An initialized controller asks for an interrupt while a line is up that it does not mask. -/
def Requests (pic : Pic) (lines : BitVec 8) : Prop := pic.phase = .ready ∧ lines &&& ~~~pic.mask ≠ 0

instance (pic : Pic) (lines : BitVec 8) : Decidable (pic.Requests lines) := inferInstanceAs (Decidable (_ ∧ _))

end Pic

/-- Bit 7 of the line control selects the divisor at the first two ports. -/
structure UartSetup where
  lineControl : BitVec 8
  divisorLow : BitVec 8
  divisorHigh : BitVec 8
  interruptEnable : BitVec 8
  fifoControl : BitVec 8
  modemControl : BitVec 8
  deriving DecidableEq

/-- A write of the transmit register is no setting. -/
def UartSetup.write (uart : UartSetup) (offset : BitVec 16) (value : BitVec 8) : UartSetup :=
  match offset.toNat with
  | 0 => if uart.lineControl.getLsbD 7 then { uart with divisorLow := value } else uart
  | 1 =>
      if uart.lineControl.getLsbD 7 then { uart with divisorHigh := value } else { uart with interruptEnable := value }
  | 2 => { uart with fifoControl := value }
  | 3 => { uart with lineControl := value }
  | 4 => { uart with modemControl := value }
  | _ => uart

structure LegacyDevices where
  master : Pic
  slave : Pic
  uart : UartSetup
  deriving DecidableEq

/-- A write of a port reaches the device behind the port. -/
def LegacyDevices.write (devices : LegacyDevices) (access : BitVec 16 × BitVec 8) : LegacyDevices :=
  if access.1 = pic1Command then { devices with master := devices.master.command access.2 }
  else if access.1 = pic1Data then { devices with master := devices.master.data access.2 }
  else if access.1 = pic2Command then { devices with slave := devices.slave.command access.2 }
  else if access.1 = pic2Data then { devices with slave := devices.slave.data access.2 }
  else { devices with uart := devices.uart.write (access.1 - com1) access.2 }

/-- The master sees the slave at its third line. -/
def LegacyDevices.Interrupts (devices : LegacyDevices) (lines slaveLines : BitVec 8) : Prop :=
  devices.master.Requests (lines ||| if devices.slave.Requests slaveLines then 4 else 0)

/-- The devices after the writes of the machine's log. -/
def Machine.legacy (firmware : LegacyDevices) (machine : Machine) : LegacyDevices :=
  machine.ports.foldl LegacyDevices.write firmware

end UmbralOS
