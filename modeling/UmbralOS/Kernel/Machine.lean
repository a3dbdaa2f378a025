import UmbralOS.Kernel.Acpi
import UmbralOS.Kernel.Mm

/-!
This file gives the machine of the interrupt drivers, and the legacy controllers of `8259.c`.
-/

namespace UmbralOS

open Library

/-- The I/O APIC shows one of its registers at a time through its data window.
The version register is read-only. The log keeps the writes to the data window in their order. -/
structure Ioapic where
  version : BitVec 32
  select : BitVec 8
  registers : BitVec 8 → BitVec 32
  written : List (BitVec 8 × BitVec 32)

structure RedirectionEntry where
  destination : BitVec 8
  isLevelTriggered : Bool
  isActiveLow : Bool
  deriving DecidableEq

/-- The drivers' variables and the devices that they reach. -/
structure Machine where
  mm : Mm
  ioapic : Ioapic
  ioapicBase : Pointer
  isaRedirectionEntry : Fin 16 → RedirectionEntry
  hasX2apic : Bool
  lapicBase : Pointer
  lapic : BitVec 8 → BitVec 32
  ports : List (BitVec 16 × BitVec 8)

abbrev MachineProgram (A : Type) := Program Stop Machine A

/-- The memory manager runs on its part of the machine. -/
def liftMm {A : Type} (program : MmProgram A) : MachineProgram A := fun machine =>
  match program.run machine.mm with
  | .ok value mm => .ok value { machine with mm := mm }
  | .error reason mm => .error reason { machine with mm := mm }

@[simp] theorem returns_liftMm {A : Type} (program : MmProgram A) (before after : Machine) (value : A) :
    Returns (liftMm program) before value after ↔
      ∃ mm, Returns program before.mm value mm ∧ { before with mm := mm } = after := by
  unfold liftMm Returns
  change (match program.run before.mm with | .ok value mm => _ | .error reason mm => _) = _ ↔ _
  cases program.run before.mm with
  | ok found mm => simp [and_comm]
  | error reason mm => simp

@[simp] theorem stops_liftMm {A : Type} (program : MmProgram A) (before after : Machine) (reason : Stop) :
    Stops (liftMm program) before reason after ↔
      ∃ mm, Stops program before.mm reason mm ∧ { before with mm := mm } = after := by
  unfold liftMm Stops
  change (match program.run before.mm with | .ok value mm => _ | .error reason mm => _) = _ ↔ _
  cases program.run before.mm with
  | ok found mm => simp
  | error found mm => simp [and_comm]

def cpuid1EcxX2apic : BitVec 64 := 1#64 <<< 21

def msrIa32ApicBase : BitVec 32 := 0x1B#32
def msrIa32ApicBaseExtd : BitVec 64 := 1#64 <<< 10
def msrIa32ApicBaseEn : BitVec 64 := 1#64 <<< 11
def msrIa32ApicBaseMask : BitVec 64 := 0xFFFFFF000#64

def rdmsr (register : BitVec 32) : MmProgram (BitVec 64) := do
  let mm ← get
  pure (mm.msr register)

def outb (port : BitVec 16) (value : BitVec 8) : MachineProgram Unit :=
  modify fun machine => { machine with ports := machine.ports ++ [(port, value)] }

def pic1Command : BitVec 16 := 0x20#16
def pic1Data : BitVec 16 := 0x21#16
def pic2Command : BitVec 16 := 0xA0#16
def pic2Data : BitVec 16 := 0xA1#16

def picIcw1Icw4 : BitVec 8 := 0x01#8
def picIcw1Init : BitVec 8 := 0x10#8
def picIcw4Mode8086 : BitVec 8 := 0x01#8

def legacyPicInitAndDisable (masterOffset slaveOffset : BitVec 8) : MachineProgram Unit := do
  outb pic1Command (picIcw1Init ||| picIcw1Icw4)
  outb pic2Command (picIcw1Init ||| picIcw1Icw4)
  outb pic1Data masterOffset
  outb pic2Data slaveOffset
  outb pic1Data 4
  outb pic2Data 2
  outb pic1Data picIcw4Mode8086
  outb pic2Data picIcw4Mode8086
  outb pic1Data 0xFF
  outb pic2Data 0xFF

end UmbralOS
