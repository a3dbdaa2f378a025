import UmbralOS.Kernel.Machine

/-!
This file gives the I/O APIC driver of `ioapic.c`.
-/

namespace UmbralOS

open Library

def ioapicver : BitVec 8 := 0x01#8

/-- The address of a redirection entry is computed at 32 bits, and the register parameter keeps 8 bits. -/
def ioapicRedirTblAddr (n : BitVec 32) : BitVec 8 := (0x10#32 + 2#32 * n).setWidth 8

def ioapicverMaxentryShift : Nat := 16

def ioapicRedirTblPolarity : BitVec 32 := 1#32 <<< 13
def ioapicRedirTblTrigger : BitVec 32 := 1#32 <<< 15
def ioapicRedirTblMasked : BitVec 32 := 1#32 <<< 16
def ioapicRedirTblDeliveryNmi : BitVec 32 := 0b100#32 <<< 8

def idtIdxIsaBase : BitVec 8 := 0x30#8

/-- Each ISA interrupt first goes to the pin of its own number. -/
def initialIsaRedirectionEntry (irq : Fin 16) : RedirectionEntry := ⟨BitVec.ofNat 8 irq, false, false⟩

/-- The table has sixteen entries, and the driver does not check its index. -/
def isaIndex (irq : BitVec 8) : MachineProgram (Fin 16) :=
  if inside : irq.toNat < 16 then pure ⟨irq.toNat, inside⟩ else throw (.outOfBounds irq.toNat)

/-- Null is never mapped, so an access through a null base faults. -/
def ioapicAccess : MachineProgram Unit := do
  let machine ← get
  stopIf (machine.ioapicBase = 0) .nullAccess

/-- The device returns the selected register in its data window. -/
def Ioapic.read (device : Ioapic) : BitVec 32 :=
  if device.select = ioapicver then device.version else device.registers device.select

/-- A write to the data window changes the selected register. -/
def Ioapic.write (device : Ioapic) (value : BitVec 32) : Ioapic :=
  { device with
    registers := fun found => if found = device.select then value else device.registers found
    written := device.written ++ [(device.select, value)] }

def ioapicSelect (reg : BitVec 8) : MachineProgram Unit := do
  ioapicAccess
  modify fun machine => { machine with ioapic := { machine.ioapic with select := reg } }

def ioapicRead32 (reg : BitVec 8) : MachineProgram (BitVec 32) := do
  ioapicSelect reg
  let machine ← get
  pure machine.ioapic.read

def ioapicWrite32 (reg : BitVec 8) (value : BitVec 32) : MachineProgram Unit := do
  ioapicSelect reg
  modify fun machine => { machine with ioapic := machine.ioapic.write value }

def ioapicWrite64 (reg : BitVec 8) (value : BitVec 64) : MachineProgram Unit := do
  ioapicWrite32 reg (value.setWidth 32)
  ioapicWrite32 (reg + 1) ((value >>> 32).setWidth 32)

def ioapicDisableInterrupt (vector : BitVec 8) : MachineProgram Unit :=
  ioapicWrite64 (ioapicRedirTblAddr (vector.setWidth 32)) (ioapicRedirTblMasked.setWidth 64)

def ioapicEnableIsaInterrupt (irq : BitVec 8) : MachineProgram Unit := do
  let vector := irq + idtIdxIsaBase
  let value := vector.setWidth 32
  let index ← isaIndex irq
  let machine ← get
  let entry := machine.isaRedirectionEntry index
  let value := if entry.isActiveLow then value ||| ioapicRedirTblPolarity else value
  let value := if entry.isLevelTriggered then value ||| ioapicRedirTblTrigger else value
  ioapicWrite64 (ioapicRedirTblAddr (entry.destination.setWidth 32)) (value.setWidth 64)

def ioapicInitRegister (madtIoapic : MadtIoapic) : MachineProgram Unit := do
  let machine ← get
  panicIf (machine.ioapicBase ≠ 0) "Multiple I/O APICs not supported" []
  panicIf (madtIoapic.globalSystemInterruptBase ≠ 0) "Remapping the entire I/O APIC is not supported" []
  let base ← liftMm (phyToVirt (madtIoapic.address.setWidth 64))
  modify fun machine => { machine with ioapicBase := base }
  liftMm (vmmMapUnaligned (madtIoapic.address.setWidth 64) base 0x20 (mCacheUc ||| mW))
  let version ← ioapicRead32 ioapicver
  let numIoapicEntries := ((version >>> ioapicverMaxentryShift) &&& 0xFF#32).setWidth 8
  panicIf (numIoapicEntries < 16#8) "I/O APIC has too few pins to cover all ISA IRQs" []
  forRange (fun i _ => ioapicDisableInterrupt (BitVec.ofNat 8 i)) numIoapicEntries.toNat ()

def ioapicInitNmisource (madtNmisource : MadtNmiSource) : MachineProgram Unit :=
  let value := ioapicRedirTblDeliveryNmi
  let value := if flagsPolarity madtNmisource.flags ≠ 0 then value ||| ioapicRedirTblPolarity else value
  let value := if flagsTrigger madtNmisource.flags ≠ 0 then value ||| ioapicRedirTblTrigger else value
  ioapicWrite64 (ioapicRedirTblAddr madtNmisource.globalSystemInterrupt) (value.setWidth 64)

/-- The destination keeps the low 8 bits of the interrupt number. -/
def MadtInterruptSourceOverride.entry (madtOverride : MadtInterruptSourceOverride) : RedirectionEntry where
  destination := madtOverride.globalSystemInterrupt.setWidth 8
  isActiveLow := flagsPolarity madtOverride.flags = 0x3#8
  isLevelTriggered := flagsTrigger madtOverride.flags = 0x3#8

def ioapicInitSourceOverride (madtOverride : MadtInterruptSourceOverride) : MachineProgram Unit := do
  panicIf (madtOverride.busSource ≠ 0) "Unknown MADT Bus %u" [madtOverride.busSource.setWidth 64]
  let index ← isaIndex madtOverride.irqSource
  modify fun machine => { machine with
    isaRedirectionEntry := fun found => if found = index then madtOverride.entry else machine.isaRedirectionEntry found }

end UmbralOS
