import UmbralOS.Kernel.Machine

/-!
This file gives the local APIC driver of `lapic.c`.
-/

namespace UmbralOS

open Library

def lapicRegisterSize : BitVec 64 := 0x10#64
def lapicRegisterMax : BitVec 8 := 0x40#8

def lapicRegisterIdxSpiv : BitVec 8 := 0x0F#8
def lapicRegisterIdxLvtTimer : BitVec 8 := 0x32#8
def lapicRegisterIdxLvtTherm : BitVec 8 := 0x33#8
def lapicRegisterIdxLvtPerfc : BitVec 8 := 0x34#8
def lapicRegisterIdxLvtLint0 : BitVec 8 := 0x35#8
def lapicRegisterIdxLvtLint1 : BitVec 8 := 0x36#8
def lapicRegisterIdxLvtError : BitVec 8 := 0x37#8

def lapicLvtDeliveryNmi : BitVec 32 := 0b100#32 <<< 8
def lapicLvtPolarity : BitVec 32 := 1#32 <<< 13
def lapicLvtTrigger : BitVec 32 := 1#32 <<< 5
def lapicLvtMask : BitVec 32 := 1#32 <<< 16
def lapicSpivEnable : BitVec 32 := 0x100#32

/-- The address of a register in the mapped window. -/
def xapic1GetRegister (lapicBase : Pointer) (reg : BitVec 8) : Pointer := lapicBase + reg.setWidth 64 * lapicRegisterSize

/-- Both ways of access reach the same register: one model specific register for each register number,
or sixteen bytes of the mapped window for each register number. -/
def lapicWrite (reg : BitVec 8) (value : BitVec 32) : MachineProgram Unit := do
  panicIf (lapicRegisterMax < reg) "lapic_write: LAPIC Register 0x%x out of range" [reg.setWidth 64]
  let machine ← get
  stopIf (machine.hasX2apic = false ∧ machine.lapicBase = 0) .nullAccess
  modify fun machine => { machine with
    lapic := fun found => if found = reg then value else machine.lapic found }

/-- The first part of `lapic_init_begin` selects the way of access. -/
def lapicInitAccess : MachineProgram Unit := do
  let machine ← get
  let hasX2apic := (machine.mm.cpuid 1 0).ecx &&& cpuid1EcxX2apic != 0
  modify fun machine => { machine with hasX2apic := hasX2apic }
  let lapicBase ← liftMm (rdmsr msrIa32ApicBase)
  if lapicBase &&& msrIa32ApicBaseEn = 0 then
    liftMm (wrmsr msrIa32ApicBase (lapicBase ||| msrIa32ApicBaseEn))
  let lapicBase := lapicBase ||| msrIa32ApicBaseEn
  if hasX2apic then
    if lapicBase &&& msrIa32ApicBaseExtd = 0 then
      liftMm (wrmsr msrIa32ApicBase (lapicBase ||| msrIa32ApicBaseExtd))
  else
    let lapicBasePhy := lapicBase &&& msrIa32ApicBaseMask
    let lapicBaseVirt ← liftMm (phyToVirt lapicBasePhy)
    liftMm (vmmMapUnaligned lapicBasePhy lapicBaseVirt (lapicRegisterMax.setWidth 64 * lapicRegisterSize) mW)
    modify fun machine => { machine with lapicBase := lapicBaseVirt }

/-- The second part masks the local interrupts and enables the local APIC. -/
def lapicInitRegisters : MachineProgram Unit := do
  lapicWrite lapicRegisterIdxLvtTimer lapicLvtMask
  lapicWrite lapicRegisterIdxLvtTherm lapicLvtMask
  lapicWrite lapicRegisterIdxLvtPerfc lapicLvtMask
  lapicWrite lapicRegisterIdxLvtLint0 lapicLvtMask
  lapicWrite lapicRegisterIdxLvtLint1 lapicLvtMask
  lapicWrite lapicRegisterIdxLvtError lapicLvtMask
  lapicWrite lapicRegisterIdxSpiv (lapicSpivEnable ||| 0xFF#32)

def lapicInitBegin : MachineProgram Unit := do
  lapicInitAccess
  lapicInitRegisters

/-- The record is for the boot processor or for all processors. -/
def MadtLocalApicNmi.Applies (record : MadtLocalApicNmi) : Prop :=
  record.processorId = 0 ∨ record.processorId = 0xFF#8

instance (record : MadtLocalApicNmi) : Decidable record.Applies := inferInstanceAs (Decidable (_ ∨ _))

/-- Every pin number except zero selects the second pin. -/
def MadtLocalApicNmi.lvtRegister (record : MadtLocalApicNmi) : BitVec 8 :=
  if record.lint ≠ 0 then lapicRegisterIdxLvtLint1 else lapicRegisterIdxLvtLint0

def MadtLocalApicNmi.lvt (record : MadtLocalApicNmi) : BitVec 32 :=
  let lvt := lapicLvtDeliveryNmi
  let lvt := if flagsPolarity record.flags = 0x3#8 then lvt ||| lapicLvtPolarity else lvt
  if flagsTrigger record.flags = 0x3#8 then lvt ||| lapicLvtTrigger else lvt

def lapicInitNmi (madtLocalapicnmi : MadtLocalApicNmi) : MachineProgram Unit :=
  if madtLocalapicnmi.Applies then
    lapicWrite madtLocalapicnmi.lvtRegister madtLocalapicnmi.lvt
  else pure ()

end UmbralOS
