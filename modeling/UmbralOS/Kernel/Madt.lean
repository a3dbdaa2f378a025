import UmbralOS.Kernel.Ioapic
import UmbralOS.Kernel.Lapic

/-!
This file gives the table walk of `madt.c`.
-/

namespace UmbralOS

open Library

def pcatCompat : BitVec 32 := 1#32 <<< 0

def idtIdxLegacyPicMasterBase : BitVec 8 := 0x20#8
def idtIdxLegacyPicSlaveBase : BitVec 8 := 0x28#8

/-- The switch of the walk handles one record. -/
def acpiHandleMadtRecord : MadtRecord → MachineProgram Unit
  | .localApic => pure ()
  | .ioapic madtIoapic => ioapicInitRegister madtIoapic
  | .sourceOverride madtOverride => ioapicInitSourceOverride madtOverride
  | .nmiSource madtNmisource => ioapicInitNmisource madtNmisource
  | .localApicNmi madtLocalapicnmi => lapicInitNmi madtLocalapicnmi
  | .unknown type => throw (.panic "Unknown MADT struct %u" [type.setWidth 64])

/-- The walk advances by the length byte of each record. A length of zero would repeat the same record forever. -/
def acpiWalkMadt (pMADT : Madt) : Nat → BitVec 32 → MachineProgram Unit
  | 0, _ => throw .running
  | fuel + 1, i =>
      if i.toNat + offsetofRecords < pMADT.length.toNat then do
        acpiHandleMadtRecord (madtRecord pMADT.records i.toNat)
        acpiWalkMadt pMADT fuel (i + (pMADT.records (i.toNat + 1)).setWidth 32)
      else pure ()

/-- The part before the walk. -/
def acpiBeginMadt (pMADT : Madt) : MachineProgram Unit := do
  lapicInitBegin
  if pMADT.flags &&& pcatCompat ≠ 0 then
    legacyPicInitAndDisable idtIdxLegacyPicMasterBase idtIdxLegacyPicSlaveBase

def acpiParseMadt (fuel : Nat) (pMADT : Madt) : MachineProgram Unit := do
  acpiBeginMadt pMADT
  acpiWalkMadt pMADT fuel 0

end UmbralOS
