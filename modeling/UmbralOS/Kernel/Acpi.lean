import UmbralOS.Kernel.Common

/-!
This file gives the records of the interrupt table of `madt.h`.
-/

namespace UmbralOS

open Library

/-- The parts of the packed table that the kernel reads. The records follow the header as raw bytes. -/
structure Madt where
  length : BitVec 32
  flags : BitVec 32
  records : Memory

/-- The header is `struct SDTHeader` and two 32-bit fields. -/
def offsetofRecords : Nat := 44

structure MadtIoapic where
  address : BitVec 32
  globalSystemInterruptBase : BitVec 32
  deriving DecidableEq

structure MadtInterruptSourceOverride where
  busSource : BitVec 8
  irqSource : BitVec 8
  globalSystemInterrupt : BitVec 32
  flags : BitVec 16
  deriving DecidableEq

structure MadtNmiSource where
  flags : BitVec 16
  globalSystemInterrupt : BitVec 32
  deriving DecidableEq

structure MadtLocalApicNmi where
  processorId : BitVec 8
  flags : BitVec 16
  lint : BitVec 8
  deriving DecidableEq

/-- The type byte of a record selects its packed struct. -/
inductive MadtRecord where
  | localApic
  | ioapic (record : MadtIoapic)
  | sourceOverride (record : MadtInterruptSourceOverride)
  | nmiSource (record : MadtNmiSource)
  | localApicNmi (record : MadtLocalApicNmi)
  | unknown (type : BitVec 8)
  deriving DecidableEq

/-- This function reads a little-endian field of a packed struct. -/
def readField (bytes : Memory) (offset width : Nat) : BitVec (8 * width) :=
  BitVec.ofNat (8 * width) (bytes.load offset width)

theorem readField_one (bytes : Memory) (offset : Nat) : readField bytes offset 1 = bytes offset := by
  unfold readField
  change BitVec.ofNat 8 ((bytes offset).toNat + 256 * 0) = _
  rw [Nat.mul_zero, Nat.add_zero, BitVec.ofNat_toNat, BitVec.setWidth_eq]

/-- This function reads the record at an offset. -/
def madtRecord (records : Memory) (i : Nat) : MadtRecord :=
  match (records i).toNat with
  | 0 => .localApic
  | 1 => .ioapic ⟨readField records (i + 4) 4, readField records (i + 8) 4⟩
  | 2 => .sourceOverride ⟨records (i + 2), records (i + 3), readField records (i + 4) 4, readField records (i + 8) 2⟩
  | 3 => .nmiSource ⟨readField records (i + 2) 2, readField records (i + 4) 4⟩
  | 4 => .localApicNmi ⟨records (i + 2), readField records (i + 3) 2, records (i + 5)⟩
  | _ => .unknown (records i)

/-- The low two bits of the flags give the polarity, and the next two bits give the trigger mode. -/
def flagsPolarity (flags : BitVec 16) : BitVec 8 := ((flags >>> 0) &&& 0x3#16).setWidth 8

def flagsTrigger (flags : BitVec 16) : BitVec 8 := ((flags >>> 2) &&& 0x3#16).setWidth 8

end UmbralOS
