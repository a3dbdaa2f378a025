import UmbralOS.Kernel.Madt
import UmbralOS.Library.Records

/-!
This file gives the table parsing of `acpi.c`, `fadt.c` and `madt.c` down to the bytes that it interprets.
-/

namespace UmbralOS

open Library

/-- The kernel interprets a byte of the table's own fields and record headers, or a byte in the body of a record. -/
inductive TableUse where
  | own (offset : Nat)
  | body (record offset : Nat)
  deriving DecidableEq

/-- The machine and the variable of `fadt.c`. The last three fields note what the parser does: the tables that it parses,
the bytes of the root table that it interprets, and the bytes of the other tables that it interprets. -/
structure Acpi where
  machine : Machine
  hasI8042 : Bool
  parsed : List Pointer
  rootUses : List Nat
  uses : List TableUse

abbrev AcpiProgram (A : Type) := Program Stop Acpi A

/-- The drivers run on their part of the state. -/
def liftMachine {A : Type} (program : MachineProgram A) : AcpiProgram A := fun acpi =>
  match program.run acpi.machine with
  | .ok value machine => .ok value { acpi with machine := machine }
  | .error reason machine => .error reason { acpi with machine := machine }

@[simp] theorem returns_liftMachine {A : Type} (program : MachineProgram A) (before after : Acpi) (value : A) :
    Returns (liftMachine program) before value after ↔
      ∃ machine, Returns program before.machine value machine ∧ { before with machine := machine } = after := by
  unfold liftMachine Returns
  change (match program.run before.machine with | .ok value machine => _ | .error reason machine => _) = _ ↔ _
  cases program.run before.machine with
  | ok found machine => simp [and_comm]
  | error reason machine => simp

@[simp] theorem stops_liftMachine {A : Type} (program : MachineProgram A) (before after : Acpi) (reason : Stop) :
    Stops (liftMachine program) before reason after ↔
      ∃ machine, Stops program before.machine reason machine ∧ { before with machine := machine } = after := by
  unfold liftMachine Stops
  change (match program.run before.machine with | .ok value machine => _ | .error reason machine => _) = _ ↔ _
  cases program.run before.machine with
  | ok found machine => simp
  | error found machine => simp [and_comm]

/-- A run of a driver changes only the machine. -/
theorem lastState_liftMachine {A : Type} (program : MachineProgram A) (before : Acpi) :
    ∃ machine, lastState (liftMachine program) before = { before with machine := machine } := by
  rcases returns_or_stops (liftMachine program) before with ⟨value, after, returned⟩ | ⟨reason, after, stopped⟩
  · obtain ⟨machine, _, rfl⟩ := (returns_liftMachine _ _ _ _).mp returned
    exact ⟨machine, returned.lastState_eq⟩
  · obtain ⟨machine, _, rfl⟩ := (stops_liftMachine _ _ _ _).mp stopped
    exact ⟨machine, stopped.lastState_eq⟩

/-- The bytes that the kernel sees from a pointer on. -/
def Mm.object (mm : Mm) (pointer : Pointer) : Memory := fun offset =>
  mm.memory (mm.physical (pointer + BitVec.ofNat 64 offset))

def readObject (pointer : Pointer) : AcpiProgram Memory := do
  let acpi ← get
  pure (acpi.machine.mm.object pointer)

/-- The length field of `struct SDTHeader`. -/
def sdtLength (pSDT : Memory) : BitVec 32 := readField pSDT 4 4

/-- The byte loops of the validation add up the first bytes of a table. -/
def checksum (bytes : Memory) : Nat → BitVec 8
  | 0 => 0
  | count + 1 => checksum bytes count + bytes count

/-- The kernel interprets a field of a table. -/
def useOwn (pTable : Memory) (offset width : Nat) : AcpiProgram (BitVec (8 * width)) := do
  modify fun acpi => { acpi with uses := acpi.uses ++ (List.range' offset width).map .own }
  pure (readField pTable offset width)

/-- The kernel interprets a field in the body of the record that stands at an offset. -/
def useBody (pTable : Memory) (record offset width : Nat) : AcpiProgram (BitVec (8 * width)) := do
  modify fun acpi => { acpi with uses := acpi.uses ++ (List.range' (record + offset) width).map (.body record) }
  pure (readField pTable (record + offset) width)

/-- The packed table at the start of these bytes. -/
def Madt.ofBytes (pMADT : Memory) : Madt where
  length := sdtLength pMADT
  flags := readField pMADT 40 4
  records := fun i => pMADT (offsetofRecords + i)

/-- The driver checks its base before it reads the record, and the base interrupt number before the address. -/
def ioapicInitRegisterAt (pMADT : Memory) (record : Nat) : AcpiProgram Unit := do
  let acpi ← get
  panicIf (acpi.machine.ioapicBase ≠ 0) "Multiple I/O APICs not supported" []
  let globalSystemInterruptBase ← useBody pMADT record 8 4
  panicIf (globalSystemInterruptBase ≠ 0) "Remapping the entire I/O APIC is not supported" []
  let address ← useBody pMADT record 4 4
  liftMachine (ioapicInitRegister ⟨address, globalSystemInterruptBase⟩)

/-- The driver checks the bus before it reads the other fields. -/
def ioapicInitSourceOverrideAt (pMADT : Memory) (record : Nat) : AcpiProgram Unit := do
  let busSource ← useBody pMADT record 2 1
  panicIf (busSource ≠ 0) "Unknown MADT Bus %u" [busSource.setWidth 64]
  let flags ← useBody pMADT record 8 2
  let irqSource ← useBody pMADT record 3 1
  let globalSystemInterrupt ← useBody pMADT record 4 4
  liftMachine (ioapicInitSourceOverride ⟨busSource, irqSource, globalSystemInterrupt, flags⟩)

def ioapicInitNmisourceAt (pMADT : Memory) (record : Nat) : AcpiProgram Unit := do
  let flags ← useBody pMADT record 2 2
  let globalSystemInterrupt ← useBody pMADT record 4 4
  liftMachine (ioapicInitNmisource ⟨flags, globalSystemInterrupt⟩)

/-- The driver reads the flags and the pin only for the boot processor. -/
def lapicInitNmiAt (pMADT : Memory) (record : Nat) : AcpiProgram Unit := do
  let processorId ← useBody pMADT record 2 1
  if processorId = 0 ∨ processorId = 0xFF#8 then do
    let flags ← useBody pMADT record 3 2
    let lint ← useBody pMADT record 5 1
    liftMachine (lapicInitNmi ⟨processorId, flags, lint⟩)
  else pure ()

/-- The switch of the walk reads the type byte of a record. -/
def acpiHandleMadtAt (pMADT : Memory) (record : Nat) : AcpiProgram Unit := do
  let type ← useOwn pMADT record 1
  match type.toNat with
  | 0 => pure ()
  | 1 => ioapicInitRegisterAt pMADT record
  | 2 => ioapicInitSourceOverrideAt pMADT record
  | 3 => ioapicInitNmisourceAt pMADT record
  | 4 => lapicInitNmiAt pMADT record
  | _ => throw (.panic "Unknown MADT struct %u" [type.setWidth 64])

/-- The guard reads the length of the table, and the walk reads the length byte of a record after its handler. -/
def acpiWalkMadtAt (pMADT : Memory) : Nat → BitVec 32 → AcpiProgram Unit
  | 0, _ => throw .running
  | fuel + 1, i => do
      let length ← useOwn pMADT 4 4
      if i.toNat + offsetofRecords < length.toNat then do
        acpiHandleMadtAt pMADT (offsetofRecords + i.toNat)
        let step ← useOwn pMADT (offsetofRecords + i.toNat + 1) 1
        acpiWalkMadtAt pMADT fuel (i + step.setWidth 32)
      else pure ()

def acpiParseMadtAt (fuel : Nat) (pMADT : Memory) : AcpiProgram Unit := do
  liftMachine lapicInitBegin
  let flags ← useOwn pMADT 40 4
  if flags &&& pcatCompat ≠ 0 then
    liftMachine (legacyPicInitAndDisable idtIdxLegacyPicMasterBase idtIdxLegacyPicSlaveBase)
  acpiWalkMadtAt pMADT fuel 0

def hwReducedAcpi : BitVec 32 := 1#32 <<< 20
def iapcBootArch8042 : BitVec 16 := 1#16 <<< 1

def acpiParseFadt (pFADT : Memory) : AcpiProgram Unit := do
  let flags ← useOwn pFADT 112 4
  if flags &&& hwReducedAcpi ≠ 0 then
    modify fun acpi => { acpi with hasI8042 := false }
  let bootArchitectureFlags ← useOwn pFADT 109 2
  if bootArchitectureFlags &&& iapcBootArch8042 ≠ 0 then
    modify fun acpi => { acpi with hasI8042 := true }

def validateSdt (pSDT : Memory) : AcpiProgram Unit := do
  let sum := checksum pSDT (sdtLength pSDT).toNat
  panicIf (sum ≠ 0) "Invalid SDT. Expected 0, got %u\n" [sum.setWidth 64]

def sizeofRsdp : Nat := 20
def sizeofXsdp : Nat := 36

def validateRsdp (pRSDP : Memory) : AcpiProgram Unit := do
  let sum := checksum pRSDP sizeofRsdp
  panicIf (sum ≠ 0) "Invalid RSDP. Expected 0, got %u\n" [sum.setWidth 64]

def validateXsdp (pXSDP : Memory) : AcpiProgram Unit := do
  let sum := checksum pXSDP sizeofXsdp
  panicIf (sum ≠ 0) "Invalid XSDP. Expected 0, got %u\n" [sum.setWidth 64]

def signatureApic : Memory := Memory.ofList [0x41#8, 0x50#8, 0x49#8, 0x43#8]
def signatureFacp : Memory := Memory.ofList [0x46#8, 0x41#8, 0x43#8, 0x50#8]

def parseSdt (fuel : Nat) (pSDT : Pointer) : AcpiProgram Unit := do
  modify fun acpi => { acpi with parsed := acpi.parsed ++ [pSDT] }
  let table ← readObject pSDT
  validateSdt table
  if strncmp table signatureApic 4 = 0 then
    acpiParseMadtAt fuel table
  else if strncmp table signatureFacp 4 = 0 then
    acpiParseFadt table
  else pure ()

/-- The kernel interprets a field of the root table. -/
def useRoot (root : Pointer) (offset width : Nat) : AcpiProgram (BitVec (8 * width)) := do
  modify fun acpi => { acpi with rootUses := acpi.rootUses ++ List.range' offset width }
  let table ← readObject root
  pure (readField table offset width)

/-- The size of `struct SDTHeader`, where the addresses of both root tables start. -/
def offsetofSdts : Nat := 36

/-- The number of addresses is computed at 64 bits from the 32-bit length. -/
def numSdts (length : BitVec 32) (width : Nat) : BitVec 64 :=
  (length.setWidth 64 - BitVec.ofNat 64 offsetofSdts) / BitVec.ofNat 64 width

/-- One iteration parses the table at one of the addresses. -/
def acpiParseEntry (fuel : Nat) (root : Pointer) (width i : Nat) : AcpiProgram Unit := do
  let sdt ← useRoot root (offsetofSdts + width * i) width
  let pSDT ← liftMachine (liftMm (phyToVirt (sdt.setWidth 64)))
  parseSdt fuel pSDT

/-- Both root tables are walked in the same way, with addresses of 8 or 4 bytes. -/
def acpiWalkRoot (fuel : Nat) (root : Pointer) (width : Nat) : AcpiProgram Unit := do
  let length ← useRoot root 4 4
  forRange (fun i _ => acpiParseEntry fuel root width i) (numSdts length width).toNat ()

/-- The pointer structure gives the root table and the width of its addresses, and the root table is validated. -/
def acpiFindRoot (p : Pointer) : AcpiProgram (Pointer × Nat) := do
  let pRSDP ← readObject p
  validateRsdp pRSDP
  if 0 < (pRSDP 15).toNat then do
    validateXsdp pRSDP
    let pXSDT ← liftMachine (liftMm (phyToVirt (readField pRSDP 24 8)))
    let table ← readObject pXSDT
    validateSdt table
    pure (pXSDT, 8)
  else do
    let pRSDT ← liftMachine (liftMm (phyToVirt ((readField pRSDP 16 4).setWidth 64)))
    let table ← readObject pRSDT
    validateSdt table
    pure (pRSDT, 4)

def acpiParseRsdp (fuel : Nat) (p : Pointer) : AcpiProgram Unit := do
  let (root, width) ← acpiFindRoot p
  acpiWalkRoot fuel root width

end UmbralOS
