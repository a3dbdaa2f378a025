import UmbralOS.Proof.Acpi.Parsing

/-!
This file gives the tables whose parsing stays inside their declared length.
-/

namespace UmbralOS

open Library

/-- Every byte of a table that its parser interprets lies inside the table, and inside its record. -/
def SdtReadsInside (acpi : Acpi) (pSDT : Pointer) : Prop :=
  ∀ fuel, UsesInside (acpi.machine.mm.object pSDT) (lastState (parseSdt fuel pSDT) { acpi with uses := [] })

/-- The interrupt table covers its fixed fields, and the header and the used part of the body of each handled record. -/
structure MadtCovers (pTable : Memory) (boot : Machine) : Prop where
  fields : ∀ begun, Returns lapicInitBegin boot () begun → 44 ≤ (sdtLength pTable).toNat
  bodies : ∀ handled i machine, WalkReaches (.ofBytes pTable) boot handled i machine →
    i.toNat + offsetofRecords < (sdtLength pTable).toNat →
      BodyFits pTable (offsetofRecords + i.toNat)
        ((madtRecord (Madt.ofBytes pTable).records i.toNat).bodyUse machine)
  headers : ∀ handled i machine, WalkReaches (.ofBytes pTable) boot handled i machine →
    i.toNat + offsetofRecords < (sdtLength pTable).toNat →
    ∀ machine', Returns (acpiHandleMadtRecord (madtRecord (Madt.ofBytes pTable).records i.toNat)) machine () machine' →
      offsetofRecords + i.toNat + 1 < (sdtLength pTable).toNat

/-- A table that its signature selects covers what its parser interprets. -/
structure TableCovers (pTable : Memory) (boot : Machine) : Prop where
  madt : strncmp pTable signatureApic 4 = 0 → MadtCovers pTable boot
  fadt : strncmp pTable signatureApic 4 ≠ 0 → strncmp pTable signatureFacp 4 = 0 → 116 ≤ (sdtLength pTable).toNat

section Walk

variable {pTable : Memory} {boot machine : Machine} {handled : List MadtRecord} {i : BitVec 32}

theorem WalkReaches.begins {pMADT : Madt} (reached : WalkReaches pMADT boot handled i machine) :
    ∃ begun, Returns lapicInitBegin boot () begun := by
  induction reached with
  | start begun =>
      obtain ⟨_, middle, returned, _⟩ := (returns_bind _ _ _ _ _).mp begun
      exact ⟨middle, returned⟩
  | record _ _ _ ih => exact ih

/-- A table that covers its handled records meets the need of every number of iterations. -/
theorem MadtCovers.walkNeed (covers : MadtCovers pTable boot) (fuel : Nat)
    (reached : WalkReaches (.ofBytes pTable) boot handled i machine) : WalkNeed pTable fuel i machine := by
  induction fuel generalizing handled i machine with
  | zero => trivial
  | succ fuel ih =>
      obtain ⟨begun, returned⟩ := reached.begins
      have fields := covers.fields begun returned
      constructor
      · omega
      · intro inside
        constructor
        · exact covers.bodies handled i machine reached inside
        · intro _ machine' ran
          constructor
          · exact covers.headers handled i machine reached inside machine' ran
          · exact ih (reached.record inside ran)

/-- The needs at the start of the walk carry over to every reached offset. -/
theorem walkNeed_of_reaches (need : ∀ fuel begun, Returns (acpiBeginMadt (.ofBytes pTable)) boot () begun →
    WalkNeed pTable fuel 0 begun) (reached : WalkReaches (.ofBytes pTable) boot handled i machine) :
    ∀ fuel, WalkNeed pTable fuel i machine := by
  induction reached with
  | start begun => exact fun fuel => need fuel _ begun
  | record _ inside returned ih => exact fun fuel => (((ih (fuel + 1)).2 inside).2 () _ returned).2

theorem madtCovers_iff : MadtCovers pTable boot ↔
    (∀ begun, Returns lapicInitBegin boot () begun → 44 ≤ (sdtLength pTable).toNat) ∧
      ∀ fuel begun, Returns (acpiBeginMadt (.ofBytes pTable)) boot () begun → WalkNeed pTable fuel 0 begun := by
  constructor
  · intro covers
    exact ⟨covers.fields, fun fuel begun started => covers.walkNeed fuel (.start started)⟩
  · intro need
    constructor
    · exact need.1
    · intro handled i machine reached inside
      exact ((walkNeed_of_reaches need.2 reached 1).2 inside).1
    · intro handled i machine reached inside machine' returned
      exact (((walkNeed_of_reaches need.2 reached 1).2 inside).2 () machine' returned).1

end Walk

theorem needs_acpiParseFadt (pTable : Memory) :
    Needs Acpi.machine (UsesInside pTable) (acpiParseFadt pTable) (pure ()) fun _ => 116 ≤ (sdtLength pTable).toNat := by
  have legacy : ∀ present : Bool, Needs Acpi.machine (UsesInside pTable)
      (modify fun acpi => { acpi with hasI8042 := present }) (pure () : MachineProgram Unit) fun _ => True := by
    intro present
    apply needs_modify
    · exact fun _ => rfl
    · exact fun _ => (and_iff_left trivial).symm
  have last : Needs Acpi.machine (UsesInside pTable) (do
      let bootArchitectureFlags ← useOwn pTable 109 2
      if bootArchitectureFlags &&& iapcBootArch8042 ≠ 0 then
        modify fun acpi => { acpi with hasI8042 := true }) (pure () : MachineProgram Unit)
      fun _ => 109 + 2 ≤ (sdtLength pTable).toNat ∧ True := by
    apply needs_step (needs_useOwn (by decide))
    split_ifs
    · exact legacy true
    · exact needs_pure ()
  apply Needs.congr
  · apply needs_step (needs_useOwn (by decide))
    dsimp only
    split_ifs
    · exact needs_skip (legacy false) (fun _ => trivial) last
    · exact last
  · intro _
    rw [and_true]
    omega

/-- The parser of a table logs its uses after the validation. -/
theorem lastState_parseSdt (fuel : Nat) (acpi : Acpi) (pSDT : Pointer) :
    let table := acpi.machine.mm.object pSDT
    let after := { acpi with parsed := acpi.parsed ++ [pSDT] }
    lastState (parseSdt fuel pSDT) acpi =
      if checksum table (sdtLength table).toNat ≠ 0 then after
      else if strncmp table signatureApic 4 = 0 then lastState (acpiParseMadtAt fuel table) after
      else if strncmp table signatureFacp 4 = 0 then lastState (acpiParseFadt table) after
      else after := by
  intro table after
  have logged : Returns (modify fun acpi => { acpi with parsed := acpi.parsed ++ [pSDT] } : AcpiProgram Unit) acpi ()
    after := rfl
  have read : Returns (readObject pSDT) after table after := rfl
  unfold parseSdt
  rw [logged.lastState_bind, read.lastState_bind]
  unfold validateSdt
  dsimp only
  by_cases invalid : checksum table (sdtLength table).toNat ≠ 0
  · rw [panicIf_bind_of invalid, if_pos invalid]
    rfl
  · rw [panicIf_bind_of_not invalid, if_neg invalid]
    split_ifs
    · rfl
    · rfl
    · rfl

/-- Parsing stays inside a table exactly when the table is rejected or covers what its parser interprets. -/
theorem sdt_reads_inside_iff (acpi : Acpi) (pSDT : Pointer) :
    let table := acpi.machine.mm.object pSDT
    SdtReadsInside acpi pSDT ↔ (checksum table (sdtLength table).toNat = 0 → TableCovers table acpi.machine) := by
  intro table
  let fresh : Acpi := { acpi with parsed := acpi.parsed ++ [pSDT], uses := [] }
  have empty : UsesInside table fresh := fun use member => absurd member List.not_mem_nil
  unfold SdtReadsInside
  simp only [lastState_parseSdt]
  change (∀ fuel, UsesInside table (if checksum table (sdtLength table).toNat ≠ 0 then fresh
    else if strncmp table signatureApic 4 = 0 then lastState (acpiParseMadtAt fuel table) fresh
    else if strncmp table signatureFacp 4 = 0 then lastState (acpiParseFadt table) fresh else fresh)) ↔ _
  by_cases valid : checksum table (sdtLength table).toNat = 0
  · simp only [valid, ne_eq, not_true_eq_false, if_false, true_imp_iff]
    by_cases apic : strncmp table signatureApic 4 = 0
    · simp only [apic, if_true, (needs_acpiParseMadtAt _).exact, and_iff_right empty]
      have covers := @madtCovers_iff table acpi.machine
      constructor
      · intro need
        constructor
        · intro _
          exact covers.mpr ⟨(need 0).1, fun fuel => (need fuel).2⟩
        · exact fun other => absurd apic other
      · intro table fuel
        exact ⟨(covers.mp (table.madt apic)).1, (covers.mp (table.madt apic)).2 fuel⟩
    · simp only [apic, if_false]
      by_cases facp : strncmp table signatureFacp 4 = 0
      · simp only [facp, if_true, (needs_acpiParseFadt _).exact, and_iff_right empty, forall_const]
        constructor
        · exact fun long => ⟨fun other => absurd other apic, fun _ _ => long⟩
        · exact fun table => table.fadt apic facp
      · simp only [facp, if_false]
        apply iff_of_true
        · exact fun _ => empty
        · exact ⟨fun other => absurd other apic, fun _ other => absurd other facp⟩
  · simp only [ne_eq, valid, not_false_eq_true, if_true, false_imp_iff, iff_true]
    exact fun _ => empty

/-- The memory with these bytes at a place. -/
def placeBytes (memory : Memory) (place : Nat) (bytes : List (BitVec 8)) : Memory := fun address =>
  if place ≤ address ∧ address < place + bytes.length then bytes.getD (address - place) 0 else memory address

/-- A table without fields behind its header. -/
def sampleHeader (signature : List (BitVec 8)) (length checksum : BitVec 8) : List (BitVec 8) :=
  signature ++ [length, 0, 0, 0, 0, checksum] ++ List.replicate 26 0

/-- The sample machine, with these bytes in its reserved memory. -/
def sampleFirmware (bytes : List (BitVec 8)) : Acpi where
  machine := { sampleMachine with
    mm := { sampleBooted with memory := placeBytes sampleBooted.memory 0xD000 bytes, pHHDM := sampleHhdm } }
  hasI8042 := true
  parsed := []
  rootUses := []
  uses := []

/-- The table ends behind the header of its only record, and the body of the record follows it in memory. -/
def sampleCut : Acpi := sampleFirmware
  [0x41, 0x50, 0x49, 0x43, 46, 0, 0, 0, 0, 0xAA, 0, 0, 0, 0, 0, 0, 0, 0, 0, 0, 0, 0, 0, 0, 0, 0, 0, 0, 0, 0, 0, 0, 0, 0,
    0, 0, 0, 0, 0, 0, 1, 0, 0, 0, 4, 6, 0xFF, 0xF, 0, 1]

/-- The table passes the validation, and its record programs a pin with the bytes that follow the table. -/
theorem record_read_past_table :
    let pSDT := sampleHhdm + 0xD000#64
    let after := lastState (parseSdt 2 pSDT) sampleCut
    Returns (parseSdt 2 pSDT) sampleCut () after ∧ TableUse.body 44 49 ∈ after.uses ∧
      after.machine.lapic lapicRegisterIdxLvtLint1 = 0x2420#32 ∧
      sdtLength (sampleCut.machine.mm.object pSDT) = 46#32 ∧ ¬ SdtReadsInside sampleCut pSDT := by
  intro pSDT after
  have used : TableUse.body 44 49 ∈ after.uses := by decide +kernel
  have length : sdtLength (sampleCut.machine.mm.object pSDT) = 46#32 := by decide +kernel
  refine ⟨returns_lastState (by decide +kernel), used, by decide +kernel, length, ?_⟩
  intro inside
  have bound := (inside 2 _ used).1
  change 49 < (sdtLength (sampleCut.machine.mm.object pSDT)).toNat at bound
  rw [length] at bound
  exact absurd bound (by decide)

end UmbralOS
