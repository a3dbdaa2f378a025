import UmbralOS.Library.Erasure
import UmbralOS.Proof.Interrupts.Confinement
import UmbralOS.Kernel.Sdt

/-!
This file compares the table parser with the walk over whole records, and gives the bytes that each step of it needs.
-/

namespace UmbralOS

open Library

/-- The byte lies inside the declared length of its table, and a byte of a body lies inside the length of its record. -/
def TableUse.Inside (pTable : Memory) : TableUse → Prop
  | .own offset => offset < (sdtLength pTable).toNat
  | .body record offset => offset < (sdtLength pTable).toNat ∧ offset < record + (pTable (record + 1)).toNat

def UsesInside (pTable : Memory) (acpi : Acpi) : Prop := ∀ use ∈ acpi.uses, use.Inside pTable

/-- The first bytes of a record lie inside the table and inside the record. -/
def BodyFits (pTable : Memory) (record count : Nat) : Prop :=
  record + count ≤ (sdtLength pTable).toNat ∧ count ≤ (pTable (record + 1)).toNat

/-- The number of bytes from the start of a record that its handler interprets. -/
def MadtRecord.bodyUse (machine : Machine) : MadtRecord → Nat
  | .localApic => 0
  | .ioapic _ => if machine.ioapicBase = 0 then 12 else 0
  | .sourceOverride madtOverride => if madtOverride.busSource = 0 then 10 else 3
  | .nmiSource _ => 8
  | .localApicNmi madtLocalapicnmi => if madtLocalapicnmi.Applies then 6 else 3
  | .unknown _ => 0

section Uses

variable {pTable : Memory} {record offset width : Nat}

theorem needs_uses (added : List TableUse) :
    Needs Acpi.machine (UsesInside pTable) (modify fun acpi => { acpi with uses := acpi.uses ++ added })
      (pure () : MachineProgram Unit) fun _ => ∀ use ∈ added, use.Inside pTable :=
  needs_modify (fun _ => rfl) fun _ => List.forall_mem_append

theorem needs_liftMachine {A : Type} (program : MachineProgram A) :
    Needs Acpi.machine (UsesInside pTable) (liftMachine program) program fun _ => True := by
  refine ⟨⟨?_, ?_⟩, ?_⟩
  · intro before value after returned
    obtain ⟨machine, ran, rfl⟩ := (returns_liftMachine _ _ _ _).mp returned
    exact ran
  · intro before reason after stopped
    obtain ⟨machine, ran, rfl⟩ := (stops_liftMachine _ _ _ _).mp stopped
    exact ran
  · intro before
    obtain ⟨machine, same⟩ := lastState_liftMachine program before
    rw [and_iff_left trivial, same]
    rfl

theorem needs_useOwn (positive : 0 < width) :
    Needs Acpi.machine (UsesInside pTable) (useOwn pTable offset width) (pure (readField pTable offset width))
      fun _ => offset + width ≤ (sdtLength pTable).toNat := by
  have adds : Needs Acpi.machine (UsesInside pTable) (useOwn pTable offset width) _ _ :=
    needs_step (needs_uses _) (needs_pure (readField pTable offset width))
  apply adds.congr
  intro machine
  rw [and_iff_left trivial, List.forall_mem_map]
  constructor
  · intro every
    have last : offset + width - 1 < (sdtLength pTable).toNat :=
      every (offset + width - 1) (List.mem_range'_1.mpr (by omega))
    omega
  · intro fits target member
    have covered := List.mem_range'_1.mp member
    change target < _
    omega

theorem needs_useBody (positive : 0 < width) :
    Needs Acpi.machine (UsesInside pTable) (useBody pTable record offset width)
      (pure (readField pTable (record + offset) width)) fun _ => BodyFits pTable record (offset + width) := by
  have adds : Needs Acpi.machine (UsesInside pTable) (useBody pTable record offset width) _ _ :=
    needs_step (needs_uses _) (needs_pure (readField pTable (record + offset) width))
  apply adds.congr
  intro machine
  rw [and_iff_left trivial, List.forall_mem_map, BodyFits]
  constructor
  · intro every
    have last : record + offset + width - 1 < (sdtLength pTable).toNat ∧
        record + offset + width - 1 < record + (pTable (record + 1)).toNat :=
      every (record + offset + width - 1) (List.mem_range'_1.mpr (by omega))
    omega
  · intro fits target member
    have covered := List.mem_range'_1.mp member
    change target < _ ∧ target < _
    omega

theorem needs_panicIf {A : Type} {guard : Prop} [Decidable guard] {format : String} {arguments : List (BitVec 64)}
    {next : Unit → AcpiProgram A} {next' : Unit → MachineProgram A} {need : Machine → Prop}
    (tail : ¬ guard → Needs Acpi.machine (UsesInside pTable) (next ()) (next' ()) need) :
    Needs Acpi.machine (UsesInside pTable) (panicIf guard format arguments >>= next)
      (panicIf guard format arguments >>= next') fun machine => ¬ guard → need machine := needs_stopIf tail

end Uses

theorem ioapicInitRegister_checks (madtIoapic : MadtIoapic) : ioapicInitRegister madtIoapic = (do
    let machine ← get
    panicIf (machine.ioapicBase ≠ 0) "Multiple I/O APICs not supported" []
    panicIf (madtIoapic.globalSystemInterruptBase ≠ 0) "Remapping the entire I/O APIC is not supported" []
    ioapicInitRegister madtIoapic) := by
  funext machine
  unfold ioapicInitRegister
  change (panicIf (machine.ioapicBase ≠ 0) _ _ >>= _) machine = (panicIf (machine.ioapicBase ≠ 0) _ _ >>= _) machine
  by_cases based : machine.ioapicBase ≠ 0
  · rw [panicIf_bind_of based, panicIf_bind_of based]
  · rw [panicIf_bind_of_not based, panicIf_bind_of_not based]
    by_cases remapped : madtIoapic.globalSystemInterruptBase ≠ 0
    · rw [panicIf_bind_of remapped, panicIf_bind_of remapped]
    · rw [panicIf_bind_of_not remapped, panicIf_bind_of_not remapped]
      change _ = (panicIf (machine.ioapicBase ≠ 0) _ _ >>= _) machine
      rw [panicIf_bind_of_not based]

theorem ioapicInitSourceOverride_checks (madtOverride : MadtInterruptSourceOverride) :
    ioapicInitSourceOverride madtOverride = (do
      panicIf (madtOverride.busSource ≠ 0) "Unknown MADT Bus %u" [madtOverride.busSource.setWidth 64]
      ioapicInitSourceOverride madtOverride) := by
  by_cases unknown : madtOverride.busSource ≠ 0
  · rw [panicIf_bind_of unknown]
    exact panicIf_bind_of unknown _
  · rw [panicIf_bind_of_not unknown]

theorem lapicInitNmi_checks (madtLocalapicnmi : MadtLocalApicNmi) : lapicInitNmi madtLocalapicnmi =
    if madtLocalapicnmi.processorId = 0 ∨ madtLocalapicnmi.processorId = 0xFF#8 then lapicInitNmi madtLocalapicnmi
    else pure () := by
  split_ifs with applies
  · rfl
  · exact if_neg applies

section Handlers

variable {pTable : Memory} {record : Nat}

/-- A field of a record stands behind the header of the table. -/
theorem readField_records (pTable : Memory) (i offset width : Nat) :
    readField (Madt.ofBytes pTable).records (i + offset) width = readField pTable (offsetofRecords + i + offset) width := by
  unfold readField
  change BitVec.ofNat _ (Memory.load (fun i => pTable (offsetofRecords + i)) (i + offset) width) = _
  rw [Memory.load_shift, Nat.add_assoc]

theorem bodyFits_zero (inside : record < (sdtLength pTable).toNat) : BodyFits pTable record 0 :=
  ⟨Nat.le_of_lt inside, Nat.zero_le _⟩

theorem BodyFits.le {count smaller : Nat} (fits : BodyFits pTable record count) (le : smaller ≤ count) :
    BodyFits pTable record smaller := by
  unfold BodyFits at *
  omega

theorem needs_ioapicInitRegisterAt (inside : record < (sdtLength pTable).toNat) :
    Needs Acpi.machine (UsesInside pTable) (ioapicInitRegisterAt pTable record)
      (ioapicInitRegister ⟨readField pTable (record + 4) 4, readField pTable (record + 8) 4⟩)
      fun machine => BodyFits pTable record (if machine.ioapicBase = 0 then 12 else 0) := by
  rw [ioapicInitRegister_checks]
  apply needs_get fun (machine _ : Machine) => BodyFits pTable record (if machine.ioapicBase = 0 then 12 else 0)
  intro acpi
  apply Needs.congr
  · apply needs_panicIf
    intro _
    apply needs_step (needs_useBody (by decide))
    apply needs_panicIf
    intro _
    exact needs_step (needs_useBody (by decide)) (needs_liftMachine _)
  · intro _
    split_ifs with unset
    · constructor
      · intro each
        exact (each (fun set => set unset)).1
      · intro fits _
        exact ⟨fits, fun _ => ⟨fits.le (by decide), trivial⟩⟩
    · exact iff_of_true (fun set => absurd unset set) (bodyFits_zero inside)

theorem needs_ioapicInitSourceOverrideAt :
    Needs Acpi.machine (UsesInside pTable) (ioapicInitSourceOverrideAt pTable record)
      (ioapicInitSourceOverride ⟨pTable (record + 2), pTable (record + 3), readField pTable (record + 4) 4,
        readField pTable (record + 8) 2⟩)
      fun _ => BodyFits pTable record (if pTable (record + 2) = 0 then 10 else 3) := by
  rw [ioapicInitSourceOverride_checks, ← readField_one pTable (record + 2), ← readField_one pTable (record + 3)]
  apply Needs.congr
  · apply needs_step (needs_useBody (by decide))
    apply needs_panicIf
    intro _
    apply needs_step (needs_useBody (by decide))
    apply needs_step (needs_useBody (by decide))
    exact needs_step (needs_useBody (by decide)) (needs_liftMachine _)
  · intro _
    split_ifs with known
    · constructor
      · intro each
        exact (each.2 (fun unknown => unknown known)).1
      · intro fits
        exact ⟨fits.le (by decide), fun _ => ⟨fits, fits.le (by decide), fits.le (by decide), trivial⟩⟩
    · exact and_iff_left fun passed => absurd known passed

theorem needs_ioapicInitNmisourceAt :
    Needs Acpi.machine (UsesInside pTable) (ioapicInitNmisourceAt pTable record)
      (ioapicInitNmisource ⟨readField pTable (record + 2) 2, readField pTable (record + 4) 4⟩)
      fun _ => BodyFits pTable record 8 := by
  apply Needs.congr
  · apply needs_step (needs_useBody (by decide))
    exact needs_step (needs_useBody (by decide)) (needs_liftMachine _)
  · intro _
    constructor
    · intro each
      exact each.2.1
    · intro fits
      exact ⟨fits.le (by decide), fits, trivial⟩

theorem needs_lapicInitNmiAt :
    Needs Acpi.machine (UsesInside pTable) (lapicInitNmiAt pTable record)
      (lapicInitNmi ⟨pTable (record + 2), readField pTable (record + 3) 2, pTable (record + 5)⟩)
      fun _ => BodyFits pTable record
        (if pTable (record + 2) = 0 ∨ pTable (record + 2) = 0xFF#8 then 6 else 3) := by
  rw [← readField_one pTable (record + 2), ← readField_one pTable (record + 5), lapicInitNmi_checks]
  apply Needs.congr
  · apply needs_step (needs_useBody (by decide))
    apply needs_ite
    · intro _
      apply needs_step (needs_useBody (by decide))
      exact needs_step (needs_useBody (by decide)) (needs_liftMachine _)
    · intro _
      exact needs_pure ()
  · intro _
    split_ifs with applies
    · constructor
      · intro each
        exact each.2.2.1
      · intro fits
        exact ⟨fits.le (by decide), fits.le (by decide), fits, trivial⟩
    · exact and_iff_left trivial

/-- The handler of a record interprets its type byte, which the guard covers, and its body. -/
theorem needs_acpiHandleMadtAt {i : Nat} (inside : offsetofRecords + i < (sdtLength pTable).toNat) :
    Needs Acpi.machine (UsesInside pTable) (acpiHandleMadtAt pTable (offsetofRecords + i))
      (acpiHandleMadtRecord (madtRecord (Madt.ofBytes pTable).records i))
      fun machine => BodyFits pTable (offsetofRecords + i)
        ((madtRecord (Madt.ofBytes pTable).records i).bodyUse machine) := by
  have byte : ∀ offset, (Madt.ofBytes pTable).records (i + offset) = pTable (offsetofRecords + i + offset) :=
    fun offset => congrArg pTable (Nat.add_assoc _ _ _).symm
  have first : (Madt.ofBytes pTable).records i = pTable (offsetofRecords + i) := rfl
  apply needs_skip (needs_useOwn (by decide)) fun _ => inside
  unfold madtRecord
  simp only [readField_one, readField_records, byte, first]
  generalize (pTable (offsetofRecords + i)).toNat = type
  rcases type with _ | _ | _ | _ | _ | type
  · exact Needs.congr (needs_pure ()) fun _ => iff_of_true trivial (bodyFits_zero inside)
  · exact needs_ioapicInitRegisterAt inside
  · exact needs_ioapicInitSourceOverrideAt
  · exact needs_ioapicInitNmisourceAt
  · exact needs_lapicInitNmiAt
  · exact Needs.congr (needs_throw _) fun _ => iff_of_true trivial (bodyFits_zero inside)

end Handlers

/-- The bytes that a number of iterations needs from an offset on. -/
def WalkNeed (pTable : Memory) : Nat → BitVec 32 → Machine → Prop
  | 0, _, _ => True
  | fuel + 1, i, machine =>
      let record := madtRecord (Madt.ofBytes pTable).records i.toNat
      8 ≤ (sdtLength pTable).toNat ∧ (i.toNat + offsetofRecords < (sdtLength pTable).toNat →
        NeedThen (acpiHandleMadtRecord record)
          (fun machine => BodyFits pTable (offsetofRecords + i.toNat) (record.bodyUse machine))
          (fun _ machine => offsetofRecords + i.toNat + 1 < (sdtLength pTable).toNat ∧
            WalkNeed pTable fuel (i + ((Madt.ofBytes pTable).records (i.toNat + 1)).setWidth 32) machine) machine)

section Walk

variable {pTable : Memory}

theorem needs_acpiWalkMadtAt (fuel : Nat) (i : BitVec 32) :
    Needs Acpi.machine (UsesInside pTable) (acpiWalkMadtAt pTable fuel i) (acpiWalkMadt (.ofBytes pTable) fuel i)
      (WalkNeed pTable fuel i) := by
  induction fuel generalizing i with
  | zero => exact needs_throw _
  | succ fuel ih =>
      apply Needs.congr
      · apply needs_step (needs_useOwn (by decide))
        apply needs_ite
        · intro inside
          apply needs_bind (needs_acpiHandleMadtAt ((Nat.add_comm _ _).trans_lt inside))
          intro _
          apply needs_step (needs_useOwn (by decide))
          rw [readField_one]
          exact ih _
        · intro _
          exact needs_pure ()
      · intro machine
        apply and_congr_right
        intro _
        split_ifs with inside
        · exact ⟨fun need _ => need, fun need => need inside⟩
        · exact iff_of_true trivial fun other => absurd other inside

/-- The old interrupt controllers are disabled between the flags and the walk. -/
theorem acpiParseMadtAt_eq (fuel : Nat) (pTable : Memory) : acpiParseMadtAt fuel pTable = (do
    liftMachine lapicInitBegin
    let flags ← useOwn pTable 40 4
    (if flags &&& pcatCompat ≠ 0 then
      liftMachine (legacyPicInitAndDisable idtIdxLegacyPicMasterBase idtIdxLegacyPicSlaveBase) else pure ())
      >>= fun _ => acpiWalkMadtAt pTable fuel 0) := by
  unfold acpiParseMadtAt
  congr
  funext _
  congr
  funext flags
  split_ifs
  · rfl
  · rfl

theorem needs_legacyPic (flags : BitVec 32) : Needs Acpi.machine (UsesInside pTable)
    (if flags &&& pcatCompat ≠ 0 then
      liftMachine (legacyPicInitAndDisable idtIdxLegacyPicMasterBase idtIdxLegacyPicSlaveBase) else pure ())
    (if flags &&& pcatCompat ≠ 0 then
      legacyPicInitAndDisable idtIdxLegacyPicMasterBase idtIdxLegacyPicSlaveBase else pure ()) fun _ => True := by
  split_ifs
  · exact needs_liftMachine _
  · exact needs_pure ()

/-- The parser needs the fixed fields once the first driver has returned, and then the bytes of the walk. -/
theorem needs_acpiParseMadtAt (fuel : Nat) :
    Needs Acpi.machine (UsesInside pTable) (acpiParseMadtAt fuel pTable) (acpiParseMadt fuel (.ofBytes pTable))
      fun machine => (∀ begun, Returns lapicInitBegin machine () begun → 44 ≤ (sdtLength pTable).toNat) ∧
        ∀ begun, Returns (acpiBeginMadt (.ofBytes pTable)) machine () begun → WalkNeed pTable fuel 0 begun := by
  unfold acpiParseMadt acpiBeginMadt
  rw [acpiParseMadtAt_eq, bind_assoc]
  apply Needs.congr
  · apply needs_bind (needs_liftMachine _)
    intro _
    apply needs_step (needs_useOwn (by decide))
    exact needs_bind (needs_legacyPic _) fun _ => needs_acpiWalkMadtAt fuel 0
  · intro machine
    constructor
    · intro need
      constructor
      · intro begun returned
        exact (need.2 () begun returned).1
      · intro begun started
        obtain ⟨_, middle, returned, rest⟩ := (returns_bind _ _ _ _ _).mp started
        exact (need.2 () middle returned).2.2 () begun rest
    · intro need
      refine ⟨trivial, ?_⟩
      intro _ middle returned
      refine ⟨need.1 middle returned, trivial, ?_⟩
      intro _ begun rest
      exact need.2 begun ((returns_bind _ _ _ _ _).mpr ⟨(), middle, returned, rest⟩)

end Walk

end UmbralOS
