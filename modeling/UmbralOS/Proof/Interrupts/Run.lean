import UmbralOS.Library.Overlay
import UmbralOS.Proof.Interrupts.Devices
import UmbralOS.Proof.Interrupts.Table

/-!
This file gives what the records of the table change, over any run of the walk.
-/

namespace UmbralOS

open Library

/-- The I/O APIC driver has the same variables and the same device. -/
structure SameIoapic (before after : Machine) : Prop where
  ioapic : after.ioapic = before.ioapic
  ioapicBase : after.ioapicBase = before.ioapicBase
  isaRedirectionEntry : after.isaRedirectionEntry = before.isaRedirectionEntry

section Begin

variable {before : Machine}

theorem preserves_liftMm {A : Type} (program : MmProgram A) : Preserves (SameIoapic before) (liftMm program) := by
  intro machine value machine' same returned
  obtain ⟨mm, _, rfl⟩ := (returns_liftMm _ _ _ _).mp returned
  exact ⟨same.ioapic, same.ioapicBase, same.isaRedirectionEntry⟩

theorem preserves_lapicWrite (reg : BitVec 8) (value : BitVec 32) :
    Preserves (SameIoapic before) (lapicWrite reg value) := by
  intro machine done machine' same returned
  obtain ⟨_, _, rfl⟩ := returns_lapicWrite.mp returned
  exact ⟨same.ioapic, same.ioapicBase, same.isaRedirectionEntry⟩

theorem preserves_change {change : Machine → Machine} (same : ∀ machine, SameIoapic machine (change machine)) :
    Preserves (SameIoapic before) (modify change : MachineProgram Unit) := by
  apply preserves_modify
  intro machine kept
  have step := same machine
  exact ⟨step.ioapic.trans kept.ioapic, step.ioapicBase.trans kept.ioapicBase,
    step.isaRedirectionEntry.trans kept.isaRedirectionEntry⟩

theorem preserves_lapicInitAccess : Preserves (SameIoapic before) lapicInitAccess := by
  unfold lapicInitAccess
  refine preserves_bind preserves_get fun machine => ?_
  refine preserves_bind (preserves_change fun _ => ⟨rfl, rfl, rfl⟩) fun _ => ?_
  refine preserves_bind (preserves_liftMm _) fun lapicBase => ?_
  have access : ∀ hasX2apic : Bool, ∀ base virt length flags, Preserves (SameIoapic before)
      (if hasX2apic then
        if base &&& msrIa32ApicBaseExtd = 0 then liftMm (wrmsr msrIa32ApicBase (base ||| msrIa32ApicBaseExtd))
        else pure ()
      else do
        let lapicBaseVirt ← liftMm (phyToVirt virt)
        liftMm (vmmMapUnaligned virt lapicBaseVirt length flags)
        modify fun machine => { machine with lapicBase := lapicBaseVirt }) := by
    intro hasX2apic base virt length flags
    apply preserves_ite
    · apply preserves_ite
      · exact preserves_liftMm _
      · exact preserves_pure ()
    · refine preserves_bind (preserves_liftMm _) fun lapicBaseVirt => ?_
      refine preserves_bind (preserves_liftMm _) fun _ => ?_
      exact preserves_change fun _ => ⟨rfl, rfl, rfl⟩
  apply preserves_ite
  · exact preserves_bind (preserves_liftMm _) fun _ => access _ _ _ _ _
  · exact access _ _ _ _ _

/-- What every write of a register keeps, the second part of the driver keeps. -/
theorem preserves_lapicInitRegisters {kept : Machine → Prop}
    (step : ∀ reg value, Preserves kept (lapicWrite reg value)) : Preserves kept lapicInitRegisters := by
  unfold lapicInitRegisters
  iterate 6 refine preserves_bind (step _ _) fun _ => ?_
  exact step _ _

theorem preserves_legacyPicInitAndDisable (masterOffset slaveOffset : BitVec 8) :
    Preserves (fun machine => SameIoapic before machine ∧ machine.LapicReady)
      (legacyPicInitAndDisable masterOffset slaveOffset) := by
  have step : ∀ port value, Preserves (fun machine => SameIoapic before machine ∧ machine.LapicReady)
      (outb port value) := by
    intro port value
    apply preserves_modify
    intro machine given
    obtain ⟨same, ready⟩ := given
    exact ⟨⟨same.ioapic, same.ioapicBase, same.isaRedirectionEntry⟩, ready⟩
  unfold legacyPicInitAndDisable
  iterate 9 refine preserves_bind (step _ _) fun _ => ?_
  exact step _ _

/-- The local APIC is ready after its registers are written. -/
theorem returns_lapicInitRegisters {machine machine' : Machine} {done : Unit}
    (returned : Returns lapicInitRegisters machine done machine') : machine'.LapicReady := by
  unfold lapicInitRegisters at returned
  simp only [returns_bind, returns_lapicWrite] at returned
  obtain ⟨_, _, _, _, _, _, _, _, _, _, _, _, _, _, _, _, _, _, _, ready, rfl⟩ := returned
  exact ready

/-- The part before the walk leaves the I/O APIC as it was and makes the local APIC ready. -/
theorem returns_acpiBeginMadt {pMADT : Madt} {machine : Machine} {done : Unit}
    (returned : Returns (acpiBeginMadt pMADT) before done machine) : SameIoapic before machine ∧ machine.LapicReady := by
  have start : SameIoapic before before := ⟨rfl, rfl, rfl⟩
  have lapic : ∀ middle (nothing : Unit), Returns lapicInitBegin before nothing middle →
      SameIoapic before middle ∧ middle.LapicReady := by
    intro middle nothing begun
    obtain ⟨_, access, accessed, registers⟩ := (returns_bind _ _ _ _ _).mp begun
    have reached := preserves_lapicInitAccess before _ access start accessed
    exact ⟨preserves_lapicInitRegisters preserves_lapicWrite access _ middle reached registers, returns_lapicInitRegisters registers⟩
  obtain ⟨_, middle, begun, pic⟩ := (returns_bind _ _ _ _ _).mp returned
  have reached := lapic middle _ begun
  exact preserves_ite _ (preserves_legacyPicInitAndDisable _ _) (preserves_pure ()) middle _ machine reached pic

end Begin

/-- The override record of the interrupt, when the record is one. -/
def MadtRecord.overrideOf : MadtRecord → Fin 16 → Option MadtInterruptSourceOverride
  | .sourceOverride madtOverride, irq => if madtOverride.irqSource.toNat = irq then some madtOverride else none
  | _, _ => none

/-- The last override record of the interrupt in the order of the table. -/
def lastOverride (records : List MadtRecord) : Fin 16 → Option MadtInterruptSourceOverride :=
  lastApplicable (records.map MadtRecord.overrideOf)

theorem lastOverride_snoc (records : List MadtRecord) (record : MadtRecord) (irq : Fin 16) :
    lastOverride (records ++ [record]) irq = (record.overrideOf irq).or (lastOverride records irq) := by
  rw [lastOverride, List.map_append, List.map_singleton, lastApplicable_snoc]
  rfl

/-- The record gives an I/O APIC. -/
def MadtRecord.IsIoapic : MadtRecord → Prop
  | .ioapic _ => True
  | _ => False

/-- The record gives a non-maskable interrupt source. -/
def MadtRecord.IsNmiSource : MadtRecord → Prop
  | .nmiSource _ => True
  | _ => False

instance : (record : MadtRecord) → Decidable record.IsIoapic
  | .ioapic _ => .isTrue trivial
  | .localApic | .sourceOverride _ | .nmiSource _ | .localApicNmi _ | .unknown _ => .isFalse id

instance : (record : MadtRecord) → Decidable record.IsNmiSource
  | .nmiSource _ => .isTrue trivial
  | .localApic | .ioapic _ | .sourceOverride _ | .localApicNmi _ | .unknown _ => .isFalse id

/-- The drivers accept a record other than an I/O APIC. -/
def MadtRecord.Accepted : MadtRecord → Machine → Prop
  | .localApic, _ => True
  | .ioapic _, _ => False
  | .sourceOverride madtOverride, _ => madtOverride.busSource = 0 ∧ madtOverride.irqSource.toNat < 16
  | .nmiSource _, machine => machine.ioapicBase ≠ 0
  | .localApicNmi madtLocalapicnmi, machine => madtLocalapicnmi.Applies → machine.LapicReady
  | .unknown _, _ => False

/-- The machine after an accepted record other than an I/O APIC. -/
def Machine.change (machine : Machine) : MadtRecord → Machine
  | .sourceOverride madtOverride => machine.overrideIsa madtOverride
  | .nmiSource madtNmisource => machine.storeIoapic (ioapicRedirTblAddr madtNmisource.globalSystemInterrupt)
      ((nmiValue madtNmisource.flags).setWidth 64)
  | .localApicNmi madtLocalapicnmi => machine.withLocalNmi madtLocalapicnmi
  | .localApic | .ioapic _ | .unknown _ => machine

/-- What every record keeps of the machine. -/
structure Walked (before after : Machine) : Prop where
  version : after.ioapic.version = before.ioapic.version
  based : before.ioapicBase ≠ 0 → after.ioapicBase ≠ 0
  ready : before.LapicReady → after.LapicReady

section Records

variable {machine machine' : Machine} {done : Unit} {record : MadtRecord}

/-- A record other than an I/O APIC makes its change when it is accepted. -/
theorem returns_plain (plain : ¬ record.IsIoapic) :
    Returns (acpiHandleMadtRecord record) machine done machine' ↔
      record.Accepted machine ∧ machine.change record = machine' := by
  cases record with
  | localApic => exact returns_pure _ _ _ _ |>.trans (by simp [MadtRecord.Accepted, Machine.change])
  | ioapic madtIoapic => exact absurd trivial plain
  | sourceOverride madtOverride => exact returns_ioapicInitSourceOverride.trans and_assoc.symm
  | nmiSource madtNmisource => exact returns_ioapicInitNmisource
  | localApicNmi madtLocalapicnmi => exact returns_lapicInitNmi
  | unknown type => exact iff_of_false (returns_throw _ _ _ _) fun found => found.1

theorem MadtRecord.Accepted.plain (accepted : record.Accepted machine) : ¬ record.IsIoapic := by
  intro found
  cases record <;> first | exact accepted | exact found

@[simp] theorem Machine.change_mm : (machine.change record).mm = machine.mm := by cases record <;> rfl

@[simp] theorem Machine.change_ioapicBase : (machine.change record).ioapicBase = machine.ioapicBase := by
  cases record <;> rfl

@[simp] theorem Machine.change_version : (machine.change record).ioapic.version = machine.ioapic.version := by
  cases record <;> rfl

@[simp] theorem Machine.change_ready : (machine.change record).LapicReady ↔ machine.LapicReady := by
  cases record <;> rfl

/-- Only a non-maskable source changes the device. -/
theorem Machine.change_ioapic (quiet : ¬ record.IsNmiSource) : (machine.change record).ioapic = machine.ioapic := by
  cases record with
  | nmiSource madtNmisource => exact absurd trivial quiet
  | _ => rfl

/-- An override changes the table only for its own interrupt, and another record keeps the table. -/
theorem Machine.change_isaRedirectionEntry (irq : Fin 16) : (machine.change record).isaRedirectionEntry irq =
    ((record.overrideOf irq).map MadtInterruptSourceOverride.entry).getD (machine.isaRedirectionEntry irq) := by
  cases record with
  | sourceOverride madtOverride =>
      simp only [change, overrideIsa, MadtRecord.overrideOf]
      split_ifs <;> rfl
  | _ => rfl

theorem Walked.refl : Walked machine machine := ⟨rfl, id, id⟩

theorem Walked.trans {first second third : Machine} (head : Walked first second) (tail : Walked second third) :
    Walked first third :=
  ⟨tail.version.trans head.version, fun based => tail.based (head.based based), fun ready => tail.ready (head.ready ready)⟩

theorem walked_change : Walked machine (machine.change record) :=
  ⟨Machine.change_version, by rw [Machine.change_ioapicBase]; exact id, Machine.change_ready.mpr⟩

@[simp] theorem Ioapic.maskBelow_version (device : Ioapic) (count : Nat) :
    (device.maskBelow count).version = device.version := by
  induction count with
  | zero => rfl
  | succ count ih => rw [maskBelow, store64_version, ih]

theorem walked_withIoapic {madtIoapic : MadtIoapic} {mm : Mm}
    (window : machine.mm.pHHDM + madtIoapic.address.setWidth 64 ≠ 0) : Walked machine (machine.withIoapic madtIoapic mm) :=
  ⟨Ioapic.maskBelow_version _ _, fun _ => window, id⟩

/-- One record keeps the version and the bases, and it changes the table only for its own interrupt. -/
theorem returns_acpiHandleMadtRecord (returned : Returns (acpiHandleMadtRecord record) machine done machine') :
    Walked machine machine' ∧ ∀ irq, machine'.isaRedirectionEntry irq =
      ((record.overrideOf irq).map MadtInterruptSourceOverride.entry).getD (machine.isaRedirectionEntry irq) := by
  by_cases plain : record.IsIoapic
  · cases record with
    | ioapic madtIoapic =>
        obtain ⟨_, _, _, window, mm, _, rfl⟩ := returns_ioapicInitRegister.mp returned
        exact ⟨walked_withIoapic window, fun irq => rfl⟩
    | _ => exact absurd plain id
  · obtain ⟨_, rfl⟩ := (returns_plain plain).mp returned
    exact ⟨walked_change, Machine.change_isaRedirectionEntry⟩

/-- A run over records keeps the version and the bases, and the table follows the last override of each interrupt. -/
theorem returns_records {records : List MadtRecord}
    (returned : Returns (records.forM acpiHandleMadtRecord) machine done machine') : Walked machine machine' ∧
      ∀ irq, machine'.isaRedirectionEntry irq =
        ((lastOverride records irq).map MadtInterruptSourceOverride.entry).getD (machine.isaRedirectionEntry irq) := by
  refine returns_forM (fun processed reached => Walked machine reached ∧ ∀ irq, reached.isaRedirectionEntry irq =
    ((lastOverride processed irq).map MadtInterruptSourceOverride.entry).getD (machine.isaRedirectionEntry irq))
    ⟨Walked.refl, fun irq => rfl⟩ ?_ returned
  rintro processed record state state' _ ⟨walked, table⟩ handled
  obtain ⟨next, changed⟩ := returns_acpiHandleMadtRecord handled
  refine ⟨walked.trans next, fun irq => ?_⟩
  rw [changed irq, table irq, lastOverride_snoc]
  cases record.overrideOf irq <;> rfl

/-- Acceptance depends only on the base and on the local APIC, and an accepted record keeps both. -/
@[simp] theorem accepted_change {other : MadtRecord} : other.Accepted (machine.change record) ↔ other.Accepted machine := by
  cases other with
  | nmiSource madtNmisource => simp only [MadtRecord.Accepted, Machine.change_ioapicBase]
  | localApicNmi madtLocalapicnmi => simp only [MadtRecord.Accepted, Machine.change_ready]
  | _ => rfl

/-- A run over records other than an I/O APIC keeps the memory manager and the base. -/
theorem returns_plain_records {records : List MadtRecord} (plain : ∀ record ∈ records, ¬ record.IsIoapic)
    (returned : Returns (records.forM acpiHandleMadtRecord) machine done machine') : machine'.mm = machine.mm ∧
      machine'.ioapicBase = machine.ioapicBase ∧
      ((∀ record ∈ records, ¬ record.IsNmiSource) → machine'.ioapic = machine.ioapic) := by
  refine returns_forM (fun _ (reached : Machine) => reached.mm = machine.mm ∧ reached.ioapicBase = machine.ioapicBase ∧
    ((∀ record ∈ records, ¬ record.IsNmiSource) → reached.ioapic = machine.ioapic)) ⟨rfl, rfl, fun _ => rfl⟩ ?_ returned
  rintro processed record state state' member ⟨mm, base, device⟩ handled
  obtain ⟨_, rfl⟩ := (returns_plain (plain record member)).mp handled
  refine ⟨Machine.change_mm.trans mm, Machine.change_ioapicBase.trans base, fun quiet => ?_⟩
  exact (Machine.change_ioapic (quiet record member)).trans (device quiet)

/-- A run over accepted records returns. -/
theorem accepted_records_return {records : List MadtRecord} (accepted : ∀ record ∈ records, record.Accepted machine) :
    ∃ machine', Returns (records.forM acpiHandleMadtRecord) machine () machine' := by
  obtain ⟨machine', returned, _⟩ := forM_returns (fun _ (reached : Machine) =>
    ∀ record : MadtRecord, record.Accepted reached ↔ record.Accepted machine) (fun record => Iff.rfl) (by
      intro processed record state member same
      have valid := (same record).mpr (accepted record member)
      refine ⟨_, (returns_plain valid.plain).mpr ⟨valid, rfl⟩, fun other => ?_⟩
      exact accepted_change.trans (same other))
  exact ⟨machine', returned⟩

end Records

end UmbralOS
