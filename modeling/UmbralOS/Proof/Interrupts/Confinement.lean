import UmbralOS.Proof.Memory.WriteXorExecute
import UmbralOS.Proof.Interrupts.Routing

/-!
This file gives the registers that the drivers write for the interrupt numbers of the firmware.
-/

namespace UmbralOS

open Library

/-- The walk reaches an offset in this machine after it handled these records. The table need not be well formed. -/
inductive WalkReaches (pMADT : Madt) (boot : Machine) : List MadtRecord → BitVec 32 → Machine → Prop where
  | start {begun : Machine} : Returns (acpiBeginMadt pMADT) boot () begun → WalkReaches pMADT boot [] 0 begun
  | record {handled : List MadtRecord} {i : BitVec 32} {machine machine' : Machine} :
      WalkReaches pMADT boot handled i machine → i.toNat + offsetofRecords < pMADT.length.toNat →
      Returns (acpiHandleMadtRecord (madtRecord pMADT.records i.toNat)) machine () machine' →
      WalkReaches pMADT boot (handled ++ [madtRecord pMADT.records i.toNat])
        (i + (pMADT.records (i.toNat + 1)).setWidth 32) machine'

section Walk

variable {pMADT : Madt} {boot machine machine' : Machine} {handled : List MadtRecord} {i : BitVec 32} {fuel : Nat}
  {done : Unit}

/-- The handled records ran in their order. -/
theorem WalkReaches.returns (reached : WalkReaches pMADT boot handled i machine) :
    ∃ begun, Returns (handled.forM acpiHandleMadtRecord) begun () machine := by
  induction reached with
  | start _ => exact ⟨_, (returns_pure _ _ _ _).mpr ⟨rfl, rfl⟩⟩
  | record _ _ returned ih =>
      obtain ⟨begun, walked⟩ := ih
      refine ⟨begun, ?_⟩
      rw [forM_append]
      refine (returns_bind _ _ _ _ _).mpr ⟨(), _, walked, (returns_bind _ _ _ _ _).mpr ⟨(), _, returned, ?_⟩⟩
      exact (returns_pure _ _ _ _).mpr ⟨rfl, rfl⟩

theorem WalkReaches.of_returns (reached : WalkReaches pMADT boot handled i machine)
    (returned : Returns (acpiWalkMadt pMADT fuel i) machine done machine') :
    ∃ handled' i', WalkReaches pMADT boot handled' i' machine' ∧ ¬ i'.toNat + offsetofRecords < pMADT.length.toNat := by
  induction fuel generalizing handled i machine with
  | zero => exact absurd returned (returns_throw _ _ _ _)
  | succ fuel ih =>
      unfold acpiWalkMadt at returned
      split_ifs at returned with inside
      · obtain ⟨_, middle, head, tail⟩ := (returns_bind _ _ _ _ _).mp returned
        exact ih (reached.record inside head) tail
      · obtain ⟨_, rfl⟩ := (returns_pure _ _ _ _).mp returned
        exact ⟨handled, i, reached, inside⟩

/-- A call of `acpi_parse_madt` that returns ends in a reached state behind the table. -/
theorem reaches_of_returns (returned : Returns (acpiParseMadt fuel pMADT) boot done machine) :
    ∃ handled i, WalkReaches pMADT boot handled i machine ∧ ¬ i.toNat + offsetofRecords < pMADT.length.toNat := by
  obtain ⟨_, begun, start, walked⟩ := (returns_bind _ _ _ _ _).mp returned
  exact (WalkReaches.start start).of_returns walked

end Walk

/-- The device has this redirection entry, and the entry has a register address. -/
def Ioapic.HasEntry (device : Ioapic) (g : Nat) : Prop := g ≤ device.maxEntry ∧ g < 120

/-- Between two states, the drivers write only the two registers of an entry that the device has. -/
def WritesEntry (before after : Machine) (g : Nat) : Prop :=
  g ≤ before.ioapic.maxEntry ∧ ∃ accesses, after.ioapic.written = before.ioapic.written ++ accesses ∧
    ∀ access ∈ accesses, access.1.toNat = 0x10 + 2 * g ∨ access.1.toNat = 0x11 + 2 * g

/-- A write through the address of a number reaches the entry of the number exactly when the device has that entry. -/
theorem writesEntry_storeIoapic {machine : Machine} {address : BitVec 32} {word : BitVec 64} {g : Nat}
    (same : address.toNat % 128 = g % 128) :
    WritesEntry machine (machine.storeIoapic (ioapicRedirTblAddr address) word) g ↔ machine.ioapic.HasEntry g := by
  rw [ioapicRedirTblAddr_eq, same]
  have low : (lowRegister (g % 128)).toNat = (0x10 + 2 * (g % 128)) % 256 := BitVec.toNat_ofNat _ _
  have high : (highRegister (g % 128)).toNat = (0x11 + 2 * (g % 128)) % 256 := BitVec.toNat_ofNat _ _
  have log : (machine.storeIoapic (lowRegister (g % 128)) word).ioapic.written = machine.ioapic.written ++
      [(lowRegister (g % 128), word.setWidth 32), (highRegister (g % 128), (word >>> 32).setWidth 32)] := by
    rw [Machine.storeIoapic, Ioapic.store64_written, lowRegister_add_one]
  constructor
  · intro given
    obtain ⟨pin, accesses, split, confined⟩ := given
    rw [log, List.append_cancel_left_eq] at split
    have first := confined (lowRegister (g % 128), word.setWidth 32) (by rw [← split]; exact List.mem_cons_self)
    dsimp only at first
    exact ⟨pin, by omega⟩
  · intro given
    obtain ⟨pin, small⟩ := given
    refine ⟨pin, _, log, ?_⟩
    intro access member
    rw [List.mem_cons, List.mem_singleton] at member
    rcases member with rfl | rfl
    · dsimp only
      omega
    · dsimp only
      omega

section OutOfBounds

variable {machine : Machine}

/-- A stop that leaves no array bound: the kernel panics, or it faults and the fault handler panics. -/
def Stop.Halts (reason : Stop) : Prop := reason.IsPanic ∨ reason = .nullAccess

theorem halts_liftMm {A : Type} {program : MmProgram A} (panics : Panics program) :
    StopsOnly Stop.Halts (liftMm program) := by
  intro before reason after stopped
  obtain ⟨mm, fault, _⟩ := (stops_liftMm _ _ _ _).mp stopped
  exact Or.inl (panics before.mm reason mm fault)

theorem halts_panicIf {guard : Prop} [Decidable guard] {format : String} {arguments : List (BitVec 64)} :
    StopsOnly Stop.Halts (panicIf guard format arguments : MachineProgram Unit) :=
  stopsOnly_panicIf.mono fun _ => Or.inl

theorem halts_ioapicSelect (reg : BitVec 8) : StopsOnly Stop.Halts (ioapicSelect reg) := by
  intro before reason after stopped
  exact Or.inr (stops_ioapicSelect.mp stopped).2.1.symm

theorem halts_ioapicWrite64 (reg : BitVec 8) (word : BitVec 64) : StopsOnly Stop.Halts (ioapicWrite64 reg word) := by
  intro before reason after stopped
  exact Or.inr (stops_ioapicWrite64.mp stopped).2.1.symm

theorem halts_ioapicInitRegister (madtIoapic : MadtIoapic) : StopsOnly Stop.Halts (ioapicInitRegister madtIoapic) := by
  unfold ioapicInitRegister
  refine stopsOnly_bind stopsOnly_get fun _ => ?_
  iterate 2 refine stopsOnly_bind halts_panicIf fun _ => ?_
  refine stopsOnly_bind (halts_liftMm (panics_phyToVirt _)) fun _ => ?_
  refine stopsOnly_bind (stopsOnly_modify _) fun _ => ?_
  refine stopsOnly_bind (halts_liftMm (panics_vmmMap _ _ _ _)) fun _ => ?_
  refine stopsOnly_bind ?_ fun version => ?_
  · exact stopsOnly_bind (halts_ioapicSelect _) fun _ => stopsOnly_bind stopsOnly_get fun _ => stopsOnly_pure _
  · refine stopsOnly_bind halts_panicIf fun _ => ?_
    exact stopsOnly_forRange (fun _ _ => halts_ioapicWrite64 _ _) _ _

/-- The handler of a record panics or faults, or an override of the ISA bus leaves the ISA table. -/
theorem stops_acpiHandleMadtRecord {record : MadtRecord} {reason : Stop} {machine' : Machine}
    (stopped : Stops (acpiHandleMadtRecord record) machine reason machine') :
    reason.Halts ∨ ∃ madtOverride, record = .sourceOverride madtOverride ∧ madtOverride.busSource = 0 ∧
      16 ≤ madtOverride.irqSource.toNat ∧ .outOfBounds madtOverride.irqSource.toNat = reason := by
  cases record with
  | localApic => exact absurd stopped (stops_pure _ _ _ _)
  | ioapic madtIoapic => exact Or.inl (halts_ioapicInitRegister madtIoapic _ _ _ stopped)
  | sourceOverride madtOverride =>
      obtain ⟨_, ⟨_, rfl⟩ | ⟨bus, large, same⟩⟩ := stops_ioapicInitSourceOverride.mp stopped
      · exact Or.inl (Or.inl trivial)
      · exact Or.inr ⟨madtOverride, rfl, bus, large, same⟩
  | nmiSource madtNmisource => exact Or.inl (Or.inr (stops_ioapicInitNmisource.mp stopped).2.1.symm)
  | localApicNmi madtLocalapicnmi => exact Or.inl (Or.inr (stops_lapicInitNmi.mp stopped).2.2.1.symm)
  | unknown type =>
      obtain ⟨rfl, _⟩ := (stops_throw _ _ _ _).mp stopped
      exact Or.inl (Or.inl trivial)

/-- Only an override of the ISA bus with a large interrupt number leaves the ISA table. -/
theorem outOfBounds_iff {record : MadtRecord} :
    (∃ index machine', Stops (acpiHandleMadtRecord record) machine (.outOfBounds index) machine') ↔
      ∃ madtOverride, record = .sourceOverride madtOverride ∧ madtOverride.busSource = 0 ∧
        16 ≤ madtOverride.irqSource.toNat := by
  constructor
  · intro leaves
    obtain ⟨index, machine', stopped⟩ := leaves
    rcases stops_acpiHandleMadtRecord stopped with halts | ⟨madtOverride, same, bus, large, _⟩
    · rcases halts with panicked | fault
      · exact absurd panicked id
      · cases fault
    · exact ⟨madtOverride, same, bus, large⟩
  · intro found
    obtain ⟨madtOverride, rfl, bus, large⟩ := found
    exact ⟨_, machine, stops_ioapicInitSourceOverride.mpr ⟨rfl, Or.inr ⟨bus, large, rfl⟩⟩⟩

end OutOfBounds

/-- Each record that the walk reaches, and each later enable call, panics or stays inside the ISA table and inside the
redirection entry of its interrupt number. -/
structure Confined (pMADT : Madt) (boot : Machine) (irqs : List (Fin 16)) : Prop where
  isaTable : ∀ handled i machine, WalkReaches pMADT boot handled i machine →
    i.toNat + offsetofRecords < pMADT.length.toNat →
    ¬ ∃ index machine', Stops (acpiHandleMadtRecord (madtRecord pMADT.records i.toNat)) machine (.outOfBounds index) machine'
  sources : ∀ handled i machine, WalkReaches pMADT boot handled i machine →
    i.toNat + offsetofRecords < pMADT.length.toNat →
    ∀ madtNmisource, madtRecord pMADT.records i.toNat = .nmiSource madtNmisource →
    ∀ machine', Returns (ioapicInitNmisource madtNmisource) machine () machine' →
      WritesEntry machine machine' madtNmisource.globalSystemInterrupt.toNat
  enables : ∀ handled i parsed, WalkReaches pMADT boot handled i parsed →
    ¬ i.toNat + offsetofRecords < pMADT.length.toNat →
    ∀ earlier irq later, irqs = earlier ++ irq :: later →
    ∀ machine, Returns (earlier.forM fun irq => ioapicEnableIsaInterrupt (BitVec.ofNat 8 irq)) parsed () machine →
    ∀ madtOverride, lastOverride handled irq = some madtOverride →
    ∀ machine', Returns (ioapicEnableIsaInterrupt (BitVec.ofNat 8 irq)) machine () machine' →
      WritesEntry machine machine' madtOverride.globalSystemInterrupt.toNat

/-- The firmware numbers that the walk and the enable calls use fit the table and the device. -/
structure NumbersFit (pMADT : Madt) (boot : Machine) (irqs : List (Fin 16)) : Prop where
  isaTable : ∀ handled i machine, WalkReaches pMADT boot handled i machine →
    i.toNat + offsetofRecords < pMADT.length.toNat →
    ∀ madtOverride, madtRecord pMADT.records i.toNat = .sourceOverride madtOverride →
      madtOverride.busSource = 0 → madtOverride.irqSource.toNat < 16
  sources : ∀ handled i machine, WalkReaches pMADT boot handled i machine →
    i.toNat + offsetofRecords < pMADT.length.toNat →
    ∀ madtNmisource, madtRecord pMADT.records i.toNat = .nmiSource madtNmisource → machine.ioapicBase ≠ 0 →
      machine.ioapic.HasEntry madtNmisource.globalSystemInterrupt.toNat
  enables : ∀ handled i parsed, WalkReaches pMADT boot handled i parsed →
    ¬ i.toNat + offsetofRecords < pMADT.length.toNat → parsed.ioapicBase ≠ 0 →
    ∀ irq ∈ irqs, ∀ madtOverride, lastOverride handled irq = some madtOverride →
      parsed.ioapic.HasEntry madtOverride.globalSystemInterrupt.toNat

section Enables

variable {machine machine' : Machine} {irqs : List (Fin 16)}

/-- The enable calls keep the base, the table, and the version. -/
theorem returns_enables {done : Unit}
    (returned : Returns (irqs.forM fun irq => ioapicEnableIsaInterrupt (BitVec.ofNat 8 irq)) machine done machine') :
    machine'.ioapicBase = machine.ioapicBase ∧ machine'.isaRedirectionEntry = machine.isaRedirectionEntry ∧
      machine'.ioapic.version = machine.ioapic.version := by
  refine returns_forM (fun _ (reached : Machine) => reached.ioapicBase = machine.ioapicBase ∧
    reached.isaRedirectionEntry = machine.isaRedirectionEntry ∧ reached.ioapic.version = machine.ioapic.version)
    ⟨rfl, rfl, rfl⟩ ?_ returned
  intro processed irq state state' _ same enabled
  obtain ⟨_, rfl⟩ := returns_enable.mp enabled
  exact same

/-- The enable calls return through a base that is set. -/
theorem enables_return (based : machine.ioapicBase ≠ 0) :
    ∃ machine', Returns (irqs.forM fun irq => ioapicEnableIsaInterrupt (BitVec.ofNat 8 irq)) machine () machine' := by
  obtain ⟨machine', returned, _⟩ := forM_returns (fun _ (reached : Machine) => reached.ioapicBase ≠ 0) based
    fun _ irq _ _ based => ⟨_, returns_enable.mpr ⟨based, rfl⟩, based⟩
  exact ⟨machine', returned⟩

end Enables

section Numbers

variable {pMADT : Madt} {boot : Machine} {irqs : List (Fin 16)}

/-- After the walk, an enable call writes the entry of the last override exactly when the device has that entry. -/
theorem writesEntry_enable {handled : List MadtRecord} {i : BitVec 32} {parsed machine : Machine} {irq : Fin 16}
    {earlier : List (Fin 16)} {madtOverride : MadtInterruptSourceOverride} (reached : WalkReaches pMADT boot handled i parsed)
    (ran : Returns (earlier.forM fun irq => ioapicEnableIsaInterrupt (BitVec.ofNat 8 irq)) parsed () machine)
    (found : lastOverride handled irq = some madtOverride) (word : BitVec 64) :
    WritesEntry machine (machine.storeIoapic (ioapicRedirTblAddr
        ((machine.isaRedirectionEntry irq).destination.setWidth 32)) word) madtOverride.globalSystemInterrupt.toNat ↔
      parsed.ioapic.HasEntry madtOverride.globalSystemInterrupt.toNat := by
  obtain ⟨_, walked⟩ := reached.returns
  obtain ⟨_, table, version⟩ := returns_enables ran
  have entry : machine.isaRedirectionEntry irq = madtOverride.entry := by
    rw [table, (returns_records walked).2 irq, found]
    rfl
  have same : (((machine.isaRedirectionEntry irq).destination.setWidth 32 : BitVec 32)).toNat % 128 =
      madtOverride.globalSystemInterrupt.toNat % 128 := by
    rw [entry, MadtInterruptSourceOverride.entry, BitVec.toNat_setWidth, BitVec.toNat_setWidth]
    omega
  rw [writesEntry_storeIoapic same, Ioapic.HasEntry, Ioapic.HasEntry, Ioapic.maxEntry, Ioapic.maxEntry, version]

theorem Confined.numbersFit (confined : Confined pMADT boot irqs) : NumbersFit pMADT boot irqs := by
  refine ⟨?_, ?_, ?_⟩
  · intro handled i machine reached inside madtOverride found bus
    by_contra large
    exact confined.isaTable handled i machine reached inside
      (outOfBounds_iff.mpr ⟨madtOverride, found, bus, not_lt.mp large⟩)
  · intro handled i machine reached inside madtNmisource found based
    have written := confined.sources handled i machine reached inside madtNmisource found _
      (returns_ioapicInitNmisource.mpr ⟨based, rfl⟩)
    exact (writesEntry_storeIoapic rfl).mp written
  · intro handled i parsed reached ended based irq member madtOverride found
    obtain ⟨earlier, later, split⟩ := List.append_of_mem member
    obtain ⟨machine, ran⟩ := @enables_return parsed earlier based
    have base := (returns_enables ran).1
    have written := confined.enables handled i parsed reached ended earlier irq later split machine ran madtOverride
      found _ (returns_enable.mpr ⟨by rwa [base], rfl⟩)
    exact (writesEntry_enable reached ran found _).mp written

theorem NumbersFit.confined (fit : NumbersFit pMADT boot irqs) : Confined pMADT boot irqs := by
  refine ⟨?_, ?_, ?_⟩
  · intro handled i machine reached inside outside
    obtain ⟨madtOverride, found, bus, large⟩ := outOfBounds_iff.mp outside
    exact absurd (fit.isaTable handled i machine reached inside madtOverride found bus) (not_lt.mpr large)
  · intro handled i machine reached inside madtNmisource found machine' returned
    obtain ⟨based, rfl⟩ := returns_ioapicInitNmisource.mp returned
    exact (writesEntry_storeIoapic rfl).mpr (fit.sources handled i machine reached inside madtNmisource found based)
  · intro handled i parsed reached ended earlier irq later split machine ran madtOverride found machine' returned
    obtain ⟨based, rfl⟩ := returns_enable.mp returned
    have base := (returns_enables ran).1
    rw [writesEntry_enable reached ran found]
    exact fit.enables handled i parsed reached ended (by rwa [← base]) irq (by rw [split]; simp) madtOverride found

end Numbers

/-- The drivers confine the numbers of the firmware exactly when these numbers fit. The drivers do not check them. -/
theorem firmware_numbers_confined_iff (pMADT : Madt) (boot : Machine) (irqs : List (Fin 16)) :
    Confined pMADT boot irqs ↔ NumbersFit pMADT boot irqs :=
  ⟨Confined.numbersFit, NumbersFit.confined⟩

/-- The source names interrupt number 248, and its register address wraps to zero. -/
def sampleWrappedSource : MadtChunk := ⟨[3, 8, 0, 0, 248, 0, 0, 0], by decide, by decide, by decide⟩

/-- The override names ISA interrupt 16. -/
def sampleLargeIrq : MadtChunk := ⟨[2, 10, 0, 16, 2, 0, 0, 0, 0, 0], by decide, by decide, by decide⟩

def sampleWrapped : Madt := .ofChunks pcatCompat [sampleIoapic, sampleWrappedSource]

def sampleOutside : Madt := .ofChunks pcatCompat [sampleLargeIrq]

def sampleMapped : Machine := lastState (ioapicInitRegister ⟨0x100000#32, 0⟩) sampleBegun

/-- The walk returns and writes the identification register for the source. The other walk leaves the ISA table. -/
theorem firmware_numbers_not_confined :
    (∃ machine, Returns (acpiParseMadt 3 sampleWrapped) sampleMachine () machine ∧
      (0#8, 0x400#32) ∈ machine.ioapic.written) ∧
    ¬ Confined sampleWrapped sampleMachine [] ∧ ¬ Confined sampleOutside sampleMachine [] := by
  have start : WalkReaches sampleWrapped sampleMachine [] 0 sampleBegun := .start sampleBegun_returns
  have head : Returns (acpiHandleMadtRecord (madtRecord sampleWrapped.records (0 : BitVec 32).toNat)) sampleBegun ()
      sampleMapped := by
    rw [show madtRecord sampleWrapped.records (0 : BitVec 32).toNat = .ioapic ⟨0x100000#32, 0⟩ by decide]
    exact returns_lastState (by decide +kernel)
  have reached := start.record (by decide) head
  have other : WalkReaches sampleOutside sampleMachine [] 0 sampleBegun := .start sampleBegun_returns
  refine ⟨⟨lastState (acpiParseMadt 3 sampleWrapped) sampleMachine, returns_lastState (by decide +kernel),
    by decide +kernel⟩, ?_, ?_⟩
  · intro confined
    have based : sampleMapped.ioapicBase ≠ 0 := by decide +kernel
    have entry := confined.numbersFit.sources _ _ _ reached (by decide)
      ⟨0#16, 248#32⟩ (by decide) based
    exact absurd entry.2 (by decide)
  · intro confined
    have inside := confined.numbersFit.isaTable _ _ _ other (by decide)
      ⟨0#8, 16#8, 2#32, 0#16⟩ (by decide) rfl
    exact absurd inside (by decide)

end UmbralOS
