import UmbralOS.Proof.Acpi.RootTable
import UmbralOS.Proof.Interrupts.DriverRun

/-!
This file gives the calls of the mapper in a run of the table parser.
-/

namespace UmbralOS

open Library

/-- The parser of a table changes the memory manager only by calls of the drivers, and only for an interrupt table. -/
theorem driverRun_parseSdt {maps : Mm → MapCall → Prop} {fuel : Nat} {pSDT : Pointer} {before after : Acpi}
    (windows : checksum (before.machine.mm.object pSDT) (sdtLength (before.machine.mm.object pSDT)).toNat = 0 →
      strncmp (before.machine.mm.object pSDT) signatureApic 4 = 0 →
      MapsWindows maps (.ofBytes (before.machine.mm.object pSDT)) before.machine)
    (returned : Returns (parseSdt fuel pSDT) before () after) :
    DriverRun maps before.machine.mm after.machine.mm := by
  obtain ⟨_, noted, note, rest⟩ := (returns_bind _ _ _ _ _).mp returned
  obtain rfl := (returns_modify _ _ _ _).mp note
  obtain ⟨table, _, read, rest⟩ := (returns_bind _ _ _ _ _).mp rest
  obtain ⟨rfl, rfl⟩ := returns_readObject.mp read
  obtain ⟨_, _, valid, rest⟩ := (returns_bind _ _ _ _ _).mp rest
  obtain ⟨sum, rfl⟩ := returns_panicIf.mp valid
  split_ifs at rest with apic
  · have erased := (needs_acpiParseMadtAt fuel).returns _ _ _ rest
    obtain ⟨_, _, reached, _⟩ := reaches_of_returns erased
    exact reached.driverRun (windows (not_not.mp sum) apic)
  · have erased := (needs_acpiParseFadt _).returns _ _ _ rest
    obtain ⟨_, same⟩ := (returns_pure _ _ _ _).mp erased
    rw [← same]
    exact DriverRun.start
  · obtain ⟨_, rfl⟩ := (returns_pure _ _ _ _).mp rest
    exact DriverRun.start

/-- A run of `acpi_parse_rsdp` parses these bytes as an interrupt table, and it starts with this machine. -/
structure MadtReached (fuel : Nat) (p : Pointer) (before : Acpi) (table : Memory) (machine : Machine) : Prop where
  reached : ∃ root width pointers state, Returns (acpiFindRoot p) before (root, width) before ∧
    RootRun fuel root width (before.useRoot 4 4) pointers state ∧
    pointers.length < (numSdts (sdtLength (before.machine.mm.object root)) width).toNat ∧
    state.machine.mm.object (state.sdt root width pointers.length) = table ∧ state.machine = machine
  valid : checksum table (sdtLength table).toNat = 0
  signature : strncmp table signatureApic 4 = 0

/-- A run of `acpi_parse_rsdp` calls the mapper in these states, each time for the registers of one device. -/
inductive AcpiMaps (fuel : Nat) (p : Pointer) (before : Acpi) : Mm → MapCall → Prop where
  | lapic {table : Memory} {machine : Machine} (parsed : MadtReached fuel p before table machine)
      (absent : (machine.mm.cpuid 1 0).ecx &&& cpuid1EcxX2apic = 0) :
      AcpiMaps fuel p before machine.mm.enableApic (lapicCall machine.mm)
  | ioapic {table : Memory} {boot machine : Machine} {handled : List MadtRecord} {i : BitVec 32} {record : MadtIoapic}
      (parsed : MadtReached fuel p before table boot) (walked : WalkReaches (.ofBytes table) boot handled i machine)
      (inside : i.toNat + offsetofRecords < (Madt.ofBytes table).length.toNat)
      (found : madtRecord (Madt.ofBytes table).records i.toNat = .ioapic record) (unset : machine.ioapicBase = 0)
      (whole : record.globalSystemInterruptBase = 0) : AcpiMaps fuel p before machine.mm (ioapicCall machine.mm record)

/-- The walk over an interrupt table of the run reaches this record of an I/O APIC. -/
def Acpi.FindsIoapic (fuel : Nat) (p : Pointer) (before : Acpi) (record : MadtIoapic) : Prop :=
  ∃ table boot handled i machine, MadtReached fuel p before table boot ∧
    WalkReaches (.ofBytes table) boot handled i machine ∧ i.toNat + offsetofRecords < (Madt.ofBytes table).length.toNat ∧
    madtRecord (Madt.ofBytes table).records i.toNat = .ioapic record

section Run

variable {fuel : Nat} {p root : Pointer} {width : Nat} {before after : Acpi} {table : Memory} {machine : Machine}
  {pointers : List Pointer}

theorem MadtReached.mapsWindows (parsed : MadtReached fuel p before table machine) :
    MapsWindows (AcpiMaps fuel p before) (.ofBytes table) machine :=
  ⟨fun absent => .lapic parsed absent, fun _ _ _ _ walked inside found unset whole =>
    .ioapic parsed walked inside found unset whole⟩

/-- The tables of a prefix of the root table change the memory manager only by the calls of the run. -/
theorem RootRun.driverRun (found : Returns (acpiFindRoot p) before (root, width) before)
    (run : RootRun fuel root width (before.useRoot 4 4) pointers after)
    (within : pointers.length ≤ (numSdts (sdtLength (before.machine.mm.object root)) width).toNat) :
    DriverRun (AcpiMaps fuel p before) before.machine.mm after.machine.mm := by
  induction run with
  | start => exact DriverRun.start
  | @entry pointers middle after run returned ih =>
      rw [List.length_append, List.length_singleton] at within
      have earlier := ih (by omega)
      have later : DriverRun (AcpiMaps fuel p before) middle.machine.mm after.machine.mm := by
        refine @driverRun_parseSdt _ fuel _ (middle.useRoot _ width) _ (fun valid signature => ?_) returned
        have parsed : MadtReached fuel p before (middle.machine.mm.object (middle.sdt root width pointers.length))
            middle.machine := ⟨⟨root, width, pointers, middle, found, run, by omega, rfl, rfl⟩, valid, signature⟩
        exact parsed.mapsWindows
      exact earlier.trans later

theorem MadtReached.driverRun (parsed : MadtReached fuel p before table machine) :
    DriverRun (AcpiMaps fuel p before) before.machine.mm machine.mm := by
  obtain ⟨root, width, pointers, state, found, run, within, _, rfl⟩ := parsed.reached
  exact run.driverRun found within.le

/-- The earlier calls of the run lead to the state of each call. -/
theorem AcpiMaps.driverRun {mm : Mm} {call : MapCall} (window : AcpiMaps fuel p before mm call) :
    DriverRun (AcpiMaps fuel p before) before.machine.mm mm := by
  cases window with
  | lapic parsed _ => exact parsed.driverRun.enableApic
  | ioapic parsed walked _ _ _ _ => exact parsed.driverRun.trans (walked.driverRun parsed.mapsWindows)

/-- Every call of the run maps the window of the local APIC or of a found I/O APIC, as the registers place it at the start. -/
theorem AcpiMaps.call_eq {live : Set Nat} {mm : Mm} {call : MapCall} (tabled : Tabled before.machine.mm live)
    (window : AcpiMaps fuel p before mm call) :
    (before.machine.mm.cpuid 1 0).ecx &&& cpuid1EcxX2apic = 0 ∧ call = lapicCall before.machine.mm ∨
      ∃ record, before.FindsIoapic fuel p record ∧ call = ioapicCall before.machine.mm record := by
  cases window with
  | lapic parsed absent =>
      have places := (parsed.driverRun.samePlaces tabled).2
      left
      rw [places.cpuid] at absent
      refine ⟨absent, ?_⟩
      rw [lapicCall, lapicCall, places.place, places.base]
  | ioapic parsed walked inside found _ _ =>
      have places := ((parsed.driverRun.trans (walked.driverRun parsed.mapsWindows)).samePlaces tabled).2
      right
      refine ⟨_, ⟨_, _, _, _, _, parsed, walked, inside, found⟩, ?_⟩
      rw [ioapicCall, ioapicCall, places.place]

/-- The windows of the devices are low ranges of the physical memory. -/
theorem AcpiMaps.physical {mm : Mm} {call : MapCall} (window : AcpiMaps fuel p before mm call) :
    call.what.toNat + call.size.toNat ≤ 2 ^ 52 := by
  cases window with
  | lapic _ _ => exact windowCall_physical (lapicRange_low _) _ _
  | ioapic _ _ _ _ _ _ => exact windowCall_physical (ioapicRange_low _) _ _

/-- A run that returns changes the memory manager only by the calls of the run. -/
theorem driverRun_acpiParseRsdp (returned : Returns (acpiParseRsdp fuel p) before () after) :
    DriverRun (AcpiMaps fuel p before) before.machine.mm after.machine.mm := by
  obtain ⟨⟨root, width⟩, _, found, _⟩ := (returns_bind _ _ _ _ _).mp returned
  obtain ⟨rfl, _⟩ := returns_acpiFindRoot found
  unfold Returns at returned
  rw [run_acpiParseRsdp found] at returned
  obtain ⟨pointers, counted, run⟩ := returns_forRange (fun index _ state => ∃ pointers, pointers.length = index ∧
    RootRun fuel root width (before.useRoot 4 4) pointers state) ⟨[], rfl, .start⟩
    (fun _ _ _ _ _ _ reached => rootRun_step reached) returned
  exact run.driverRun found counted.le

end Run

end UmbralOS
