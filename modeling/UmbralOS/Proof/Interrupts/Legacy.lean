import UmbralOS.Kernel.Legacy
import UmbralOS.Proof.Acpi.Agreement
import UmbralOS.Proof.Console.Comparison
import UmbralOS.Proof.Interrupts.Service

/-!
This file proves what the tables of the firmware and the start of the kernel do to the legacy devices.
-/

namespace UmbralOS

open Library

namespace Pic

/-- An initialized controller that masks all its lines. -/
def off (base cascade : BitVec 8) : Pic := ⟨.ready, true, false, base, cascade, true, 0xFF⟩

theorem not_requests_off (base cascade lines : BitVec 8) : ¬ (off base cascade).Requests lines := by
  rintro ⟨_, raised⟩
  apply raised
  simp [off]

end Pic

namespace LegacyDevices

/-- Both controllers are off, and their vectors start at the bases of the kernel. -/
def silenced (devices : LegacyDevices) : LegacyDevices :=
  { devices with
    master := Pic.off idtIdxLegacyPicMasterBase 4, slave := Pic.off idtIdxLegacyPicSlaveBase 2 }

/-- The port has 115200 baud and eight data bits, it interrupts on receive, and its buffers and lines are on. -/
def serialReady (devices : LegacyDevices) : LegacyDevices :=
  { devices with uart := ⟨0x03, 0x01, 0x00, 0x01, 0xC7, 0x0B⟩ }

theorem not_interrupts_silenced (devices : LegacyDevices) (lines slaveLines : BitVec 8) :
    ¬ devices.silenced.Interrupts lines slaveLines := Pic.not_requests_off _ _ _

@[simp] theorem silenced_silenced (devices : LegacyDevices) : devices.silenced.silenced = devices.silenced := rfl

end LegacyDevices

section Ports

variable {firmware : LegacyDevices} {machine machine' : Machine} {done : Unit}

/-- From any state of both controllers, the ten writes turn them off. -/
theorem returns_legacyPicInit
    (returned : Returns (legacyPicInitAndDisable idtIdxLegacyPicMasterBase idtIdxLegacyPicSlaveBase) machine done machine') :
    machine'.legacy firmware = (machine.legacy firmware).silenced := by
  simp only [legacyPicInitAndDisable, outb, returns_bind, returns_modify] at returned
  obtain ⟨_, _, rfl, _, _, rfl, _, _, rfl, _, _, rfl, _, _, rfl, _, _, rfl, _, _, rfl, _, _, rfl, _, _, rfl, rfl⟩ :=
    returned
  simp only [Machine.legacy, List.foldl_append, List.foldl_cons, List.foldl_nil]
  generalize machine.ports.foldl LegacyDevices.write firmware = devices
  rfl

/-- The first write reaches the divisor or the interrupts, as the firmware left the line control. Later writes set both. -/
theorem returns_serialEarlyInit (returned : Returns serialEarlyInit machine done machine') :
    machine'.legacy firmware = (machine.legacy firmware).serialReady := by
  simp only [serialEarlyInit, outb, returns_bind, returns_modify] at returned
  obtain ⟨_, _, rfl, _, _, rfl, _, _, rfl, _, _, rfl, _, _, rfl, _, _, rfl, _, _, rfl, rfl⟩ := returned
  simp only [Machine.legacy, List.foldl_append, List.foldl_cons, List.foldl_nil]
  generalize machine.ports.foldl LegacyDevices.write firmware = devices
  obtain ⟨master, slave, uart⟩ := devices
  have first : ∃ low high enable, (LegacyDevices.mk master slave uart).write (com1 + 1, 0x00) =
      ⟨master, slave, { uart with divisorLow := low, divisorHigh := high, interruptEnable := enable }⟩ := by
    change ∃ low high enable, LegacyDevices.mk master slave (if uart.lineControl.getLsbD 7 then _ else _) = _
    split_ifs
    · exact ⟨uart.divisorLow, 0, uart.interruptEnable, rfl⟩
    · exact ⟨uart.divisorLow, uart.divisorHigh, 0, rfl⟩
  obtain ⟨low, high, enable, first⟩ := first
  rw [first]
  simp [LegacyDevices.write, UartSetup.write, LegacyDevices.serialReady, com1, pic1Command, pic1Data, pic2Command,
    pic2Data]

end Ports

/-- A property of the port log is kept by a driver that writes to no port. -/
def KeepsPorts {A : Type} (program : MachineProgram A) : Prop :=
  ∀ machine value machine', Returns program machine value machine' → machine'.ports = machine.ports

section KeepsPorts

theorem keepsPorts_lapicInitBegin : KeepsPorts lapicInitBegin := by
  intro machine _ machine' returned
  obtain ⟨_, middle, accessed, registers⟩ := (returns_bind _ _ _ _ _).mp returned
  obtain ⟨lapic, rfl⟩ := returns_registers_only registers
  obtain ⟨_, _, _, rfl⟩ | ⟨_, _, _, rfl⟩ := returns_lapicInitAccess accessed
  · rfl
  · rfl

theorem KeepsPorts.preserves {A : Type} {program : MachineProgram A} (keeps : KeepsPorts program)
    (firmware devices : LegacyDevices) : Preserves (fun machine => machine.legacy firmware = devices) program := by
  intro machine value machine' holds returned
  rwa [Machine.legacy, keeps machine value machine' returned]

theorem keepsPorts_register (record : MadtIoapic) : KeepsPorts (ioapicInitRegister record) := by
  intro machine _ machine' returned
  obtain ⟨_, _, _, _, mm, _, rfl⟩ := returns_ioapicInitRegister.mp returned
  rfl

theorem keepsPorts_sourceOverride (record : MadtInterruptSourceOverride) :
    KeepsPorts (ioapicInitSourceOverride record) := by
  intro machine _ machine' returned
  obtain ⟨_, _, rfl⟩ := returns_ioapicInitSourceOverride.mp returned
  rfl

theorem keepsPorts_nmiSource (record : MadtNmiSource) : KeepsPorts (ioapicInitNmisource record) := by
  intro machine _ machine' returned
  obtain ⟨_, rfl⟩ := returns_ioapicInitNmisource.mp returned
  rfl

theorem keepsPorts_localNmi (record : MadtLocalApicNmi) : KeepsPorts (lapicInitNmi record) := by
  intro machine _ machine' returned
  obtain ⟨_, rfl⟩ := returns_lapicInitNmi.mp returned
  rfl

theorem walkKeeps_ports (firmware devices : LegacyDevices) (decided : Prop) :
    WalkKeeps fun machine => decided ∧ machine.legacy firmware = devices := by
  have keep {program : MachineProgram Unit} (keeps : KeepsPorts program) :
      Preserves (fun machine => decided ∧ machine.legacy firmware = devices) program := by
    intro machine value machine' holds returned
    exact ⟨holds.1, keeps.preserves firmware devices machine value machine' holds.2 returned⟩
  exact ⟨fun record => keep (keepsPorts_register record), fun record => keep (keepsPorts_sourceOverride record),
    fun record => keep (keepsPorts_nmiSource record), fun record => keep (keepsPorts_localNmi record)⟩

end KeepsPorts

/-- The legacy hardware, as the kernel sees it: whether it uses the PS/2 controller, and the state of its devices. -/
structure LegacyPlatform where
  hasI8042 : Bool
  devices : LegacyDevices
  deriving DecidableEq

/-- The boot flags of the fixed table win over its hardware flags. -/
def fadtHasI8042 (pFADT : Memory) (hasI8042 : Bool) : Bool :=
  if readField pFADT 109 2 &&& iapcBootArch8042 ≠ 0 then true
  else if readField pFADT 112 4 &&& hwReducedAcpi ≠ 0 then false
  else hasI8042

/-- One table of the firmware decides about the legacy hardware. -/
def LegacyPlatform.apply (platform : LegacyPlatform) (table : Memory) : LegacyPlatform :=
  if strncmp table signatureApic 4 = 0 then
    if readField table 40 4 &&& pcatCompat ≠ 0 then { platform with devices := platform.devices.silenced } else platform
  else if strncmp table signatureFacp 4 = 0 then
    { platform with hasI8042 := fadtHasI8042 table platform.hasI8042 }
  else platform

/-- The interrupt table tells of the legacy controllers. -/
def TellsPics (table : Memory) : Prop := strncmp table signatureApic 4 = 0 ∧ readField table 40 4 &&& pcatCompat ≠ 0

instance (table : Memory) : Decidable (TellsPics table) := inferInstanceAs (Decidable (_ ∧ _))

theorem LegacyPlatform.apply_devices (platform : LegacyPlatform) (table : Memory) :
    (platform.apply table).devices = if TellsPics table then platform.devices.silenced else platform.devices := by
  unfold LegacyPlatform.apply
  by_cases tells : TellsPics table
  · rw [if_pos tells, if_pos tells.1, if_pos tells.2]
  · rw [if_neg tells]
    split_ifs with apic compat facp
    · exact absurd ⟨apic, compat⟩ tells
    all_goals rfl

/-- One table is enough to turn the controllers off, and no table turns them on again. -/
theorem LegacyPlatform.foldl_devices (tables : List Memory) (platform : LegacyPlatform) :
    (tables.foldl LegacyPlatform.apply platform).devices =
      if ∃ table ∈ tables, TellsPics table then platform.devices.silenced else platform.devices := by
  induction tables generalizing platform with
  | nil => simp
  | cons table tables ih =>
      rw [List.foldl_cons, ih, LegacyPlatform.apply_devices]
      by_cases here : TellsPics table
      · simp [here]
      · simp [here]

/-- The parser's part of the platform. -/
def Acpi.platform (firmware : LegacyDevices) (acpi : Acpi) : LegacyPlatform :=
  ⟨acpi.hasI8042, acpi.machine.legacy firmware⟩

section Tables

variable {firmware : LegacyDevices} {acpi acpi' : Acpi} {fuel : Nat} {pTable : Memory} {pSDT : Pointer}

/-- The kernel notes a field that it interprets. -/
theorem returns_useOwn {offset width : Nat} {value : BitVec (8 * width)}
    (returned : Returns (useOwn pTable offset width) acpi value acpi') :
    value = readField pTable offset width ∧ ∃ uses, acpi' = { acpi with uses := uses } := by
  obtain ⟨_, _, noted, read⟩ := (returns_bind _ _ _ _ _).mp returned
  obtain rfl := (returns_modify _ _ _ _).mp noted
  obtain ⟨rfl, rfl⟩ := (returns_pure _ _ _ _).mp read
  exact ⟨rfl, _, rfl⟩

/-- The interrupt table turns the controllers off before its walk, and the walk leaves them alone. -/
theorem platform_acpiParseMadt (returned : Returns (acpiParseMadtAt fuel pTable) acpi () acpi') :
    acpi'.platform firmware =
      if readField pTable 40 4 &&& pcatCompat ≠ 0 then
        { acpi.platform firmware with devices := (acpi.platform firmware).devices.silenced }
      else acpi.platform firmware := by
  obtain ⟨_, _, begun, rest⟩ := (returns_bind _ _ _ _ _).mp returned
  obtain ⟨machine, started, rfl⟩ := (returns_liftMachine _ _ _ _).mp begun
  have same := keepsPorts_lapicInitBegin.preserves firmware (acpi.machine.legacy firmware) _ _ _ rfl started
  obtain ⟨_, _, used, rest⟩ := (returns_bind _ _ _ _ _).mp rest
  obtain ⟨rfl, _, rfl⟩ := returns_useOwn used
  have walk {before : Acpi} (ran : Returns (acpiWalkMadtAt pTable fuel 0) before () acpi') :
      acpi'.hasI8042 = before.hasI8042 ∧ acpi'.machine.legacy firmware = before.machine.legacy firmware :=
    @preserves_acpiWalkMadtAt (fun has machine => has = before.hasI8042 ∧
      machine.legacy firmware = before.machine.legacy firmware) (fun _ => walkKeeps_ports _ _ _) pTable fuel 0 _ _ _
      ⟨rfl, rfl⟩ ran
  split_ifs at rest with compat
  · obtain ⟨_, _, turned, rest⟩ := (returns_bind _ _ _ _ _).mp rest
    obtain ⟨silent, wrote, rfl⟩ := (returns_liftMachine _ _ _ _).mp turned
    obtain ⟨has, devices⟩ := walk rest
    rw [if_pos compat, Acpi.platform, has, devices, returns_legacyPicInit wrote]
    exact congrArg (LegacyPlatform.mk _) (congrArg LegacyDevices.silenced same)
  · obtain ⟨has, devices⟩ := walk rest
    rw [if_neg compat, Acpi.platform, has, devices]
    exact congrArg (LegacyPlatform.mk _) same

theorem platform_acpiParseFadt (returned : Returns (acpiParseFadt pTable) acpi () acpi') :
    acpi'.platform firmware =
      { acpi.platform firmware with hasI8042 := fadtHasI8042 pTable (acpi.platform firmware).hasI8042 } := by
  obtain ⟨_, _, used, rest⟩ := (returns_bind _ _ _ _ _).mp returned
  obtain ⟨rfl, uses, rfl⟩ := returns_useOwn used
  obtain ⟨reduced, reduce, rest⟩ := (returns_optional _ _ _ _ _ _).mp rest
  have cleared : reduced = { acpi with
      uses := uses
      hasI8042 := if readField pTable 112 4 &&& hwReducedAcpi ≠ 0 then false else acpi.hasI8042 } := by
    split_ifs at reduce ⊢
    · exact ((returns_modify _ _ _ _).mp reduce).symm
    · exact reduce.symm
  obtain ⟨_, _, boot, last⟩ := (returns_bind _ _ _ _ _).mp rest
  obtain ⟨rfl, _, rfl⟩ := returns_useOwn boot
  subst cleared
  unfold fadtHasI8042
  split_ifs at last ⊢ with present
  · obtain rfl := (returns_modify _ _ _ _).mp last
    rfl
  all_goals
    obtain ⟨_, rfl⟩ := (returns_pure _ _ _ _).mp last
    rfl

/-- A parsed table has the effect of its bytes. -/
theorem platform_parseSdt (returned : Returns (parseSdt fuel pSDT) acpi () acpi') :
    acpi'.platform firmware = (acpi.platform firmware).apply (acpi.machine.mm.object pSDT) := by
  obtain ⟨_, _, note, rest⟩ := (returns_bind _ _ _ _ _).mp returned
  obtain rfl := (returns_modify _ _ _ _).mp note
  obtain ⟨table, _, read, rest⟩ := (returns_bind _ _ _ _ _).mp rest
  obtain ⟨rfl, rfl⟩ := returns_readObject.mp read
  obtain ⟨_, _, valid, rest⟩ := (returns_bind _ _ _ _ _).mp rest
  obtain ⟨_, rfl⟩ := returns_panicIf.mp valid
  unfold LegacyPlatform.apply
  split_ifs at rest with apic facp
  · have parsed := @platform_acpiParseMadt firmware _ _ _ _ rest
    rw [if_pos apic]
    exact parsed
  · have parsed := @platform_acpiParseFadt firmware _ _ _ rest
    rw [if_neg apic, if_pos facp]
    exact parsed
  · obtain ⟨_, rfl⟩ := (returns_pure _ _ _ _).mp rest
    rw [if_neg apic, if_neg facp]
    rfl

/-- The decision depends only on the first bytes of a table. -/
theorem LegacyPlatform.apply_congr {first second : Memory} (same : ∀ offset < 116, first offset = second offset)
    (platform : LegacyPlatform) : platform.apply first = platform.apply second := by
  have field (offset width : Nat) (inside : offset + width ≤ 116) :
      readField first offset width = readField second offset width := by
    unfold readField
    rw [Memory.load_congr fun found _ upper => same found (by omega)]
  have signature (expected : Memory) : strncmp first expected 4 = strncmp second expected 4 := by
    refine strncmpFrom_congr fun i read => ⟨same i ?_, rfl⟩
    have within := (strncmpReads_within read).2.1
    omega
  unfold LegacyPlatform.apply fadtHasI8042
  rw [signature, signature, field 40 4 (by decide), field 109 2 (by decide), field 112 4 (by decide)]

/-- The number of tables that a root table lists. -/
def Acpi.tableCount (acpi : Acpi) (root : Pointer) (width : Nat) : Nat :=
  (numSdts (sdtLength (acpi.machine.mm.object root)) width).toNat

/-- The bytes of the tables that a root table lists. -/
def Acpi.tables (acpi : Acpi) (root : Pointer) (width : Nat) : List Memory :=
  (List.range (acpi.tableCount root width)).map fun i => acpi.machine.mm.object (acpi.sdt root width i)

/-- Two states of the memory place the direct map alike, and they have the same bytes outside some pages. -/
structure Mm.Agrees (busy : Set Nat) (first second : Mm) : Prop where
  place : second.pHHDM = first.pHHDM
  memory : ∀ address, address / 4096 ∉ busy → second.memory address = first.memory address

theorem Mm.Agrees.trans {busy : Set Nat} {first second third : Mm} (head : first.Agrees busy second)
    (tail : second.Agrees busy third) : first.Agrees busy third :=
  ⟨tail.place.trans head.place, fun address outside =>
    (tail.memory address outside).trans (head.memory address outside)⟩

theorem Mm.Agrees.physical_eq {busy : Set Nat} {first second : Mm} (agrees : first.Agrees busy second)
    (pointer : Pointer) : second.physical pointer = first.physical pointer := by
  rw [Mm.physical, Mm.physical, agrees.place]

theorem Mm.Agrees.object_eq {busy : Set Nat} {first second : Mm} (agrees : first.Agrees busy second) {pointer : Pointer}
    {offset : Nat} (outside : first.physical (pointer + BitVec.ofNat 64 offset) / 4096 ∉ busy) :
    second.object pointer offset = first.object pointer offset := by
  rw [Mm.object, Mm.object, agrees.physical_eq]
  exact agrees.memory _ outside

/-- The length and the addresses of a root table, and the first bytes of its tables, lie outside some pages. -/
structure Acpi.TablesStay (busy : Set Nat) (acpi : Acpi) (root : Pointer) (width : Nat) : Prop where
  addresses : ∀ offset < offsetofSdts + width * acpi.tableCount root width,
    acpi.machine.mm.physical (root + BitVec.ofNat 64 offset) / 4096 ∉ busy
  tables : ∀ i < acpi.tableCount root width, ∀ offset < 116,
    acpi.machine.mm.physical (acpi.sdt root width i + BitVec.ofNat 64 offset) / 4096 ∉ busy

section Stay

variable {busy : Set Nat} {root : Pointer} {width i : Nat}

/-- A state that agrees outside the pages has the same tables. -/
theorem Acpi.TablesStay.count_eq (stay : acpi.TablesStay busy root width)
    (agrees : acpi.machine.mm.Agrees busy acpi'.machine.mm) :
    acpi'.tableCount root width = acpi.tableCount root width := by
  have header : offsetofSdts = 36 := rfl
  have length : sdtLength (acpi'.machine.mm.object root) = sdtLength (acpi.machine.mm.object root) := by
    unfold sdtLength readField
    rw [Memory.load_congr fun offset _ upper => agrees.object_eq (stay.addresses offset (by omega))]
  rw [tableCount, tableCount, length]

theorem Acpi.TablesStay.sdt_eq (stay : acpi.TablesStay busy root width) (inside : i < acpi.tableCount root width)
    (agrees : acpi.machine.mm.Agrees busy acpi'.machine.mm) : acpi'.sdt root width i = acpi.sdt root width i := by
  have room : width * i + width ≤ width * acpi.tableCount root width := Nat.mul_le_mul_left width inside
  have field : readField (acpi'.machine.mm.object root) (offsetofSdts + width * i) width =
      readField (acpi.machine.mm.object root) (offsetofSdts + width * i) width := by
    unfold readField
    rw [Memory.load_congr fun offset _ upper => agrees.object_eq (stay.addresses offset (by omega))]
  rw [Acpi.sdt, Acpi.sdt, field, agrees.place]

/-- The tables of a state that agrees stay outside fewer pages. -/
theorem Acpi.TablesStay.transfer {fewer : Set Nat} (stay : acpi.TablesStay busy root width)
    (agrees : acpi.machine.mm.Agrees busy acpi'.machine.mm) (within : fewer ⊆ busy) :
    acpi'.TablesStay fewer root width := by
  have count := stay.count_eq agrees
  refine ⟨fun offset below taken => ?_, fun i inside offset below taken => ?_⟩
  · rw [count] at below
    rw [agrees.physical_eq] at taken
    exact stay.addresses offset below (within taken)
  · rw [count] at inside
    rw [agrees.physical_eq, stay.sdt_eq inside agrees] at taken
    exact stay.tables i inside offset below (within taken)

/-- A table decides alike in both states. -/
theorem Acpi.TablesStay.apply_eq (stay : acpi.TablesStay busy root width) (inside : i < acpi.tableCount root width)
    (agrees : acpi.machine.mm.Agrees busy acpi'.machine.mm) (platform : LegacyPlatform) :
    platform.apply (acpi'.machine.mm.object (acpi'.sdt root width i)) =
      platform.apply (acpi.machine.mm.object (acpi.sdt root width i)) := by
  rw [stay.sdt_eq inside agrees]
  exact LegacyPlatform.apply_congr (fun offset below => agrees.object_eq (stay.tables i inside offset below)) platform

/-- The tables decide alike in both states. -/
theorem Acpi.TablesStay.foldl_eq (stay : acpi.TablesStay busy root width)
    (agrees : acpi.machine.mm.Agrees busy acpi'.machine.mm) (platform : LegacyPlatform) :
    (acpi'.tables root width).foldl LegacyPlatform.apply platform =
      (acpi.tables root width).foldl LegacyPlatform.apply platform := by
  rw [Acpi.tables, Acpi.tables, stay.count_eq agrees, List.foldl_map, List.foldl_map]
  exact List.foldl_ext _ _ _ fun platform i member => stay.apply_eq (List.mem_range.mp member) agrees platform

end Stay

/-- The walk of the root table has the effect of the listed tables, in their order. -/
theorem acpi_parse_rsdp_applies_tables {live : Set Nat} {root : Pointer} {width : Nat} {p : Pointer}
    (tabled : Tabled acpi.machine.mm live) (found : Returns (acpiFindRoot p) acpi (root, width) acpi)
    (stay : acpi.TablesStay acpi.machine.mm.allocatorPages root width)
    (returned : Returns (acpiParseRsdp fuel p) acpi () acpi') :
    acpi'.platform firmware = (acpi.tables root width).foldl LegacyPlatform.apply (acpi.platform firmware) := by
  unfold Returns at returned
  rw [run_acpiParseRsdp found] at returned
  have walked := returns_forRange (fun index _ (state : Acpi) => state.machine.mm.Outlasts live acpi.machine.mm ∧
      state.platform firmware = ((List.range index).map fun i => acpi.machine.mm.object (acpi.sdt root width i)).foldl
        LegacyPlatform.apply (acpi.platform firmware)) ?_ ?_ returned
  · exact walked.2
  · exact ⟨⟨tabled, Framed.refl _, rfl⟩, rfl⟩
  · intro index _ _ state middle inside reached parsed
    obtain ⟨outlasts, applied⟩ := reached
    have ran := returns_acpiParseEntry.mp parsed
    have run := driverRun_parseSdt (fun _ _ => mapsWindows_any) ran
    have effect := @platform_parseSdt firmware _ _ _ _ ran
    refine ⟨outlasts.driverRun run, effect.trans ?_⟩
    rw [List.range_succ, List.map_append, List.foldl_append, ← applied]
    exact @Acpi.TablesStay.apply_eq _ state _ _ _ _ stay inside ⟨outlasts.place, outlasts.framed.memory⟩ _

end Tables

end UmbralOS
