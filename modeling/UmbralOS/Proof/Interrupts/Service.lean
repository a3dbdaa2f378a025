import UmbralOS.Kernel.Dispatch
import UmbralOS.Kernel.Sdt
import UmbralOS.Proof.Interrupts.Masking

/-!
This file proves that the kernel serves every interrupt that its devices can deliver.
-/

namespace UmbralOS

open Library

/-- The vectors of the interrupts that the drivers enable. -/
def deviceVectors : List (BitVec 8) := [idtIdxIsaBase + irqKb, idtIdxIsaBase + irqCom1, idtIdxIsaBase + irqMouse]

instance (vector : BitVec 8) : Decidable (vector ∈ deviceVectors) :=
  decidable_of_iff (deviceVectors.contains vector = true) List.contains_iff_mem

/-- A pin with this entry is masked, or it delivers a non-maskable interrupt or a fixed vector of the drivers. -/
def Redirection.Served (entry : Redirection) : Prop :=
  entry.isMasked = true ∨ entry.delivery = 0b100#3 ∨ entry.delivery = 0b000#3 ∧ entry.vector ∈ deviceVectors

instance (entry : Redirection) : Decidable entry.Served := inferInstanceAs (Decidable (_ ∨ _ ∨ _ ∧ _))

/-- Every pin of the device has such an entry. -/
def Ioapic.Served (device : Ioapic) : Prop := ∀ g ≤ device.maxEntry, (device.redirection g).Served

/-- The vector of the interrupts that a pin with this entry delivers. A non-maskable interrupt has its own vector. -/
def Redirection.delivered (entry : Redirection) : BitVec 8 :=
  if entry.delivery = 0b100#3 then idtIdxExceptionNmi else entry.vector

/-- An open pin delivers this vector. -/
def Ioapic.Delivers (device : Ioapic) (vector : BitVec 8) : Prop :=
  ∃ g ≤ device.maxEntry, ¬ device.Masked g ∧ (device.redirection g).delivered = vector

/-- A device whose pins are served delivers only the vectors of the drivers and non-maskable interrupts. -/
theorem Ioapic.Served.delivers {device : Ioapic} (served : device.Served) {vector : BitVec 8}
    (delivers : device.Delivers vector) : vector ∈ deviceVectors ∨ vector = idtIdxExceptionNmi := by
  obtain ⟨g, inside, opened, rfl⟩ := delivers
  unfold Redirection.delivered
  rcases served g inside with masked | nmi | ⟨fixed, vector⟩
  · exact absurd masked opened
  · exact Or.inr (if_pos nmi)
  · rw [if_neg (by rw [fixed]; decide)]
    exact Or.inl vector

/-- A write of a served entry through the address of any pin keeps the pins served. -/
theorem Ioapic.Served.store64 {device : Ioapic} (served : device.Served) {n : BitVec 32} {word : BitVec 64}
    (entry : (Redirection.ofWords (word.setWidth 32) ((word >>> 32).setWidth 32)).Served) :
    (device.store64 (ioapicRedirTblAddr n) word).Served := by
  intro g inside
  have kept := served g inside
  have other := lowRegister_ne_highRegister g (n.toNat % 128)
  rw [Ioapic.redirection, ioapicRedirTblAddr_eq, Ioapic.store64_registers, lowRegister_add_one, if_neg other]
  split_ifs with here
  · exact entry
  · exact kept

/-- The local APIC is ready, and the pins of the firmware's I/O APIC are served. -/
def Machine.Settled (firmware : Ioapic) (machine : Machine) : Prop :=
  machine.LapicReady ∧ machine.ioapic.version = firmware.version ∧ machine.ioapic.Served

/-- The firmware's I/O APIC before the driver accepts it, and a device with served pins afterwards. -/
def Machine.Guarded (firmware : Ioapic) (machine : Machine) : Prop :=
  machine.ioapicBase = 0 ∧ machine.ioapic = firmware ∨ machine.Settled firmware

section Guarded

variable {firmware : Ioapic} {machine machine' : Machine}

/-- The entry of an enabled interrupt has the vector of the interrupt. -/
theorem enableValue_served {irq : Fin 16} (vector : idtIdxIsaBase + BitVec.ofNat 8 irq ∈ deviceVectors)
    (entry : RedirectionEntry) :
    (Redirection.ofWords (((enableValue (BitVec.ofNat 8 irq) entry).setWidth 64).setWidth 32)
      ((((enableValue (BitVec.ofNat 8 irq) entry).setWidth 64) >>> 32).setWidth 32)).Served := by
  rw [enableValue_fields]
  exact Or.inr (Or.inr ⟨rfl, vector⟩)

/-- The entry of a non-maskable source delivers non-maskable interrupts. -/
theorem nmiValue_served (flags : BitVec 16) :
    (Redirection.ofWords (((nmiValue flags).setWidth 64).setWidth 32)
      ((((nmiValue flags).setWidth 64) >>> 32).setWidth 32)).Served := by
  right
  left
  unfold nmiValue
  split_ifs <;> decide

/-- What keeps the device and the way of access to the local APIC keeps the pins served. -/
theorem Machine.Settled.congr (settled : machine.Settled firmware) (same : SameIoapic machine machine')
    (ready : machine.LapicReady → machine'.LapicReady) : machine'.Settled firmware := by
  obtain ⟨access, version, served⟩ := settled
  refine ⟨ready access, ?_, ?_⟩
  · rw [same.ioapic]
    exact version
  · rw [same.ioapic]
    exact served

theorem Machine.Guarded.congr (guarded : machine.Guarded firmware) (same : SameIoapic machine machine')
    (ready : machine.LapicReady → machine'.LapicReady) : machine'.Guarded firmware := by
  rcases guarded with ⟨unset, device⟩ | settled
  · exact Or.inl ⟨same.ioapicBase.trans unset, same.ioapic.trans device⟩
  · exact Or.inr (settled.congr same ready)

/-- A guarded device behind a base is served, and a write of a served entry keeps it served. -/
theorem Machine.Guarded.storeIoapic (guarded : machine.Guarded firmware) (based : machine.ioapicBase ≠ 0) {n : BitVec 32}
    {word : BitVec 64} (entry : (Redirection.ofWords (word.setWidth 32) ((word >>> 32).setWidth 32)).Served) :
    (machine.storeIoapic (ioapicRedirTblAddr n) word).Settled firmware := by
  rcases guarded with ⟨unset, _⟩ | ⟨ready, version, served⟩
  · exact absurd unset based
  · exact ⟨ready, version, served.store64 entry⟩

/-- The driver masks the entries below the last, so an accepted device is served when the firmware masked the last. -/
theorem Machine.Guarded.withIoapic (few : firmware.maxEntry ≤ 119) (masked : firmware.Masked firmware.maxEntry)
    (guarded : machine.Guarded firmware) (ready : machine.LapicReady) (record : MadtIoapic) (mm : Mm) :
    (machine.withIoapic record mm).Guarded firmware := by
  have version : (machine.withIoapic record mm).ioapic.version = machine.ioapic.version := Ioapic.maskBelow_version _ _
  have same : machine.ioapic.version = firmware.version := by
    rcases guarded with ⟨_, device⟩ | ⟨_, version, _⟩
    · rw [device]
    · exact version
  have count : machine.ioapic.maxEntry = firmware.maxEntry := by rw [Ioapic.maxEntry, Ioapic.maxEntry, same]
  refine Or.inr ⟨ready, version.trans same, fun g inside => ?_⟩
  rw [Ioapic.maxEntry, version, ← Ioapic.maxEntry] at inside
  have entry : (machine.withIoapic record mm).ioapic.redirection g =
      if g < machine.ioapic.maxEntry then .ofWords ioapicRedirTblMasked 0 else machine.ioapic.redirection g :=
    Ioapic.maskBelow_redirection _ (by omega) (by omega)
  rw [entry]
  split_ifs with below
  · exact Or.inl (by decide)
  · rcases guarded with ⟨_, device⟩ | ⟨_, _, served⟩
    · rw [device, show g = firmware.maxEntry by omega]
      exact Or.inl masked
    · exact served g inside

end Guarded

section Drivers

variable {firmware : Ioapic}

/-- The driver enables an interrupt only on a served device, and the device stays served. -/
theorem enable_settles {irq : Fin 16} (vector : idtIdxIsaBase + BitVec.ofNat 8 irq ∈ deviceVectors) {done : Unit}
    {machine machine' : Machine} (guarded : machine.Guarded firmware)
    (returned : Returns (ioapicEnableIsaInterrupt (BitVec.ofNat 8 irq)) machine done machine') :
    machine'.Settled firmware := by
  obtain ⟨based, rfl⟩ := returns_enable.mp returned
  exact guarded.storeIoapic based (enableValue_served vector _)

theorem preserves_outb {kept : Machine → Prop} (ports : ∀ machine ports, kept machine → kept { machine with ports := ports })
    (port : BitVec 16) (value : BitVec 8) : Preserves kept (outb port value) :=
  preserves_modify fun machine holds => ports machine _ holds

theorem preserves_serialEarlyInit {kept : Machine → Prop}
    (ports : ∀ machine ports, kept machine → kept { machine with ports := ports }) : Preserves kept serialEarlyInit := by
  unfold serialEarlyInit
  iterate 7 refine preserves_bind (preserves_outb ports _ _) fun _ => ?_
  exact preserves_outb ports _ _

/-- The state of the machine during the walk: the local APIC is ready, and the pins are guarded. -/
def Machine.Walked (firmware : Ioapic) (machine : Machine) : Prop := machine.LapicReady ∧ machine.Guarded firmware

theorem walked_lapicInitBegin {machine machine' : Machine} (guarded : machine.Guarded firmware)
    (returned : Returns lapicInitBegin machine () machine') : machine'.Walked firmware := by
  obtain ⟨_, access, accessed, registers⟩ := (returns_bind _ _ _ _ _).mp returned
  have reached := preserves_lapicInitAccess machine _ access ⟨rfl, rfl, rfl⟩ accessed
  have same := preserves_lapicInitRegisters preserves_lapicWrite access _ machine' reached registers
  have ready := returns_lapicInitRegisters registers
  exact ⟨ready, guarded.congr same fun _ => ready⟩

theorem preserves_walked_pic : Preserves (Machine.Walked firmware)
    (legacyPicInitAndDisable idtIdxLegacyPicMasterBase idtIdxLegacyPicSlaveBase) := by
  have step := preserves_outb fun machine ports (walked : machine.Walked firmware) =>
    (⟨walked.1, walked.2.congr ⟨rfl, rfl, rfl⟩ id⟩ : Machine.Walked firmware { machine with ports := ports })
  unfold legacyPicInitAndDisable
  iterate 9 refine preserves_bind (step _ _) fun _ => ?_
  exact step _ _

theorem preserves_walked_register (few : firmware.maxEntry ≤ 119) (masked : firmware.Masked firmware.maxEntry)
    (record : MadtIoapic) : Preserves (Machine.Walked firmware) (ioapicInitRegister record) := by
  intro machine _ machine' walked returned
  obtain ⟨_, _, _, _, mm, _, rfl⟩ := returns_ioapicInitRegister.mp returned
  exact ⟨walked.1, walked.2.withIoapic few masked walked.1 record mm⟩

theorem preserves_walked_override (madtOverride : MadtInterruptSourceOverride) :
    Preserves (Machine.Walked firmware) (ioapicInitSourceOverride madtOverride) := by
  intro machine _ machine' walked returned
  obtain ⟨_, _, rfl⟩ := returns_ioapicInitSourceOverride.mp returned
  obtain ⟨ready, guarded⟩ := walked
  refine ⟨ready, ?_⟩
  rcases guarded with unset | served
  · exact Or.inl unset
  · exact Or.inr served

theorem preserves_walked_nmi (record : MadtNmiSource) :
    Preserves (Machine.Walked firmware) (ioapicInitNmisource record) := by
  intro machine _ machine' walked returned
  obtain ⟨based, rfl⟩ := returns_ioapicInitNmisource.mp returned
  exact ⟨walked.1, Or.inr (walked.2.storeIoapic based (nmiValue_served _))⟩

theorem preserves_walked_local (record : MadtLocalApicNmi) :
    Preserves (Machine.Walked firmware) (lapicInitNmi record) := by
  intro machine _ machine' walked returned
  obtain ⟨_, rfl⟩ := returns_lapicInitNmi.mp returned
  exact ⟨walked.1, walked.2.congr ⟨rfl, rfl, rfl⟩ id⟩

end Drivers

/-- The drivers keep a property at the records of an interrupt table. -/
structure WalkKeeps (walked : Machine → Prop) : Prop where
  register : ∀ record, Preserves walked (ioapicInitRegister record)
  sourceOverride : ∀ record, Preserves walked (ioapicInitSourceOverride record)
  nmiSource : ∀ record, Preserves walked (ioapicInitNmisource record)
  localNmi : ∀ record, Preserves walked (lapicInitNmi record)

/-- The drivers keep one property outside the walk of an interrupt table and another property inside the walk. -/
structure TableKeeps (kept walked : Machine → Prop) : Prop extends WalkKeeps walked where
  enters : ∀ machine done machine', kept machine → Returns lapicInitBegin machine done machine' → walked machine'
  pic : Preserves walked (legacyPicInitAndDisable idtIdxLegacyPicMasterBase idtIdxLegacyPicSlaveBase)
  leaves : ∀ machine, walked machine → kept machine
  memory : ∀ machine mm, kept machine → kept { machine with mm := mm }

section Walk

variable {walked : Bool → Machine → Prop}

/-- The kernel interprets a field of a table without a change of the machine. -/
theorem preserves_useOwn (pTable : Memory) (offset width : Nat) :
    Preserves (fun acpi : Acpi => walked acpi.hasI8042 acpi.machine) (useOwn pTable offset width) :=
  preserves_bind (preserves_modify fun _ holds => holds) fun _ => preserves_pure _

theorem preserves_useBody (pTable : Memory) (record offset width : Nat) :
    Preserves (fun acpi : Acpi => walked acpi.hasI8042 acpi.machine) (useBody pTable record offset width) :=
  preserves_bind (preserves_modify fun _ holds => holds) fun _ => preserves_pure _

theorem preserves_liftMachine {A : Type} {program : MachineProgram A} (step : ∀ has, Preserves (walked has) program) :
    Preserves (fun acpi : Acpi => walked acpi.hasI8042 acpi.machine) (liftMachine program) := by
  intro acpi value acpi' holds returned
  obtain ⟨machine, ran, rfl⟩ := (returns_liftMachine _ _ _ _).mp returned
  exact step _ _ _ _ holds ran

/-- The switch of the walk keeps the property, and it leaves the flag of the fixed table alone. -/
theorem preserves_acpiHandleMadtAt (keeps : ∀ has, WalkKeeps (walked has)) (pMADT : Memory) (record : Nat) :
    Preserves (fun acpi : Acpi => walked acpi.hasI8042 acpi.machine) (acpiHandleMadtAt pMADT record) := by
  have note (offset width : Nat) : Preserves (fun acpi : Acpi => walked acpi.hasI8042 acpi.machine)
      (useBody pMADT record offset width) := preserves_useBody pMADT record offset width
  refine preserves_bind (preserves_useOwn _ _ _) fun type => ?_
  split
  · exact preserves_pure ()
  · refine preserves_bind preserves_get fun acpi => ?_
    refine preserves_bind (preserves_stopIf _ _) fun _ => ?_
    refine preserves_bind (note _ _) fun base => ?_
    refine preserves_bind (preserves_stopIf _ _) fun _ => ?_
    refine preserves_bind (note _ _) fun address => ?_
    exact preserves_liftMachine fun has => (keeps has).register _
  · refine preserves_bind (note _ _) fun busSource => ?_
    refine preserves_bind (preserves_stopIf _ _) fun _ => ?_
    iterate 3 refine preserves_bind (note _ _) fun _ => ?_
    exact preserves_liftMachine fun has => (keeps has).sourceOverride _
  · iterate 2 refine preserves_bind (note _ _) fun _ => ?_
    exact preserves_liftMachine fun has => (keeps has).nmiSource _
  · refine preserves_bind (note _ _) fun processorId => ?_
    refine preserves_ite _ ?_ (preserves_pure ())
    iterate 2 refine preserves_bind (note _ _) fun _ => ?_
    exact preserves_liftMachine fun has => (keeps has).localNmi _
  · exact preserves_throw _

theorem preserves_acpiWalkMadtAt (keeps : ∀ has, WalkKeeps (walked has)) (pMADT : Memory) (fuel : Nat) :
    ∀ i, Preserves (fun acpi : Acpi => walked acpi.hasI8042 acpi.machine) (acpiWalkMadtAt pMADT fuel i) := by
  induction fuel with
  | zero => exact fun i => preserves_throw _
  | succ fuel ih =>
      intro i
      refine preserves_bind (preserves_useOwn _ _ _) fun length => ?_
      refine preserves_ite _ ?_ (preserves_pure ())
      refine preserves_bind (preserves_acpiHandleMadtAt keeps _ _) fun _ => ?_
      exact preserves_bind (preserves_useOwn _ _ _) fun step => ih _

end Walk

section Tables

variable {kept walked : Machine → Prop}

theorem preserves_readObject (pointer : Pointer) :
    Preserves (fun acpi : Acpi => kept acpi.machine) (readObject pointer) :=
  preserves_bind preserves_get fun _ => preserves_pure _

theorem preserves_useRoot (root : Pointer) (offset width : Nat) :
    Preserves (fun acpi : Acpi => kept acpi.machine) (useRoot root offset width) := by
  refine preserves_bind (preserves_modify fun _ holds => holds) fun _ => ?_
  exact preserves_bind (preserves_readObject root) fun _ => preserves_pure _

/-- An interrupt table keeps the property outside its walk. -/
theorem preserves_acpiParseMadtAt (keeps : TableKeeps kept walked) (fuel : Nat) (pMADT : Memory) :
    Preserves (fun acpi : Acpi => kept acpi.machine) (acpiParseMadtAt fuel pMADT) := by
  intro acpi _ acpi' holds returned
  obtain ⟨_, begun, lapic, rest⟩ := (returns_bind _ _ _ _ _).mp returned
  obtain ⟨machine, ran, rfl⟩ := (returns_liftMachine _ _ _ _).mp lapic
  have inside := keeps.enters _ _ _ holds ran
  have later : Preserves (fun acpi : Acpi => walked acpi.machine) (do
      let flags ← useOwn pMADT 40 4
      if flags &&& pcatCompat ≠ 0 then
        liftMachine (legacyPicInitAndDisable idtIdxLegacyPicMasterBase idtIdxLegacyPicSlaveBase)
      acpiWalkMadtAt pMADT fuel 0) := by
    refine preserves_bind (@preserves_useOwn (fun _ => walked) _ _ _) fun flags => ?_
    have walk := @preserves_acpiWalkMadtAt (fun _ => walked) (fun _ => keeps.toWalkKeeps) pMADT fuel 0
    have pic := @preserves_liftMachine (fun _ => walked) _ _ fun _ => keeps.pic
    exact preserves_ite _ (preserves_bind pic fun _ => walk) walk
  exact keeps.leaves _ (later _ _ acpi' inside rest)

/-- The fixed table changes no machine. -/
theorem preserves_acpiParseFadt (pFADT : Memory) :
    Preserves (fun acpi : Acpi => kept acpi.machine) (acpiParseFadt pFADT) := by
  have set (value : Bool) : Preserves (fun acpi : Acpi => kept acpi.machine)
      (modify fun acpi => { acpi with hasI8042 := value } : AcpiProgram Unit) := preserves_modify fun _ holds => holds
  have boot : Preserves (fun acpi : Acpi => kept acpi.machine) (do
      let bootArchitectureFlags ← useOwn pFADT 109 2
      if bootArchitectureFlags &&& iapcBootArch8042 ≠ 0 then
        modify fun acpi => { acpi with hasI8042 := true } : AcpiProgram Unit) :=
    preserves_bind (@preserves_useOwn (fun _ => kept) _ _ _) fun _ => preserves_ite _ (set true) (preserves_pure ())
  refine preserves_bind (@preserves_useOwn (fun _ => kept) _ _ _) fun flags => ?_
  exact preserves_ite _ (preserves_bind (set false) fun _ => boot) boot

theorem preserves_parseSdt (keeps : TableKeeps kept walked) (fuel : Nat) (pSDT : Pointer) :
    Preserves (fun acpi : Acpi => kept acpi.machine) (parseSdt fuel pSDT) := by
  refine preserves_bind (preserves_modify fun _ holds => holds) fun _ => ?_
  refine preserves_bind (preserves_readObject pSDT) fun table => ?_
  refine preserves_bind (preserves_stopIf _ _) fun _ => ?_
  refine preserves_ite _ (preserves_acpiParseMadtAt keeps fuel table) ?_
  exact preserves_ite _ (preserves_acpiParseFadt table) (preserves_pure ())

theorem preserves_phyToVirt (keeps : TableKeeps kept walked) (paddr : Phy) :
    Preserves (fun acpi : Acpi => kept acpi.machine) (liftMachine (liftMm (phyToVirt paddr))) := by
  refine @preserves_liftMachine (fun _ => kept) _ _ fun _ machine value machine' holds returned => ?_
  obtain ⟨mm, read, rfl⟩ := (returns_liftMm _ _ _ _).mp returned
  exact keeps.memory machine mm holds

/-- All tables together keep the property. -/
theorem preserves_acpiParseRsdp (keeps : TableKeeps kept walked) (fuel : Nat) (p : Pointer) :
    Preserves (fun acpi : Acpi => kept acpi.machine) (acpiParseRsdp fuel p) := by
  have find : Preserves (fun acpi : Acpi => kept acpi.machine) (acpiFindRoot p) := by
    refine preserves_bind (preserves_readObject p) fun pRSDP => ?_
    refine preserves_bind (preserves_stopIf _ _) fun _ => ?_
    refine preserves_ite _ (preserves_bind (preserves_stopIf _ _) fun _ => ?_) ?_
    all_goals
      refine preserves_bind (preserves_phyToVirt keeps _) fun root => ?_
      refine preserves_bind (preserves_readObject root) fun table => ?_
      exact preserves_bind (preserves_stopIf _ _) fun _ => preserves_pure _
  refine preserves_bind find fun found => ?_
  refine preserves_bind (preserves_useRoot _ _ _) fun length => preserves_forRange (fun i _ => ?_) _ ()
  refine preserves_bind (preserves_useRoot _ _ _) fun sdt => ?_
  exact preserves_bind (preserves_phyToVirt keeps _) fun pSDT => preserves_parseSdt keeps fuel pSDT

/-- The drivers keep the pins guarded when the firmware masked the last entry. -/
theorem tableKeeps_guarded {firmware : Ioapic} (few : firmware.maxEntry ≤ 119)
    (masked : firmware.Masked firmware.maxEntry) :
    TableKeeps (Machine.Guarded firmware) (Machine.Walked firmware) where
  enters _ _ _ guarded returned := walked_lapicInitBegin guarded returned
  pic := preserves_walked_pic
  register := preserves_walked_register few masked
  sourceOverride := preserves_walked_override
  nmiSource := preserves_walked_nmi
  localNmi := preserves_walked_local
  leaves _ walked := walked.2
  memory _ _ guarded := guarded.congr ⟨rfl, rfl, rfl⟩ id

end Tables

section Input

variable {kept : Machine → Prop} {firmware : Ioapic} {timing : Ps2Timing}

/-- The accesses of the controller change no machine. -/
theorem preserves_outbPs2 (port : BitVec 16) (value : BitVec 8) :
    Preserves (fun ps2 : Ps2 => kept ps2.machine) (outbPs2 timing port value) :=
  preserves_bind (preserves_modify fun _ holds => holds) fun _ => preserves_modify fun _ holds => holds

theorem preserves_inbData : Preserves (fun ps2 : Ps2 => kept ps2.machine) (inbData timing) := by
  refine preserves_bind (preserves_modify fun _ holds => holds) fun _ => preserves_bind preserves_get fun ps2 => ?_
  exact preserves_bind (preserves_modify fun _ holds => holds) fun _ => preserves_pure _

theorem preserves_inbStatus : Preserves (fun ps2 : Ps2 => kept ps2.machine) (inbStatus timing) :=
  preserves_bind (preserves_modify fun _ holds => holds) fun _ => preserves_bind preserves_get fun _ => preserves_pure _

theorem preserves_kprint (format : String) (arguments : List (BitVec 64)) :
    Preserves (fun ps2 : Ps2 => kept ps2.machine) (kprint format arguments) :=
  preserves_modify fun _ holds => holds

theorem preserves_sendCommand (command : BitVec 8) :
    Preserves (fun ps2 : Ps2 => kept ps2.machine) (sendCommand timing command) := by
  refine preserves_bind preserves_get fun ps2 => preserves_bind (preserves_outbPs2 _ _) fun _ => ?_
  refine preserves_bind preserves_inbData fun reply => ?_
  exact preserves_bind (preserves_modify fun _ holds => holds) fun _ => preserves_pure _

theorem preserves_waitReply (fuel : Nat) : Preserves (fun ps2 : Ps2 => kept ps2.machine) (waitReply timing fuel) := by
  induction fuel with
  | zero => exact preserves_throw _
  | succ fuel ih => exact preserves_bind preserves_inbStatus fun _ => preserves_ite _ ih (preserves_pure ())

theorem preserves_waitDevice (fuel : Nat) : Preserves (fun ps2 : Ps2 => kept ps2.machine) (waitDevice timing fuel) := by
  induction fuel with
  | zero => exact preserves_throw _
  | succ fuel ih => exact preserves_bind preserves_inbStatus fun _ => preserves_ite _ ih (preserves_pure ())

theorem preserves_pollReply (fuel : Nat) : Preserves (fun ps2 : Ps2 => kept ps2.machine) (pollReply timing fuel) := by
  refine preserves_bind (preserves_waitReply fuel) fun _ => preserves_bind preserves_inbData fun _ => ?_
  exact preserves_bind (preserves_kprint _ _) fun _ => preserves_pure _

theorem preserves_sendToDevice (fuel : Nat) (value : BitVec 8) :
    Preserves (fun ps2 : Ps2 => kept ps2.machine) (sendToDevice timing fuel value) :=
  preserves_bind (preserves_waitDevice fuel) fun _ => preserves_outbPs2 _ _

theorem preserves_writeConfigByte (config : BitVec 8) :
    Preserves (fun ps2 : Ps2 => kept ps2.machine) (writeConfigByte timing config) :=
  preserves_bind (preserves_outbPs2 _ _) fun _ => preserves_outbPs2 _ _

theorem preserves_ps2ResetKb (fuel : Nat) : Preserves (fun ps2 : Ps2 => kept ps2.machine) (ps2ResetKb timing fuel) := by
  refine preserves_bind (preserves_kprint _ _) fun _ => preserves_bind (preserves_sendToDevice _ _) fun _ => ?_
  refine preserves_bind (preserves_pollReply fuel) fun _ => preserves_bind (preserves_pollReply fuel) fun _ => ?_
  refine preserves_bind (preserves_kprint _ _) fun _ => preserves_bind (preserves_sendToDevice _ _) fun _ => ?_
  exact preserves_bind (preserves_pollReply fuel) fun _ => preserves_pure ()

theorem preserves_ps2ResetMouse (fuel : Nat) :
    Preserves (fun ps2 : Ps2 => kept ps2.machine) (ps2ResetMouse timing fuel) := by
  refine preserves_bind (preserves_kprint _ _) fun _ => preserves_bind (preserves_outbPs2 _ _) fun _ => ?_
  refine preserves_bind (preserves_sendToDevice _ _) fun _ => preserves_bind (preserves_pollReply fuel) fun _ => ?_
  refine preserves_bind (preserves_pollReply fuel) fun _ => preserves_bind (preserves_pollReply fuel) fun _ => ?_
  refine preserves_bind (preserves_kprint _ _) fun _ => preserves_bind (preserves_outbPs2 _ _) fun _ => ?_
  refine preserves_bind (preserves_sendToDevice _ _) fun _ => ?_
  exact preserves_bind (preserves_pollReply fuel) fun _ => preserves_pure ()

theorem liftPs2_eq {A : Type} (program : MachineProgram A) :
    liftPs2 program = focus Ps2.machine (fun machine ps2 => { ps2 with machine := machine }) program := by
  funext ps2
  unfold liftPs2 focus
  cases program.run ps2.machine <;> rfl

theorem preserves_liftPs2 {A : Type} {program : MachineProgram A} (step : Preserves kept program) :
    Preserves (fun ps2 : Ps2 => kept ps2.machine) (liftPs2 program) := by
  rw [liftPs2_eq]
  exact preserves_focus (fun _ _ => rfl) step

/-- The driver of the PS/2 controller changes the machine only when it enables the keyboard and the mouse. -/
theorem preserves_ps2Init (enable : ∀ irq ∈ [irqKb, irqMouse], Preserves kept (ioapicEnableIsaInterrupt irq)) (fuel : Nat) :
    Preserves (fun ps2 : Ps2 => kept ps2.machine) (ps2Init timing fuel) := by
  have reset (hasMouse : Bool) : Preserves (fun ps2 : Ps2 => kept ps2.machine) (ps2ResetDevices timing fuel hasMouse) := by
    have kb := preserves_liftPs2 (enable irqKb (by decide))
    have mouse := preserves_liftPs2 (enable irqMouse (by decide))
    have pins := preserves_bind kb fun _ => preserves_ite (hasMouse = true) mouse (preserves_pure ())
    refine preserves_bind (preserves_ps2ResetKb fuel) fun _ => ?_
    exact preserves_ite _ (preserves_bind (preserves_ps2ResetMouse fuel) fun _ => pins) pins
  have devices (hasMouse : Bool) : Preserves (fun ps2 : Ps2 => kept ps2.machine) (ps2EnableDevices timing fuel hasMouse) := by
    refine preserves_bind (preserves_sendCommand _) fun config => ?_
    exact preserves_bind (preserves_writeConfigByte _) fun _ => reset hasMouse
  have ports (hasMouse : Bool) : Preserves (fun ps2 : Ps2 => kept ps2.machine) (ps2TestPorts timing fuel hasMouse) := by
    refine preserves_bind (preserves_sendCommand _) fun result => preserves_bind (preserves_stopIf _ _) fun _ => ?_
    refine preserves_bind (preserves_outbPs2 _ _) fun _ => preserves_ite _ ?_ (devices hasMouse)
    refine preserves_bind ?_ fun _ => devices hasMouse
    refine preserves_bind (preserves_sendCommand _) fun result => preserves_bind (preserves_stopIf _ _) fun _ => ?_
    exact preserves_outbPs2 _ _
  refine preserves_bind (preserves_outbPs2 _ _) fun _ => preserves_bind (preserves_outbPs2 _ _) fun _ => ?_
  refine preserves_bind preserves_inbData fun _ => preserves_bind (preserves_sendCommand _) fun config => ?_
  refine preserves_bind (preserves_writeConfigByte _) fun _ => preserves_bind (preserves_sendCommand _) fun result => ?_
  refine preserves_ite _ (preserves_kprint _ _) ?_
  refine preserves_bind (preserves_writeConfigByte _) fun _ => preserves_bind (preserves_outbPs2 _ _) fun _ => ?_
  exact preserves_bind (preserves_sendCommand _) fun _ => ports _

end Input

/-- The vectors that have a case of their own and return. -/
def Answered (vector : BitVec 8) : Prop :=
  vector = idtIdxExceptionBp ∨ legacyPicVector idtIdxLegacyPicMasterBase vector ∨
    legacyPicVector idtIdxLegacyPicSlaveBase vector ∨ vector ∈ deviceVectors ∨ vector = idtIdxLapicSpurious

instance (vector : BitVec 8) : Decidable (Answered vector) := inferInstanceAs (Decidable (_ ∨ _ ∨ _ ∨ _ ∨ _))

namespace Handling

/-- The state after these messages. -/
def say (handling : Handling) (messages : List (String × List (BitVec 64))) : Handling :=
  { handling with ps2 := { handling.ps2 with messages := handling.ps2.messages ++ messages } }

/-- The state after `enforce_smap`. -/
def enforced (handling : Handling) : Handling :=
  { handling with rflagsAc := if handling.hasSmap then false else handling.rflagsAc }

/-- The state after one read of the data port. -/
def readData (timing : Ps2Timing) (handling : Handling) : Handling :=
  { handling with ps2 := (handling.ps2.advance timing).drain }

/-- The message for a received character. -/
def echoMessage (c : BitVec 8) : String × List (BitVec 64) :=
  if c = char '\r' then ("\n", []) else ("%c", [(c.signExtend 32).setWidth 64])

/-- The state after the echo of the first received character. -/
def echo (handling : Handling) : Handling :=
  match handling.received with
  | [] => handling.say [echoMessage handling.lastReceived]
  | c :: received => { handling with received := received, lastReceived := c }.say [echoMessage c]

/-- The state after the end of the service of the highest priority. -/
def endService (handling : Handling) : Handling :=
  { handling with
    ps2 := { handling.ps2 with machine := handling.ps2.machine.storeLapic lapicRegisterIdxEoi 0 }
    inService := handling.inService.tail }

/-- The messages of a vector that is not a device's. -/
def vectorMessages (vector : BitVec 8) (stackFrame : StackFrame) : List (String × List (BitVec 64)) :=
  if vector = idtIdxExceptionBp then
    (stackFrame.lines.map fun line => (line.1, [line.2])) ++ [("Continuing after #BP...\n", [])]
  else if legacyPicVector idtIdxLegacyPicMasterBase vector then
    [("Spurious Interrupt 0x%x (Legacy PIC Master)", [vector.setWidth 64])]
  else if legacyPicVector idtIdxLegacyPicSlaveBase vector then
    [("Spurious Interrupt 0x%x (Legacy PIC Slave)", [vector.setWidth 64])]
  else [("Spurious Interrupt (LAPIC)", [])]

/-- The state after the handler of an answered vector. -/
def answered (timing : Ps2Timing) (vector : BitVec 8) (stackFrame : StackFrame) (handling : Handling) : Handling :=
  if vector = idtIdxIsaBase + irqCom1 then handling.enforced.echo.endService
  else if vector ∈ deviceVectors then (handling.enforced.readData timing).endService
  else handling.enforced.say (vectorMessages vector stackFrame)

end Handling

section Handler

variable {timing : Ps2Timing} {handling handling' : Handling} {vector : BitVec 8} {stackFrame : StackFrame} {done : Unit}

theorem returns_liftHandling {A : Type} {program : Ps2Program A} {value : A} :
    Returns (liftHandling program) handling value handling' ↔
      ∃ ps2, Returns program handling.ps2 value ps2 ∧ { handling with ps2 := ps2 } = handling' := returns_focus

theorem returns_liftPs2 {A : Type} {program : MachineProgram A} {ps2 ps2' : Ps2} {value : A} :
    Returns (liftPs2 program) ps2 value ps2' ↔
      ∃ machine, Returns program ps2.machine value machine ∧ { ps2 with machine := machine } = ps2' := by
  rw [liftPs2_eq, returns_focus]

theorem returns_kprintHandling {format : String} {arguments : List (BitVec 64)} :
    Returns (kprintHandling format arguments) handling done handling' ↔ handling.say [(format, arguments)] = handling' := by
  rw [kprintHandling, returns_liftHandling]
  simp only [kprint, returns_modify]
  constructor
  · rintro ⟨_, rfl, rfl⟩
    rfl
  · rintro rfl
    exact ⟨_, rfl, rfl⟩

/-- The dump prints its lines in their order. -/
theorem returns_kprintLines (lines : List (String × BitVec 64)) :
    Returns (lines.forM fun line => kprintHandling line.1 [line.2]) handling done handling' ↔
      handling.say (lines.map fun line => (line.1, [line.2])) = handling' := by
  induction lines generalizing handling with
  | nil => simp [Handling.say]
  | cons line lines ih =>
      change Returns (kprintHandling line.1 [line.2] >>= fun _ => lines.forM fun line => kprintHandling line.1 [line.2])
        handling done handling' ↔ _
      simp only [returns_bind, returns_kprintHandling, ih, List.map_cons]
      constructor
      · rintro ⟨_, _, rfl, rfl⟩
        simp [Handling.say]
      · rintro rfl
        exact ⟨(), _, rfl, by simp [Handling.say]⟩

theorem returns_enforceSmap : Returns enforceSmap handling done handling' ↔ handling.enforced = handling' :=
  returns_modify _ _ _ _

theorem returns_ps2HandlePort1Interrupt : Returns (ps2HandlePort1Interrupt timing) handling done handling' ↔
    handling.readData timing = handling' := by
  simp only [ps2HandlePort1Interrupt, returns_bind, returns_liftHandling, inbData, returns_modify, returns_get, returns_pure]
  constructor
  · rintro ⟨_, _, ⟨_, ⟨_, _, rfl, _, _, ⟨rfl, rfl⟩, _, _, rfl, rfl, rfl⟩, rfl⟩, _, rfl⟩
    rfl
  · rintro rfl
    exact ⟨_, _, ⟨_, ⟨(), _, rfl, _, _, ⟨rfl, rfl⟩, (), _, rfl, rfl, rfl⟩, rfl⟩, trivial, rfl⟩

theorem returns_ps2HandlePort2Interrupt : Returns (ps2HandlePort2Interrupt timing) handling done handling' ↔
    handling.readData timing = handling' := returns_ps2HandlePort1Interrupt

theorem returns_serialHandleInterrupt :
    Returns serialHandleInterrupt handling done handling' ↔ handling.echo = handling' := by
  have print (c : BitVec 8) (state : Handling) :
      Returns (if c = char '\r' then kprintHandling "\n" [] else kprintHandling "%c" [(c.signExtend 32).setWidth 64])
        state done handling' ↔ state.say [Handling.echoMessage c] = handling' := by
    unfold Handling.echoMessage
    split_ifs
    · exact returns_kprintHandling
    · exact returns_kprintHandling
  unfold serialHandleInterrupt serialRead Handling.echo
  simp only [returns_bind, returns_get]
  cases shape : handling.received with
  | nil =>
      constructor
      · rintro ⟨c, state, ⟨_, _, ⟨rfl, rfl⟩, read⟩, printed⟩
        rw [shape] at read
        obtain ⟨rfl, rfl⟩ := (returns_pure _ _ _ _).mp read
        exact (print _ _).mp printed
      · intro echoed
        refine ⟨handling.lastReceived, handling, ⟨handling, handling, ⟨rfl, rfl⟩, ?_⟩, (print _ _).mpr echoed⟩
        rw [shape]
        exact (returns_pure _ _ _ _).mpr ⟨rfl, rfl⟩
  | cons c received =>
      constructor
      · rintro ⟨found, state, ⟨_, _, ⟨rfl, rfl⟩, read⟩, printed⟩
        rw [shape] at read
        obtain ⟨_, middle, taken, read⟩ := (returns_bind _ _ _ _ _).mp read
        obtain ⟨rfl, rfl⟩ := (returns_pure _ _ _ _).mp read
        obtain rfl := (returns_modify _ _ _ _).mp taken
        exact (print _ _).mp printed
      · intro echoed
        refine ⟨c, _, ⟨handling, handling, ⟨rfl, rfl⟩, ?_⟩, (print _ _).mpr echoed⟩
        rw [shape]
        exact (returns_bind _ _ _ _ _).mpr ⟨(), _, (returns_modify _ _ _ _).mpr rfl, (returns_pure _ _ _ _).mpr ⟨rfl, rfl⟩⟩

/-- The echo changes no machine. -/
theorem echo_machine : handling.echo.ps2.machine = handling.ps2.machine := by
  unfold Handling.echo
  split <;> rfl

theorem returns_lapicEoi : Returns lapicEoi handling done handling' ↔
    handling.ps2.machine.LapicReady ∧ handling.endService = handling' := by
  have inside : lapicRegisterIdxEoi ≤ lapicRegisterMax := by decide
  simp only [lapicEoi, returns_bind, returns_liftHandling, returns_liftPs2, returns_lapicWrite, returns_modify]
  constructor
  · rintro ⟨_, _, ⟨_, ⟨_, ⟨_, ready, rfl⟩, rfl⟩, rfl⟩, rfl⟩
    exact ⟨ready, rfl⟩
  · rintro ⟨ready, rfl⟩
    exact ⟨(), _, ⟨_, ⟨_, ⟨inside, ready, rfl⟩, rfl⟩, rfl⟩, rfl⟩

/-- The vectors of the legacy controllers and the spurious vector are no vectors of the devices. -/
theorem not_device_of_legacy : ∀ vector : BitVec 8, legacyPicVector idtIdxLegacyPicMasterBase vector ∨
    legacyPicVector idtIdxLegacyPicSlaveBase vector ∨ vector = idtIdxLapicSpurious ∨ vector = idtIdxExceptionBp →
      vector ∉ deviceVectors ∧ vector ≠ idtIdxIsaBase + irqCom1 := by
  decide +kernel

/-- The handler returns exactly for the answered vectors. A vector of a device needs a local APIC that is ready. -/
theorem returns_interruptHandler : Returns (interruptHandler timing vector stackFrame) handling done handling' ↔
    Answered vector ∧ (vector ∈ deviceVectors → handling.ps2.machine.LapicReady) ∧
      handling.answered timing vector stackFrame = handling' := by
  have plain (legacy : vector ∉ deviceVectors ∧ vector ≠ idtIdxIsaBase + irqCom1) (answered : Answered vector) :
      handling.enforced.say (Handling.vectorMessages vector stackFrame) = handling' ↔
        Answered vector ∧ (vector ∈ deviceVectors → handling.ps2.machine.LapicReady) ∧
          handling.answered timing vector stackFrame = handling' := by
    rw [Handling.answered, if_neg legacy.2, if_neg legacy.1]
    exact ⟨fun same => ⟨answered, fun device => absurd device legacy.1, same⟩, fun given => given.2.2⟩
  have device (member : vector ∈ deviceVectors) {first : HandlingProgram Unit} {target : Handling}
      (ran : ∀ nothing state, Returns first handling.enforced nothing state ↔ target = state)
      (same : target.ps2.machine = handling.ps2.machine)
      (finish : handling.answered timing vector stackFrame = target.endService) :
      Returns (first >>= fun _ => lapicEoi) handling.enforced done handling' ↔
        Answered vector ∧ (vector ∈ deviceVectors → handling.ps2.machine.LapicReady) ∧
          handling.answered timing vector stackFrame = handling' := by
    have answered : Answered vector := Or.inr (Or.inr (Or.inr (Or.inl member)))
    simp only [returns_bind, ran, exists_const, exists_eq_left', returns_lapicEoi, same, finish, answered, member,
      true_and, true_implies]
  unfold interruptHandler
  simp only [returns_bind _ _ handling, returns_enforceSmap, exists_eq_left', exists_const]
  by_cases breakpoint : vector = idtIdxExceptionBp
  · rw [if_pos breakpoint, ← plain (not_device_of_legacy _ (by tauto)) (Or.inl breakpoint)]
    simp only [returns_bind, dumpInterruptFrame, returns_kprintLines, returns_kprintHandling, exists_const,
      exists_eq_left', Handling.vectorMessages, if_pos breakpoint]
    simp [Handling.say]
  rw [if_neg breakpoint]
  by_cases fault : vector = idtIdxExceptionPf
  · have unanswered : ¬ Answered vector := by
      rw [fault]
      decide
    simp only [if_pos fault, returns_bind, returns_throw, and_false, exists_false, unanswered, false_and]
  rw [if_neg fault]
  by_cases master : legacyPicVector idtIdxLegacyPicMasterBase vector
  · rw [if_pos master, ← plain (not_device_of_legacy _ (by tauto)) (by unfold Answered; tauto), returns_kprintHandling,
      Handling.vectorMessages, if_neg breakpoint, if_pos master]
  rw [if_neg master]
  by_cases slave : legacyPicVector idtIdxLegacyPicSlaveBase vector
  · rw [if_pos slave, ← plain (not_device_of_legacy _ (by tauto)) (by unfold Answered; tauto), returns_kprintHandling,
      Handling.vectorMessages, if_neg breakpoint, if_neg master, if_pos slave]
  rw [if_neg slave]
  by_cases kb : vector = idtIdxIsaBase + irqKb
  · have member : vector ∈ deviceVectors := by simp [deviceVectors, kb]
    have other : vector ≠ idtIdxIsaBase + irqCom1 := by rw [kb]; decide
    rw [if_pos kb]
    exact device member (fun _ _ => returns_ps2HandlePort1Interrupt) rfl
      (by rw [Handling.answered, if_neg other, if_pos member])
  rw [if_neg kb]
  by_cases serial : vector = idtIdxIsaBase + irqCom1
  · have member : vector ∈ deviceVectors := by simp [deviceVectors, serial]
    rw [if_pos serial]
    exact device member (fun _ _ => returns_serialHandleInterrupt) echo_machine
      (by rw [Handling.answered, if_pos serial])
  rw [if_neg serial]
  by_cases mouse : vector = idtIdxIsaBase + irqMouse
  · have member : vector ∈ deviceVectors := by simp [deviceVectors, mouse]
    rw [if_pos mouse]
    exact device member (fun _ _ => returns_ps2HandlePort2Interrupt) rfl
      (by rw [Handling.answered, if_neg serial, if_pos member])
  rw [if_neg mouse]
  by_cases spurious : vector = idtIdxLapicSpurious
  · rw [if_pos spurious, ← plain (not_device_of_legacy _ (by tauto)) (by unfold Answered; tauto), returns_kprintHandling,
      Handling.vectorMessages, if_neg breakpoint, if_neg master, if_neg slave]
  · have unanswered : ¬ Answered vector := by
      unfold Answered
      simp only [deviceVectors, List.mem_cons, List.not_mem_nil, or_false]
      tauto
    simp only [if_neg spurious, returns_bind, returns_throw, and_false, exists_false, unanswered, false_and]

/-- The messages of a dump. -/
def dumpLog (stackFrame : StackFrame) : List (String × List (BitVec 64)) :=
  stackFrame.lines.map fun line => (line.1, [line.2])

/-- The panic of a vector without an answer. -/
def Handling.panic (handling : Handling) (vector : BitVec 8) : Stop :=
  if vector = idtIdxExceptionPf then .panic "Unhandled #PF at 0x%lx" [handling.cr2] else unhandledVector vector

/-- A vector without an answer stops the kernel after the dump. -/
theorem stops_interruptHandler (unanswered : ¬ Answered vector) :
    Stops (interruptHandler timing vector stackFrame) handling (handling.panic vector)
      (handling.enforced.say (dumpLog stackFrame)) := by
  unfold Answered at unanswered
  simp only [deviceVectors, List.mem_cons, List.not_mem_nil, or_false, not_or] at unanswered
  obtain ⟨breakpoint, master, slave, ⟨kb, serial, mouse⟩, spurious⟩ := unanswered
  unfold interruptHandler Handling.panic
  refine (stops_bind _ _ _ _ _).mpr (Or.inr ⟨(), _, returns_enforceSmap.mpr rfl, ?_⟩)
  simp only [if_neg breakpoint, if_neg master, if_neg slave, if_neg kb, if_neg serial, if_neg mouse, if_neg spurious]
  have dump : Returns (dumpInterruptFrame stackFrame) handling.enforced ()
      (handling.enforced.say (dumpLog stackFrame)) := (returns_kprintLines _).mpr rfl
  split_ifs with fault
  · refine (stops_bind _ _ _ _ _).mpr (Or.inr ⟨_, _, (returns_get _ _ _).mpr ⟨rfl, rfl⟩, ?_⟩)
    exact (stops_bind _ _ _ _ _).mpr (Or.inr ⟨(), _, dump, (stops_throw _ _ _ _).mpr ⟨rfl, rfl⟩⟩)
  · exact (stops_bind _ _ _ _ _).mpr (Or.inr ⟨(), _, dump, (stops_throw _ _ _ _).mpr ⟨rfl, rfl⟩⟩)

end Handler

/-- What happens while no handler runs: the serial port receives a character, the local APIC accepts and
delivers a vector of the I/O APIC, or an exception, a non-maskable interrupt or a spurious interrupt is delivered without
being in service. -/
inductive InterruptEvent where
  | receive (c : BitVec 8)
  | deliver (vector : BitVec 8) (stackFrame : StackFrame)
  | direct (vector : BitVec 8) (stackFrame : StackFrame)

namespace InterruptEvent

/-- A character that finds the receive buffer full is lost. -/
def handle (timing : Ps2Timing) : InterruptEvent → HandlingProgram Unit
  | receive c => modify fun handling =>
      if handling.received.length < serialFifoSize then { handling with received := handling.received ++ [c] } else handling
  | deliver vector stackFrame => do
      modify fun handling => { handling with inService := vector :: handling.inService }
      interruptHandler timing vector stackFrame
  | direct vector stackFrame => interruptHandler timing vector stackFrame

/-- The local APIC accepts the vectors of the open pins. Everything else comes directly, also the non-maskable interrupts
of the pins, and it has no vector of a device. -/
def Arises (device : Ioapic) : InterruptEvent → Prop
  | receive _ => True
  | deliver vector _ => device.Delivers vector ∧ vector ≠ idtIdxExceptionNmi
  | direct vector _ => vector ∉ deviceVectors

/-- The handler returns from the event. -/
def IsAnswered : InterruptEvent → Prop
  | receive _ => True
  | deliver vector _ => Answered vector
  | direct vector _ => Answered vector

/-- The event is an interrupt of the keyboard or of the mouse. -/
def IsInput : InterruptEvent → Prop
  | deliver vector _ => vector = idtIdxIsaBase + irqKb ∨ vector = idtIdxIsaBase + irqMouse
  | _ => False

instance : (event : InterruptEvent) → Decidable event.IsInput
  | receive _ => inferInstanceAs (Decidable False)
  | deliver _ _ => inferInstanceAs (Decidable (_ ∨ _))
  | direct _ _ => inferInstanceAs (Decidable False)

end InterruptEvent

/-- The handlers leave the machine as it is, except for the register that ends the service. -/
structure SameButEoi (before after : Machine) : Prop where
  rest : after = { before with lapic := after.lapic }
  registers : ∀ reg, reg ≠ lapicRegisterIdxEoi → after.lapic reg = before.lapic reg

/-- After some events, nothing more is in service than before them, and the data port has been read once for each
interrupt of the keyboard and of the mouse. -/
structure AllServed (before : Handling) (events : List InterruptEvent) (after : Handling) : Prop where
  inService : after.inService = before.inService
  machine : SameButEoi before.ps2.machine after.ps2.machine
  accesses : after.ps2.accesses = before.ps2.accesses + events.countP fun event => event.IsInput

section Run

variable {timing : Ps2Timing} {before handling handling' : Handling} {events : List InterruptEvent} {event : InterruptEvent}

theorem SameButEoi.ready {first second : Machine} (same : SameButEoi first second) (ready : first.LapicReady) :
    second.LapicReady := by
  rw [same.rest]
  exact ready

theorem SameButEoi.storeEoi {first second : Machine} (same : SameButEoi first second) (value : BitVec 32) :
    SameButEoi first (second.storeLapic lapicRegisterIdxEoi value) where
  rest := by
    rw [same.rest]
    rfl
  registers reg other := (if_neg other).trans (same.registers reg other)

/-- The echo changes neither the vectors in service nor the number of accesses. -/
theorem echo_kept (handling : Handling) :
    handling.echo.inService = handling.inService ∧ handling.echo.ps2.accesses = handling.ps2.accesses := by
  unfold Handling.echo
  split
  · exact ⟨rfl, rfl⟩
  · exact ⟨rfl, rfl⟩

/-- The handler of a device ends the service once, and it reads the data port only for the keyboard and the mouse. -/
theorem answered_device {vector : BitVec 8} (member : vector ∈ deviceVectors) (stackFrame : StackFrame)
    (handling : Handling) :
    (handling.answered timing vector stackFrame).inService = handling.inService.tail ∧
      (handling.answered timing vector stackFrame).ps2.machine =
        handling.ps2.machine.storeLapic lapicRegisterIdxEoi 0 ∧
      (handling.answered timing vector stackFrame).ps2.accesses =
        handling.ps2.accesses + if vector = idtIdxIsaBase + irqCom1 then 0 else 1 := by
  unfold Handling.answered
  split_ifs
  · obtain ⟨service, accesses⟩ := echo_kept handling.enforced
    refine ⟨congrArg List.tail service, ?_, accesses⟩
    exact congrArg (fun machine : Machine => machine.storeLapic lapicRegisterIdxEoi 0) (@echo_machine handling.enforced)
  · exact ⟨rfl, rfl, rfl⟩

/-- A delivered vector of a device is served: it leaves the service again, and only its own device is read. -/
theorem AllServed.deliver {vector : BitVec 8} (stackFrame : StackFrame) (served : AllServed before events handling)
    (member : vector ∈ deviceVectors) (ready : before.ps2.machine.LapicReady) :
    ∃ after, Returns ((InterruptEvent.deliver vector stackFrame).handle timing) handling () after ∧
      AllServed before (events ++ [.deliver vector stackFrame]) after := by
  have entered : Returns (modify fun handling : Handling => { handling with inService := vector :: handling.inService } :
      HandlingProgram Unit) handling () { handling with inService := vector :: handling.inService } :=
    (returns_modify _ _ _ _).mpr rfl
  have answered : Answered vector := Or.inr (Or.inr (Or.inr (Or.inl member)))
  obtain ⟨service, machine, accesses⟩ := @answered_device timing vector member stackFrame
    { handling with inService := vector :: handling.inService }
  refine ⟨_, (returns_bind _ _ _ _ _).mpr ⟨(), _, entered, returns_interruptHandler.mpr
    ⟨answered, fun _ => served.machine.ready ready, rfl⟩⟩, service.trans served.inService, ?_, ?_⟩
  · rw [machine]
    exact served.machine.storeEoi 0
  · have count : (if vector = idtIdxIsaBase + irqCom1 then 0 else 1) =
        [InterruptEvent.deliver vector stackFrame].countP fun event => event.IsInput := by
      simp only [deviceVectors, List.mem_cons, List.not_mem_nil, or_false] at member
      rcases member with rfl | rfl | rfl <;> rfl
    rw [accesses, count, List.countP_append, ← Nat.add_assoc]
    exact congrArg (· + _) served.accesses

/-- Any other event leaves the machine and the vectors in service alone. -/
theorem AllServed.other (served : AllServed before events handling)
    (event : InterruptEvent) (arises : ∀ vector stackFrame, event = .direct vector stackFrame →
      Answered vector ∧ vector ∉ deviceVectors) (undelivered : ∀ vector stackFrame, event ≠ .deliver vector stackFrame) :
    ∃ after, Returns (event.handle timing) handling () after ∧ AllServed before (events ++ [event]) after := by
  cases event with
  | receive c =>
      refine ⟨_, (returns_modify _ _ _ _).mpr rfl, ?_⟩
      split_ifs
      all_goals
        refine ⟨served.inService, served.machine, ?_⟩
        rw [List.countP_append]
        exact served.accesses
  | deliver vector stackFrame => exact absurd rfl (undelivered vector stackFrame)
  | direct vector stackFrame =>
      obtain ⟨answered, outside⟩ := arises vector stackFrame rfl
      have other : vector ≠ idtIdxIsaBase + irqCom1 := by
        rintro rfl
        exact outside (by decide)
      have after : handling.answered timing vector stackFrame =
          handling.enforced.say (Handling.vectorMessages vector stackFrame) := by
        rw [Handling.answered, if_neg other, if_neg outside]
      refine ⟨_, returns_interruptHandler.mpr ⟨answered, fun device => absurd device outside, rfl⟩, ?_⟩
      rw [after]
      refine ⟨served.inService, served.machine, ?_⟩
      rw [List.countP_append]
      exact served.accesses

/-- A run of answered events that arise from a served device returns, and nothing stays in service. -/
theorem events_served (pins : handling.ps2.machine.ioapic.Served) (ready : handling.ps2.machine.LapicReady)
    (events : List InterruptEvent) (arise : ∀ event ∈ events, event.Arises handling.ps2.machine.ioapic)
    (answered : ∀ event ∈ events, event.IsAnswered) :
    ∃ after, Returns (events.forM fun event => event.handle timing) handling () after ∧ AllServed handling events after := by
  refine forM_returns (fun handled state => AllServed handling handled state) ⟨rfl, ⟨rfl, fun _ _ => rfl⟩, rfl⟩ ?_
  intro handled event state member served
  have here := arise event member
  have known := answered event member
  cases event with
  | receive c => exact served.other _ (fun _ _ same => by cases same) (fun _ _ same => by cases same)
  | deliver vector stackFrame =>
      obtain ⟨delivers, maskable⟩ := here
      exact served.deliver stackFrame ((pins.delivers delivers).resolve_right maskable) ready
  | direct vector stackFrame =>
      exact served.other _ (fun _ _ same => by cases same; exact ⟨known, here⟩) (fun _ _ same => by cases same)

/-- An event without an answer comes directly. -/
theorem InterruptEvent.Arises.direct_of_unanswered {device : Ioapic} (pins : device.Served) (arises : event.Arises device)
    (unanswered : ¬ event.IsAnswered) : ∃ vector stackFrame, event = .direct vector stackFrame ∧ ¬ Answered vector := by
  cases event with
  | receive c => exact absurd trivial unanswered
  | deliver vector stackFrame =>
      obtain ⟨delivers, maskable⟩ := arises
      have member := (pins.delivers delivers).resolve_right maskable
      exact absurd (Or.inr (Or.inr (Or.inr (Or.inl member)))) unanswered
  | direct vector stackFrame => exact ⟨vector, stackFrame, rfl, unanswered⟩

/-- The first event without an answer stops the kernel with the panic of its vector, and the events before it are
served. -/
theorem events_stop (pins : handling.ps2.machine.ioapic.Served) (ready : handling.ps2.machine.LapicReady)
    {earlier later : List InterruptEvent}
    (arise : ∀ found ∈ earlier ++ event :: later, found.Arises handling.ps2.machine.ioapic)
    (answered : ∀ event ∈ earlier, event.IsAnswered) (unanswered : ¬ event.IsAnswered) :
    ∃ vector stackFrame served, event = .direct vector stackFrame ∧
      Returns (earlier.forM fun event => event.handle timing) handling () served ∧ AllServed handling earlier served ∧
      Stops ((earlier ++ event :: later).forM fun event => event.handle timing) handling (served.panic vector)
        (served.enforced.say (dumpLog stackFrame)) := by
  obtain ⟨vector, stackFrame, rfl, unknown⟩ := (arise event (by simp)).direct_of_unanswered pins unanswered
  have before := fun found member => arise found (List.mem_append_left _ member)
  obtain ⟨served, returned, all⟩ := events_served pins ready earlier before answered
  refine ⟨vector, stackFrame, served, rfl, returned, all, ?_⟩
  rw [forM_append]
  refine (stops_bind _ _ _ _ _).mpr (Or.inr ⟨(), served, returned, ?_⟩)
  exact (stops_bind _ _ _ _ _).mpr (Or.inl (stops_interruptHandler unknown))

end Run

/-- The interrupted program of the samples has only zeros in its registers. -/
def sampleFrame : StackFrame := ⟨0, 0, 0, 0, 0, 0, 0, 0, 0, 0, 0, 0, 0, 0, 0, 0⟩

end UmbralOS
