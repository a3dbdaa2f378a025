import UmbralOS.Kernel.Madt

/-!
This file gives the effect of each interrupt driver on the machine.
-/

namespace UmbralOS

open Library

/-- A register of the device gets a value through the data window. -/
def Ioapic.store (device : Ioapic) (reg : BitVec 8) (value : BitVec 32) : Ioapic :=
  { device with select := reg }.write value

/-- Two registers get the low half and the high half of a value. -/
def Ioapic.store64 (device : Ioapic) (reg : BitVec 8) (value : BitVec 64) : Ioapic :=
  (device.store reg (value.setWidth 32)).store (reg + 1) ((value >>> 32).setWidth 32)

/-- The version register holds the number of the last redirection entry. -/
def Ioapic.maxEntry (device : Ioapic) : Nat := device.version.toNat / 2 ^ 16 % 2 ^ 8

section Ioapic

variable (device : Ioapic) (reg : BitVec 8) (value : BitVec 32) (word : BitVec 64)

@[simp] theorem Ioapic.store_registers (found : BitVec 8) :
    (device.store reg value).registers found = if found = reg then value else device.registers found := rfl

@[simp] theorem Ioapic.store_written : (device.store reg value).written = device.written ++ [(reg, value)] := rfl

@[simp] theorem Ioapic.store64_version : (device.store64 reg word).version = device.version := rfl

theorem Ioapic.store64_registers (found : BitVec 8) : (device.store64 reg word).registers found =
    if found = reg + 1 then (word >>> 32).setWidth 32
    else if found = reg then word.setWidth 32 else device.registers found := by
  rw [store64, store_registers, store_registers]

theorem Ioapic.store64_written : (device.store64 reg word).written =
    device.written ++ [(reg, word.setWidth 32), (reg + 1, (word >>> 32).setWidth 32)] := by
  rw [store64, store_written, store_written, List.append_assoc, List.singleton_append]

end Ioapic

/-- The machine after the choice of a register. -/
def Machine.selectIoapic (machine : Machine) (reg : BitVec 8) : Machine :=
  { machine with ioapic := { machine.ioapic with select := reg } }

/-- The machine after a write of a register pair. -/
def Machine.storeIoapic (machine : Machine) (reg : BitVec 8) (word : BitVec 64) : Machine :=
  { machine with ioapic := machine.ioapic.store64 reg word }

section Access

variable {machine machine' : Machine} {done : Unit} {reason : Stop} {reg : BitVec 8} {value : BitVec 32}
  {word : BitVec 64}

theorem returns_ioapicSelect : Returns (ioapicSelect reg) machine done machine' ↔ machine.ioapicBase ≠ 0 ∧
    machine.selectIoapic reg = machine' := by
  simp only [ioapicSelect, ioapicAccess, returns_bind, returns_get, returns_stopIf, returns_modify]
  constructor
  · intro returned
    obtain ⟨_, _, ⟨_, _, ⟨rfl, rfl⟩, mapped, rfl⟩, rfl⟩ := returned
    exact ⟨mapped, rfl⟩
  · intro given
    obtain ⟨mapped, rfl⟩ := given
    exact ⟨(), machine, ⟨machine, machine, ⟨rfl, rfl⟩, mapped, rfl⟩, rfl⟩

theorem stops_ioapicSelect : Stops (ioapicSelect reg) machine reason machine' ↔
    machine.ioapicBase = 0 ∧ Stop.nullAccess = reason ∧ machine = machine' := by
  simp only [ioapicSelect, ioapicAccess, stops_bind, stops_get, stops_stopIf, returns_get, stops_modify, and_false,
    exists_false, or_false, false_or]
  constructor
  · intro stopped
    obtain ⟨_, _, ⟨rfl, rfl⟩, null⟩ := stopped
    exact null
  · intro null
    exact ⟨machine, machine, ⟨rfl, rfl⟩, null⟩

theorem returns_ioapicWrite32 : Returns (ioapicWrite32 reg value) machine done machine' ↔
    machine.ioapicBase ≠ 0 ∧ { machine with ioapic := machine.ioapic.store reg value } = machine' := by
  simp only [ioapicWrite32, returns_bind, returns_ioapicSelect, returns_modify]
  constructor
  · intro returned
    obtain ⟨_, _, ⟨mapped, rfl⟩, rfl⟩ := returned
    exact ⟨mapped, rfl⟩
  · intro given
    obtain ⟨mapped, rfl⟩ := given
    exact ⟨(), _, ⟨mapped, rfl⟩, rfl⟩

theorem stops_ioapicWrite32 : Stops (ioapicWrite32 reg value) machine reason machine' ↔
    machine.ioapicBase = 0 ∧ Stop.nullAccess = reason ∧ machine = machine' := by
  simp only [ioapicWrite32, stops_bind, stops_ioapicSelect, stops_modify, and_false, exists_false, or_false]

/-- A register pair is written through a base that is set. -/
theorem returns_ioapicWrite64 : Returns (ioapicWrite64 reg word) machine done machine' ↔
    machine.ioapicBase ≠ 0 ∧ machine.storeIoapic reg word = machine' := by
  simp only [ioapicWrite64, returns_bind, returns_ioapicWrite32]
  constructor
  · intro returned
    obtain ⟨_, _, ⟨mapped, rfl⟩, _, rfl⟩ := returned
    exact ⟨mapped, rfl⟩
  · intro given
    obtain ⟨mapped, rfl⟩ := given
    exact ⟨(), _, ⟨mapped, rfl⟩, mapped, rfl⟩

/-- A write through the null base faults. -/
theorem stops_ioapicWrite64 : Stops (ioapicWrite64 reg word) machine reason machine' ↔
    machine.ioapicBase = 0 ∧ Stop.nullAccess = reason ∧ machine = machine' := by
  simp only [ioapicWrite64, stops_bind, stops_ioapicWrite32, returns_ioapicWrite32]
  constructor
  · rintro (first | ⟨_, _, ⟨mapped, rfl⟩, null, _⟩)
    · exact first
    · exact absurd null mapped
  · exact Or.inl

theorem returns_isaIndex {irq : BitVec 8} {index : Fin 16} :
    Returns (isaIndex irq) machine index machine' ↔ irq.toNat = index ∧ machine = machine' := by
  unfold isaIndex
  split_ifs with inside
  · rw [returns_pure, Fin.ext_iff]
  · simp only [returns_throw, false_iff, not_and]
    intro same
    exact absurd (same ▸ index.isLt) inside

theorem stops_isaIndex {irq : BitVec 8} : Stops (isaIndex irq) machine reason machine' ↔
    16 ≤ irq.toNat ∧ Stop.outOfBounds irq.toNat = reason ∧ machine = machine' := by
  unfold isaIndex
  split_ifs with inside
  · simp only [stops_pure, false_iff, not_and]
    intro large
    omega
  · rw [stops_throw]
    simp only [not_lt.mp inside, true_and]

end Access

/-- The value that an enabled interrupt writes to its redirection entry. -/
def enableValue (irq : BitVec 8) (entry : RedirectionEntry) : BitVec 32 :=
  let value := (irq + idtIdxIsaBase).setWidth 32
  let value := if entry.isActiveLow then value ||| ioapicRedirTblPolarity else value
  if entry.isLevelTriggered then value ||| ioapicRedirTblTrigger else value

/-- The value that a non-maskable source writes to its redirection entry. -/
def nmiValue (flags : BitVec 16) : BitVec 32 :=
  let value := ioapicRedirTblDeliveryNmi
  let value := if flagsPolarity flags ≠ 0 then value ||| ioapicRedirTblPolarity else value
  if flagsTrigger flags ≠ 0 then value ||| ioapicRedirTblTrigger else value

/-- The device after the loop that masks the first entries. -/
def Ioapic.maskBelow (device : Ioapic) : Nat → Ioapic
  | 0 => device
  | count + 1 => (device.maskBelow count).store64 (ioapicRedirTblAddr ((BitVec.ofNat 8 count).setWidth 32))
      (ioapicRedirTblMasked.setWidth 64)

/-- The machine after the loop that masks the first entries. -/
def Machine.maskIoapic (machine : Machine) (count : Nat) : Machine :=
  { machine with ioapic := machine.ioapic.maskBelow count }

section Drivers

variable {machine machine' : Machine} {done : Unit} {reason : Stop}

/-- An enabled interrupt writes the entry of its destination. -/
theorem returns_ioapicEnableIsaInterrupt {irq : BitVec 8} :
    Returns (ioapicEnableIsaInterrupt irq) machine done machine' ↔ machine.ioapicBase ≠ 0 ∧
      ∃ index : Fin 16, irq.toNat = index ∧ machine.storeIoapic
        (ioapicRedirTblAddr ((machine.isaRedirectionEntry index).destination.setWidth 32))
        ((enableValue irq (machine.isaRedirectionEntry index)).setWidth 64) = machine' := by
  simp only [ioapicEnableIsaInterrupt, returns_bind, returns_isaIndex, returns_get, returns_ioapicWrite64]
  constructor
  · intro returned
    obtain ⟨index, _, ⟨same, rfl⟩, _, _, ⟨rfl, rfl⟩, mapped, rfl⟩ := returned
    exact ⟨mapped, index, same, rfl⟩
  · intro given
    obtain ⟨mapped, index, same, rfl⟩ := given
    exact ⟨index, machine, ⟨same, rfl⟩, machine, machine, ⟨rfl, rfl⟩, mapped, rfl⟩

/-- An enable call for an ISA interrupt writes through a base that is set. -/
theorem returns_enable {irq : Fin 16} :
    Returns (ioapicEnableIsaInterrupt (BitVec.ofNat 8 irq)) machine done machine' ↔ machine.ioapicBase ≠ 0 ∧
      machine.storeIoapic (ioapicRedirTblAddr ((machine.isaRedirectionEntry irq).destination.setWidth 32))
        ((enableValue (BitVec.ofNat 8 irq) (machine.isaRedirectionEntry irq)).setWidth 64) = machine' := by
  have number : (BitVec.ofNat 8 (irq : Nat)).toNat = irq := by
    have small := irq.isLt
    rw [BitVec.toNat_ofNat]
    omega
  rw [returns_ioapicEnableIsaInterrupt, number]
  constructor
  · intro returned
    obtain ⟨based, index, same, stored⟩ := returned
    rw [← Fin.ext same] at stored
    exact ⟨based, stored⟩
  · intro given
    obtain ⟨based, stored⟩ := given
    exact ⟨based, irq, rfl, stored⟩

/-- A non-maskable source writes the entry of its interrupt number. -/
theorem returns_ioapicInitNmisource {record : MadtNmiSource} :
    Returns (ioapicInitNmisource record) machine done machine' ↔ machine.ioapicBase ≠ 0 ∧
      machine.storeIoapic (ioapicRedirTblAddr record.globalSystemInterrupt) ((nmiValue record.flags).setWidth 64) =
        machine' :=
  returns_ioapicWrite64

theorem stops_ioapicInitNmisource {record : MadtNmiSource} : Stops (ioapicInitNmisource record) machine reason machine' ↔
    machine.ioapicBase = 0 ∧ Stop.nullAccess = reason ∧ machine = machine' :=
  stops_ioapicWrite64

/-- The machine after an override: one entry of the table changes. -/
def Machine.overrideIsa (machine : Machine) (madtOverride : MadtInterruptSourceOverride) : Machine :=
  { machine with isaRedirectionEntry := fun irq =>
      if madtOverride.irqSource.toNat = irq then madtOverride.entry else machine.isaRedirectionEntry irq }

/-- An override of the ISA bus changes the entry of its interrupt. -/
theorem returns_ioapicInitSourceOverride {madtOverride : MadtInterruptSourceOverride} :
    Returns (ioapicInitSourceOverride madtOverride) machine done machine' ↔ madtOverride.busSource = 0 ∧
      madtOverride.irqSource.toNat < 16 ∧ machine.overrideIsa madtOverride = machine' := by
  have same : ∀ index : Fin 16, madtOverride.irqSource.toNat = index →
      ({ machine with isaRedirectionEntry := fun found =>
          if found = index then madtOverride.entry else machine.isaRedirectionEntry found } : Machine) =
        machine.overrideIsa madtOverride := by
    intro index number
    unfold Machine.overrideIsa
    congr 1
    funext irq
    simp only [number, Fin.ext_iff, eq_comm]
  simp only [ioapicInitSourceOverride, returns_bind, returns_panicIf, ne_eq, not_not, returns_isaIndex, returns_modify]
  constructor
  · intro returned
    obtain ⟨_, _, ⟨bus, rfl⟩, index, _, ⟨number, rfl⟩, rfl⟩ := returned
    exact ⟨bus, by rw [number]; exact index.isLt, (same index number).symm⟩
  · intro given
    obtain ⟨bus, inside, rfl⟩ := given
    exact ⟨(), machine, ⟨bus, rfl⟩, ⟨_, inside⟩, machine, ⟨rfl, rfl⟩, same ⟨_, inside⟩ rfl⟩

theorem stops_ioapicInitSourceOverride {madtOverride : MadtInterruptSourceOverride} :
    Stops (ioapicInitSourceOverride madtOverride) machine reason machine' ↔ machine = machine' ∧
      (madtOverride.busSource ≠ 0 ∧
          Stop.panic "Unknown MADT Bus %u" [madtOverride.busSource.setWidth 64] = reason ∨
        madtOverride.busSource = 0 ∧ 16 ≤ madtOverride.irqSource.toNat ∧
          Stop.outOfBounds madtOverride.irqSource.toNat = reason) := by
  simp only [ioapicInitSourceOverride, stops_bind, stops_panicIf, returns_panicIf, stops_isaIndex, stops_modify,
    and_false, exists_false, or_false, ne_eq, not_not]
  constructor
  · rintro (⟨bus, same, rfl⟩ | ⟨_, _, ⟨bus, rfl⟩, large, same, rfl⟩)
    · exact ⟨rfl, Or.inl ⟨bus, same⟩⟩
    · exact ⟨rfl, Or.inr ⟨bus, large, same⟩⟩
  · rintro ⟨rfl, ⟨bus, same⟩ | ⟨bus, large, same⟩⟩
    · exact Or.inl ⟨bus, same, rfl⟩
    · exact Or.inr ⟨(), machine, ⟨bus, rfl⟩, large, same, rfl⟩

theorem returns_ioapicDisableInterrupt {vector : BitVec 8} :
    Returns (ioapicDisableInterrupt vector) machine done machine' ↔ machine.ioapicBase ≠ 0 ∧
      machine.storeIoapic (ioapicRedirTblAddr (vector.setWidth 32)) (ioapicRedirTblMasked.setWidth 64) = machine' :=
  returns_ioapicWrite64

theorem returns_maskLoop (mapped : machine.ioapicBase ≠ 0) {count : Nat} :
    Returns (forRange (fun i _ => ioapicDisableInterrupt (BitVec.ofNat 8 i)) count ()) machine done machine' ↔
      machine.maskIoapic count = machine' := by
  induction count generalizing machine' with
  | zero => simp [forRange, Machine.maskIoapic, Ioapic.maskBelow]
  | succ count ih =>
      simp only [forRange, returns_bind, ih, returns_ioapicDisableInterrupt]
      constructor
      · intro returned
        obtain ⟨_, _, rfl, _, rfl⟩ := returned
        rfl
      · rintro rfl
        exact ⟨(), _, rfl, mapped, rfl⟩

theorem returns_ioapicReadVersion {version : BitVec 32} :
    Returns (ioapicRead32 ioapicver) machine version machine' ↔ machine.ioapicBase ≠ 0 ∧
      machine.ioapic.version = version ∧ machine.selectIoapic ioapicver = machine' := by
  simp only [ioapicRead32, returns_bind, returns_ioapicSelect, returns_get, returns_pure]
  constructor
  · intro returned
    obtain ⟨_, _, ⟨mapped, rfl⟩, _, _, ⟨rfl, rfl⟩, rfl, rfl⟩ := returned
    exact ⟨mapped, rfl, rfl⟩
  · intro given
    obtain ⟨mapped, rfl, rfl⟩ := given
    exact ⟨(), _, ⟨mapped, rfl⟩, _, _, ⟨rfl, rfl⟩, rfl, rfl⟩

theorem toNat_maxEntry (device : Ioapic) :
    (((device.version >>> ioapicverMaxentryShift) &&& 0xFF#32).setWidth 8 : BitVec 8).toNat = device.maxEntry := by
  have mask : device.version.toNat >>> 16 &&& 255 = device.version.toNat >>> 16 % 256 :=
    Nat.and_two_pow_sub_one_eq_mod _ 8
  rw [BitVec.toNat_setWidth, BitVec.toNat_and, BitVec.toNat_ushiftRight, ioapicverMaxentryShift,
    show (0xFF#32).toNat = 255 from rfl, mask, Nat.shiftRight_eq_div_pow, Ioapic.maxEntry]
  omega

/-- The driver masks the entries below the last when the device has enough pins. -/
theorem returns_maskPins :
    Returns (do
        let version ← ioapicRead32 ioapicver
        let numIoapicEntries : BitVec 8 := ((version >>> ioapicverMaxentryShift) &&& 0xFF#32).setWidth 8
        panicIf (numIoapicEntries < 16#8) "I/O APIC has too few pins to cover all ISA IRQs" []
        forRange (fun i _ => ioapicDisableInterrupt (BitVec.ofNat 8 i)) numIoapicEntries.toNat ()) machine done machine' ↔
      machine.ioapicBase ≠ 0 ∧ 16 ≤ machine.ioapic.maxEntry ∧
      (machine.selectIoapic ioapicver).maskIoapic machine.ioapic.maxEntry = machine' := by
  have count := toNat_maxEntry machine.ioapic
  have pins : ¬ ((machine.ioapic.version >>> ioapicverMaxentryShift) &&& 0xFF#32).setWidth 8 < 16#8 ↔
      16 ≤ machine.ioapic.maxEntry := by
    rw [BitVec.lt_def, count, not_lt]
    rfl
  simp only [returns_bind, returns_ioapicReadVersion, returns_panicIf]
  constructor
  · intro returned
    obtain ⟨_, _, ⟨mapped, rfl, rfl⟩, _, _, ⟨enough, rfl⟩, masked⟩ := returned
    rw [count, @returns_maskLoop (machine.selectIoapic ioapicver) _ _ mapped] at masked
    exact ⟨mapped, pins.mp enough, masked⟩
  · intro given
    obtain ⟨mapped, enough, masked⟩ := given
    refine ⟨_, _, ⟨mapped, rfl, rfl⟩, (), _, ⟨pins.mpr enough, rfl⟩, ?_⟩
    rw [count, @returns_maskLoop (machine.selectIoapic ioapicver) _ _ mapped]
    exact masked

/-- The machine after the mapping of the I/O APIC registers. -/
def Machine.mapIoapic (machine : Machine) (record : MadtIoapic) (mm : Mm) : Machine :=
  { machine with mm := mm, ioapicBase := machine.mm.pHHDM + record.address.setWidth 64 }

/-- The machine after an accepted I/O APIC: its registers are mapped, and the entries below the last are masked. -/
def Machine.withIoapic (machine : Machine) (record : MadtIoapic) (mm : Mm) : Machine :=
  ((machine.mapIoapic record mm).selectIoapic ioapicver).maskIoapic machine.ioapic.maxEntry

/-- The driver accepts the first I/O APIC, without a base interrupt number and with enough pins. -/
theorem returns_ioapicInitRegister {record : MadtIoapic} :
    Returns (ioapicInitRegister record) machine done machine' ↔
      machine.ioapicBase = 0 ∧ record.globalSystemInterruptBase = 0 ∧ 16 ≤ machine.ioapic.maxEntry ∧
      machine.mm.pHHDM + record.address.setWidth 64 ≠ 0 ∧
      ∃ mm, Returns (vmmMapUnaligned (record.address.setWidth 64) (machine.mm.pHHDM + record.address.setWidth 64)
          0x20 (mCacheUc ||| mW)) machine.mm () mm ∧ machine.withIoapic record mm = machine' := by
  have pins := fun mm => @returns_maskPins (machine.mapIoapic record mm) machine' done
  simp only [returns_bind, returns_panicIf] at pins
  simp only [ioapicInitRegister, returns_bind, returns_get, returns_panicIf, ne_eq, not_not, returns_liftMm,
    returns_phyToVirt, returns_modify]
  constructor
  · rintro ⟨_, _, ⟨rfl, rfl⟩, _, _, ⟨fresh, rfl⟩, _, _, ⟨first, rfl⟩, _, _, ⟨_, ⟨rfl, rfl⟩, rfl⟩,
      _, _, rfl, _, _, ⟨mm, mapped, rfl⟩, masked⟩
    obtain ⟨based, enough, finished⟩ := (pins mm).mp masked
    exact ⟨fresh, first, enough, based, mm, mapped, finished⟩
  · intro given
    obtain ⟨fresh, first, enough, based, mm, mapped, finished⟩ := given
    exact ⟨machine, machine, ⟨rfl, rfl⟩, (), machine, ⟨fresh, rfl⟩, (), machine, ⟨first, rfl⟩, _, _,
      ⟨_, ⟨rfl, rfl⟩, rfl⟩, (), _, rfl, (), _, ⟨mm, mapped, rfl⟩,
      (pins mm).mpr ⟨based, enough, finished⟩⟩

/-- The local APIC is ready when one way of access is set up. -/
def Machine.LapicReady (machine : Machine) : Prop := machine.hasX2apic = true ∨ machine.lapicBase ≠ 0

/-- The machine after a write of a local APIC register. -/
def Machine.storeLapic (machine : Machine) (reg : BitVec 8) (value : BitVec 32) : Machine :=
  { machine with lapic := fun found => if found = reg then value else machine.lapic found }

theorem returns_lapicWrite {reg : BitVec 8} {value : BitVec 32} :
    Returns (lapicWrite reg value) machine done machine' ↔ reg ≤ lapicRegisterMax ∧ machine.LapicReady ∧
      machine.storeLapic reg value = machine' := by
  have ready : ¬ (machine.hasX2apic = false ∧ machine.lapicBase = 0) ↔ machine.LapicReady := by
    unfold Machine.LapicReady
    rw [not_and_or, Bool.not_eq_false]
  simp only [lapicWrite, returns_bind, returns_panicIf, returns_get, returns_stopIf, returns_modify, BitVec.not_lt]
  constructor
  · intro returned
    obtain ⟨_, _, ⟨inside, rfl⟩, _, _, ⟨rfl, rfl⟩, _, _, ⟨access, rfl⟩, rfl⟩ := returned
    exact ⟨inside, ready.mp access, rfl⟩
  · intro given
    obtain ⟨inside, access, rfl⟩ := given
    exact ⟨(), machine, ⟨inside, rfl⟩, machine, machine, ⟨rfl, rfl⟩, (), machine, ⟨ready.mpr access, rfl⟩, rfl⟩

theorem stops_lapicWrite {reg : BitVec 8} {value : BitVec 32} (inside : reg ≤ lapicRegisterMax) :
    Stops (lapicWrite reg value) machine reason machine' ↔
      ¬ machine.LapicReady ∧ Stop.nullAccess = reason ∧ machine = machine' := by
  have ready : machine.hasX2apic = false ∧ machine.lapicBase = 0 ↔ ¬ machine.LapicReady := by
    unfold Machine.LapicReady
    rw [not_or, Bool.not_eq_true, not_not]
  have small : ¬ lapicRegisterMax < reg := BitVec.not_lt.mpr inside
  simp only [lapicWrite, stops_bind, stops_panicIf, returns_panicIf, stops_get, returns_get, stops_stopIf, stops_modify,
    small, false_and, and_false, exists_false, or_false, false_or, not_false_eq_true, true_and]
  constructor
  · intro stopped
    obtain ⟨_, _, rfl, _, _, ⟨rfl, rfl⟩, missing, same⟩ := stopped
    exact ⟨ready.mp missing, same⟩
  · intro given
    obtain ⟨missing, same⟩ := given
    exact ⟨(), machine, rfl, machine, machine, ⟨rfl, rfl⟩, ready.mpr missing, same⟩

/-- The machine after a local record: one entry changes when the record applies to the boot processor. -/
def Machine.withLocalNmi (machine : Machine) (record : MadtLocalApicNmi) : Machine :=
  { machine with lapic := fun reg =>
      if record.Applies ∧ reg = record.lvtRegister then record.lvt else machine.lapic reg }

theorem MadtLocalApicNmi.lvtRegister_le (record : MadtLocalApicNmi) : record.lvtRegister ≤ lapicRegisterMax := by
  unfold lvtRegister
  split_ifs <;> decide

/-- A local record writes its entry when it applies to the boot processor. -/
theorem returns_lapicInitNmi {record : MadtLocalApicNmi} :
    Returns (lapicInitNmi record) machine done machine' ↔
      (record.Applies → machine.LapicReady) ∧ machine.withLocalNmi record = machine' := by
  unfold lapicInitNmi Machine.withLocalNmi
  split_ifs with applies
  · rw [returns_lapicWrite]
    simp only [record.lvtRegister_le, applies, true_and, true_implies]
    rfl
  · rw [returns_pure]
    simp only [applies, false_and, if_false, false_implies, true_and]

theorem stops_lapicInitNmi {record : MadtLocalApicNmi} : Stops (lapicInitNmi record) machine reason machine' ↔
    record.Applies ∧ ¬ machine.LapicReady ∧ Stop.nullAccess = reason ∧ machine = machine' := by
  unfold lapicInitNmi
  split_ifs with applies
  · rw [stops_lapicWrite record.lvtRegister_le]
    simp only [applies, true_and]
  · simp only [stops_pure, applies, false_and]

end Drivers

end UmbralOS
