import UmbralOS.Proof.Interrupts.Confinement

/-!
This file compares how the drivers decode the polarity and the trigger mode of a record.
-/

namespace UmbralOS

open Library

/-- The word has the polarity and the trigger mode of the flags, and the vector and the delivery mode of the base. -/
structure DecodesFlags (flags : BitVec 16) (base word : BitVec 32) : Prop where
  polarity : word.getLsbD 13 = true ↔ flags.toNat % 4 = 0b11
  trigger : word.getLsbD 15 = true ↔ flags.toNat / 4 % 4 = 0b11
  delivery : word.extractLsb' 0 11 = base.extractLsb' 0 11

/-- The polarity and the trigger mode of the flags are the default of the bus, or the inverted ones. -/
def PlainFlags (flags : BitVec 16) : Prop :=
  (flags.toNat % 4 = 0 ∨ flags.toNat % 4 = 0b11) ∧ (flags.toNat / 4 % 4 = 0 ∨ flags.toNat / 4 % 4 = 0b11)

instance (flags : BitVec 16) : Decidable (PlainFlags flags) := inferInstanceAs (Decidable (_ ∧ _))

section Words

theorem flagsPolarity_ne_zero_iff (flags : BitVec 16) : flagsPolarity flags ≠ 0 ↔ flags.toNat % 4 ≠ 0 := by
  have mask : flags.toNat &&& 3 = flags.toNat % 4 := Nat.and_two_pow_sub_one_eq_mod _ 2
  rw [flagsPolarity, ne_eq, ← BitVec.toNat_inj, BitVec.toNat_setWidth, BitVec.toNat_and, BitVec.toNat_ushiftRight]
  change ¬ (flags.toNat &&& 3) % 256 = 0 ↔ _
  omega

theorem flagsTrigger_ne_zero_iff (flags : BitVec 16) : flagsTrigger flags ≠ 0 ↔ flags.toNat / 4 % 4 ≠ 0 := by
  have mask : flags.toNat >>> 2 &&& 3 = flags.toNat >>> 2 % 4 := Nat.and_two_pow_sub_one_eq_mod _ 2
  rw [Nat.shiftRight_eq_div_pow] at mask
  rw [flagsTrigger, ne_eq, ← BitVec.toNat_inj, BitVec.toNat_setWidth, BitVec.toNat_and, BitVec.toNat_ushiftRight,
    Nat.shiftRight_eq_div_pow]
  change ¬ (flags.toNat / 2 ^ 2 &&& 3) % 256 = 0 ↔ _
  omega

/-- An enabled interrupt decodes the flags of its override. -/
theorem decodesFlags_enable (irq : Fin 16) (madtOverride : MadtInterruptSourceOverride) :
    DecodesFlags madtOverride.flags (0x30#32 + BitVec.ofNat 32 irq)
      (enableValue (BitVec.ofNat 8 irq) madtOverride.entry) := by
  have bits : ∀ (irq : Fin 16) (isLevelTriggered isActiveLow : Bool),
      let word := enableValue (BitVec.ofNat 8 irq) ⟨0, isLevelTriggered, isActiveLow⟩
      word.getLsbD 13 = isActiveLow ∧ word.getLsbD 15 = isLevelTriggered ∧
        word.extractLsb' 0 11 = (0x30#32 + BitVec.ofNat 32 irq).extractLsb' 0 11 := by
    decide
  obtain ⟨polarity, trigger, delivery⟩ := bits irq madtOverride.entry.isLevelTriggered madtOverride.entry.isActiveLow
  refine ⟨?_, ?_, delivery⟩
  · rw [← flagsPolarity_eq_iff]
    exact (Bool.eq_iff_iff.mp polarity).trans decide_eq_true_iff
  · rw [← flagsTrigger_eq_iff]
    exact (Bool.eq_iff_iff.mp trigger).trans decide_eq_true_iff

/-- A non-maskable source sets a bit for every flag that is not zero. -/
theorem decodesFlags_nmiSource (flags : BitVec 16) :
    DecodesFlags flags ioapicRedirTblDeliveryNmi (nmiValue flags) ↔ PlainFlags flags := by
  have bits : ∀ isActiveLow isLevelTriggered : Bool,
      let value := if isActiveLow then ioapicRedirTblDeliveryNmi ||| ioapicRedirTblPolarity else ioapicRedirTblDeliveryNmi
      let word := if isLevelTriggered then value ||| ioapicRedirTblTrigger else value
      word.getLsbD 13 = isActiveLow ∧ word.getLsbD 15 = isLevelTriggered ∧
        word.extractLsb' 0 11 = ioapicRedirTblDeliveryNmi.extractLsb' 0 11 := by
    decide
  have word := bits (decide (flagsPolarity flags ≠ 0)) (decide (flagsTrigger flags ≠ 0))
  simp only [decide_eq_true_eq] at word
  change (nmiValue flags).getLsbD 13 = _ ∧ (nmiValue flags).getLsbD 15 = _ ∧
    (nmiValue flags).extractLsb' 0 11 = _ at word
  obtain ⟨polarity, trigger, delivery⟩ := word
  have first : (nmiValue flags).getLsbD 13 = true ↔ flags.toNat % 4 ≠ 0 := by
    rw [polarity, decide_eq_true_iff, flagsPolarity_ne_zero_iff]
  have second : (nmiValue flags).getLsbD 15 = true ↔ flags.toNat / 4 % 4 ≠ 0 := by
    rw [trigger, decide_eq_true_iff, flagsTrigger_ne_zero_iff]
  constructor
  · intro decodes
    have low := first.symm.trans decodes.polarity
    have level := second.symm.trans decodes.trigger
    exact ⟨by omega, by omega⟩
  · intro plain
    exact ⟨first.trans (by have low := plain.1; omega), second.trans (by have level := plain.2; omega), delivery⟩

/-- A local record puts the trigger mode into the delivery bits. -/
theorem decodesFlags_localNmi (record : MadtLocalApicNmi) :
    DecodesFlags record.flags lapicLvtDeliveryNmi record.lvt ↔ record.flags.toNat / 4 % 4 ≠ 0b11 := by
  have bits : ∀ isActiveLow isLevelTriggered : Bool,
      let value := if isActiveLow then lapicLvtDeliveryNmi ||| lapicLvtPolarity else lapicLvtDeliveryNmi
      let word := if isLevelTriggered then value ||| lapicLvtTrigger else value
      word.getLsbD 13 = isActiveLow ∧ word.getLsbD 15 = false ∧
        (word.extractLsb' 0 11 = lapicLvtDeliveryNmi.extractLsb' 0 11 ↔ isLevelTriggered = false) := by
    decide
  have word := bits (decide (flagsPolarity record.flags = 0x3#8)) (decide (flagsTrigger record.flags = 0x3#8))
  simp only [decide_eq_true_eq, decide_eq_false_iff_not] at word
  change record.lvt.getLsbD 13 = _ ∧ record.lvt.getLsbD 15 = _ ∧ (record.lvt.extractLsb' 0 11 = _ ↔ _) at word
  obtain ⟨polarity, trigger, delivery⟩ := word
  rw [flagsTrigger_eq_iff] at delivery
  constructor
  · intro decodes
    exact delivery.mp decodes.delivery
  · intro edge
    refine ⟨?_, ?_, delivery.mpr edge⟩
    · rw [polarity, decide_eq_true_iff, flagsPolarity_eq_iff]
    · rw [trigger]
      exact iff_of_false Bool.false_ne_true edge

end Words

/-- Each source and each local record that the walk handles, and each later enable call, writes a word that decodes the
flags of its record. -/
structure DecodesAlike (pMADT : Madt) (boot : Machine) (irqs : List (Fin 16)) : Prop where
  sources : ∀ handled i machine, WalkReaches pMADT boot handled i machine →
    i.toNat + offsetofRecords < pMADT.length.toNat →
    ∀ madtNmisource, madtRecord pMADT.records i.toNat = .nmiSource madtNmisource →
    ∀ machine', Returns (ioapicInitNmisource madtNmisource) machine () machine' →
      DecodesFlags madtNmisource.flags ioapicRedirTblDeliveryNmi
        (machine'.ioapic.registers (ioapicRedirTblAddr madtNmisource.globalSystemInterrupt))
  localNmis : ∀ handled i machine, WalkReaches pMADT boot handled i machine →
    i.toNat + offsetofRecords < pMADT.length.toNat →
    ∀ madtLocalapicnmi, madtRecord pMADT.records i.toNat = .localApicNmi madtLocalapicnmi → madtLocalapicnmi.Applies →
    ∀ machine', Returns (lapicInitNmi madtLocalapicnmi) machine () machine' →
      DecodesFlags madtLocalapicnmi.flags lapicLvtDeliveryNmi (machine'.lapic madtLocalapicnmi.lvtRegister)
  overrides : ∀ handled i parsed, WalkReaches pMADT boot handled i parsed →
    ¬ i.toNat + offsetofRecords < pMADT.length.toNat →
    ∀ earlier irq later, irqs = earlier ++ irq :: later →
    ∀ machine, Returns (earlier.forM fun irq => ioapicEnableIsaInterrupt (BitVec.ofNat 8 irq)) parsed () machine →
    ∀ madtOverride, lastOverride handled irq = some madtOverride →
    ∀ machine', Returns (ioapicEnableIsaInterrupt (BitVec.ofNat 8 irq)) machine () machine' →
      DecodesFlags madtOverride.flags (0x30#32 + BitVec.ofNat 32 irq)
        (machine'.ioapic.registers (ioapicRedirTblAddr (madtOverride.entry.destination.setWidth 32)))

/-- Every handled source has plain flags, and no handled local record asks for a level trigger. -/
structure FlagsPlain (pMADT : Madt) (boot : Machine) : Prop where
  sources : ∀ handled i machine, WalkReaches pMADT boot handled i machine →
    i.toNat + offsetofRecords < pMADT.length.toNat → machine.ioapicBase ≠ 0 →
    ∀ madtNmisource, madtRecord pMADT.records i.toNat = .nmiSource madtNmisource → PlainFlags madtNmisource.flags
  localNmis : ∀ handled i machine, WalkReaches pMADT boot handled i machine →
    i.toNat + offsetofRecords < pMADT.length.toNat →
    ∀ madtLocalapicnmi, madtRecord pMADT.records i.toNat = .localApicNmi madtLocalapicnmi → madtLocalapicnmi.Applies →
      madtLocalapicnmi.flags.toNat / 4 % 4 ≠ 0b11

section Runs

variable {pMADT : Madt} {boot machine : Machine} {irqs : List (Fin 16)} {handled : List MadtRecord} {i : BitVec 32}

/-- The local APIC is ready in every state of the walk. -/
theorem WalkReaches.ready (reached : WalkReaches pMADT boot handled i machine) : machine.LapicReady := by
  induction reached with
  | start begun => exact (returns_acpiBeginMadt begun).2
  | record _ _ returned ih => exact (returns_acpiHandleMadtRecord returned).1.ready ih

/-- A register pair holds the low word at its first register. -/
theorem storeIoapic_low (reg : BitVec 8) (value : BitVec 32) :
    (machine.storeIoapic reg (value.setWidth 64)).ioapic.registers reg = value := by
  have different : reg ≠ reg + 1 := by bv_omega
  change (machine.ioapic.store64 reg (value.setWidth 64)).registers reg = value
  rw [Ioapic.store64_registers, if_neg different, if_pos rfl, BitVec.setWidth_setWidth_of_le _ (by decide),
    BitVec.setWidth_eq]

/-- An applicable local record writes its entry. -/
theorem withLocalNmi_lapic {record : MadtLocalApicNmi} (applies : record.Applies) :
    (machine.withLocalNmi record).lapic record.lvtRegister = record.lvt := if_pos ⟨applies, rfl⟩

/-- The enable calls decode the flags of the last override in every run. -/
theorem enable_decodes {handled : List MadtRecord} {i : BitVec 32} {parsed machine machine' : Machine} {irq : Fin 16}
    {earlier : List (Fin 16)} {madtOverride : MadtInterruptSourceOverride}
    (reached : WalkReaches pMADT boot handled i parsed)
    (ran : Returns (earlier.forM fun irq => ioapicEnableIsaInterrupt (BitVec.ofNat 8 irq)) parsed () machine)
    (found : lastOverride handled irq = some madtOverride)
    (returned : Returns (ioapicEnableIsaInterrupt (BitVec.ofNat 8 irq)) machine () machine') :
    DecodesFlags madtOverride.flags (0x30#32 + BitVec.ofNat 32 irq)
      (machine'.ioapic.registers (ioapicRedirTblAddr (madtOverride.entry.destination.setWidth 32))) := by
  obtain ⟨_, walked⟩ := reached.returns
  have entry : machine.isaRedirectionEntry irq = madtOverride.entry := by
    rw [(returns_enables ran).2.1, (returns_records walked).2 irq, found]
    rfl
  obtain ⟨_, rfl⟩ := returns_enable.mp returned
  rw [entry, storeIoapic_low]
  exact decodesFlags_enable irq madtOverride

end Runs

/-- The drivers decode the flags alike exactly when every handled source has plain flags and no handled local record asks
for a level trigger. -/
theorem flags_decoded_alike_iff (pMADT : Madt) (boot : Machine) (irqs : List (Fin 16)) :
    DecodesAlike pMADT boot irqs ↔ FlagsPlain pMADT boot := by
  constructor
  · intro decodes
    refine ⟨?_, ?_⟩
    · intro handled i machine reached inside based madtNmisource found
      have word := decodes.sources handled i machine reached inside madtNmisource found _
        (returns_ioapicInitNmisource.mpr ⟨based, rfl⟩)
      rw [storeIoapic_low] at word
      exact (decodesFlags_nmiSource _).mp word
    · intro handled i machine reached inside madtLocalapicnmi found applies
      have word := decodes.localNmis handled i machine reached inside madtLocalapicnmi found applies _
        (returns_lapicInitNmi.mpr ⟨fun _ => reached.ready, rfl⟩)
      rw [withLocalNmi_lapic applies] at word
      exact (decodesFlags_localNmi _).mp word
  · intro plain
    refine ⟨?_, ?_, ?_⟩
    · intro handled i machine reached inside madtNmisource found machine' returned
      obtain ⟨based, rfl⟩ := returns_ioapicInitNmisource.mp returned
      rw [storeIoapic_low]
      exact (decodesFlags_nmiSource _).mpr (plain.sources handled i machine reached inside based madtNmisource found)
    · intro handled i machine reached inside madtLocalapicnmi found applies machine' returned
      obtain ⟨_, rfl⟩ := returns_lapicInitNmi.mp returned
      rw [withLocalNmi_lapic applies]
      exact (decodesFlags_localNmi _).mpr
        (plain.localNmis handled i machine reached inside madtLocalapicnmi found applies)
    · intro handled i parsed reached _ earlier irq later _ machine ran madtOverride found machine' returned
      exact enable_decodes reached ran found returned

/-- The source asks for active-high polarity, and its word says active-low. -/
def sampleHighSource : MadtChunk := ⟨[3, 8, 1, 0, 5, 0, 0, 0], by decide, by decide, by decide⟩

/-- The local record asks for a level trigger. -/
def sampleLevelNmi : MadtChunk := ⟨[4, 6, 0xFF, 0xF, 0, 1], by decide, by decide, by decide⟩

def sampleHigh : Madt := .ofChunks pcatCompat [sampleIoapic, sampleHighSource]

def sampleLevel : Madt := .ofChunks pcatCompat [sampleLevelNmi]

/-- An active-high source becomes active-low, and a level-triggered local record stays edge-triggered. -/
theorem flags_decoded_differently :
    ¬ DecodesAlike sampleHigh sampleMachine [] ∧ ¬ DecodesAlike sampleLevel sampleMachine [] := by
  have start : WalkReaches sampleHigh sampleMachine [] 0 sampleBegun := .start sampleBegun_returns
  have head : Returns (acpiHandleMadtRecord (madtRecord sampleHigh.records (0 : BitVec 32).toNat)) sampleBegun ()
      sampleMapped := by
    rw [show madtRecord sampleHigh.records (0 : BitVec 32).toNat = .ioapic ⟨0x100000#32, 0⟩ by decide]
    exact returns_lastState (by decide +kernel)
  have reached := start.record (by decide) head
  have other : WalkReaches sampleLevel sampleMachine [] 0 sampleBegun := .start sampleBegun_returns
  constructor
  · intro decodes
    have based : sampleMapped.ioapicBase ≠ 0 := by decide +kernel
    have word := decodes.sources _ _ _ reached (by decide) ⟨1#16, 5#32⟩ (by decide) _
      (returns_ioapicInitNmisource.mpr ⟨based, rfl⟩)
    rw [storeIoapic_low, decodesFlags_nmiSource] at word
    exact absurd word (by decide)
  · intro decodes
    have word := decodes.localNmis _ _ _ other (by decide) ⟨0xFF#8, 0xF#16, 1#8⟩ (by decide) (by decide) _
      (returns_lapicInitNmi.mpr ⟨fun _ => other.ready, rfl⟩)
    rw [withLocalNmi_lapic (by decide), decodesFlags_localNmi] at word
    exact absurd word (by decide)

end UmbralOS
