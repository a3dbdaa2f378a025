import UmbralOS.Proof.Interrupts.Run
import UmbralOS.Proof.Memory.Boot

/-!
This file gives the redirection entry of each interrupt that a driver enables after the walk.
-/

namespace UmbralOS

open Library

/-- The fields of a redirection entry. -/
structure Redirection where
  vector : BitVec 8
  delivery : BitVec 3
  isLogical : Bool
  isActiveLow : Bool
  isLevelTriggered : Bool
  isMasked : Bool
  destination : BitVec 8
  deriving DecidableEq

/-- The fields of a redirection entry stand at fixed bits of its two registers. -/
def Redirection.ofWords (low high : BitVec 32) : Redirection where
  vector := low.setWidth 8
  delivery := (low >>> 8).setWidth 3
  isLogical := low.getLsbD 11
  isActiveLow := low.getLsbD 13
  isLevelTriggered := low.getLsbD 15
  isMasked := low.getLsbD 16
  destination := (high >>> 24).setWidth 8

/-- The registers of a redirection entry. -/
def lowRegister (g : Nat) : BitVec 8 := BitVec.ofNat 8 (0x10 + 2 * g)

def highRegister (g : Nat) : BitVec 8 := BitVec.ofNat 8 (0x11 + 2 * g)

/-- The redirection entry of a pin. -/
def Ioapic.redirection (device : Ioapic) (g : Nat) : Redirection :=
  .ofWords (device.registers (lowRegister g)) (device.registers (highRegister g))

theorem lowRegister_inj {g g' : Nat} (inside : g < 120) (inside' : g' < 120) :
    lowRegister g = lowRegister g' ↔ g = g' := by
  rw [lowRegister, lowRegister, ← BitVec.toNat_inj, BitVec.toNat_ofNat, BitVec.toNat_ofNat]
  omega

theorem lowRegister_add_one (g : Nat) : lowRegister g + 1 = highRegister g := by
  rw [lowRegister, highRegister, ← BitVec.toNat_inj, BitVec.toNat_add, BitVec.toNat_ofNat, BitVec.toNat_ofNat]
  change (_ + 1) % _ = _
  omega

theorem lowRegister_ne_highRegister (g g' : Nat) : lowRegister g ≠ highRegister g' := by
  rw [lowRegister, highRegister, Ne, ← BitVec.toNat_inj, BitVec.toNat_ofNat, BitVec.toNat_ofNat]
  omega

theorem highRegister_inj {g g' : Nat} (inside : g < 120) (inside' : g' < 120) :
    highRegister g = highRegister g' ↔ g = g' := by
  rw [highRegister, highRegister, ← BitVec.toNat_inj, BitVec.toNat_ofNat, BitVec.toNat_ofNat]
  omega

/-- The register address of an interrupt number keeps its low seven bits. -/
theorem ioapicRedirTblAddr_eq (n : BitVec 32) : ioapicRedirTblAddr n = lowRegister (n.toNat % 128) := by
  rw [ioapicRedirTblAddr, lowRegister, ← BitVec.toNat_inj]
  simp only [BitVec.toNat_setWidth, BitVec.toNat_add, BitVec.toNat_mul, BitVec.toNat_ofNat]
  omega

/-- A write of a register pair changes one redirection entry. -/
theorem Ioapic.store64_redirection (device : Ioapic) (word : BitVec 64) {g g' : Nat} (inside : g < 120)
    (inside' : g' < 120) : (device.store64 (lowRegister g) word).redirection g' =
      if g' = g then .ofWords (word.setWidth 32) ((word >>> 32).setWidth 32) else device.redirection g' := by
  rw [redirection, store64_registers, store64_registers, lowRegister_add_one, if_neg (lowRegister_ne_highRegister _ _)]
  by_cases same : g' = g
  · subst g'
    rw [if_pos rfl, if_pos rfl, if_pos rfl]
  · rw [if_neg (by rwa [lowRegister_inj inside' inside]), if_neg (by rwa [highRegister_inj inside' inside]),
      if_neg (lowRegister_ne_highRegister _ _).symm, if_neg same, redirection]

/-- The pin, the polarity, and the trigger mode of an interrupt. -/
structure IsaRoute where
  pin : Nat
  isActiveLow : Bool
  isLevelTriggered : Bool

/-- The last override record of the interrupt gives its route. An interrupt without a record keeps its own pin.
The low two bits of the flags are the polarity, and the next two bits are the trigger mode. -/
def isaRoute (records : List MadtRecord) (irq : Fin 16) : IsaRoute :=
  match lastOverride records irq with
  | some madtOverride => ⟨madtOverride.globalSystemInterrupt.toNat, madtOverride.flags.toNat % 4 = 0b11,
      madtOverride.flags.toNat / 4 % 4 = 0b11⟩
  | none => ⟨irq, false, false⟩

/-- An enabled interrupt is delivered to the boot processor with its own vector. -/
def IsaRoute.redirection (route : IsaRoute) (irq : Fin 16) : Redirection where
  vector := 0x30#8 + BitVec.ofNat 8 irq
  delivery := 0b000#3
  isLogical := false
  isActiveLow := route.isActiveLow
  isLevelTriggered := route.isLevelTriggered
  isMasked := false
  destination := 0

theorem flagsPolarity_eq_iff (flags : BitVec 16) : flagsPolarity flags = 0x3#8 ↔ flags.toNat % 4 = 0b11 := by
  have mask : flags.toNat &&& 3 = flags.toNat % 4 := Nat.and_two_pow_sub_one_eq_mod _ 2
  rw [flagsPolarity, ← BitVec.toNat_inj, BitVec.toNat_setWidth, BitVec.toNat_and, BitVec.toNat_ushiftRight]
  change (flags.toNat &&& 3) % 256 = 3 ↔ _
  omega

theorem flagsTrigger_eq_iff (flags : BitVec 16) : flagsTrigger flags = 0x3#8 ↔ flags.toNat / 4 % 4 = 0b11 := by
  have mask : flags.toNat >>> 2 &&& 3 = flags.toNat >>> 2 % 4 := Nat.and_two_pow_sub_one_eq_mod _ 2
  rw [Nat.shiftRight_eq_div_pow] at mask
  rw [flagsTrigger, ← BitVec.toNat_inj, BitVec.toNat_setWidth, BitVec.toNat_and, BitVec.toNat_ushiftRight,
    Nat.shiftRight_eq_div_pow]
  change (flags.toNat / 2 ^ 2 &&& 3) % 256 = 3 ↔ _
  omega

/-- The value of an enabled interrupt has the fields of its route. -/
theorem enableValue_fields (irq : Fin 16) (entry : RedirectionEntry) :
    Redirection.ofWords (((enableValue (BitVec.ofNat 8 irq) entry).setWidth 64).setWidth 32)
      ((((enableValue (BitVec.ofNat 8 irq) entry).setWidth 64) >>> 32).setWidth 32) =
    ⟨0x30#8 + BitVec.ofNat 8 irq, 0b000#3, false, entry.isActiveLow, entry.isLevelTriggered, false, 0⟩ := by
  have cases : ∀ (irq : Fin 16) (isLevelTriggered isActiveLow : Bool),
      let value := enableValue (BitVec.ofNat 8 irq) ⟨0, isLevelTriggered, isActiveLow⟩
      Redirection.ofWords ((value.setWidth 64).setWidth 32) (((value.setWidth 64) >>> 32).setWidth 32) =
        ⟨0x30#8 + BitVec.ofNat 8 irq, 0b000#3, false, isActiveLow, isLevelTriggered, false, 0⟩ := by
    decide
  exact cases irq entry.isLevelTriggered entry.isActiveLow

/-- The table of the driver holds the route of each interrupt. -/
def Machine.RoutedBy (machine : Machine) (route : Fin 16 → IsaRoute) : Prop :=
  ∀ irq, (machine.isaRedirectionEntry irq).destination.toNat = (route irq).pin ∧
    (machine.isaRedirectionEntry irq).isActiveLow = (route irq).isActiveLow ∧
    (machine.isaRedirectionEntry irq).isLevelTriggered = (route irq).isLevelTriggered

/-- After the walk, the table holds the routes of the records when their interrupt numbers fit the destination. -/
theorem routedBy_isaRoute {records : List MadtRecord} {machine machine' : Machine} {done : Unit}
    (table : machine.isaRedirectionEntry = initialIsaRedirectionEntry)
    (fits : ∀ irq madtOverride, lastOverride records irq = some madtOverride →
      madtOverride.globalSystemInterrupt.toNat < 120)
    (returned : Returns (records.forM acpiHandleMadtRecord) machine done machine') :
    machine'.RoutedBy (isaRoute records) := by
  intro irq
  rw [(returns_records returned).2 irq, table, isaRoute]
  cases found : lastOverride records irq with
  | none =>
      have small := irq.isLt
      refine ⟨?_, rfl, rfl⟩
      change (BitVec.ofNat 8 irq).toNat = irq
      rw [BitVec.toNat_ofNat]
      omega
  | some madtOverride =>
      have small := fits irq madtOverride found
      refine ⟨?_, ?_, ?_⟩
      · change (madtOverride.globalSystemInterrupt.setWidth 8).toNat = madtOverride.globalSystemInterrupt.toNat
        rw [BitVec.toNat_setWidth]
        omega
      · exact decide_eq_decide.mpr (flagsPolarity_eq_iff _)
      · exact decide_eq_decide.mpr (flagsTrigger_eq_iff _)

/-- The enable calls for interrupts on separate pins write exactly the entries of these pins. -/
theorem enable_returns {machine : Machine} {route : Fin 16 → IsaRoute} {irqs : List (Fin 16)}
    (based : machine.ioapicBase ≠ 0) (routed : machine.RoutedBy route) (inside : ∀ irq ∈ irqs, (route irq).pin < 120)
    (separate : ∀ irq ∈ irqs, ∀ other ∈ irqs, (route irq).pin = (route other).pin → irq = other) :
    ∃ machine', Returns (irqs.forM fun irq => ioapicEnableIsaInterrupt (BitVec.ofNat 8 irq)) machine () machine' ∧
      (∀ irq ∈ irqs, machine'.ioapic.redirection (route irq).pin = (route irq).redirection irq) ∧
      ∀ reg, (∀ irq ∈ irqs, reg ≠ lowRegister (route irq).pin ∧ reg ≠ highRegister (route irq).pin) →
        machine'.ioapic.registers reg = machine.ioapic.registers reg := by
  obtain ⟨machine', returned, _, _, _, enabled, kept⟩ := @forM_returns Stop Machine (Fin 16)
    (fun irq => ioapicEnableIsaInterrupt (BitVec.ofNat 8 irq)) (fun processed reached =>
    (∀ irq ∈ processed, irq ∈ irqs) ∧ reached.ioapicBase ≠ 0 ∧
    reached.isaRedirectionEntry = machine.isaRedirectionEntry ∧
    (∀ irq ∈ processed, reached.ioapic.redirection (route irq).pin = (route irq).redirection irq) ∧
    ∀ reg, (∀ irq ∈ processed, reg ≠ lowRegister (route irq).pin ∧ reg ≠ highRegister (route irq).pin) →
      reached.ioapic.registers reg = machine.ioapic.registers reg)
    irqs machine ⟨by simp, based, rfl, by simp, fun _ _ => rfl⟩ (by
      intro processed irq state member given
      obtain ⟨earlier, based, table, enabled, kept⟩ := given
      obtain ⟨pin, polarity, trigger⟩ := routed irq
      have small := inside irq member
      have address : ioapicRedirTblAddr ((state.isaRedirectionEntry irq).destination.setWidth 32) =
          lowRegister (route irq).pin := by
        rw [table, ioapicRedirTblAddr_eq, BitVec.toNat_setWidth, pin, Nat.mod_eq_of_lt (by omega),
          Nat.mod_eq_of_lt (by omega)]
      refine ⟨_, returns_enable.mpr ⟨based, rfl⟩, ?_, based, table, ?_, ?_⟩
      · intro found among
        rcases List.mem_append.mp among with old | last
        · exact earlier found old
        · rw [List.mem_singleton.mp last]
          exact member
      · intro found among
        have foundMember : found ∈ irqs := by
          rcases List.mem_append.mp among with old | last
          · exact earlier found old
          · rw [List.mem_singleton.mp last]
            exact member
        rw [Machine.storeIoapic, address, Ioapic.store64_redirection _ _ small (inside found foundMember)]
        split_ifs with same
        · obtain rfl := separate found foundMember irq member same
          rw [enableValue_fields, table, polarity, trigger]
          rfl
        · rcases List.mem_append.mp among with old | last
          · exact enabled found old
          · rw [List.mem_singleton.mp last] at same
            exact absurd rfl same
      · intro reg outside
        obtain ⟨low, high⟩ := outside irq (by simp)
        rw [Machine.storeIoapic, address, Ioapic.store64_registers, lowRegister_add_one, if_neg high, if_neg low]
        exact kept reg fun found old => outside found (by simp [old]))
  exact ⟨machine', returned, enabled, kept⟩

/-- The walk returns over a table whose I/O APIC is accepted and stands before the sources. -/
theorem walk_returns {earlier later : List MadtRecord} {madtIoapic : MadtIoapic} {machine : Machine}
    (ready : machine.LapicReady)
    (accepted : ∃ machine', Returns (ioapicInitRegister madtIoapic) machine () machine')
    (before : ∀ record ∈ earlier, record.Accepted machine)
    (after : ∀ based : Machine, based.ioapicBase ≠ 0 → based.LapicReady → ∀ record ∈ later, record.Accepted based) :
    ∃ machine', Returns ((earlier ++ .ioapic madtIoapic :: later).forM acpiHandleMadtRecord) machine () machine' ∧
      machine'.ioapicBase ≠ 0 := by
  obtain ⟨_, register⟩ := accepted
  obtain ⟨fresh, zero, pins, window, mm, mapped, _⟩ := returns_ioapicInitRegister.mp register
  have silent : ∀ record ∈ earlier, ¬ record.IsNmiSource := by
    intro record member source
    have valid := before record member
    cases record <;> first | exact valid fresh | exact source
  obtain ⟨first, firstRun⟩ := accepted_records_return before
  obtain ⟨sameMm, sameBase, device⟩ := returns_plain_records (fun record member => (before record member).plain) firstRun
  have window' : first.mm.pHHDM + madtIoapic.address.setWidth 64 ≠ 0 := by rwa [sameMm]
  have second : Returns (ioapicInitRegister madtIoapic) first () (first.withIoapic madtIoapic mm) :=
    returns_ioapicInitRegister.mpr ⟨sameBase.trans fresh, zero, by rwa [device silent], window', mm,
      by rwa [sameMm], rfl⟩
  have ready' : (first.withIoapic madtIoapic mm).LapicReady := (returns_records firstRun).1.ready ready
  obtain ⟨third, thirdRun⟩ := accepted_records_return (after (first.withIoapic madtIoapic mm) window' ready')
  refine ⟨third, ?_, (returns_records thirdRun).1.based window'⟩
  rw [forM_append]
  exact (returns_bind _ _ _ _ _).mpr ⟨(), first, firstRun, (returns_bind _ _ _ _ _).mpr ⟨(), _, second, thirdRun⟩⟩

theorem lastOverride_mem {records : List MadtRecord} {irq : Fin 16} {madtOverride : MadtInterruptSourceOverride}
    (found : lastOverride records irq = some madtOverride) : MadtRecord.sourceOverride madtOverride ∈ records := by
  obtain ⟨earlier, rule, later, split, applied, _⟩ := lastApplicable_eq_some_iff.mp found
  have member : rule ∈ records.map MadtRecord.overrideOf := by
    rw [split]
    simp
  obtain ⟨record, among, rfl⟩ := List.mem_map.mp member
  cases record with
  | sourceOverride other =>
      simp only [MadtRecord.overrideOf] at applied
      split_ifs at applied
      cases applied
      exact among
  | _ => cases applied

/-- After the walk and the enable calls, the entry of each enabled interrupt follows its last override record.
The enable calls change no other register. -/
theorem isa_routing_end_to_end {pMADT : Madt} {chunks : List MadtChunk} {earlier later : List MadtRecord}
    {madtIoapic : MadtIoapic} {boot begun : Machine} {irqs : List (Fin 16)} {fuel : Nat}
    (tiled : pMADT.TiledBy chunks) (enough : chunks.length < fuel)
    (table : boot.isaRedirectionEntry = initialIsaRedirectionEntry)
    (start : Returns (acpiBeginMadt pMADT) boot () begun)
    (position : chunks.map MadtChunk.record = earlier ++ .ioapic madtIoapic :: later)
    (single : ∀ record ∈ earlier ++ later, ¬ record.IsIoapic)
    (order : ∀ record ∈ earlier, ¬ record.IsNmiSource)
    (accepted : ∃ machine, Returns (ioapicInitRegister madtIoapic) begun () machine)
    (overrides : ∀ madtOverride, .sourceOverride madtOverride ∈ earlier ++ later → madtOverride.busSource = 0 ∧
      madtOverride.irqSource.toNat < 16 ∧ madtOverride.globalSystemInterrupt.toNat < 120)
    (separate : ∀ irq ∈ irqs, ∀ other ∈ irqs,
      (isaRoute (earlier ++ .ioapic madtIoapic :: later) irq).pin =
        (isaRoute (earlier ++ .ioapic madtIoapic :: later) other).pin → irq = other) :
    let route := isaRoute (earlier ++ .ioapic madtIoapic :: later)
    ∃ parsed machine, Returns (acpiParseMadt fuel pMADT) boot () parsed ∧
      Returns (irqs.forM fun irq => ioapicEnableIsaInterrupt (BitVec.ofNat 8 irq)) parsed () machine ∧
      (∀ irq ∈ irqs, machine.ioapic.redirection (route irq).pin = (route irq).redirection irq) ∧
      ∀ reg, (∀ irq ∈ irqs, reg ≠ lowRegister (route irq).pin ∧ reg ≠ highRegister (route irq).pin) →
        machine.ioapic.registers reg = parsed.ioapic.registers reg := by
  intro route
  obtain ⟨same, ready⟩ := returns_acpiBeginMadt start
  have known : ∀ record ∈ earlier ++ later, ∀ type, record ≠ .unknown type := by
    intro record member type unknown
    have among : record ∈ chunks.map MadtChunk.record := by
      rw [position, List.mem_append]
      exact (List.mem_append.mp member).imp_right (List.mem_cons_of_mem _)
    obtain ⟨chunk, _, rfl⟩ := List.mem_map.mp among
    exact chunk.record_known type unknown
  have valid : ∀ machine : Machine, machine.LapicReady → ∀ record ∈ earlier ++ later,
      (record.IsNmiSource → machine.ioapicBase ≠ 0) → record.Accepted machine := by
    intro machine ready record member source
    cases record with
    | localApic => trivial
    | ioapic other => exact single _ member trivial
    | sourceOverride madtOverride => exact ⟨(overrides _ member).1, (overrides _ member).2.1⟩
    | nmiSource madtNmisource => exact source trivial
    | localApicNmi madtLocalapicnmi => exact fun _ => ready
    | unknown type => exact known _ member type rfl
  have fits : ∀ irq madtOverride, lastOverride (earlier ++ .ioapic madtIoapic :: later) irq = some madtOverride →
      madtOverride.globalSystemInterrupt.toNat < 120 := by
    intro irq madtOverride found
    have member := lastOverride_mem found
    refine (overrides madtOverride ?_).2.2
    simpa using member
  obtain ⟨parsed, walked, based⟩ := walk_returns ready accepted
    (fun record member => valid begun ready record (List.mem_append_left _ member) fun source =>
      absurd source (order record member))
    (fun machine based ready record member => valid machine ready record (List.mem_append_right _ member) fun _ => based)
  have routed := routedBy_isaRoute (same.isaRedirectionEntry.trans table) fits walked
  have inside : ∀ irq ∈ irqs, (route irq).pin < 120 := by
    intro irq _
    have small := irq.isLt
    change (isaRoute _ irq).pin < 120
    rw [isaRoute]
    split
    · exact fits irq _ (by assumption)
    · change (irq : Nat) < 120
      omega
  obtain ⟨machine, enabled, written, kept⟩ := enable_returns based routed inside separate
  refine ⟨parsed, machine, ?_, enabled, written, kept⟩
  rw [acpiParseMadt_eq tiled enough, position]
  exact (returns_bind _ _ _ _ _).mpr ⟨(), begun, start, walked⟩

def sampleIoapic : MadtChunk :=
  ⟨[1, 12, 0, 0, 0, 0, 0x10, 0, 0, 0, 0, 0], by decide, by decide, by decide⟩

/-- The timer goes to pin 2. -/
def sampleTimer : MadtChunk := ⟨[2, 10, 0, 0, 2, 0, 0, 0, 0, 0], by decide, by decide, by decide⟩

/-- Interrupt 9 is active-low and level-triggered. -/
def samplePower : MadtChunk := ⟨[2, 10, 0, 9, 9, 0, 0, 0, 0xF, 0], by decide, by decide, by decide⟩

def sampleNmiSource : MadtChunk := ⟨[3, 8, 0, 0, 5, 0, 0, 0], by decide, by decide, by decide⟩

/-- The sample device has entries 0 to 23, and the firmware left them all unmasked. -/
def sampleMachine : Machine where
  mm := sampleBooted
  ioapic := ⟨0x170011#32, 0, fun _ => 0, []⟩
  ioapicBase := 0
  isaRedirectionEntry := initialIsaRedirectionEntry
  hasX2apic := false
  lapicBase := 0
  lapic := fun _ => 0
  ports := []

def sampleMadt : Madt := .ofChunks pcatCompat [sampleTimer, sampleIoapic, samplePower, sampleNmiSource]

def sampleBegun : Machine := lastState (acpiBeginMadt sampleMadt) sampleMachine

theorem sampleBegun_returns : Returns (acpiBeginMadt sampleMadt) sampleMachine () sampleBegun :=
  returns_lastState (by decide +kernel)

theorem sampleIoapic_accepted : ∃ machine, Returns (ioapicInitRegister ⟨0x100000#32, 0⟩) sampleBegun () machine :=
  ⟨_, returns_lastState (by decide +kernel)⟩

theorem sampleMadt_overrides (madtOverride : MadtInterruptSourceOverride)
    (member : .sourceOverride madtOverride ∈ [sampleTimer.record] ++ [samplePower.record, sampleNmiSource.record]) :
    madtOverride.busSource = 0 ∧ madtOverride.irqSource.toNat < 16 ∧ madtOverride.globalSystemInterrupt.toNat < 120 := by
  rw [show sampleTimer.record = .sourceOverride ⟨0#8, 0#8, 2#32, 0#16⟩ by decide,
    show samplePower.record = .sourceOverride ⟨0#8, 9#8, 9#32, 0xF#16⟩ by decide,
    show sampleNmiSource.record = .nmiSource ⟨0#16, 5#32⟩ by decide] at member
  simp only [List.singleton_append, List.mem_cons, MadtRecord.sourceOverride.injEq, List.not_mem_nil, or_false,
    reduceCtorEq] at member
  rcases member with rfl | rfl <;> decide

/-- On the sample machine, the timer is delivered from pin 2 and interrupt 9 from its own pin. -/
theorem isa_routing_end_to_end_sample : ∃ parsed machine, Returns (acpiParseMadt 5 sampleMadt) sampleMachine () parsed ∧
    Returns ([0, 9].forM fun irq : Fin 16 => ioapicEnableIsaInterrupt (BitVec.ofNat 8 irq)) parsed () machine ∧
    machine.ioapic.redirection 2 = ⟨0x30#8, 0#3, false, false, false, false, 0#8⟩ ∧
    machine.ioapic.redirection 9 = ⟨0x39#8, 0#3, false, true, true, false, 0#8⟩ := by
  obtain ⟨parsed, machine, walked, enabled, written, _⟩ := @isa_routing_end_to_end sampleMadt
    [sampleTimer, sampleIoapic, samplePower, sampleNmiSource] [sampleTimer.record]
    [samplePower.record, sampleNmiSource.record] ⟨0x100000#32, 0⟩ sampleMachine sampleBegun [0, 9] 5
    (tiledBy_ofChunks _ (by decide)) (by decide) rfl sampleBegun_returns (by decide) (by decide) (by decide)
    sampleIoapic_accepted sampleMadt_overrides (by decide)
  exact ⟨parsed, machine, walked, enabled, written 0 (by decide), written 9 (by decide)⟩

end UmbralOS
