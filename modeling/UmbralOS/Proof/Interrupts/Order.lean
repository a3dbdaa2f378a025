import UmbralOS.Library.Reorder
import UmbralOS.Proof.Memory.WriteXorExecute
import UmbralOS.Proof.Interrupts.Routing

/-!
This file compares the walks over tables with the same records in different orders.
-/

namespace UmbralOS

open Library

/-- The machine with another selected register and another log. -/
def Machine.withWindow (machine : Machine) (select : BitVec 8) (written : List (BitVec 8 × BitVec 32)) : Machine :=
  { machine with ioapic := { machine.ioapic with select := select, written := written } }

/-- Two machines have the same variables and the same registers. -/
def SameDevices (machine machine' : Machine) : Prop := ∃ select written, machine' = machine.withWindow select written

theorem sameDevices_equivalence : Equivalence SameDevices := by
  refine ⟨fun machine => ⟨machine.ioapic.select, machine.ioapic.written, rfl⟩, ?_, ?_⟩
  · intro machine _ given
    obtain ⟨select, written, rfl⟩ := given
    exact ⟨machine.ioapic.select, machine.ioapic.written, rfl⟩
  · rintro machine _ _ ⟨_, _, rfl⟩ ⟨select, written, rfl⟩
    exact ⟨select, written, rfl⟩

theorem Ioapic.maskBelow_window (device : Ioapic) (select : BitVec 8) (written : List (BitVec 8 × BitVec 32))
    (count : Nat) : ∃ select' written',
      ({ device with select := select, written := written } : Ioapic).maskBelow count =
        { device.maskBelow count with select := select', written := written' } := by
  induction count with
  | zero => exact ⟨select, written, rfl⟩
  | succ count ih =>
      obtain ⟨select', written', same⟩ := ih
      rw [maskBelow, same]
      exact ⟨_, _, rfl⟩

/-- The handlers do not read the selected register or the log that they find. -/
theorem respects_acpiHandleMadtRecord (record : MadtRecord) :
    Mirrors SameDevices (acpiHandleMadtRecord record) (acpiHandleMadtRecord record) := by
  rintro machine _ after ⟨select, written, rfl⟩ returned
  by_cases plain : record.IsIoapic
  · cases record with
    | ioapic madtIoapic =>
        obtain ⟨fresh, zero, pins, window, mm, mapped, rfl⟩ := returns_ioapicInitRegister.mp returned
        obtain ⟨select', written', same⟩ := Ioapic.maskBelow_window
          ({ machine.ioapic with select := ioapicver }) ioapicver written machine.ioapic.maxEntry
        refine ⟨_, returns_ioapicInitRegister.mpr ⟨fresh, zero, pins, window, mm, mapped, rfl⟩, select', written', ?_⟩
        exact congrArg (fun device => { machine.mapIoapic madtIoapic mm with ioapic := device }) same
    | _ => exact absurd plain id
  · obtain ⟨accepted, rfl⟩ := (returns_plain plain).mp returned
    have accepted' : record.Accepted (machine.withWindow select written) := by cases record <;> exact accepted
    refine ⟨_, (returns_plain plain).mpr ⟨accepted', rfl⟩, ?_⟩
    cases record with
    | nmiSource madtNmisource => exact ⟨_, _, rfl⟩
    | _ => exact ⟨select, written, rfl⟩

/-- Two records of a table are separate: they have different interrupts, pins, or local pins. -/
def MadtRecord.Separate : MadtRecord → MadtRecord → Prop
  | .sourceOverride first, .sourceOverride second => first.irqSource ≠ second.irqSource
  | .nmiSource first, .nmiSource second => first.globalSystemInterrupt ≠ second.globalSystemInterrupt
  | .localApicNmi first, .localApicNmi second =>
      first.Applies → second.Applies → first.lvtRegister ≠ second.lvtRegister
  | _, _ => True

theorem MadtRecord.Separate.symm {first second : MadtRecord} (separate : first.Separate second) :
    second.Separate first := by
  cases first with
  | sourceOverride madtOverride =>
      cases second with
      | sourceOverride other => exact Ne.symm separate
      | _ => trivial
  | nmiSource madtNmisource =>
      cases second with
      | nmiSource other => exact Ne.symm separate
      | _ => trivial
  | localApicNmi madtLocalapicnmi =>
      cases second with
      | localApicNmi other => exact fun applies applies' => Ne.symm (separate applies' applies)
      | _ => trivial
  | _ => cases second <;> trivial

/-- The pin of a non-maskable source fits the register address. -/
def MadtRecord.PinFits : MadtRecord → Prop
  | .nmiSource madtNmisource => madtNmisource.globalSystemInterrupt.toNat < 120
  | _ => True

theorem Machine.overrideIsa_comm (machine : Machine) {first second : MadtInterruptSourceOverride}
    (separate : first.irqSource ≠ second.irqSource) :
    (machine.overrideIsa first).overrideIsa second = (machine.overrideIsa second).overrideIsa first := by
  unfold overrideIsa
  congr 1
  funext irq
  dsimp only
  have numbers : ¬ (first.irqSource.toNat = irq ∧ second.irqSource.toNat = irq) := fun both =>
    separate (BitVec.eq_of_toNat_eq (both.1.trans both.2.symm))
  split_ifs with second first
  · exact absurd ⟨first, second⟩ numbers
  · rfl
  · rfl
  · rfl

theorem Machine.withLocalNmi_comm (machine : Machine) {first second : MadtLocalApicNmi}
    (separate : first.Applies → second.Applies → first.lvtRegister ≠ second.lvtRegister) :
    (machine.withLocalNmi first).withLocalNmi second = (machine.withLocalNmi second).withLocalNmi first := by
  unfold withLocalNmi
  congr 1
  funext reg
  dsimp only
  split_ifs with second first
  · exact absurd (first.2.symm.trans second.2) (separate first.1 second.1)
  · rfl
  · rfl
  · rfl

theorem sameDevices_of_registers (machine : Machine) {first second : Ioapic} (version : first.version = second.version)
    (registers : first.registers = second.registers) :
    SameDevices { machine with ioapic := first } { machine with ioapic := second } := by
  refine ⟨second.select, second.written, ?_⟩
  cases first
  cases second
  cases version
  cases registers
  rfl

/-- Two sources on separate pins leave the same registers in both orders. -/
theorem Machine.storeIoapic_comm (machine : Machine) {first second : BitVec 32} (inside : first.toNat < 120)
    (inside' : second.toNat < 120) (separate : first ≠ second) (word word' : BitVec 64) :
    SameDevices ((machine.storeIoapic (ioapicRedirTblAddr first) word).storeIoapic (ioapicRedirTblAddr second) word')
      ((machine.storeIoapic (ioapicRedirTblAddr second) word').storeIoapic (ioapicRedirTblAddr first) word) := by
  have numbers : first.toNat ≠ second.toNat := fun same => separate (BitVec.eq_of_toNat_eq same)
  rw [ioapicRedirTblAddr_eq, ioapicRedirTblAddr_eq, Nat.mod_eq_of_lt (by omega), Nat.mod_eq_of_lt (by omega)]
  have low : lowRegister first.toNat ≠ lowRegister second.toNat := by rwa [Ne, lowRegister_inj inside inside']
  have high : highRegister first.toNat ≠ highRegister second.toNat := by rwa [Ne, highRegister_inj inside inside']
  have cross := lowRegister_ne_highRegister first.toNat second.toNat
  have cross' := lowRegister_ne_highRegister second.toNat first.toNat
  apply sameDevices_of_registers
  · rfl
  · funext reg
    change ((machine.ioapic.store64 _ _).store64 _ _).registers reg =
      ((machine.ioapic.store64 _ _).store64 _ _).registers reg
    simp only [Ioapic.store64_registers, lowRegister_add_one]
    grind

/-- The changes of separate records commute. -/
theorem change_comm {first second : MadtRecord} (separate : first.Separate second) (fits : first.PinFits)
    (fits' : second.PinFits) (machine : Machine) :
    SameDevices ((machine.change first).change second) ((machine.change second).change first) := by
  cases first with
  | localApic => exact sameDevices_equivalence.refl _
  | ioapic madtIoapic => exact sameDevices_equivalence.refl _
  | unknown type => exact sameDevices_equivalence.refl _
  | sourceOverride madtOverride =>
      cases second with
      | sourceOverride other =>
          change SameDevices ((machine.overrideIsa _).overrideIsa _) ((machine.overrideIsa _).overrideIsa _)
          rw [machine.overrideIsa_comm separate]
          exact sameDevices_equivalence.refl _
      | _ => exact sameDevices_equivalence.refl _
  | nmiSource madtNmisource =>
      cases second with
      | nmiSource other => exact machine.storeIoapic_comm fits fits' separate _ _
      | _ => exact sameDevices_equivalence.refl _
  | localApicNmi madtLocalapicnmi =>
      cases second with
      | localApicNmi other =>
          change SameDevices ((machine.withLocalNmi _).withLocalNmi _) ((machine.withLocalNmi _).withLocalNmi _)
          rw [machine.withLocalNmi_comm separate]
          exact sameDevices_equivalence.refl _
      | _ => exact sameDevices_equivalence.refl _

section Ioapic

variable {machine : Machine} {record : MadtRecord} {madtIoapic : MadtIoapic}

/-- A record that is not a source is accepted before the I/O APIC exactly when it is accepted after it. -/
theorem accepted_withIoapic (quiet : ¬ record.IsNmiSource) (mm : Mm) :
    record.Accepted (machine.withIoapic madtIoapic mm) ↔ record.Accepted machine := by
  cases record with
  | nmiSource madtNmisource => exact absurd trivial quiet
  | _ => rfl

theorem change_withIoapic (quiet : ¬ record.IsNmiSource) (mm : Mm) :
    (machine.change record).withIoapic madtIoapic mm = (machine.withIoapic madtIoapic mm).change record := by
  cases record with
  | nmiSource madtNmisource => exact absurd trivial quiet
  | _ => rfl

/-- The driver accepts the same I/O APIC before and after a record that is not a source. -/
theorem ioapicInitRegister_change (quiet : ¬ record.IsNmiSource) {machine' : Machine} :
    Returns (ioapicInitRegister madtIoapic) (machine.change record) () machine' ↔
      ∃ before', Returns (ioapicInitRegister madtIoapic) machine () before' ∧ before'.change record = machine' := by
  simp only [returns_ioapicInitRegister, Machine.change_ioapicBase, Machine.change_mm, Machine.change_ioapic quiet,
    change_withIoapic quiet]
  constructor
  · intro given
    obtain ⟨fresh, zero, pins, window, mm, mapped, rfl⟩ := given
    exact ⟨_, ⟨fresh, zero, pins, window, mm, mapped, rfl⟩, rfl⟩
  · intro given
    obtain ⟨_, ⟨fresh, zero, pins, window, mm, mapped, rfl⟩, rfl⟩ := given
    exact ⟨fresh, zero, pins, window, mm, mapped, rfl⟩

end Ioapic

/-- Separate records commute, except that an I/O APIC must stand before a source. -/
theorem commutes_records {first second : MadtRecord} (separate : first.Separate second) (fits : first.PinFits)
    (fits' : second.PinFits) (order : first.IsIoapic → ¬ second.IsNmiSource) :
    Commutes SameDevices acpiHandleMadtRecord first second := by
  apply mirrors_of_same sameDevices_equivalence
    ((respects_acpiHandleMadtRecord first).bind (respects_acpiHandleMadtRecord second))
  intro machine after returned
  obtain ⟨_, middle, head, tail⟩ := (returns_bind _ _ _ _ _).mp returned
  simp only [returns_bind]
  by_cases plain : first.IsIoapic
  · cases first with
    | ioapic madtIoapic =>
        obtain ⟨fresh, zero, pins, window, mm, mapped, rfl⟩ := returns_ioapicInitRegister.mp head
        have plain' : ¬ second.IsIoapic := by
          intro other
          cases second with
          | ioapic otherIoapic => exact window (returns_ioapicInitRegister.mp tail).1
          | _ => exact other
        obtain ⟨accepted, rfl⟩ := (returns_plain plain').mp tail
        have quiet := order trivial
        refine ⟨_, ⟨(), machine.change second, ?_, ?_⟩, sameDevices_equivalence.refl _⟩
        · exact (returns_plain plain').mpr ⟨(accepted_withIoapic quiet mm).mp accepted, rfl⟩
        · exact (ioapicInitRegister_change quiet).mpr ⟨_, head, rfl⟩
    | _ => exact absurd plain id
  · obtain ⟨accepted, rfl⟩ := (returns_plain plain).mp head
    by_cases plain' : second.IsIoapic
    · cases second with
      | ioapic madtIoapic =>
          have quiet : ¬ first.IsNmiSource := by
            intro source
            have fresh := (returns_ioapicInitRegister.mp tail).1
            rw [Machine.change_ioapicBase] at fresh
            cases first with
            | nmiSource madtNmisource => exact accepted fresh
            | _ => exact source
          obtain ⟨before', handled, rfl⟩ := (ioapicInitRegister_change quiet).mp tail
          obtain ⟨_, _, _, _, mm, _, rfl⟩ := returns_ioapicInitRegister.mp handled
          refine ⟨_, ⟨(), _, handled, ?_⟩, sameDevices_equivalence.refl _⟩
          exact (returns_plain plain).mpr ⟨(accepted_withIoapic quiet mm).mpr accepted, rfl⟩
      | _ => exact absurd plain' id
    · obtain ⟨accepted', rfl⟩ := (returns_plain plain').mp tail
      refine ⟨_, ⟨(), machine.change second, ?_, ?_⟩, change_comm separate fits fits' machine⟩
      · exact (returns_plain plain').mpr ⟨accepted_change.mp accepted', rfl⟩
      · exact (returns_plain plain).mpr ⟨accepted_change.mpr accepted, rfl⟩

/-- No source stands before an I/O APIC. -/
def SourcesLast (records : List MadtRecord) : Prop :=
  records.Pairwise fun first second => first.IsNmiSource → ¬ second.IsIoapic

/-- A table with one I/O APIC has no other. -/
theorem plain_of_single {earlier later : List MadtRecord} {record : MadtRecord}
    (single : (earlier ++ record :: later).countP (MadtRecord.IsIoapic ·) = 1) (found : record.IsIoapic) :
    ∀ other ∈ earlier ++ later, ¬ other.IsIoapic := by
  have rest : (earlier ++ later).countP (MadtRecord.IsIoapic ·) = 0 := by
    rw [List.countP_append, List.countP_cons, if_pos (decide_eq_true found)] at single
    rw [List.countP_append]
    omega
  intro other among ioapic
  exact List.countP_eq_zero.mp rest other among (decide_eq_true ioapic)

/-- A table with one I/O APIC splits at it. -/
theorem exists_ioapic {records : List MadtRecord} (single : records.countP (MadtRecord.IsIoapic ·) = 1) :
    ∃ earlier madtIoapic later, records = earlier ++ .ioapic madtIoapic :: later ∧
      ∀ record ∈ earlier ++ later, ¬ record.IsIoapic := by
  obtain ⟨found, member, holds⟩ := List.countP_pos_iff.mp (single.symm ▸ Nat.one_pos : 0 < _)
  obtain ⟨earlier, later, rfl⟩ := List.append_of_mem member
  have ioapic : found.IsIoapic := of_decide_eq_true holds
  have plain := plain_of_single single ioapic
  cases found with
  | ioapic madtIoapic => exact ⟨earlier, madtIoapic, later, rfl, plain⟩
  | _ => exact absurd ioapic id

theorem separate_ioapic (record : MadtRecord) (madtIoapic : MadtIoapic) : record.Separate (.ioapic madtIoapic) := by
  cases record <;> trivial

/-- Two orders of the same records give the same result when the I/O APIC stands before the sources in both. -/
theorem mirrors_records {records records' : List MadtRecord} (perm : records.Perm records')
    (single : records.countP (MadtRecord.IsIoapic ·) = 1) (separate : records.Pairwise MadtRecord.Separate)
    (fits : ∀ record ∈ records, record.PinFits) (order : SourcesLast records) (order' : SourcesLast records') :
    Mirrors SameDevices (records.forM acpiHandleMadtRecord) (records'.forM acpiHandleMadtRecord) := by
  have single' : records'.countP (MadtRecord.IsIoapic ·) = 1 := by rw [← perm.countP_eq, single]
  have fits' : ∀ record ∈ records', record.PinFits := fun record member => fits record (perm.mem_iff.mpr member)
  obtain ⟨earlier, madtIoapic, later, rfl, plain⟩ := exists_ioapic single
  obtain ⟨earlier', other, later', rfl, plain'⟩ := exists_ioapic single'
  have same : other = madtIoapic := by
    have member : MadtRecord.ioapic other ∈ earlier ++ .ioapic madtIoapic :: later := perm.mem_iff.mpr (by simp)
    rcases List.mem_append.mp member with first | rest
    · exact absurd trivial (plain _ (List.mem_append_left _ first))
    · rcases List.mem_cons.mp rest with found | last
      · exact MadtRecord.ioapic.inj found
      · exact absurd trivial (plain _ (List.mem_append_right _ last))
  subst other
  have rest : (earlier ++ later).Perm (earlier' ++ later') :=
    (List.perm_middle.symm.trans (perm.trans List.perm_middle)).cons_inv
  have front : ∀ record ∈ earlier, Commutes SameDevices acpiHandleMadtRecord record (.ioapic madtIoapic) :=
    fun record member => commutes_records (separate_ioapic _ _) (fits record (by simp [member])) trivial
      fun found => absurd found (plain record (List.mem_append_left _ member))
  have back : ∀ record ∈ earlier', Commutes SameDevices acpiHandleMadtRecord (.ioapic madtIoapic) record :=
    fun record member => commutes_records (separate_ioapic _ _).symm trivial (fits' record (by simp [member]))
      fun _ source => (List.pairwise_append.mp order').2.2 record member _ List.mem_cons_self source trivial
  have middle : (earlier ++ later).Pairwise fun first second =>
      Commutes SameDevices acpiHandleMadtRecord first second ∧ Commutes SameDevices acpiHandleMadtRecord second first := by
    have pairs := separate.sublist ((List.sublist_cons_self _ _).append_left earlier)
    have fitsRest : ∀ record ∈ earlier ++ later, record.PinFits := by
      intro record member
      apply fits
      rw [List.mem_append] at member ⊢
      exact member.imp_right (List.mem_cons_of_mem _)
    refine pairs.imp_of_mem fun member member' pair => ⟨?_, ?_⟩
    · exact commutes_records pair (fitsRest _ member) (fitsRest _ member') fun found => absurd found (plain _ member)
    · exact commutes_records pair.symm (fitsRest _ member') (fitsRest _ member) fun found => absurd found (plain _ member')
  have moved : Mirrors SameDevices ((earlier ++ .ioapic madtIoapic :: later).forM acpiHandleMadtRecord)
      ((MadtRecord.ioapic madtIoapic :: (earlier ++ later)).forM acpiHandleMadtRecord) :=
    mirrors_forM_front respects_acpiHandleMadtRecord sameDevices_equivalence front
  have permuted : Mirrors SameDevices ((MadtRecord.ioapic madtIoapic :: (earlier ++ later)).forM acpiHandleMadtRecord)
      ((MadtRecord.ioapic madtIoapic :: (earlier' ++ later')).forM acpiHandleMadtRecord) :=
    (respects_acpiHandleMadtRecord _).bind
      (mirrors_forM_perm respects_acpiHandleMadtRecord sameDevices_equivalence rest middle)
  have returned : Mirrors SameDevices ((MadtRecord.ioapic madtIoapic :: (earlier' ++ later')).forM acpiHandleMadtRecord)
      ((earlier' ++ .ioapic madtIoapic :: later').forM acpiHandleMadtRecord) :=
    mirrors_forM_back respects_acpiHandleMadtRecord sameDevices_equivalence back
  exact moved.trans sameDevices_equivalence (permuted.trans sameDevices_equivalence returned)

section NullAccess

variable {machine machine' : Machine}

/-- The masking loop faults only through a null base. -/
theorem stops_maskLoop {count : Nat} {reason : Stop}
    (stopped : Stops (forRange (fun i _ => ioapicDisableInterrupt (BitVec.ofNat 8 i)) count ()) machine reason machine') :
    machine.ioapicBase = 0 := by
  obtain ⟨index, _, state, _, same, last⟩ := stops_forRange
    (fun _ _ (reached : Machine) => reached.ioapicBase = machine.ioapicBase) rfl (by
      intro index _ _ state state' _ same returned
      obtain ⟨_, rfl⟩ := returns_ioapicDisableInterrupt.mp returned
      exact same) stopped
  exact same.symm.trans (stops_ioapicWrite64.mp last).1

/-- The tail of the I/O APIC driver faults only through a null base. -/
theorem nullAccess_maskPins (stopped : Stops (do
      let version ← ioapicRead32 ioapicver
      let numIoapicEntries : BitVec 8 := ((version >>> ioapicverMaxentryShift) &&& 0xFF#32).setWidth 8
      panicIf (numIoapicEntries < 16#8) "I/O APIC has too few pins to cover all ISA IRQs" []
      forRange (fun i _ => ioapicDisableInterrupt (BitVec.ofNat 8 i)) numIoapicEntries.toNat ())
      machine .nullAccess machine') : machine.ioapicBase = 0 := by
  rcases (stops_bind _ _ _ _ _).mp stopped with fault | ⟨version, middle, read, stopped⟩
  · rcases (stops_bind _ _ _ _ _).mp fault with fault | ⟨_, _, _, fault⟩
    · exact (stops_ioapicSelect.mp fault).1
    · simp only [stops_bind, stops_get, stops_pure, and_false, exists_false, or_false] at fault
  · obtain ⟨based, _, rfl⟩ := returns_ioapicReadVersion.mp read
    exact @stops_maskLoop (machine.selectIoapic ioapicver) _ _ _ (stops_after_panicIf id stopped)

/-- The I/O APIC driver faults only when the window of the I/O APIC is null. -/
theorem nullAccess_ioapicInitRegister {madtIoapic : MadtIoapic}
    (stopped : Stops (ioapicInitRegister madtIoapic) machine .nullAccess machine') :
    machine.mm.pHHDM + madtIoapic.address.setWidth 64 = 0 := by
  unfold ioapicInitRegister at stopped
  rcases (stops_bind _ _ _ _ _).mp stopped with fault | ⟨_, _, got, stopped⟩
  · exact absurd fault (stops_get _ _ _)
  obtain ⟨rfl, rfl⟩ := (returns_get _ _ _).mp got
  rcases (stops_bind _ _ _ _ _).mp (stops_after_panicIf id (stops_after_panicIf id stopped)) with
    fault | ⟨base, _, got, stopped⟩
  · simp only [stops_liftMm, stops_phyToVirt, false_and, exists_false] at fault
  simp only [returns_liftMm, returns_phyToVirt] at got
  obtain ⟨_, ⟨rfl, rfl⟩, rfl⟩ := got
  rcases (stops_bind _ _ _ _ _).mp stopped with fault | ⟨_, _, set, stopped⟩
  · exact absurd fault (stops_modify _ _ _ _)
  have based := (returns_modify _ _ _ _).mp set
  subst based
  rcases (stops_bind _ _ _ _ _).mp stopped with fault | ⟨_, _, mapped, stopped⟩
  · obtain ⟨mm, fault, _⟩ := (stops_liftMm _ _ _ _).mp fault
    exact absurd (panics_vmmMap _ _ _ _ _ _ _ fault) id
  obtain ⟨mm, _, rfl⟩ := (returns_liftMm _ _ _ _).mp mapped
  exact nullAccess_maskPins stopped

/-- A run over an I/O APIC record leaves a base that is set. -/
theorem based_of_ioapic {records : List MadtRecord} {madtIoapic : MadtIoapic} {done : Unit}
    (member : .ioapic madtIoapic ∈ records)
    (returned : Returns (records.forM acpiHandleMadtRecord) machine done machine') : machine'.ioapicBase ≠ 0 := by
  obtain ⟨earlier, later, rfl⟩ := List.append_of_mem member
  rw [forM_append] at returned
  obtain ⟨_, first, _, rest⟩ := (returns_bind _ _ _ _ _).mp returned
  obtain ⟨_, second, register, last⟩ := (returns_bind _ _ _ _ _).mp rest
  obtain ⟨_, _, _, window, mm, _, rfl⟩ := returns_ioapicInitRegister.mp register
  exact (returns_records last).1.based window

/-- A walk that finds the I/O APIC before the sources never faults. -/
theorem not_nullAccess {records : List MadtRecord} (ready : machine.LapicReady) (order : SourcesLast records)
    (single : records.countP (MadtRecord.IsIoapic ·) = 1)
    (window : ∀ madtIoapic, .ioapic madtIoapic ∈ records → machine.mm.pHHDM + madtIoapic.address.setWidth 64 ≠ 0) :
    ¬ Stops (records.forM acpiHandleMadtRecord) machine .nullAccess machine' := by
  intro stopped
  obtain ⟨earlier, record, later, state, rfl, walked, fault⟩ := stops_forM stopped
  cases record with
  | localApic => exact stops_pure _ _ _ _ fault
  | ioapic madtIoapic =>
      have plain : ∀ record ∈ earlier, ¬ record.IsIoapic :=
        fun record member => plain_of_single single trivial record (List.mem_append_left _ member)
      apply window madtIoapic (by simp)
      rw [← (returns_plain_records plain walked).1]
      exact nullAccess_ioapicInitRegister fault
  | sourceOverride madtOverride =>
      obtain ⟨_, ⟨_, reason⟩ | ⟨_, _, reason⟩⟩ := stops_ioapicInitSourceOverride.mp fault
      · cases reason
      · cases reason
  | nmiSource madtNmisource =>
      have null := (stops_ioapicInitNmisource.mp fault).1
      obtain ⟨front, madtIoapic, back, split, _⟩ := exists_ioapic single
      have member : MadtRecord.ioapic madtIoapic ∈ earlier ++ .nmiSource madtNmisource :: later := by
        rw [split]
        simp
      rcases List.mem_append.mp member with first | rest
      · exact based_of_ioapic first walked null
      · have last := (List.mem_cons.mp rest).resolve_left MadtRecord.noConfusion
        have pairs := (List.pairwise_append.mp order).2.1
        exact (List.pairwise_cons.mp pairs).1 _ last trivial trivial
  | localApicNmi madtLocalapicnmi =>
      exact (stops_lapicInitNmi.mp fault).2.1 ((returns_records walked).1.ready ready)
  | unknown type =>
      obtain ⟨reason, _⟩ := (stops_throw _ _ _ _).mp fault
      cases reason

end NullAccess

/-- Two machines have the same redirection entries, the same ISA table, and the same local APIC. -/
structure SameTables (machine machine' : Machine) : Prop where
  registers : machine'.ioapic.registers = machine.ioapic.registers
  isaRedirectionEntry : machine'.isaRedirectionEntry = machine.isaRedirectionEntry
  lapic : machine'.lapic = machine.lapic

theorem SameDevices.tables {machine machine' : Machine} (same : SameDevices machine machine') :
    SameTables machine machine' := by
  obtain ⟨_, _, rfl⟩ := same
  exact ⟨rfl, rfl, rfl⟩

/-- The walks over two tables leave the same tables, and neither reaches the I/O APIC before its base is set. -/
structure OrderFree (fuel : Nat) (boot : Machine) (first second : Madt) : Prop where
  forward : ∀ machine, Returns (acpiParseMadt fuel first) boot () machine →
    ∃ machine', Returns (acpiParseMadt fuel second) boot () machine' ∧ SameTables machine machine'
  backward : ∀ machine', Returns (acpiParseMadt fuel second) boot () machine' →
    ∃ machine, Returns (acpiParseMadt fuel first) boot () machine ∧ SameTables machine' machine
  firstSafe : ∀ machine, ¬ Stops (acpiParseMadt fuel first) boot .nullAccess machine
  secondSafe : ∀ machine, ¬ Stops (acpiParseMadt fuel second) boot .nullAccess machine

section Order

variable {pMADT other : Madt} {chunks chunks' : List MadtChunk} {boot begun machine : Machine} {fuel : Nat}

theorem acpiBeginMadt_congr (flags : other.flags = pMADT.flags) : acpiBeginMadt other = acpiBeginMadt pMADT := by
  rw [acpiBeginMadt, acpiBeginMadt, flags]

/-- From a begun walk, the table runs as the loop over its records. -/
theorem returns_parse (tiled : pMADT.TiledBy chunks) (enough : chunks.length < fuel)
    (start : Returns (acpiBeginMadt pMADT) boot () begun) : Returns (acpiParseMadt fuel pMADT) boot () machine ↔
      Returns ((chunks.map MadtChunk.record).forM acpiHandleMadtRecord) begun () machine := by
  rw [acpiParseMadt_eq tiled enough, returns_bind]
  constructor
  · intro returned
    obtain ⟨_, middle, started, walked⟩ := returned
    obtain ⟨_, rfl⟩ := started.unique start
    exact walked
  · intro walked
    exact ⟨(), begun, start, walked⟩

theorem stops_parse (tiled : pMADT.TiledBy chunks) (enough : chunks.length < fuel)
    (start : Returns (acpiBeginMadt pMADT) boot () begun) {reason : Stop} :
    Stops (acpiParseMadt fuel pMADT) boot reason machine ↔
      Stops ((chunks.map MadtChunk.record).forM acpiHandleMadtRecord) begun reason machine := by
  rw [acpiParseMadt_eq tiled enough, stops_bind]
  constructor
  · rintro (stopped | ⟨_, middle, started, walked⟩)
    · exact absurd stopped start.not_stops
    · obtain ⟨_, rfl⟩ := started.unique start
      exact walked
  · intro walked
    exact Or.inr ⟨(), begun, start, walked⟩

/-- Two tables with the same records give the same result when the I/O APIC stands before the sources in both. -/
theorem orderFree_of_sourcesLast (tiled : pMADT.TiledBy chunks) (enough : chunks.length < fuel)
    (start : Returns (acpiBeginMadt pMADT) boot () begun)
    (single : (chunks.map MadtChunk.record).countP (MadtRecord.IsIoapic ·) = 1)
    (separate : (chunks.map MadtChunk.record).Pairwise MadtRecord.Separate)
    (window : ∀ madtIoapic, .ioapic madtIoapic ∈ chunks.map MadtChunk.record →
      begun.mm.pHHDM + madtIoapic.address.setWidth 64 ≠ 0)
    (fits : ∀ record ∈ chunks.map MadtChunk.record, record.PinFits)
    (order : SourcesLast (chunks.map MadtChunk.record)) (flags : other.flags = pMADT.flags)
    (tiled' : other.TiledBy chunks') (perm : chunks.Perm chunks')
    (order' : SourcesLast (chunks'.map MadtChunk.record)) : OrderFree fuel boot pMADT other := by
  have ready := (returns_acpiBeginMadt start).2
  have start' : Returns (acpiBeginMadt other) boot () begun := by rwa [acpiBeginMadt_congr flags]
  have enough' : chunks'.length < fuel := by rwa [← perm.length_eq]
  have permuted := perm.map MadtChunk.record
  have single' : (chunks'.map MadtChunk.record).countP (MadtRecord.IsIoapic ·) = 1 := by
    rw [← permuted.countP_eq, single]
  have separate' : (chunks'.map MadtChunk.record).Pairwise MadtRecord.Separate :=
    (permuted.pairwise_iff MadtRecord.Separate.symm).mp separate
  have fits' : ∀ record ∈ chunks'.map MadtChunk.record, record.PinFits :=
    fun record member => fits record (permuted.mem_iff.mpr member)
  refine ⟨fun machine parsed => ?_, fun machine' parsed => ?_, fun machine fault => ?_, fun machine fault => ?_⟩
  · obtain ⟨machine', walked, same⟩ := mirrors_records permuted single separate fits order order' begun begun machine
      (sameDevices_equivalence.refl begun) ((returns_parse tiled enough start).mp parsed)
    exact ⟨machine', (returns_parse tiled' enough' start').mpr walked, same.tables⟩
  · obtain ⟨machine, walked, same⟩ := mirrors_records permuted.symm single' separate' fits' order' order begun begun
      machine' (sameDevices_equivalence.refl begun) ((returns_parse tiled' enough' start').mp parsed)
    exact ⟨machine, (returns_parse tiled enough start).mpr walked, same.tables⟩
  · exact not_nullAccess ready order single window ((stops_parse tiled enough start).mp fault)
  · exact not_nullAccess ready order' single' (fun madtIoapic member =>
      window madtIoapic (permuted.mem_iff.mpr member)) ((stops_parse tiled' enough' start').mp fault)

/-- A table with a source has an order in which the source is the first record, and the walk over it faults. -/
theorem nullAccess_of_source (tiled : pMADT.TiledBy chunks) (enough : chunks.length < fuel)
    (fresh : boot.ioapicBase = 0) (start : Returns (acpiBeginMadt pMADT) boot () begun) {chunk : MadtChunk}
    (member : chunk ∈ chunks) (source : chunk.record.IsNmiSource) :
    ∃ other chunks', other.flags = pMADT.flags ∧ other.TiledBy chunks' ∧ chunks.Perm chunks' ∧
      Stops (acpiParseMadt fuel other) boot .nullAccess begun := by
  obtain ⟨earlier, later, rfl⟩ := List.append_of_mem member
  have perm : (earlier ++ chunk :: later).Perm (chunk :: (earlier ++ later)) := List.perm_middle
  have bytes := (perm.flatMap_right MadtChunk.bytes).length_eq
  have total := tiled.length
  have bound := pMADT.length.isLt
  have tiled' : (Madt.ofChunks pMADT.flags (chunk :: (earlier ++ later))).TiledBy (chunk :: (earlier ++ later)) := by
    apply tiledBy_ofChunks
    rw [MadtChunk.flatten, ← bytes, ← MadtChunk.flatten]
    omega
  refine ⟨Madt.ofChunks pMADT.flags (chunk :: (earlier ++ later)), _, rfl, tiled', perm, ?_⟩
  have start' : Returns (acpiBeginMadt (Madt.ofChunks pMADT.flags (chunk :: (earlier ++ later)))) boot () begun := start
  rw [stops_parse tiled' (by rwa [← perm.length_eq]) start']
  have null : begun.ioapicBase = 0 := (returns_acpiBeginMadt start).1.ioapicBase.trans fresh
  have fault : Stops (acpiHandleMadtRecord chunk.record) begun .nullAccess begun := by
    cases found : chunk.record with
    | nmiSource madtNmisource => exact stops_ioapicInitNmisource.mpr ⟨null, rfl, rfl⟩
    | _ =>
        rw [found] at source
        exact absurd source id
  exact (stops_bind _ _ _ _ _).mpr (Or.inl fault)

/-- The walk does not depend on the order of the records exactly when the table has no non-maskable source.
With sources, it does not depend on the order as long as the I/O APIC stands before them. -/
theorem madt_order_free_iff (tiled : pMADT.TiledBy chunks) (enough : chunks.length < fuel)
    (fresh : boot.ioapicBase = 0) (start : Returns (acpiBeginMadt pMADT) boot () begun)
    (single : (chunks.map MadtChunk.record).countP (MadtRecord.IsIoapic ·) = 1)
    (separate : (chunks.map MadtChunk.record).Pairwise MadtRecord.Separate)
    (window : ∀ madtIoapic, .ioapic madtIoapic ∈ chunks.map MadtChunk.record →
      begun.mm.pHHDM + madtIoapic.address.setWidth 64 ≠ 0) :
    ((∀ other chunks', other.flags = pMADT.flags → other.TiledBy chunks' → chunks.Perm chunks' →
        OrderFree fuel boot pMADT other) ↔ ∀ record ∈ chunks.map MadtChunk.record, ¬ record.IsNmiSource) ∧
      ((∀ record ∈ chunks.map MadtChunk.record, record.PinFits) → SourcesLast (chunks.map MadtChunk.record) →
        ∀ other chunks', other.flags = pMADT.flags → other.TiledBy chunks' → chunks.Perm chunks' →
          SourcesLast (chunks'.map MadtChunk.record) → OrderFree fuel boot pMADT other) := by
  refine ⟨⟨fun free record member source => ?_, fun quiet other chunks' flags tiled' perm => ?_⟩,
    fun fits order other chunks' flags tiled' perm order' =>
      orderFree_of_sourcesLast tiled enough start single separate window fits order flags tiled' perm order'⟩
  · obtain ⟨chunk, among, rfl⟩ := List.mem_map.mp member
    obtain ⟨other, chunks', flags, tiled', perm, fault⟩ := nullAccess_of_source tiled enough fresh start among source
    exact (free other chunks' flags tiled' perm).secondSafe begun fault
  · have silent : ∀ records : List MadtRecord, (∀ record ∈ records, ¬ record.IsNmiSource) → SourcesLast records :=
      fun records none => List.pairwise_of_forall_mem_list fun first among second _ source => absurd source (none first among)
    have fits : ∀ record ∈ chunks.map MadtChunk.record, record.PinFits := by
      intro record member
      cases record with
      | nmiSource madtNmisource => exact absurd trivial (quiet _ member)
      | _ => trivial
    refine orderFree_of_sourcesLast tiled enough start single separate window fits (silent _ quiet) flags tiled' perm
      (silent _ fun record member => quiet record ?_)
    exact (perm.map MadtChunk.record).mem_iff.mpr member

end Order

def sampleSourceLast : Madt := .ofChunks pcatCompat [sampleIoapic, sampleNmiSource]

def sampleSourceFirst : Madt := .ofChunks pcatCompat [sampleNmiSource, sampleIoapic]

/-- The two orders of an I/O APIC and a source are well formed. The walk over one returns, and over the other it faults. -/
theorem madt_order_nullAccess : sampleSourceLast.TiledBy [sampleIoapic, sampleNmiSource] ∧
    sampleSourceFirst.TiledBy [sampleNmiSource, sampleIoapic] ∧
    [sampleIoapic, sampleNmiSource].Perm [sampleNmiSource, sampleIoapic] ∧
    (∃ machine, Returns (acpiParseMadt 3 sampleSourceLast) sampleMachine () machine) ∧
    ∃ machine, Stops (acpiParseMadt 3 sampleSourceFirst) sampleMachine .nullAccess machine := by
  have tiled : sampleSourceFirst.TiledBy [sampleNmiSource, sampleIoapic] := tiledBy_ofChunks _ (by decide)
  have start : Returns (acpiBeginMadt sampleSourceFirst) sampleMachine () sampleBegun := sampleBegun_returns
  have null : sampleBegun.ioapicBase = 0 := (returns_acpiBeginMadt start).1.ioapicBase
  have source : sampleNmiSource.record = .nmiSource ⟨0#16, 5#32⟩ := by decide
  refine ⟨tiledBy_ofChunks _ (by decide), tiled, List.Perm.swap _ _ _, ⟨_, returns_lastState (by decide +kernel)⟩,
    sampleBegun, ?_⟩
  rw [stops_parse tiled (by decide) start]
  apply (stops_bind _ _ _ _ _).mpr
  rw [source]
  exact Or.inl (stops_ioapicInitNmisource.mpr ⟨null, rfl, rfl⟩)

/-- A table without a source gives the same result in every order. -/
theorem madt_order_free_iff_sample : OrderFree 4 sampleMachine (.ofChunks pcatCompat [sampleTimer, sampleIoapic, samplePower])
    (.ofChunks pcatCompat [samplePower, sampleTimer, sampleIoapic]) := by
  have records : [sampleTimer, sampleIoapic, samplePower].map MadtChunk.record =
      [.sourceOverride ⟨0#8, 0#8, 2#32, 0#16⟩, .ioapic ⟨0x100000#32, 0#32⟩, .sourceOverride ⟨0#8, 9#8, 9#32, 0xF#16⟩] := by
    decide
  have start : Returns (acpiBeginMadt (.ofChunks pcatCompat [sampleTimer, sampleIoapic, samplePower])) sampleMachine ()
      sampleBegun := sampleBegun_returns
  have direct : sampleBegun.mm.pHHDM = sampleHhdm := by decide +kernel
  have free := (@madt_order_free_iff (.ofChunks pcatCompat [sampleTimer, sampleIoapic, samplePower])
    [sampleTimer, sampleIoapic, samplePower] sampleMachine sampleBegun 4 (tiledBy_ofChunks _ (by decide)) (by decide) rfl
    start (by decide) (by rw [records]; simp [MadtRecord.Separate]) (by
      intro madtIoapic member
      rw [records] at member
      simp only [List.mem_cons, reduceCtorEq, MadtRecord.ioapic.injEq, List.not_mem_nil, or_false, false_or] at member
      subst member
      rw [direct]
      decide)).1.mpr (by decide)
  exact free _ _ rfl (tiledBy_ofChunks _ (by decide)) (@List.perm_append_comm _ [sampleTimer, sampleIoapic] [samplePower])

end UmbralOS
