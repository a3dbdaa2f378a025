import UmbralOS.Proof.Interrupts.Routing
import UmbralOS.Proof.Memory.Unaligned

/-!
This file proves where the register windows of the interrupt drivers lead, and with which memory type.
-/

namespace UmbralOS

open Library

/-- The memory manager after a write of a model specific register. -/
def Mm.withMsr (mm : Mm) (register : BitVec 32) (value : BitVec 64) : Mm :=
  { mm with msr := fun found => if found = register then value else mm.msr found }

@[simp] theorem returns_wrmsr {mm mm' : Mm} {register : BitVec 32} {value : BitVec 64} {done : Unit} :
    Returns (wrmsr register value) mm done mm' ↔ mm.withMsr register value = mm' :=
  returns_modify _ _ _ _

@[simp] theorem returns_rdmsr {mm mm' : Mm} {register : BitVec 32} {value : BitVec 64} :
    Returns (rdmsr register) mm value mm' ↔ mm.msr register = value ∧ mm = mm' :=
  returns_read _ _ _ _

theorem Mm.withMsr_other (mm : Mm) {found register : BitVec 32} (other : found ≠ register) (value : BitVec 64) :
    (mm.withMsr register value).msr found = mm.msr found :=
  if_neg other

theorem Mm.withMsr_same (mm : Mm) (register : BitVec 32) (value : BitVec 64) :
    (mm.withMsr register value).msr register = value := if_pos rfl

/-- The last write of a register wins. -/
@[simp] theorem Mm.withMsr_withMsr (mm : Mm) (register : BitVec 32) (first second : BitVec 64) :
    (mm.withMsr register first).withMsr register second = mm.withMsr register second := by
  unfold withMsr
  congr 1
  funext found
  dsimp only
  split_ifs
  · rfl
  · rfl

/-- The tables do not depend on the model specific registers. -/
theorem Tabled.withMsr {mm : Mm} {live : Set Nat} {register : BitVec 32} (tabled : Tabled mm live) (value : BitVec 64) :
    Tabled (mm.withMsr register value) live := by
  obtain ⟨pool, aligned, distinct, small, grants, usable, bitmap, apart⟩ := tabled
  have placed : (mm.withMsr register value).Placed := ⟨pool.placed.fits, pool.placed.count⟩
  exact ⟨pool.shrink placed subset_rfl rfl, aligned, distinct, small, grants, usable, bitmap, apart⟩

/-- The tables are built, no directory lets user code pass, and the attribute table is the one of `vmm_init`. -/
structure Mm.Mapper (mm : Mm) (live : Set Nat) : Prop where
  tabled : Tabled mm live
  attributes : mm.msr msrIa32Pat = patValue
  kernel : mm.KernelOnly

namespace Mm.Mapper

variable {mm mm' : Mm} {live : Set Nat} {call : MapCall}

/-- A call that returns keeps the mapper, and it changes the translations of its range. -/
theorem map (mapper : mm.Mapper live) (fits : call.Fits) (returned : Returns call.run mm () mm') :
    mm'.Mapper live ∧ mm' = { mm with memory := mm'.memory } ∧
      ∀ virt, Canonical virt → mm'.translate virt = (call.rule virt).or (mm.translate virt) := by
  obtain ⟨accepted, remapped⟩ := returns_vmmMap mapper.tabled mapper.attributes fits.physical returned
  obtain ⟨grown, kernel, _⟩ := vmmMap_rights mapper.tabled mapper.kernel returned
  refine ⟨⟨grown.tabled, by rw [grown.data]; exact mapper.attributes, kernel⟩, grown.data, fun virt canonical => ?_⟩
  rw [remapped.translate, ← MapCall.lastApplicable_rules fits accepted canonical]
  rfl

/-- A write of a register other than the attribute table keeps the mapper. -/
theorem withMsr (mapper : mm.Mapper live) {register : BitVec 32} (other : msrIa32Pat ≠ register) (value : BitVec 64) :
    (mm.withMsr register value).Mapper live :=
  ⟨mapper.tabled.withMsr value, (mm.withMsr_other other value).trans mapper.attributes, mapper.kernel⟩

/-- The walk of a page allows writing exactly when its leaf does. -/
theorem writable (mapper : mm.Mapper live) {virt : Pointer} {translation : Translation}
    (found : mm.translate virt = some translation) :
    ∃ rights, mm.effectiveRights virt = some rights ∧ rights.writable = translation.rw := by
  obtain ⟨entry, walked, rfl⟩ := Option.map_eq_some_iff.mp found
  rw [effectiveRights_eq mapper.tabled mapper.kernel, walked]
  exact ⟨_, rfl, rfl⟩

end Mm.Mapper

theorem Mm.translate_withMsr {mm : Mm} {register : BitVec 32} (other : msrIa32Pat ≠ register) (value : BitVec 64) :
    (mm.withMsr register value).translate = mm.translate := by
  funext virt
  rw [translate, translate, mm.withMsr_other other value]
  rfl

theorem TableRun.mapper {start mm : Mm} {owned live : Set Nat} {calls : List MapCall} (zeroed : RootZeroed start owned)
    (run : TableRun start owned calls mm live) : mm.Mapper live :=
  have invariant := run.invariant zeroed
  ⟨invariant.tabled, invariant.attributes, invariant.kernel⟩

/-- The direct map starts at a page, and it has room for 36-bit addresses, all of them canonical. -/
structure DirectRoom (phhdm : Pointer) : Prop where
  aligned : phhdm.toNat % 4096 = 0
  ends : phhdm.toNat + 2 ^ 36 ≤ 2 ^ 64
  canonical : ∀ virt : Pointer, phhdm.toNat ≤ virt.toNat → virt.toNat < phhdm.toNat + 2 ^ 36 → Canonical virt

/-- The call that maps a range of physical addresses at its place in the direct map. -/
def windowCall (phhdm : Pointer) (address size : BitVec 64) (flags : BitVec 32) : MapCall :=
  unalignedCall address (phhdm + address) size flags

/-- The page of an address holds a byte of the range. -/
def SharesPage (address size offset : Nat) : Prop := ∃ k < size, (address + k) / 4096 = offset / 4096

instance (address size offset : Nat) : Decidable (SharesPage address size offset) :=
  inferInstanceAs (Decidable (∃ k < size, _))

/-- The other bytes of a page share it too. -/
theorem SharesPage.add {address size page offset : Nat} (shares : SharesPage address size (page * 4096))
    (inside : offset < 4096) : SharesPage address size (page * 4096 + offset) := by
  obtain ⟨k, below, same⟩ := shares
  refine ⟨k, below, same.trans ?_⟩
  rw [Nat.mul_div_left _ (by decide), Nat.mul_comm, Nat.mul_add_div (by decide), Nat.div_eq_of_lt inside, Nat.add_zero]

/-- A 32-bit range that does not end far behind its start has pages below 2^24. -/
theorem SharesPage.page_lt {address size page : Nat} (shares : SharesPage address size (page * 4096))
    (low : address < 2 ^ 32) (small : size ≤ 2 ^ 32) : page % 2 ^ 24 = page := by
  obtain ⟨k, below, same⟩ := shares
  omega

section Window

variable {phhdm : Pointer} {address size : BitVec 64} {flags : BitVec 32}

theorem DirectRoom.toNat_add (room : DirectRoom phhdm) {offset : Nat} (low : offset < 2 ^ 36) :
    (phhdm + BitVec.ofNat 64 offset).toNat = phhdm.toNat + offset := by
  have ends := room.ends
  rw [BitVec.toNat_add, BitVec.toNat_ofNat]
  omega

theorem DirectRoom.canonical_add (room : DirectRoom phhdm) {offset : Nat} (low : offset < 2 ^ 36) :
    Canonical (phhdm + BitVec.ofNat 64 offset) := by
  apply room.canonical
  · rw [room.toNat_add low]
    omega
  · rw [room.toNat_add low]
    omega

/-- The start of a window is congruent to its physical address. -/
theorem DirectRoom.congruent (room : DirectRoom phhdm) (low : address.toNat < 2 ^ 36) :
    (phhdm + address).toNat = phhdm.toNat + address.toNat ∧ address.toNat % 4096 = (phhdm + address).toNat % 4096 := by
  have sum := room.toNat_add low
  have aligned := room.aligned
  rw [BitVec.ofNat_toNat, BitVec.setWidth_eq] at sum
  omega

theorem windowCall_whole (room : DirectRoom phhdm) (some : 1 ≤ size.toNat) (low : address.toNat + size.toNat ≤ 2 ^ 36)
    (flags : BitVec 32) : (windowCall phhdm address size flags).Whole := by
  obtain ⟨start, congruent⟩ := room.congruent (show address.toNat < 2 ^ 36 by omega)
  have ends := room.ends
  refine unalignedCall_whole congruent some (by omega) (by omega) fun k inside => ?_
  have place : phhdm + address + BitVec.ofNat 64 k = phhdm + BitVec.ofNat 64 (address.toNat + k) := by
    rw [BitVec.ofNat_add, BitVec.ofNat_toNat, BitVec.setWidth_eq, BitVec.add_assoc]
  rw [place]
  exact room.canonical_add (by omega)

/-- The window of a low range ends low, wherever the direct map starts. -/
theorem windowCall_physical (low : address.toNat + size.toNat ≤ 2 ^ 36) (phhdm : Pointer) (flags : BitVec 32) :
    (windowCall phhdm address size flags).what.toNat + (windowCall phhdm address size flags).size.toNat ≤ 2 ^ 52 := by
  have length := toNat_unalignedCall_size (show address.toNat + size.toNat ≤ 2 ^ 52 by omega) (phhdm + address) flags
  have first : (windowCall phhdm address size flags).what.toNat = address.toNat / 4096 * 4096 := toNat_roundDown_page address
  rw [first, windowCall, length]
  omega

/-- The addresses of a window are the places in the direct map that share a page with its range. -/
theorem windowCall_covers (room : DirectRoom phhdm) (some : 1 ≤ size.toNat) (low : address.toNat + size.toNat ≤ 2 ^ 36)
    {virt : Pointer} (covered : (windowCall phhdm address size flags).Covers virt) :
    ∃ offset < 2 ^ 36, virt = phhdm + BitVec.ofNat 64 offset ∧ SharesPage address.toNat size.toNat offset := by
  obtain ⟨start, congruent⟩ := room.congruent (show address.toNat < 2 ^ 36 by omega)
  have aligned := room.aligned
  have ends := room.ends
  obtain ⟨k, below, same⟩ := (unalignedCall_covers congruent some (by omega) virt).mp covered
  rw [start] at same
  have total := virt.isLt
  refine ⟨virt.toNat - phhdm.toNat, by omega, ?_, k, below, by omega⟩
  apply BitVec.eq_of_toNat_eq
  rw [room.toNat_add (by omega)]
  omega

/-- A window translates the pages of its range, each to the page at the same offset. -/
theorem windowCall_rule (room : DirectRoom phhdm) (some : 1 ≤ size.toNat) (low : address.toNat + size.toNat ≤ 2 ^ 36)
    {offset : Nat} (inside : offset < 2 ^ 36) : (windowCall phhdm address size flags).rule (phhdm + BitVec.ofNat 64 offset) =
      if SharesPage address.toNat size.toNat offset then .some (requested (offset / 4096) flags) else none := by
  obtain ⟨start, congruent⟩ := room.congruent (show address.toNat < 2 ^ 36 by omega)
  have aligned := room.aligned
  have sum := room.toNat_add inside
  have covers := @unalignedCall_covers address (phhdm + address) size flags congruent some (by omega)
    (phhdm + BitVec.ofNat 64 offset)
  have pages : (∃ k < size.toNat, ((phhdm + address).toNat + k) / 4096 = (phhdm + BitVec.ofNat 64 offset).toNat / 4096) ↔
      SharesPage address.toNat size.toNat offset := by
    unfold SharesPage
    rw [start, sum]
    constructor
    · intro ⟨k, below, same⟩
      exact ⟨k, below, by omega⟩
    · intro ⟨k, below, same⟩
      exact ⟨k, below, by omega⟩
  rw [pages] at covers
  split_ifs with shares
  · rw [windowCall, MapCall.rule_inside (covers.mpr shares)]
    have what : (unalignedCall address (phhdm + address) size flags).what.toNat = address.toNat / 4096 * 4096 :=
      toNat_roundDown_page address
    have virt : (unalignedCall address (phhdm + address) size flags).virt.toNat = (phhdm + address).toNat / 4096 * 4096 :=
      toNat_roundDown_page _
    have reached := (covers.mpr shares).1
    rw [virt, start, sum] at reached
    rw [what, virt, start, sum]
    congr 2
    omega
  · exact MapCall.rule_outside (mt covers.mp shares)

end Window

/-- The memory type keeps the processor from caching. -/
def Translation.Uncacheable (translation : Translation) : Prop :=
  translation.memoryType = patUc.setWidth 8 ∨ translation.memoryType = patUcm.setWidth 8

instance (translation : Translation) : Decidable translation.Uncacheable := inferInstanceAs (Decidable (_ ∨ _))

/-- An access at the address reaches the physical place, for reading and for writing, and it is not cached. -/
def Mm.ReachesDevice (mm : Mm) (virt : Pointer) (place : Nat) : Prop :=
  ∃ translation, mm.translate virt = some translation ∧ translation.address virt = place ∧ translation.Uncacheable ∧
    ∃ rights, mm.effectiveRights virt = some rights ∧ rights.writable = true

/-- The call for the registers of the local APIC. -/
def lapicCall (mm : Mm) : MapCall :=
  windowCall mm.pHHDM (mm.msr msrIa32ApicBase &&& msrIa32ApicBaseMask) (lapicRegisterMax.setWidth 64 * lapicRegisterSize) mW

/-- The call for the registers of an I/O APIC. -/
def ioapicCall (mm : Mm) (record : MadtIoapic) : MapCall :=
  windowCall mm.pHHDM (record.address.setWidth 64) 0x20 (mCacheUc ||| mW)

/-- The memory manager after the local APIC is enabled in its base register. -/
def Mm.enableApic (mm : Mm) : Mm := mm.withMsr msrIa32ApicBase (mm.msr msrIa32ApicBase ||| msrIa32ApicBaseEn)

/-- A register that is enabled already keeps its value. -/
theorem Mm.enableApic_eq {mm : Mm} (enabled : mm.msr msrIa32ApicBase &&& msrIa32ApicBaseEn ≠ 0) : mm.enableApic = mm := by
  have bits : ∀ index < 64, msrIa32ApicBaseEn.getLsbD index = decide (index = 11) := by decide
  have set : (mm.msr msrIa32ApicBase).getLsbD 11 = true := by
    by_contra clear
    apply enabled
    apply BitVec.eq_of_getLsbD_eq
    intro index inside
    by_cases here : index = 11
    · subst here
      rw [BitVec.getLsbD_and, Bool.eq_false_of_not_eq_true clear, Bool.false_and]
      rfl
    · simp [bits index inside, here]
  have same : mm.msr msrIa32ApicBase ||| msrIa32ApicBaseEn = mm.msr msrIa32ApicBase := by
    apply BitVec.eq_of_getLsbD_eq
    intro index inside
    by_cases here : index = 11
    · simp [here, set]
    · simp [bits index inside, here]
  unfold enableApic withMsr
  rw [same]
  congr 1
  funext register
  split_ifs with here
  · rw [here]
  · rfl

/-- The address in the base register does not contain the enabling bits. -/
theorem apicBaseMask_or {bits : BitVec 64} (outside : bits &&& msrIa32ApicBaseMask = 0#64) (base : BitVec 64) :
    (base ||| bits) &&& msrIa32ApicBaseMask = base &&& msrIa32ApicBaseMask := by
  rw [BitVec.and_or_distrib_right, outside, BitVec.or_zero]

section Drivers

variable {machine machine' : Machine} {done : Unit}

/-- The driver enables the local APIC, and it maps its registers when the extended mode is absent. -/
theorem returns_lapicInitAccess (returned : Returns lapicInitAccess machine done machine') :
    (machine.mm.cpuid 1 0).ecx &&& cpuid1EcxX2apic ≠ 0 ∧
        (∃ value, value &&& msrIa32ApicBaseMask = machine.mm.msr msrIa32ApicBase &&& msrIa32ApicBaseMask ∧
          machine' = { machine with mm := machine.mm.withMsr msrIa32ApicBase value, hasX2apic := true }) ∨
      (machine.mm.cpuid 1 0).ecx &&& cpuid1EcxX2apic = 0 ∧
        ∃ mm, Returns (lapicCall machine.mm).run machine.mm.enableApic () mm ∧ machine' = { machine with
          mm := mm, hasX2apic := false,
          lapicBase := machine.mm.pHHDM + (machine.mm.msr msrIa32ApicBase &&& msrIa32ApicBaseMask) } := by
  have enables : msrIa32ApicBaseEn &&& msrIa32ApicBaseMask = 0#64 := by decide
  have extendedBit : msrIa32ApicBaseExtd &&& msrIa32ApicBaseMask = 0#64 := by decide
  unfold lapicInitAccess at returned
  simp only [returns_bind, returns_get, returns_modify, returns_liftMm, returns_rdmsr] at returned
  obtain ⟨_, _, ⟨rfl, rfl⟩, _, _, rfl, _, _, ⟨_, ⟨rfl, rfl⟩, rfl⟩, rest⟩ := returned
  dsimp only at rest
  obtain ⟨middle, enable, rest⟩ := (returns_optional _ _ _ _ _ _).mp rest
  have enabled : middle = { machine with
      mm := machine.mm.enableApic, hasX2apic := (machine.mm.cpuid 1 0).ecx &&& cpuid1EcxX2apic != 0 } := by
    split_ifs at enable with clear
    · simp only [returns_liftMm, returns_wrmsr] at enable
      obtain ⟨_, rfl, rfl⟩ := enable
      rfl
    · rw [Mm.enableApic_eq clear, enable]
  subst enabled
  split_ifs at rest with present extended
  · simp only [returns_liftMm, returns_wrmsr] at rest
    obtain ⟨_, rfl, rfl⟩ := rest
    refine Or.inl ⟨bne_iff_ne.mp present,
      machine.mm.msr msrIa32ApicBase ||| msrIa32ApicBaseEn ||| msrIa32ApicBaseExtd, ?_, ?_⟩
    · rw [apicBaseMask_or extendedBit, apicBaseMask_or enables]
    · rw [present, Mm.enableApic, Mm.withMsr_withMsr]
  · obtain ⟨_, rfl⟩ := (returns_pure _ _ _ _).mp rest
    refine Or.inl ⟨bne_iff_ne.mp present, machine.mm.msr msrIa32ApicBase ||| msrIa32ApicBaseEn, ?_, ?_⟩
    · exact apicBaseMask_or enables _
    · rw [present]
      rfl
  · simp only [returns_bind, returns_liftMm, returns_phyToVirt, returns_modify, apicBaseMask_or enables] at rest
    obtain ⟨_, _, ⟨_, ⟨rfl, rfl⟩, rfl⟩, _, _, ⟨mm, mapped, rfl⟩, rfl⟩ := rest
    refine Or.inr ⟨not_not.mp fun set => present (bne_iff_ne.mpr set), mm, mapped, ?_⟩
    rw [Bool.eq_false_of_not_eq_true present]
    rfl

/-- The writes of the registers change only the registers. -/
theorem returns_registers_only (returned : Returns lapicInitRegisters machine done machine') :
    ∃ lapic, machine' = { machine with lapic := lapic } := by
  have step : ∀ reg value, Preserves (fun reached => ∃ lapic, reached = { machine with lapic := lapic })
      (lapicWrite reg value) := by
    intro reg value state _ state' kept written
    obtain ⟨_, _, rfl⟩ := returns_lapicWrite.mp written
    obtain ⟨lapic, rfl⟩ := kept
    exact ⟨_, rfl⟩
  exact preserves_lapicInitRegisters step machine done machine' ⟨machine.lapic, rfl⟩ returned

/-- Without the extended mode, the driver maps its registers and keeps the base for its accesses. -/
theorem returns_lapicInitBegin (absent : (machine.mm.cpuid 1 0).ecx &&& cpuid1EcxX2apic = 0)
    (returned : Returns lapicInitBegin machine done machine') :
    Returns (lapicCall machine.mm).run machine.mm.enableApic () machine'.mm ∧
      machine'.lapicBase = machine.mm.pHHDM + (machine.mm.msr msrIa32ApicBase &&& msrIa32ApicBaseMask) := by
  obtain ⟨_, middle, accessed, registers⟩ := (returns_bind _ _ _ _ _).mp returned
  obtain ⟨lapic, rfl⟩ := returns_registers_only registers
  obtain ⟨present, _⟩ | ⟨_, mm, mapped, rfl⟩ := returns_lapicInitAccess accessed
  · exact absurd absent present
  · exact ⟨mapped, rfl⟩

/-- Records other than an I/O APIC keep the memory manager and the base of the local APIC. -/
theorem windows_of_plain_records {records : List MadtRecord} (plain : ∀ record ∈ records, ¬ record.IsIoapic)
    (returned : Returns (records.forM acpiHandleMadtRecord) machine done machine') :
    machine'.mm = machine.mm ∧ machine'.lapicBase = machine.lapicBase := by
  refine returns_forM (fun _ (reached : Machine) => reached.mm = machine.mm ∧ reached.lapicBase = machine.lapicBase)
    ⟨rfl, rfl⟩ ?_ returned
  intro processed record state state' member kept handled
  obtain ⟨mm, lapicBase⟩ := kept
  obtain ⟨_, rfl⟩ := (returns_plain (plain record member)).mp handled
  refine ⟨Machine.change_mm.trans mm, Eq.trans ?_ lapicBase⟩
  cases record <;> rfl

end Drivers

/-- The page of the local APIC in its base register. -/
def apicPage (base : BitVec 64) : Nat := base.toNat / 4096 % 2 ^ 40

/-- The mask of the driver keeps the low 24 bits of the page. -/
theorem toNat_apicBaseMask (base : BitVec 64) :
    (base &&& msrIa32ApicBaseMask).toNat = apicPage base % 2 ^ 24 * 4096 := by
  have bits : ∀ index < 64, msrIa32ApicBaseMask.getLsbD index = decide (12 ≤ index ∧ index < 36) := by decide
  have fields : base &&& msrIa32ApicBaseMask = (base.extractLsb' 12 24).setWidth 64 <<< 12 := by
    apply BitVec.eq_of_getLsbD_eq
    intro index inside
    rw [BitVec.getLsbD_and, bits index inside]
    by_cases low : index < 12
    · simp [low, Nat.not_le.mpr low]
    · by_cases high : index < 36
      · simp [low, high, inside, Nat.not_lt.mp low, show index - 12 < 24 by omega, show 12 + (index - 12) = index by omega]
      · simp [low, high, show ¬ index - 12 < 24 by omega]
  rw [fields, BitVec.toNat_shiftLeft, BitVec.toNat_setWidth, BitVec.extractLsb'_toNat, Nat.shiftLeft_eq,
    Nat.shiftRight_eq_div_pow, apicPage]
  omega

section Calls

variable {mm : Mm}

/-- The registers of both devices lie in the low 36 bits of the physical memory. -/
theorem lapicRange_low (base : BitVec 64) :
    (base &&& msrIa32ApicBaseMask).toNat + (lapicRegisterMax.setWidth 64 * lapicRegisterSize).toNat ≤ 2 ^ 36 := by
  have size : (lapicRegisterMax.setWidth 64 * lapicRegisterSize).toNat = 0x400 := by decide
  rw [toNat_apicBaseMask, size]
  omega

theorem ioapicRange_low (address : BitVec 32) : (address.setWidth 64).toNat + (0x20#64).toNat ≤ 2 ^ 36 := by
  have low := address.isLt
  rw [BitVec.toNat_setWidth_of_le (by decide)]
  change _ + 32 ≤ _
  omega

theorem lapicCall_whole (room : DirectRoom mm.pHHDM) : (lapicCall mm).Whole :=
  windowCall_whole room (by decide) (lapicRange_low _) _

theorem ioapicCall_whole (room : DirectRoom mm.pHHDM) (record : MadtIoapic) : (ioapicCall mm record).Whole :=
  windowCall_whole room (by decide) (ioapicRange_low record.address) _

end Calls

/-- Every byte of a register that the drivers access is reached at its physical place. -/
structure WindowsReached (machine : Machine) (base : BitVec 64) (address : BitVec 32) : Prop where
  lapic : ∀ reg ≤ lapicRegisterMax, ∀ k < 4, machine.mm.ReachesDevice
    (xapic1GetRegister machine.lapicBase reg + BitVec.ofNat 64 k) (apicPage base * 4096 + reg.toNat * 16 + k)
  ioapic : ∀ offset, offset = 0 ∨ offset = 0x10 → ∀ k < 4, machine.mm.ReachesDevice
    (machine.ioapicBase + BitVec.ofNat 64 (offset + k)) (address.toNat + offset + k)

/-- The state after both drivers: the window of the I/O APIC is above the window of the local APIC. -/
structure WindowsMapped (before : Mm) (record : MadtIoapic) (live : Set Nat) (after : Machine) : Prop where
  mapper : after.mm.Mapper live
  lapicBase : after.lapicBase =
    before.pHHDM + BitVec.ofNat 64 (apicPage (before.msr msrIa32ApicBase) % 2 ^ 24 * 4096)
  ioapicBase : after.ioapicBase = before.pHHDM + BitVec.ofNat 64 record.address.toNat
  translate : ∀ offset < 2 ^ 36, after.mm.translate (before.pHHDM + BitVec.ofNat 64 offset) =
    if SharesPage record.address.toNat 0x20 offset then some (requested (offset / 4096) (mCacheUc ||| mW))
    else if offset / 4096 = apicPage (before.msr msrIa32ApicBase) % 2 ^ 24 then some (requested (offset / 4096) mW)
    else before.translate (before.pHHDM + BitVec.ofNat 64 offset)

theorem windowsMapped {machine begun middle machine' : Machine} {live : Set Nat} {earlier : List MadtRecord}
    {record : MadtIoapic} (mapper : machine.mm.Mapper live) (room : DirectRoom machine.mm.pHHDM)
    (absent : (machine.mm.cpuid 1 0).ecx &&& cpuid1EcxX2apic = 0) (first : Returns lapicInitBegin machine () begun)
    (plain : ∀ record ∈ earlier, ¬ record.IsIoapic) (between : Returns (earlier.forM acpiHandleMadtRecord) begun () middle)
    (second : Returns (ioapicInitRegister record) middle () machine') : WindowsMapped machine.mm record live machine' := by
  obtain ⟨lapicMapped, lapicBase⟩ := returns_lapicInitBegin absent first
  obtain ⟨sameMm, sameBase⟩ := windows_of_plain_records plain between
  obtain ⟨_, _, _, _, mm, ioapicMapped, rfl⟩ := returns_ioapicInitRegister.mp second
  have masked := toNat_apicBaseMask (machine.mm.msr msrIa32ApicBase)
  have low := record.address.isLt
  have widened : (record.address.setWidth 64).toNat = record.address.toNat := BitVec.toNat_setWidth_of_le (by decide)
  have lapicSize : (lapicRegisterMax.setWidth 64 * lapicRegisterSize).toNat = 0x400 := by decide
  have other : msrIa32Pat ≠ msrIa32ApicBase := by decide
  have lapicFits : (lapicCall machine.mm).Fits := (lapicCall_whole room).toFits
  obtain ⟨lapicMapper, data, lapicTranslate⟩ := (mapper.withMsr other _).map lapicFits lapicMapped
  have place : middle.mm.pHHDM = machine.mm.pHHDM := by rw [sameMm, data]; rfl
  rw [← sameMm] at lapicMapper lapicTranslate
  have ioapicFits : (ioapicCall middle.mm record).Fits := (ioapicCall_whole (place ▸ room) record).toFits
  obtain ⟨ioapicMapper, _, ioapicTranslate⟩ := lapicMapper.map ioapicFits ioapicMapped
  refine ⟨ioapicMapper, ?_, ?_, fun offset inside => ?_⟩
  · change middle.lapicBase = _
    rw [sameBase, lapicBase, ← masked, BitVec.ofNat_toNat, BitVec.setWidth_eq]
  · change middle.mm.pHHDM + record.address.setWidth 64 = _
    rw [place, ← widened, BitVec.ofNat_toNat, BitVec.setWidth_eq]
  · have canonical := room.canonical_add inside
    change mm.translate _ = _
    rw [ioapicTranslate _ canonical, lapicTranslate _ canonical, Mm.translate_withMsr other, ioapicCall, place,
      windowCall_rule room (by decide) (by rw [widened]; change _ + 32 ≤ _; omega) inside, lapicCall,
      windowCall_rule room (by decide) (by rw [masked, lapicSize]; omega) inside, widened, masked, lapicSize]
    have single : SharesPage (apicPage (machine.mm.msr msrIa32ApicBase) % 2 ^ 24 * 4096) 0x400 offset ↔
        offset / 4096 = apicPage (machine.mm.msr msrIa32ApicBase) % 2 ^ 24 := by
      constructor
      · intro ⟨k, below, same⟩
        omega
      · intro same
        exact ⟨0, by decide, by omega⟩
    rw [show (0x20 : BitVec 64).toNat = 0x20 from rfl]
    simp only [single]
    split_ifs <;> simp only [Option.some_or, Option.none_or]

section Reached

variable {before mm : Mm} {record : MadtIoapic} {live : Set Nat} {after : Machine} {offset place : Nat}

/-- The walk grants an access when the leaf of the address does. -/
theorem Mm.Mapper.reachesDevice_iff (mapper : mm.Mapper live) (virt : Pointer) (place : Nat) :
    mm.ReachesDevice virt place ↔ ∃ translation, mm.translate virt = some translation ∧
      translation.address virt = place ∧ translation.Uncacheable ∧ translation.rw = true := by
  constructor
  · intro ⟨translation, found, address, uncached, rights, walked, writes⟩
    obtain ⟨rights', walked', same⟩ := mapper.writable found
    rw [walked, Option.some_inj] at walked'
    exact ⟨translation, found, address, uncached, by rw [← same, ← walked', writes]⟩
  · intro ⟨translation, found, address, uncached, writes⟩
    obtain ⟨rights, walked, same⟩ := mapper.writable found
    exact ⟨translation, found, address, uncached, rights, walked, by rw [same, writes]⟩

/-- A translated page of the direct map keeps the offset. -/
theorem DirectRoom.address_requested {phhdm : Pointer} (room : DirectRoom phhdm) (inside : offset < 2 ^ 36)
    (flags : BitVec 32) : (requested (offset / 4096) flags).address (phhdm + BitVec.ofNat 64 offset) = offset := by
  have aligned := room.aligned
  rw [Translation.address, room.toNat_add inside]
  change offset / 4096 * 4096 + _ = offset
  omega

namespace WindowsMapped

/-- A byte in the window of the I/O APIC is reached at its own place. -/
theorem reaches_ioapic (mapped : WindowsMapped before record live after) (room : DirectRoom before.pHHDM)
    (inside : offset < 2 ^ 36) (shares : SharesPage record.address.toNat 0x20 offset) :
    after.mm.ReachesDevice (before.pHHDM + BitVec.ofNat 64 offset) place ↔ place = offset := by
  have found := mapped.translate offset inside
  rw [if_pos shares] at found
  rw [mapped.mapper.reachesDevice_iff, found]
  constructor
  · intro ⟨_, same, address, _⟩
    obtain rfl := Option.some_inj.mp same
    rw [← address, room.address_requested inside]
  · intro same
    have type : requestedType (mCacheUc ||| mW) = patUcm.setWidth 8 := by decide
    exact ⟨_, rfl, by rw [room.address_requested inside, same], Or.inr type, rfl⟩

/-- A byte in the window of the local APIC alone is cached. -/
theorem not_reaches_lapic (mapped : WindowsMapped before record live after) (inside : offset < 2 ^ 36)
    (apart : ¬ SharesPage record.address.toNat 0x20 offset)
    (page : offset / 4096 = apicPage (before.msr msrIa32ApicBase) % 2 ^ 24) :
    ¬ after.mm.ReachesDevice (before.pHHDM + BitVec.ofNat 64 offset) place := by
  have found := mapped.translate offset inside
  rw [if_neg apart, if_pos page] at found
  rw [mapped.mapper.reachesDevice_iff, found]
  rintro ⟨_, same, _, uncached, _⟩
  obtain rfl := Option.some_inj.mp same
  have cached : ¬ (requestedType mW = patUc.setWidth 8 ∨ requestedType mW = patUcm.setWidth 8) := by decide
  exact cached uncached

/-- Every register is reached exactly when the page of the local APIC lies in the window of the I/O APIC. -/
theorem reached_iff (mapped : WindowsMapped before record live after) (room : DirectRoom before.pHHDM) :
    WindowsReached after (before.msr msrIa32ApicBase) record.address ↔
      SharesPage record.address.toNat 0x20 (apicPage (before.msr msrIa32ApicBase) * 4096) := by
  have low := record.address.isLt
  have pointer (reg : BitVec 8) (k : Nat) : xapic1GetRegister after.lapicBase reg + BitVec.ofNat 64 k =
      before.pHHDM + BitVec.ofNat 64 (apicPage (before.msr msrIa32ApicBase) % 2 ^ 24 * 4096 + (reg.toNat * 16 + k)) := by
    have small := reg.isLt
    have offset : reg.setWidth 64 * lapicRegisterSize = BitVec.ofNat 64 (reg.toNat * 16) := by
      rw [← BitVec.toNat_inj, BitVec.toNat_mul, BitVec.toNat_setWidth, BitVec.toNat_ofNat, lapicRegisterSize,
        show (0x10#64).toNat = 16 from rfl]
      omega
    rw [xapic1GetRegister, mapped.lapicBase, offset, BitVec.ofNat_add, BitVec.ofNat_add, BitVec.add_assoc,
      BitVec.add_assoc]
  constructor
  · intro reached
    by_contra apart
    have first := reached.lapic 0#8 (by decide) 0 (by decide)
    rw [pointer, show (0#8).toNat * 16 = 0 from rfl] at first
    simp only [Nat.add_zero] at first
    have inside : apicPage (before.msr msrIa32ApicBase) % 2 ^ 24 * 4096 < 2 ^ 36 := by omega
    by_cases shares : SharesPage record.address.toNat 0x20 (apicPage (before.msr msrIa32ApicBase) % 2 ^ 24 * 4096)
    · have place := (mapped.reaches_ioapic room inside shares).mp first
      rw [← place] at shares
      exact apart shares
    · exact mapped.not_reaches_lapic inside shares (by omega) first
  · intro shares
    have same := shares.page_lt low (by decide)
    constructor
    · intro reg inside byte small
      have bound : reg.toNat ≤ 0x40 := BitVec.le_def.mp inside
      have within : apicPage (before.msr msrIa32ApicBase) % 2 ^ 24 * 4096 + (reg.toNat * 16 + byte) < 2 ^ 36 := by omega
      rw [pointer, mapped.reaches_ioapic room within (by rw [same]; exact shares.add (by omega)), same, Nat.add_assoc]
    · intro offset place byte small
      have inside : record.address.toNat + (offset + byte) < 2 ^ 36 := by omega
      rw [mapped.ioapicBase, BitVec.add_assoc, ← BitVec.ofNat_add,
        mapped.reaches_ioapic room inside ⟨offset + byte, by omega, rfl⟩]
      omega

end WindowsMapped

end Reached

/-- After both drivers, every register is reached at its place, uncached and writable, exactly when the page of the
local APIC is a page of the window of the I/O APIC. -/
theorem device_windows_exact {start : Mm} {owned live : Set Nat} {calls : List MapCall}
    {machine begun middle machine' : Machine} {earlier : List MadtRecord} {record : MadtIoapic}
    (zeroed : RootZeroed start owned) (run : TableRun start owned calls machine.mm live)
    (room : DirectRoom machine.mm.pHHDM) (absent : (machine.mm.cpuid 1 0).ecx &&& cpuid1EcxX2apic = 0)
    (first : Returns lapicInitBegin machine () begun) (plain : ∀ record ∈ earlier, ¬ record.IsIoapic)
    (between : Returns (earlier.forM acpiHandleMadtRecord) begun () middle)
    (second : Returns (ioapicInitRegister record) middle () machine') :
    WindowsReached machine' (machine.mm.msr msrIa32ApicBase) record.address ↔
      SharesPage record.address.toNat 0x20 (apicPage (machine.mm.msr msrIa32ApicBase) * 4096) :=
  (windowsMapped (run.mapper zeroed) room absent first plain between second).reached_iff room

/-- The devices of the sample machine stand at their usual addresses, and its processor has no x2APIC. -/
def sampleUsual : Machine := { sampleMachine with mm := { sampleRoot with
  msr := fun register => if register = msrIa32ApicBase then 0xFEE00900#64 else patValue
  cpuid := fun _ _ => ⟨0, 0, 0, cpuid1EdxPat⟩ } }

def sampleUsualIoapic : MadtIoapic := ⟨0xFEC00000#32, 0⟩

def sampleUsualBegun : Machine := lastState lapicInitBegin sampleUsual

def sampleUsualReady : Machine := lastState (ioapicInitRegister sampleUsualIoapic) sampleUsualBegun

theorem sampleUsualBegun_returns : Returns lapicInitBegin sampleUsual () sampleUsualBegun :=
  returns_lastState (by decide +kernel)

theorem sampleUsualReady_returns : Returns (ioapicInitRegister sampleUsualIoapic) sampleUsualBegun () sampleUsualReady :=
  returns_lastState (by decide +kernel)

/-- A zeroed root does not depend on the registers outside the attribute table. -/
theorem RootZeroed.registers {mm : Mm} {live : Set Nat} (zeroed : RootZeroed mm live)
    {msr : BitVec 32 → BitVec 64} {cpuid : BitVec 32 → BitVec 32 → CpuidResult} (attributes : msr msrIa32Pat = patValue) :
    RootZeroed { mm with msr := msr, cpuid := cpuid } live := by
  obtain ⟨pool, aligned, small, zero, usable, bitmap, apart, _⟩ := zeroed
  have placed : ({ mm with msr := msr, cpuid := cpuid } : Mm).Placed := ⟨pool.placed.fits, pool.placed.count⟩
  exact ⟨pool.shrink placed subset_rfl rfl, aligned, small, zero, usable, bitmap, apart, attributes⟩

theorem sampleUsual_zeroed : RootZeroed sampleUsual.mm ∅ := sampleRoot_zeroed.registers (by decide)

theorem sampleHhdm_room : DirectRoom sampleHhdm := by
  refine ⟨by decide, by decide, fun virt lower _ => Or.inr (le_trans ?_ lower)⟩
  decide

theorem sampleUsual_room : DirectRoom sampleUsual.mm.pHHDM := by
  have place : sampleUsual.mm.pHHDM = sampleHhdm := by decide +kernel
  rw [place]
  exact sampleHhdm_room

theorem sampleUsual_absent : (sampleUsual.mm.cpuid 1 0).ecx &&& cpuid1EcxX2apic = 0 := by decide

theorem sampleUsual_base : sampleUsual.mm.msr msrIa32ApicBase = 0xFEE00900#64 := by decide

theorem sampleUsual_mapped : WindowsMapped sampleUsual.mm sampleUsualIoapic ∅ sampleUsualReady :=
  windowsMapped ((@TableRun.start sampleUsual.mm ∅).mapper sampleUsual_zeroed) sampleUsual_room sampleUsual_absent
    sampleUsualBegun_returns (List.forall_mem_nil _) ((returns_pure _ _ _ _).mpr ⟨rfl, rfl⟩) sampleUsualReady_returns

/-- The window of the local APIC is cached at the usual addresses of the devices. -/
theorem not_windowsReached_usual : (sampleUsual.mm.cpuid 1 0).ecx &&& cpuid1EcxX2apic = 0 ∧
    Returns lapicInitBegin sampleUsual () sampleUsualBegun ∧
    Returns (ioapicInitRegister sampleUsualIoapic) sampleUsualBegun () sampleUsualReady ∧
    ¬ WindowsReached sampleUsualReady (sampleUsual.mm.msr msrIa32ApicBase) sampleUsualIoapic.address := by
  refine ⟨sampleUsual_absent, sampleUsualBegun_returns, sampleUsualReady_returns, fun reached => ?_⟩
  have shares := (sampleUsual_mapped.reached_iff sampleUsual_room).mp reached
  rw [sampleUsual_base] at shares
  exact absurd shares (by decide)

theorem device_windows_exact_sample :
    WindowsReached sampleUsualReady (sampleUsual.mm.msr msrIa32ApicBase) sampleUsualIoapic.address ↔
      SharesPage sampleUsualIoapic.address.toNat 0x20 (apicPage (sampleUsual.mm.msr msrIa32ApicBase) * 4096) :=
  device_windows_exact sampleUsual_zeroed (@TableRun.start sampleUsual.mm ∅) sampleUsual_room sampleUsual_absent
    sampleUsualBegun_returns (List.forall_mem_nil _) ((returns_pure _ _ _ _).mpr ⟨rfl, rfl⟩) sampleUsualReady_returns

end UmbralOS
