import UmbralOS.Proof.Interrupts.Confinement
import UmbralOS.Proof.Interrupts.Windows

/-!
This file gives what the interrupt drivers do to the memory manager, over any run of the walk.
-/

namespace UmbralOS

open Library

/-- The drivers change the memory manager by writes of the base register that keep its address, and by these calls. -/
inductive DriverRun (maps : Mm → MapCall → Prop) (start : Mm) : Mm → Prop where
  | start : DriverRun maps start start
  | enable {mm : Mm} {value : BitVec 64} (run : DriverRun maps start mm)
      (same : value &&& msrIa32ApicBaseMask = mm.msr msrIa32ApicBase &&& msrIa32ApicBaseMask) :
      DriverRun maps start (mm.withMsr msrIa32ApicBase value)
  | map {call : MapCall} {mm mm' : Mm} (run : DriverRun maps start mm) (window : maps mm call)
      (returned : Returns call.run mm () mm') : DriverRun maps start mm'

/-- The walk over an interrupt table makes these calls: the window of the local APIC before the walk and without the
extended mode, and the window of an I/O APIC that the walk reaches. -/
structure MapsWindows (maps : Mm → MapCall → Prop) (pMADT : Madt) (boot : Machine) : Prop where
  lapic : (boot.mm.cpuid 1 0).ecx &&& cpuid1EcxX2apic = 0 → maps boot.mm.enableApic (lapicCall boot.mm)
  ioapic : ∀ handled i machine record, WalkReaches pMADT boot handled i machine →
    i.toNat + offsetofRecords < pMADT.length.toNat → madtRecord pMADT.records i.toNat = .ioapic record →
    machine.ioapicBase = 0 → record.globalSystemInterruptBase = 0 → maps machine.mm (ioapicCall machine.mm record)

section Calls

variable {maps : Mm → MapCall → Prop} {first second third : Mm} {pMADT : Madt} {boot machine machine' : Machine}

theorem mapsWindows_any : MapsWindows (fun _ _ => True) pMADT boot := ⟨fun _ => trivial, fun _ _ _ _ _ _ _ _ _ => trivial⟩

theorem DriverRun.trans (head : DriverRun maps first second) (tail : DriverRun maps second third) :
    DriverRun maps first third := by
  induction tail with
  | start => exact head
  | enable _ same ih => exact ih.enable same
  | map _ window returned ih => exact ih.map window returned

theorem DriverRun.enableApic (run : DriverRun maps first second) : DriverRun maps first second.enableApic :=
  run.enable (apicBaseMask_or (by decide) _)

/-- The first part of the local APIC driver maps at most its own window. -/
theorem driverRun_lapicInitBegin (windows : MapsWindows maps pMADT machine)
    (returned : Returns lapicInitBegin machine () machine') : DriverRun maps machine.mm machine'.mm := by
  obtain ⟨_, middle, accessed, registers⟩ := (returns_bind _ _ _ _ _).mp returned
  obtain ⟨lapic, rfl⟩ := returns_registers_only registers
  obtain ⟨_, value, same, rfl⟩ | ⟨absent, mm, mapped, rfl⟩ := returns_lapicInitAccess accessed
  · exact DriverRun.start.enable same
  · exact DriverRun.start.enableApic.map (windows.lapic absent) mapped

/-- The writes of the ports keep the memory manager. -/
theorem driverRun_acpiBeginMadt (windows : MapsWindows maps pMADT machine)
    (returned : Returns (acpiBeginMadt pMADT) machine () machine') : DriverRun maps machine.mm machine'.mm := by
  obtain ⟨_, middle, begun, pic⟩ := (returns_bind _ _ _ _ _).mp returned
  have step : ∀ port value, Preserves (fun state : Machine => state.mm = middle.mm) (outb port value) :=
    fun port value => preserves_modify fun state same => same
  have disabled : Preserves (fun state : Machine => state.mm = middle.mm)
      (legacyPicInitAndDisable idtIdxLegacyPicMasterBase idtIdxLegacyPicSlaveBase) := by
    unfold legacyPicInitAndDisable
    iterate 9 refine preserves_bind (step _ _) fun _ => ?_
    exact step _ _
  have same := preserves_ite _ disabled (preserves_pure ()) middle _ machine' rfl pic
  rw [same]
  exact driverRun_lapicInitBegin windows begun

/-- The states of the walk are reached by the calls of the drivers. -/
theorem WalkReaches.driverRun {handled : List MadtRecord} {i : BitVec 32} (windows : MapsWindows maps pMADT boot)
    (reached : WalkReaches pMADT boot handled i machine) : DriverRun maps boot.mm machine.mm := by
  induction reached with
  | start begun => exact driverRun_acpiBeginMadt windows begun
  | @record handled i before _ reached inside returned ih =>
      cases found : madtRecord pMADT.records i.toNat with
      | ioapic record =>
          rw [found] at returned
          obtain ⟨unset, whole, _, _, mm, mapped, rfl⟩ := returns_ioapicInitRegister.mp returned
          exact ih.map (windows.ioapic handled i before record reached inside found unset whole) mapped
      | _ =>
          obtain ⟨_, rfl⟩ := (returns_plain (by rw [found]; exact id)).mp returned
          rw [Machine.change_mm]
          exact ih

end Calls

/-- The registers that place the windows of the devices have the same values. -/
structure Mm.SamePlaces (start mm : Mm) : Prop where
  place : mm.pHHDM = start.pHHDM
  base : mm.msr msrIa32ApicBase &&& msrIa32ApicBaseMask = start.msr msrIa32ApicBase &&& msrIa32ApicBaseMask
  cpuid : mm.cpuid = start.cpuid

/-- The drivers do not move the windows. -/
theorem DriverRun.samePlaces {maps : Mm → MapCall → Prop} {start mm : Mm} {live : Set Nat} (tabled : Tabled start live)
    (run : DriverRun maps start mm) : Tabled mm live ∧ start.SamePlaces mm := by
  induction run with
  | start => exact ⟨tabled, rfl, rfl, rfl⟩
  | @enable mm _ _ same ih =>
      obtain ⟨reached, places⟩ := ih
      refine ⟨reached.withMsr _, places.place, ?_, places.cpuid⟩
      rw [mm.withMsr_same, same, places.base]
  | map _ _ returned ih =>
      obtain ⟨reached, places⟩ := ih
      obtain ⟨grown, _⟩ := vmmMap_framed reached returned
      refine ⟨grown.tabled, grown.pHHDM_eq.trans places.place, ?_, ?_⟩
      · rw [grown.data]
        exact places.base
      · rw [grown.data]
        exact places.cpuid

/-- The drivers change only pages of the allocator, and the direct map stays where it is. -/
theorem DriverRun.framed {maps : Mm → MapCall → Prop} {start mm : Mm} {live : Set Nat} (tabled : Tabled start live)
    (run : DriverRun maps start mm) : Tabled mm live ∧ Framed start mm ∧ mm.pHHDM = start.pHHDM := by
  induction run with
  | start => exact ⟨tabled, Framed.refl start, rfl⟩
  | enable _ _ ih => exact ⟨ih.1.withMsr _, ⟨ih.2.1.pages, ih.2.1.memory⟩, ih.2.2⟩
  | map _ _ returned ih =>
      obtain ⟨reached, framed, place⟩ := ih
      obtain ⟨grown, further⟩ := vmmMap_framed reached returned
      exact ⟨grown.tabled, framed.trans further, grown.pHHDM_eq.trans place⟩

end UmbralOS
