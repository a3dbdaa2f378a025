import UmbralOS.Proof.Interrupts.Routing

/-!
This file gives the pins that stay masked after the driver accepts the I/O APIC.
-/

namespace UmbralOS

open Library

/-- The device does not deliver the interrupts of a masked pin. -/
def Ioapic.Masked (device : Ioapic) (g : Nat) : Prop := (device.redirection g).isMasked = true

instance (device : Ioapic) (g : Nat) : Decidable (device.Masked g) := inferInstanceAs (Decidable (_ = true))

/-- The masking loop masks the entries below its count and keeps the other entries. -/
theorem Ioapic.maskBelow_redirection (device : Ioapic) {count g : Nat} (few : count ≤ 120) (inside : g < 120) :
    (device.maskBelow count).redirection g =
      if g < count then .ofWords ioapicRedirTblMasked 0 else device.redirection g := by
  induction count with
  | zero => rfl
  | succ count ih =>
      have address : ioapicRedirTblAddr ((BitVec.ofNat 8 count).setWidth 32) = lowRegister count := by
        rw [ioapicRedirTblAddr_eq, BitVec.toNat_setWidth, BitVec.toNat_ofNat]
        congr 1
        omega
      rw [maskBelow, address, store64_redirection _ _ (by omega) inside, ih (by omega)]
      by_cases last : g = count
      · rw [if_pos last, if_pos (by omega)]
        rfl
      · rw [if_neg last]
        by_cases earlier : g < count
        · rw [if_pos earlier, if_pos (by omega)]
        · rw [if_neg earlier, if_neg (by omega)]

/-- A run of the drivers after the I/O APIC is accepted. It collects the pins that a source names and the pins to which
an enabled interrupt is routed. Every opened pin is a pin of the device. -/
inductive PinRun (start : Machine) : List Nat → Machine → Prop where
  | start : PinRun start [] start
  | sourceOverride {opened : List Nat} {machine machine' : Machine} {madtOverride : MadtInterruptSourceOverride} :
      PinRun start opened machine → Returns (ioapicInitSourceOverride madtOverride) machine () machine' →
      PinRun start opened machine'
  | nmiSource {opened : List Nat} {machine machine' : Machine} {madtNmisource : MadtNmiSource} :
      PinRun start opened machine → madtNmisource.globalSystemInterrupt.toNat ≤ start.ioapic.maxEntry →
      Returns (ioapicInitNmisource madtNmisource) machine () machine' →
      PinRun start (madtNmisource.globalSystemInterrupt.toNat :: opened) machine'
  | enable {opened : List Nat} {machine machine' : Machine} (irq : Fin 16) :
      PinRun start opened machine → (machine.isaRedirectionEntry irq).destination.toNat ≤ start.ioapic.maxEntry →
      Returns (ioapicEnableIsaInterrupt (BitVec.ofNat 8 irq)) machine () machine' →
      PinRun start ((machine.isaRedirectionEntry irq).destination.toNat :: opened) machine'

/-- A write of a register pair through the address of a pin keeps the other entries. -/
theorem storeIoapic_redirection {machine : Machine} {address : BitVec 32} {word : BitVec 64} {g : Nat}
    (pin : address.toNat < 120) (inside : g < 120) (separate : g ≠ address.toNat) :
    (machine.storeIoapic (ioapicRedirTblAddr address) word).ioapic.redirection g = machine.ioapic.redirection g := by
  rw [ioapicRedirTblAddr_eq, Nat.mod_eq_of_lt (by omega), Machine.storeIoapic,
    Ioapic.store64_redirection _ _ pin inside, if_neg separate]

/-- In a run that starts with masked pins, every pin outside the collected pins stays masked. -/
theorem PinRun.masked {start machine : Machine} {opened : List Nat} (run : PinRun start opened machine)
    (few : start.ioapic.maxEntry ≤ 119) (masked : ∀ g ≤ start.ioapic.maxEntry, start.ioapic.Masked g) {g : Nat}
    (inside : g ≤ start.ioapic.maxEntry) (closed : g ∉ opened) : machine.ioapic.Masked g := by
  induction run with
  | start => exact masked g inside
  | sourceOverride run returned ih =>
      obtain ⟨_, _, rfl⟩ := returns_ioapicInitSourceOverride.mp returned
      exact ih closed
  | nmiSource run valid returned ih =>
      rw [List.mem_cons, not_or] at closed
      obtain ⟨separate, closed⟩ := closed
      obtain ⟨_, rfl⟩ := returns_ioapicInitNmisource.mp returned
      rw [Ioapic.Masked, storeIoapic_redirection (by omega) (by omega) separate]
      exact ih closed
  | enable irq run valid returned ih =>
      rw [List.mem_cons, not_or] at closed
      obtain ⟨separate, closed⟩ := closed
      obtain ⟨_, rfl⟩ := returns_enable.mp returned
      have pin : ∀ destination : BitVec 8, (destination.setWidth 32).toNat = destination.toNat := by
        intro destination
        rw [BitVec.toNat_setWidth]
        omega
      rw [Ioapic.Masked, storeIoapic_redirection (by rw [pin]; omega) (by omega) (by rwa [pin])]
      exact ih closed

/-- After the driver accepts an I/O APIC, no pin is open by accident in any later run, exactly when the firmware left the
last entry masked. The masking loop does not reach that entry. -/
theorem no_stray_pin_iff {madtIoapic : MadtIoapic} {machine inited : Machine}
    (few : machine.ioapic.maxEntry ≤ 119) (returned : Returns (ioapicInitRegister madtIoapic) machine () inited) :
    ((∀ g ≤ machine.ioapic.maxEntry, inited.ioapic.Masked g) ∧
      ∀ opened reached, PinRun inited opened reached → ∀ g ≤ machine.ioapic.maxEntry,
        ¬ reached.ioapic.Masked g → g ∈ opened) ↔ machine.ioapic.Masked machine.ioapic.maxEntry := by
  obtain ⟨_, _, _, _, mm, _, rfl⟩ := returns_ioapicInitRegister.mp returned
  have entries : ∀ g ≤ machine.ioapic.maxEntry, (machine.withIoapic madtIoapic mm).ioapic.redirection g =
      if g < machine.ioapic.maxEntry then .ofWords ioapicRedirTblMasked 0 else machine.ioapic.redirection g :=
    fun g inside => Ioapic.maskBelow_redirection _ (by omega) (by omega)
  have version : (machine.withIoapic madtIoapic mm).ioapic.maxEntry = machine.ioapic.maxEntry := by
    unfold Ioapic.maxEntry
    rw [show (machine.withIoapic madtIoapic mm).ioapic.version = machine.ioapic.version from
      Ioapic.maskBelow_version _ _]
  constructor
  · intro given
    obtain ⟨masked, _⟩ := given
    have last := masked _ le_rfl
    rwa [Ioapic.Masked, entries _ le_rfl, if_neg (lt_irrefl _)] at last
  · intro last
    have masked : ∀ g ≤ machine.ioapic.maxEntry, (machine.withIoapic madtIoapic mm).ioapic.Masked g := by
      intro g inside
      rw [Ioapic.Masked, entries g inside]
      split_ifs with earlier
      · rfl
      · rwa [show g = machine.ioapic.maxEntry by omega]
    refine ⟨masked, fun opened reached run g inside stray => ?_⟩
    by_contra closed
    rw [← version] at few masked inside
    exact stray (run.masked few masked inside closed)

/-- The firmware left every entry of this device masked. -/
def sampleMasked : Machine := { sampleMachine with ioapic := ⟨0x170011#32, 0, fun _ => ioapicRedirTblMasked, []⟩ }

def sampleInited : Machine := lastState (ioapicInitRegister ⟨0x100000#32, 0⟩) sampleMasked

theorem sampleInited_returns : Returns (ioapicInitRegister ⟨0x100000#32, 0⟩) sampleMasked () sampleInited :=
  returns_lastState (by decide +kernel)

/-- On the masked device, every entry is masked after the driver accepts it, and no pin opens by accident. -/
theorem no_stray_pin_iff_sample : (∀ g ≤ 23, sampleInited.ioapic.Masked g) ∧
    ∀ opened reached, PinRun sampleInited opened reached → ∀ g ≤ 23, ¬ reached.ioapic.Masked g → g ∈ opened :=
  (no_stray_pin_iff (by decide) sampleInited_returns).mpr (by decide)

/-- On a device with unmasked entries, the last entry stays unmasked. -/
theorem last_pin_stays_unmasked : ∃ inited, Returns (ioapicInitRegister ⟨0x100000#32, 0⟩) sampleMachine () inited ∧
    sampleMachine.ioapic.maxEntry = 23 ∧ ¬ inited.ioapic.Masked 23 ∧ ∀ g < 23, inited.ioapic.Masked g :=
  ⟨lastState (ioapicInitRegister ⟨0x100000#32, 0⟩) sampleMachine, returns_lastState (by decide +kernel), by decide,
    by decide +kernel, by decide +kernel⟩

end UmbralOS
