import UmbralOS.Proof.Interrupts.Confinement
import UmbralOS.Kernel.Sdt

/-!
This file gives the bound on the iterations of the table walk.
-/

namespace UmbralOS

open Library

/-- After its first part, the walk returns or stops within as many iterations as the table has bytes, and each record
advances the offset. -/
structure WalkEnds (pMADT : Madt) (boot : Machine) : Prop where
  ends : ∀ begun, Returns (acpiBeginMadt pMADT) boot () begun →
    ∀ machine, ¬ Stops (acpiWalkMadt pMADT (pMADT.length.toNat + 1) 0) begun .running machine
  advances : ∀ handled i machine, WalkReaches pMADT boot handled i machine →
    i.toNat + offsetofRecords < pMADT.length.toNat →
    ∀ machine', Returns (acpiHandleMadtRecord (madtRecord pMADT.records i.toNat)) machine () machine' →
      i.toNat < (i + (pMADT.records (i.toNat + 1)).setWidth 32).toNat

/-- Each handled record has a length, and its end is a 32-bit offset. -/
def LengthsAdvance (pMADT : Madt) (boot : Machine) : Prop :=
  ∀ handled i machine, WalkReaches pMADT boot handled i machine → i.toNat + offsetofRecords < pMADT.length.toNat →
    ∀ machine', Returns (acpiHandleMadtRecord (madtRecord pMADT.records i.toNat)) machine () machine' →
      pMADT.records (i.toNat + 1) ≠ 0 ∧ i.toNat + (pMADT.records (i.toNat + 1)).toNat < 2 ^ 32

section Steps

variable {pMADT : Madt} {boot machine machine' : Machine} {handled : List MadtRecord} {i : BitVec 32} {fuel : Nat}

/-- A 32-bit offset advances by a length byte unless the byte is zero or the sum wraps. -/
theorem advances_iff (i : BitVec 32) (step : BitVec 8) :
    i.toNat < (i + step.setWidth 32).toNat ↔ step ≠ 0 ∧ i.toNat + step.toNat < 2 ^ 32 := by
  have small := i.isLt
  have byte := step.isLt
  have widened : (step.setWidth 32 : BitVec 32).toNat = step.toNat := BitVec.toNat_setWidth_of_le (by decide)
  rw [BitVec.toNat_add, widened, ne_eq, ← BitVec.toNat_inj]
  change _ ↔ ¬ step.toNat = 0 ∧ _
  omega

/-- The handler of a record has no loop without a bound. -/
theorem handle_not_running (record : MadtRecord) :
    ¬ Stops (acpiHandleMadtRecord record) machine .running machine' := by
  intro stopped
  rcases stops_acpiHandleMadtRecord stopped with halts | ⟨_, _, _, _, leaves⟩
  · rcases halts with panicked | fault
    · exact panicked
    · cases fault
  · cases leaves

/-- The distance to the end of the table bounds the iterations that are left. -/
theorem LengthsAdvance.ends (advance : LengthsAdvance pMADT boot) (reached : WalkReaches pMADT boot handled i machine)
    (positive : 0 < fuel) (enough : pMADT.length.toNat < fuel + i.toNat) :
    ¬ Stops (acpiWalkMadt pMADT fuel i) machine .running machine' := by
  induction fuel generalizing handled i machine with
  | zero => omega
  | succ fuel ih =>
      intro stopped
      unfold acpiWalkMadt at stopped
      split_ifs at stopped with inside
      · rcases (stops_bind _ _ _ _ _).mp stopped with fault | ⟨_, middle, head, tail⟩
        · exact handle_not_running _ fault
        · have further := (advances_iff _ _).mpr (advance handled i machine reached inside middle head)
          have offset : offsetofRecords = 44 := rfl
          exact ih (reached.record inside head) (by omega) (by omega) tail
      · exact stops_pure _ _ _ _ stopped

end Steps

/-- The walk ends exactly when every handled record has a length and ends at a 32-bit offset. -/
theorem madt_walk_ends_iff (pMADT : Madt) (boot : Machine) : WalkEnds pMADT boot ↔ LengthsAdvance pMADT boot := by
  constructor
  · intro walk handled i machine reached inside machine' returned
    exact (advances_iff _ _).mp (walk.advances handled i machine reached inside machine' returned)
  · intro advance
    constructor
    · intro begun started machine
      apply advance.ends (WalkReaches.start started)
      · exact Nat.succ_pos _
      · change _ < pMADT.length.toNat + 1 + 0
        omega
    · intro handled i machine reached inside machine' returned
      exact (advances_iff _ _).mpr (advance handled i machine reached inside machine' returned)

/-- The only record of this table has the length zero. -/
def sampleStuck : Memory := Memory.ofList
  [0x41, 0x50, 0x49, 0x43, 46, 0, 0, 0, 0, 0xB4, 0, 0, 0, 0, 0, 0, 0, 0, 0, 0, 0, 0, 0, 0, 0, 0, 0, 0, 0, 0, 0, 0, 0, 0,
    0, 0, 0, 0, 0, 0, 1, 0, 0, 0, 0, 0]

/-- The walk stays at a record of a processor whose length is zero. -/
theorem walk_stays {pMADT : Madt} (fuel : Nat) (machine : Machine) (inside : offsetofRecords < pMADT.length.toNat)
    (processor : pMADT.records 0 = 0) (empty : pMADT.records 1 = 0) :
    Stops (acpiWalkMadt pMADT fuel 0) machine .running machine := by
  induction fuel with
  | zero => exact (stops_throw _ _ _ _).mpr ⟨rfl, rfl⟩
  | succ fuel ih =>
      have record : madtRecord pMADT.records (0 : BitVec 32).toNat = .localApic := by
        change madtRecord pMADT.records 0 = _
        rw [madtRecord, processor]
        rfl
      have step : (0 : BitVec 32) + (pMADT.records ((0 : BitVec 32).toNat + 1)).setWidth 32 = 0 := by
        change (0 : BitVec 32) + (pMADT.records 1).setWidth 32 = 0
        rw [empty]
        rfl
      unfold acpiWalkMadt
      rw [if_pos (show (0 : BitVec 32).toNat + offsetofRecords < _ by simpa using inside), record, step]
      exact (stops_bind _ _ _ _ _).mpr (Or.inr ⟨(), machine, (returns_pure _ _ _ _).mpr ⟨rfl, rfl⟩, ih⟩)

/-- The table passes the validation, and the walk over it runs forever. -/
theorem madt_walk_hangs : checksum sampleStuck (sdtLength sampleStuck).toNat = 0 ∧
    ¬ WalkEnds (.ofBytes sampleStuck) sampleMachine ∧
    ∀ fuel, Stops (acpiParseMadt fuel (.ofBytes sampleStuck)) sampleMachine .running sampleBegun := by
  have flags : (Madt.ofBytes sampleStuck).flags = pcatCompat := by decide
  have start : Returns (acpiBeginMadt (.ofBytes sampleStuck)) sampleMachine () sampleBegun := by
    unfold acpiBeginMadt
    rw [flags]
    exact sampleBegun_returns
  have stays : ∀ fuel, Stops (acpiWalkMadt (.ofBytes sampleStuck) fuel 0) sampleBegun .running sampleBegun :=
    fun fuel => walk_stays fuel _ (by decide) (by decide) (by decide)
  refine ⟨by decide, ?_, ?_⟩
  · intro walk
    exact walk.ends _ start _ (stays _)
  · intro fuel
    exact (stops_bind _ _ _ _ _).mpr (Or.inr ⟨(), sampleBegun, start, stays fuel⟩)

end UmbralOS
