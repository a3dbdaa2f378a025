import UmbralOS.Library.Memory
import Mathlib.Data.List.GetD

/-!
This file gives the bytes of a packed table in memory.
-/

namespace UmbralOS.Library.Memory

/-- The memory holds these bytes from the address on. -/
def Holds (memory : Memory) (address : Nat) (bytes : List (BitVec 8)) : Prop :=
  ∀ index, index < bytes.length → memory (address + index) = bytes.getD index 0

/-- This memory holds the bytes at its start, and zero after them. -/
def ofList (bytes : List (BitVec 8)) : Memory := fun address => bytes.getD address 0

theorem holds_ofList (bytes : List (BitVec 8)) : (ofList bytes).Holds 0 bytes := by
  intro index _
  rw [Nat.zero_add, ofList]

/-- Two adjacent blocks of bytes are held one after the other. -/
theorem holds_append {memory : Memory} {address : Nat} {earlier later : List (BitVec 8)} :
    memory.Holds address (earlier ++ later) ↔
      memory.Holds address earlier ∧ memory.Holds (address + earlier.length) later := by
  constructor
  · intro held
    constructor
    · intro index inside
      rw [held index (by rw [List.length_append]; omega), List.getD_append _ _ _ _ inside]
    · intro index inside
      rw [Nat.add_assoc, held (earlier.length + index) (by rw [List.length_append]; omega),
        List.getD_append_right _ _ _ _ (by omega), Nat.add_sub_cancel_left]
  · rintro ⟨first, second⟩ index inside
    rw [List.length_append] at inside
    by_cases front : index < earlier.length
    · rw [first index front, List.getD_append _ _ _ _ front]
    · have last := second (index - earlier.length) (by omega)
      rw [List.getD_append_right _ _ _ _ (by omega), ← last]
      congr 1
      omega

/-- A read inside a held block depends only on the block. -/
theorem Holds.load {memory : Memory} {address : Nat} {bytes : List (BitVec 8)} (held : memory.Holds address bytes)
    {offset count : Nat} (inside : offset + count ≤ bytes.length) :
    memory.load (address + offset) count = (ofList bytes).load offset count := by
  induction count generalizing offset with
  | zero => rfl
  | succ count ih =>
      rw [Memory.load, Memory.load, held offset (by omega), Nat.add_assoc, ih (by omega), ofList]

end UmbralOS.Library.Memory
