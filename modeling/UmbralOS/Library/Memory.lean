import Mathlib.Tactic.Common
import Mathlib.Algebra.Group.Nat.Even

/-!
This file gives byte memory with little-endian words.
-/

namespace UmbralOS.Library

/-- A memory holds one byte at each address. -/
abbrev Memory := Nat → BitVec 8

namespace Memory

/-- This function reads a little-endian number of the given byte count. -/
def load (memory : Memory) (address : Nat) : Nat → Nat
  | 0 => 0
  | count + 1 => (memory address).toNat + 256 * load memory (address + 1) count

/-- This function writes a little-endian number of the given byte count. -/
def store (memory : Memory) (address count value : Nat) : Memory := fun target =>
  if address ≤ target ∧ target < address + count then
    BitVec.ofNat 8 (value / 256 ^ (target - address))
  else
    memory target

/-- This function writes the same byte at each address of a range. -/
def fill (memory : Memory) (address count : Nat) (byte : BitVec 8) : Memory := fun target =>
  if address ≤ target ∧ target < address + count then byte else memory target

theorem store_outside (memory : Memory) {address count value target : Nat}
    (outside : target < address ∨ address + count ≤ target) :
    memory.store address count value target = memory target := by
  rw [store, if_neg (by omega)]

theorem store_byte (memory : Memory) (address : Nat) (byte : BitVec 8) (target : Nat) :
    memory.store address 1 byte.toNat target = if target = address then byte else memory target := by
  by_cases same : target = address
  · subst target
    simp [store]
  · rw [store, if_neg (by omega), if_neg same]

theorem fill_inside (memory : Memory) {address count target : Nat} (byte : BitVec 8)
    (lower : address ≤ target) (upper : target < address + count) :
    memory.fill address count byte target = byte := by
  rw [fill, if_pos ⟨lower, upper⟩]

theorem fill_outside (memory : Memory) {address count target : Nat} (byte : BitVec 8)
    (outside : target < address ∨ address + count ≤ target) :
    memory.fill address count byte target = memory target := by
  rw [fill, if_neg (by omega)]

/-- A read depends only on the bytes that it covers. -/
theorem load_congr {first second : Memory} {address count : Nat}
    (same : ∀ target, address ≤ target → target < address + count → first target = second target) :
    first.load address count = second.load address count := by
  induction count generalizing address with
  | zero => rfl
  | succ count ih =>
      simp only [load]
      rw [same address (by omega) (by omega),
        ih fun target lower upper => same target (by omega) (by omega)]

/-- A read from a later start is a read at a later address. -/
theorem load_shift (memory : Memory) (start address count : Nat) :
    load (fun offset => memory (start + offset)) address count = memory.load (start + address) count := by
  induction count generalizing address with
  | zero => rfl
  | succ count ih => rw [load, load, ih, Nat.add_assoc]

/-- A read of zero bytes of memory returns zero. -/
theorem load_of_zero {memory : Memory} {address count : Nat}
    (zero : ∀ target, address ≤ target → target < address + count → memory target = 0) :
    memory.load address count = 0 := by
  induction count generalizing address with
  | zero => rfl
  | succ count ih =>
      have head := zero address (by omega) (by omega)
      have tail : load memory (address + 1) count = 0 :=
        ih fun target lower upper => zero target (by omega) (by omega)
      simp [load, head, tail]

/-- A read at a suffix of a stored word returns the high part of the word. -/
theorem load_store_suffix (memory : Memory) (address value skipped count : Nat) :
    (memory.store address (skipped + count) value).load (address + skipped) count =
      value / 256 ^ skipped % 256 ^ count := by
  induction count generalizing skipped with
  | zero => simp [load, Nat.mod_one]
  | succ count ih =>
      have tail := ih (skipped + 1)
      rw [show skipped + 1 + count = skipped + (count + 1) by omega,
        show address + (skipped + 1) = address + skipped + 1 by omega] at tail
      rw [load, tail, store, if_pos (by omega), Nat.add_sub_cancel_left, BitVec.toNat_ofNat,
        pow_succ 256 skipped, ← Nat.div_div_eq_div_mul, pow_succ' 256 count, Nat.mod_mul]

/-- A read returns the number that was written at the same address. -/
theorem load_store_same (memory : Memory) (address count value : Nat) :
    (memory.store address count value).load address count = value % 256 ^ count := by
  simpa using load_store_suffix memory address value 0 count

/-- A write does not change a separate read. -/
theorem load_store_separate (memory : Memory) {address count value target width : Nat}
    (separate : target + width ≤ address ∨ address + count ≤ target) :
    (memory.store address count value).load target width = memory.load target width :=
  load_congr fun found lower upper => store_outside memory (by omega)

end Memory

end UmbralOS.Library
