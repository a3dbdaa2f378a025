import UmbralOS.Library.Memory

/-!
This file gives a stack of 64-bit words in byte memory.
-/

namespace UmbralOS.Library.Memory

/-- The memory holds these words from the address on. A word that is not known is left open. -/
def Stack (memory : Memory) : Nat → List (Option (BitVec 64)) → Prop
  | _, [] => True
  | address, word :: words =>
      (∀ value, word = some value → memory.load address 8 = value.toNat) ∧ memory.Stack (address + 8) words

variable {memory : Memory} {address : Nat} {words : List (Option (BitVec 64))}

/-- A stack depends only on the bytes that its words cover. -/
theorem Stack.congr {other : Memory} (held : memory.Stack address words)
    (same : ∀ target, address ≤ target → target < address + 8 * words.length → other target = memory target) :
    other.Stack address words := by
  induction words generalizing address with
  | nil => trivial
  | cons word words ih =>
      rw [List.length_cons] at same
      refine ⟨fun value known => ?_, ih held.2 fun target lower upper => same target (by omega) (by omega)⟩
      rw [← held.1 value known]
      exact load_congr fun target lower upper => same target (by omega) (by omega)

/-- A word that is stored below a stack becomes its first word. -/
theorem Stack.push (held : memory.Stack (address + 8) words) (value : BitVec 64) :
    (memory.store address 8 value.toNat).Stack address (some value :: words) := by
  constructor
  · intro other known
    cases known
    rw [load_store_same, Nat.mod_eq_of_lt (by have bound := value.isLt; omega)]
  · exact held.congr fun target lower _ => store_outside memory (by omega)

/-- The words below a stack are not known. -/
theorem Stack.reserve {count : Nat} (held : memory.Stack (address + 8 * count) words) :
    memory.Stack address (List.replicate count none ++ words) := by
  induction count generalizing address with
  | zero => exact held
  | succ count ih =>
      rw [List.replicate_succ, List.cons_append]
      refine ⟨fun _ known => absurd known (by simp), ih ?_⟩
      rwa [show address + 8 + 8 * count = address + 8 * (count + 1) by omega]

/-- The first words of a stack can be dropped. -/
theorem Stack.release {count : Nat} (held : memory.Stack address words) (inside : count ≤ words.length) :
    memory.Stack (address + 8 * count) (words.drop count) := by
  induction count generalizing address words with
  | zero => exact held
  | succ count ih =>
      cases words with
      | nil =>
          rw [List.length_nil] at inside
          omega
      | cons word words =>
          rw [List.drop_succ_cons, show address + 8 * (count + 1) = address + 8 + 8 * count by omega]
          exact ih held.2 (by simpa using inside)

/-- A read at the position of a known word returns it. -/
theorem Stack.load {index : Nat} {value : BitVec 64} (held : memory.Stack address words)
    (known : words[index]? = some (some value)) : memory.load (address + 8 * index) 8 = value.toNat := by
  induction index generalizing address words with
  | zero =>
      cases words with
      | nil => cases known
      | cons word words => exact held.1 value (by simpa using known)
  | succ index ih =>
      cases words with
      | nil => cases known
      | cons word words =>
          rw [show address + 8 * (index + 1) = address + 8 + 8 * index by omega]
          exact ih held.2 (by simpa using known)

end UmbralOS.Library.Memory
