import UmbralOS.Library.Program
import UmbralOS.Library.Memory

/-!
This file gives the words of the kernel and the ways in which it stops.
-/

namespace UmbralOS

open Library

/-- A physical address. -/
abbrev Phy := BitVec 64

/-- A virtual address. -/
abbrev Pointer := BitVec 64

/-- The kernel stops in `panic`, or the run leaves the defined behaviour of the source. -/
inductive Stop where
  /-- `panic` prints the format with its arguments and halts. -/
  | panic (format : String) (arguments : List (BitVec 64))
  /-- The kernel dereferences a pointer that is still null. -/
  | nullAccess
  /-- The kernel indexes an array past its end. -/
  | outOfBounds (index : Nat)
  /-- A loop is still running after the given number of iterations. -/
  | running
  deriving DecidableEq, Repr

/-- The kernel prints a message and halts. -/
def Stop.IsPanic : Stop → Prop
  | .panic _ _ => True
  | _ => False

/-- The kernel panics when the guard holds. -/
def panicIf {State : Type} (guard : Prop) [Decidable guard] (format : String)
    (arguments : List (BitVec 64)) : Program Stop State Unit :=
  stopIf guard (.panic format arguments)

section PanicIf

variable {State : Type} {guard : Prop} [Decidable guard] {format : String}
  {arguments : List (BitVec 64)} {before after : State} {value : Unit}

@[simp] theorem returns_panicIf :
    Returns (panicIf guard format arguments) before value after ↔ ¬ guard ∧ before = after :=
  returns_stopIf _ _ _ _ _

@[simp] theorem stops_panicIf {reason : Stop} :
    Stops (panicIf guard format arguments) before reason after ↔
      guard ∧ Stop.panic format arguments = reason ∧ before = after :=
  stops_stopIf _ _ _ _ _

/-- A check that passes leaves the program after it. -/
theorem panicIf_bind_of_not {A : Type} (passed : ¬ guard) (next : Unit → Program Stop State A) :
    (panicIf guard format arguments >>= next) = next () := by
  unfold panicIf stopIf
  rw [if_neg passed]
  rfl

theorem panicIf_bind_of {A : Type} (failed : guard) (next : Unit → Program Stop State A) :
    (panicIf guard format arguments >>= next) = throw (.panic format arguments) := by
  unfold panicIf stopIf
  rw [if_pos failed]
  rfl

/-- A sequence after a check stops in the check, without a change, or after it. -/
theorem stops_panicIf_bind {A : Type} {next : Unit → Program Stop State A} {reason : Stop}
    (stopped : Stops (panicIf guard format arguments >>= next) before reason after) :
    before = after ∨ Stops (next ()) before reason after := by
  rcases (stops_bind _ _ _ _ _).mp stopped with panicked | ⟨_, _, passed, stopped⟩
  · exact Or.inl (stops_panicIf.mp panicked).2.2
  · obtain ⟨_, rfl⟩ := returns_panicIf.mp passed
    exact Or.inr stopped

/-- A sequence after a check stops without a panic only after the check has passed. -/
theorem stops_after_panicIf {A : Type} {next : Unit → Program Stop State A} {reason : Stop} (other : ¬ reason.IsPanic)
    (stopped : Stops (panicIf guard format arguments >>= next) before reason after) :
    Stops (next ()) before reason after := by
  rcases (stops_bind _ _ _ _ _).mp stopped with panicked | ⟨_, _, passed, stopped⟩
  · obtain ⟨_, rfl, _⟩ := stops_panicIf.mp panicked
    exact absurd trivial other
  · obtain ⟨_, rfl⟩ := returns_panicIf.mp passed
    exact stopped

theorem stopsOnly_panicIf : StopsOnly Stop.IsPanic (panicIf guard format arguments : Program Stop State Unit) :=
  stopsOnly_stopIf trivial

end PanicIf

/-- The loop of `strncmp` from an index, for the remaining number of characters. A character is signed. -/
def strncmpFrom (s1 s2 : Memory) : Nat → Nat → Int
  | 0, _ => 0
  | remaining + 1, i =>
      if s1 i ≠ s2 i then (s1 i).toInt - (s2 i).toInt
      else if s1 i = 0 then 0
      else strncmpFrom s1 s2 remaining (i + 1)

def strncmp (s1 s2 : Memory) (n : Nat) : Int := strncmpFrom s1 s2 n 0

end UmbralOS
