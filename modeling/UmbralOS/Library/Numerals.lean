import Mathlib.Data.Nat.Digits.Lemmas

/-!
This file gives the numerals of natural numbers, the most significant digit first.
-/

namespace UmbralOS.Library

/-- The canonical numeral has no leading zero, and the numeral of zero is one zero. -/
def numeral (base value : Nat) : List Nat := if value = 0 then [0] else (Nat.digits base value).reverse

/-- The value of a list of digits. -/
def readBack (base : Nat) (digits : List Nat) : Nat := digits.foldl (fun value digit => base * value + digit) 0

theorem readBack_append (base : Nat) (digits : List Nat) (digit : Nat) :
    readBack base (digits ++ [digit]) = base * readBack base digits + digit := by
  simp [readBack]

/-- A reversed list has the value of its digits in Mathlib's order. -/
theorem readBack_reverse (base : Nat) (digits : List Nat) :
    readBack base digits.reverse = Nat.ofDigits base digits := by
  induction digits with
  | nil => rfl
  | cons digit digits ih =>
      rw [List.reverse_cons, readBack_append, ih, Nat.ofDigits_cons]
      ring

/-- A numeral reads back as its value. -/
theorem readBack_numeral (base value : Nat) : readBack base (numeral base value) = value := by
  unfold numeral
  split_ifs with zero
  · simp [readBack, zero]
  · rw [readBack_reverse, Nat.ofDigits_digits]

theorem numeral_ne_nil (base value : Nat) : numeral base value ≠ [] := by
  unfold numeral
  split_ifs with zero
  · simp
  · simpa using Nat.digits_ne_nil_iff_ne_zero.mpr zero

theorem numeral_lt_base {base value digit : Nat} (large : 1 < base) (member : digit ∈ numeral base value) :
    digit < base := by
  unfold numeral at member
  split_ifs at member with zero
  · have equal := List.mem_singleton.mp member
    omega
  · exact Nat.digits_lt_base large (List.mem_reverse.mp member)

/-- A numeral that starts with zero is the numeral of zero. -/
theorem numeral_head_zero {base value : Nat} (leading : (numeral base value).head? = some 0) :
    numeral base value = [0] := by
  unfold numeral at leading ⊢
  split_ifs at leading ⊢ with zero
  · rfl
  · have some := Nat.digits_ne_nil_iff_ne_zero (b := base).mpr zero
    rw [List.head?_reverse, List.getLast?_eq_getLast_of_ne_nil some] at leading
    exact absurd (Option.some.inj leading) (Nat.getLast_digit_ne_zero base zero)

/-- The digits from a digit that is not zero, or from the last digit, down to the last digit are the numeral
of a value that these digits cover. -/
theorem numeral_eq_map {base value top : Nat} (large : 1 < base) (covered : value < base ^ (top + 1))
    (leading : top = 0 ∨ value / base ^ top % base ≠ 0) :
    numeral base value = (List.range (top + 1)).map fun i => value / base ^ (top - i) % base := by
  unfold numeral
  split_ifs with zero
  · have first : top = 0 := by
      rcases leading with first | leading
      · exact first
      · simp [zero] at leading
    simp [zero, first]
  · have length : (Nat.digits base value).length = top + 1 := by
      apply le_antisymm
      · exact (Nat.digits_length_le_iff large value).mpr covered
      · rcases leading with first | leading
        · have some := Nat.digits_ne_nil_iff_ne_zero (b := base).mpr zero
          have positive := List.length_pos_iff.mpr some
          omega
        · by_contra short
          apply leading
          rw [Nat.div_eq_of_lt, Nat.zero_mod]
          exact (Nat.digits_length_le_iff large value).mp (by omega)
    apply List.ext_getElem
    · simp [length]
    · intro i inside _
      have digit := Nat.getD_digits value (top - i) (by omega : 2 ≤ base)
      rw [List.length_reverse, length] at inside
      rw [List.getElem_reverse, List.getElem_map, List.getElem_range, ← digit,
        List.getD_eq_getElem?_getD, List.getElem?_eq_getElem (by omega), Option.getD_some]
      simp only [length]
      congr 1

end UmbralOS.Library
