import UmbralOS.Kernel.Print
import UmbralOS.Library.Numerals

/-!
This file proves which text `print_unsigned` sends to the writer.
-/

namespace UmbralOS

open Library

variable {World : Type}

/-- The pointer points to this text and a NUL. -/
structure Spells (str : CharPointer) (text : List (BitVec 8)) : Prop where
  character : ∀ i (inside : i < text.length), str i = .ok text[i]
  terminator : str text.length = .ok 0
  running : ∀ c ∈ text, c ≠ 0

theorem strlen_from {str : CharPointer} {text : List (BitVec 8)} (spells : Spells str text) (rest : Nat) :
    ∀ i fuel, i + rest = text.length → rest < fuel → strlen str fuel i = .ok text.length := by
  induction rest with
  | zero =>
      intro i fuel last enough
      obtain ⟨fuel, rfl⟩ := Nat.exists_eq_add_one_of_ne_zero (by omega : fuel ≠ 0)
      obtain rfl : i = text.length := by omega
      rw [strlen, spells.terminator]
      rfl
  | succ rest ih =>
      intro i fuel inside enough
      obtain ⟨fuel, rfl⟩ := Nat.exists_eq_add_one_of_ne_zero (by omega : fuel ≠ 0)
      rw [strlen, spells.character i (by omega)]
      change (if text[i] = 0 then _ else _) = _
      rw [if_neg (spells.running _ (List.getElem_mem _))]
      exact ih (i + 1) fuel (by omega) (by omega)

theorem strlen_spells {str : CharPointer} {text : List (BitVec 8)} (spells : Spells str text) {fuel : Nat}
    (enough : text.length < fuel) : strlen str fuel 0 = .ok text.length :=
  strlen_from spells text.length 0 fuel (by omega) enough

theorem mapM_ok {A B : Type} {f : A → Except Stop B} {g : A → B} {items : List A}
    (each : ∀ item ∈ items, f item = .ok (g item)) : items.mapM f = .ok (items.map g) := by
  induction items with
  | nil => rfl
  | cons item items ih =>
      rw [List.mapM_cons, each item (by simp), ih fun found member => each found (by simp [member])]
      rfl

theorem characters_spells {str : CharPointer} {text : List (BitVec 8)} (spells : Spells str text) :
    characters str text.length = .ok text := by
  have each : ∀ i ∈ List.range text.length, str i = .ok (text.getD i 0) := by
    intro i member
    have inside := List.mem_range.mp member
    rw [spells.character i inside, List.getD_eq_getElem?_getD, List.getElem?_eq_getElem inside, Option.getD_some]
  rw [characters, mapM_ok each]
  congr 1
  apply List.ext_getElem
  · simp
  · intro i inside _
    rw [List.length_map, List.length_range] at inside
    simp [inside]

/-- A string goes to the writer in one call. -/
theorem printString_spells (gWriter : Writer World) {str : CharPointer} {text : List (BitVec 8)}
    (spells : Spells str text) {fuel : Nat} (enough : text.length < fuel) :
    printString gWriter str fuel = liftWriter (gWriter text) := by
  rw [printString, strlen_spells spells enough]
  change (demand (characters str text.length) >>= fun text => liftWriter (gWriter text)) = _
  rw [characters_spells spells]
  rfl

/-- The character of a digit. -/
def digitChar (digit : Nat) : BitVec 8 := BitVec.ofNat 8 (if digit < 10 then 48 + digit else 55 + digit)

theorem digitChar_ne_zero {digit : Nat} (small : digit < 16) : digitChar digit ≠ 0 := by
  unfold digitChar
  split_ifs with low
  all_goals
    intro zero
    have value := congrArg BitVec.toNat zero
    simp only [BitVec.toNat_ofNat, BitVec.ofNat_eq_ofNat] at value
    omega

/-- The buffer holds the digits below the index, and the number starts at its last digit that is not zero. -/
structure HoldsNumber (base value : Nat) (buf : NumBuf) (start i : Nat) : Prop where
  length : buf.length = 21
  terminator : buf[20]? = some (some 0)
  blank : i = 0 → buf[19]? = some (some (digitChar 0))
  digit : ∀ j < i, buf[19 - j]? = some (some (digitChar (value / base ^ j % base)))
  within : start ≤ 19
  covered : value % base ^ i < base ^ (20 - start)
  leading : start = 19 ∨ 19 - start < i ∧ value / base ^ (19 - start) % base ≠ 0

/-- The empty number is one zero. -/
theorem holdsNumber_start (base value : Nat) (positive : 0 < base) :
    HoldsNumber base value (((List.replicate 21 none).set 19 (some (char '0'))).set 20 (some 0)) 19 0 where
  length := rfl
  terminator := rfl
  blank _ := rfl
  digit j before := by omega
  within := le_refl 19
  covered := by
    rw [pow_zero, Nat.mod_one]
    exact Nat.pow_pos positive
  leading := Or.inl rfl

/-- One iteration stores the next digit. -/
theorem HoldsNumber.next {base value start i : Nat} {buf : NumBuf} (positive : 0 < base)
    (shows : HoldsNumber base value buf start i) (room : i < 16) :
    HoldsNumber base value (buf.set (19 - i) (some (digitChar (value / base ^ i % base))))
      (if value / base ^ i % base ≠ 0 then 19 - i else start) (i + 1) where
  length := by rw [List.length_set, shows.length]
  terminator := by
    rw [List.getElem?_set_ne (by omega)]
    exact shows.terminator
  blank impossible := by omega
  digit j before := by
    by_cases here : j = i
    · subst here
      rw [List.getElem?_set_self]
      rw [shows.length]
      omega
    · rw [List.getElem?_set_ne (by omega)]
      exact shows.digit j (by omega)
  within := by
    have within := shows.within
    split_ifs <;> omega
  covered := by
    split_ifs with digit
    · rw [show 20 - (19 - i) = i + 1 by omega]
      exact Nat.mod_lt _ (Nat.pow_pos positive)
    · rw [Nat.mod_pow_succ, not_not.mp digit, Nat.mul_zero, Nat.add_zero]
      exact shows.covered
  leading := by
    split_ifs with digit
    · right
      rw [show 19 - (19 - i) = i by omega]
      exact ⟨by omega, digit⟩
    · rcases shows.leading with first | ⟨before, leading⟩
      · exact Or.inl first
      · exact Or.inr ⟨by omega, leading⟩

/-- The code of a digit is the character of the digit. -/
theorem digit_code (digit : BitVec 8) :
    (if digit < 10 then digit + char '0' else digit - 10 + char 'A') = digitChar digit.toNat := by
  have low : digit < 10 ↔ digit.toNat < 10 := BitVec.lt_def
  unfold digitChar char
  by_cases first : digit.toNat < 10
  · rw [if_pos (low.mpr first), if_pos first]
    apply BitVec.eq_of_toNat_eq
    simp [Nat.add_comm]
  · rw [if_neg (first ∘ low.mp), if_neg first]
    apply BitVec.eq_of_toNat_eq
    simp
    omega

/-- The loop ends with the digits of the value modulo the sixteenth power of the base. -/
theorem printUnsignedLoop_holds {base : BitVec 8} (large : 1 < base.toNat) (small : base.toNat ≤ 16) (value : Nat)
    (remaining : Nat) : ∀ i (current : BitVec 64) buf start, i + remaining = 16 →
      current.toNat = value / base.toNat ^ i → HoldsNumber base.toNat value buf start i →
      ∃ i' buf' start', printUnsignedLoop base remaining i current buf start = .ok (buf', start') ∧ i' ≤ 16 ∧
        value % base.toNat ^ i' = value % base.toNat ^ 16 ∧ HoldsNumber base.toNat value buf' start' i' := by
  induction remaining with
  | zero =>
      intro i current buf start last _ shows
      obtain rfl : i = 16 := by omega
      exact ⟨16, buf, start, rfl, le_refl 16, rfl, shows⟩
  | succ remaining ih =>
      intro i current buf start room current_eq shows
      rw [printUnsignedLoop]
      by_cases done : current = 0
      · rw [if_pos done]
        have below : value < base.toNat ^ i := by
          rw [done] at current_eq
          exact (Nat.div_eq_zero_iff_lt (Nat.pow_pos (by omega))).mp current_eq.symm
        refine ⟨i, buf, start, rfl, by omega, ?_, shows⟩
        rw [Nat.mod_eq_of_lt below, Nat.mod_eq_of_lt]
        exact lt_of_lt_of_le below (Nat.pow_le_pow_right (by omega) (by omega))
      · rw [if_neg done]
        have width : (base.setWidth 64).toNat = base.toNat := by
          rw [BitVec.toNat_setWidth]
          omega
        have digit : ((current % base.setWidth 64).setWidth 8).toNat = value / base.toNat ^ i % base.toNat := by
          rw [BitVec.toNat_setWidth, BitVec.toNat_umod, width, current_eq]
          have bound := Nat.mod_lt (value / base.toNat ^ i) (by omega : 0 < base.toNat)
          omega
        have bound : value / base.toNat ^ i % base.toNat < 16 :=
          lt_of_lt_of_le (Nat.mod_lt _ (by omega)) small
        have place : (BitVec.ofNat 8 (numBufLen - 1) - BitVec.ofNat 8 i).toNat = 19 - i := by
          rw [BitVec.toNat_sub, BitVec.toNat_ofNat, BitVec.toNat_ofNat, numBufLen]
          omega
        have nonzero : ((current % base.setWidth 64).setWidth 8 ≠ 0) =
            (value / base.toNat ^ i % base.toNat ≠ 0) := by
          rw [← digit, ne_eq, ne_eq, ← BitVec.toNat_inj]
          rfl
        have stored := digit_code ((current % base.setWidth 64).setWidth 8)
        simp only [stored, digit, place, nonzero, writeBuf, shows.length, if_pos (by omega : 19 - i < 21)]
        apply ih (i + 1) _ _ _ (by omega) _ (shows.next (by omega) (by omega))
        rw [BitVec.toNat_udiv, width, current_eq, Nat.div_div_eq_div_mul, pow_succ]

/-- A low digit of a value is a digit of the value modulo a power. -/
theorem mod_pow_digit (base value : Nat) {j i : Nat} (below : j < i) :
    value % base ^ i / base ^ j % base = value / base ^ j % base := by
  have split : base ^ i = base ^ j * base ^ (i - j) := by
    rw [← pow_add]
    congr 1
    omega
  rw [split, Nat.mod_mul_right_div_self]
  exact Nat.mod_mod_of_dvd _ (dvd_pow_self base (by omega))

/-- The text of a value. -/
def numberText (base value : Nat) : List (BitVec 8) := (numeral base (value % base ^ 16)).map digitChar

/-- The digits from the start are the numeral of the digits that the buffer holds. -/
theorem HoldsNumber.numeral_eq {base value start i : Nat} {buf : NumBuf} (large : 1 < base)
    (shows : HoldsNumber base value buf start i) :
    numeral base (value % base ^ i) =
      (List.range (19 - start + 1)).map fun k => value % base ^ i / base ^ (19 - start - k) % base := by
  have within := shows.within
  apply numeral_eq_map large
  · rw [show 19 - start + 1 = 20 - start by omega]
    exact shows.covered
  · rcases shows.leading with first | ⟨before, leading⟩
    · exact Or.inl (by omega)
    · rw [mod_pow_digit base value before]
      exact Or.inr leading

/-- The number in the buffer is a string. -/
theorem HoldsNumber.spells {base value start i : Nat} {buf : NumBuf} (large : 1 < base) (small : base ≤ 16)
    (shows : HoldsNumber base value buf start i) :
    Spells (bufFrom buf start) ((numeral base (value % base ^ i)).map digitChar) := by
  have within := shows.within
  have shape := shows.numeral_eq large
  have length : ((numeral base (value % base ^ i)).map digitChar).length = 20 - start := by
    rw [shape, List.length_map, List.length_map, List.length_range]
    omega
  constructor
  · intro k inside
    have place : start + k = 19 - (19 - start - k) := by omega
    have found : buf[start + k]? = some (some (digitChar (value % base ^ i / base ^ (19 - start - k) % base))) := by
      rw [place]
      rcases Nat.eq_zero_or_pos i with none | some
      · subst none
        have first : start = 19 := by
          rcases shows.leading with first | ⟨before, _⟩ <;> omega
        subst first
        simp only [pow_zero, Nat.mod_one, Nat.zero_div, Nat.zero_mod]
        rw [show 19 - (19 - 19 - k) = 19 by omega]
        exact shows.blank rfl
      · have below : 19 - start - k < i := by
          rcases shows.leading with first | ⟨before, _⟩ <;> omega
        rw [mod_pow_digit base value below]
        exact shows.digit _ below
    rw [bufFrom, found]
    simp [shape]
  · rw [length, bufFrom, show start + (20 - start) = 20 by omega, shows.terminator]
  · intro c member
    obtain ⟨digit, found, rfl⟩ := List.mem_map.mp member
    exact digitChar_ne_zero (lt_of_lt_of_le (numeral_lt_base large found) small)

/-- `print_unsigned` sends the numeral of the value modulo the sixteenth power of the base in one call. -/
theorem printUnsigned_eq (gWriter : Writer World) (value : BitVec 64) {base : BitVec 8} (large : 1 < base.toNat)
    (small : base.toNat ≤ 16) :
    printUnsigned gWriter value base = liftWriter (gWriter (numberText base.toNat value.toNat)) := by
  obtain ⟨i, buf, start, looped, _, low, shows⟩ := printUnsignedLoop_holds large small value.toNat 16 0 value _ _ rfl
    (by simp) (holdsNumber_start base.toNat value.toNat (by omega))
  have spells := shows.spells large small
  rw [low] at spells
  have digits : printUnsignedDigits value base = .ok (buf, start) := looped
  have short : (numberText base.toNat value.toNat).length < numBufLen + 2 := by
    rw [numberText, ← low, shows.numeral_eq large, List.length_map, List.length_map, List.length_range, numBufLen]
    omega
  rw [printUnsigned, digits]
  exact printString_spells gWriter spells short

/-- The digit of a character. -/
def digitValue (c : BitVec 8) : Nat := if c.toNat < 58 then c.toNat - 48 else c.toNat - 55

theorem digitValue_digitChar {digit : Nat} (small : digit < 16) : digitValue (digitChar digit) = digit := by
  unfold digitChar digitValue
  split_ifs with low first first
  all_goals
    simp only [BitVec.toNat_ofNat] at first ⊢
    omega

/-- The text is the canonical numeral of a value: its characters are upper-case digits of the base, it has
no leading zero, and it reads back as the value. -/
structure IsNumeral (base value : Nat) (text : List (BitVec 8)) : Prop where
  nonempty : text ≠ []
  digits : ∀ c ∈ text, ∃ digit < base, c = digitChar digit
  leading : text.head? = some (char '0') → text = [char '0']
  value : readBack base (text.map digitValue) = value

theorem map_digitValue {base : Nat} (large : 1 < base) (small : base ≤ 16) (value : Nat) :
    ((numeral base value).map digitChar).map digitValue = numeral base value := by
  rw [List.map_map]
  conv_rhs => rw [← List.map_id (numeral base value)]
  apply List.map_congr_left
  intro digit member
  exact digitValue_digitChar (lt_of_lt_of_le (numeral_lt_base large member) small)

theorem isNumeral_numberText {base : Nat} (large : 1 < base) (small : base ≤ 16) (value : Nat) :
    IsNumeral base (value % base ^ 16) (numberText base value) where
  nonempty := by simp [numberText, numeral_ne_nil]
  digits c member := by
    obtain ⟨digit, found, rfl⟩ := List.mem_map.mp member
    exact ⟨digit, numeral_lt_base large found, rfl⟩
  leading first := by
    have zero : (numeral base (value % base ^ 16)).head? = some 0 := by
      rw [numberText, List.head?_map] at first
      obtain ⟨digit, head, same⟩ := Option.map_eq_some_iff.mp first
      have member := List.mem_of_mem_head? head
      have value := digitValue_digitChar (lt_of_lt_of_le (numeral_lt_base large member) small)
      rw [head, ← value, same]
      rfl
    rw [numberText, numeral_head_zero zero]
    rfl
  value := by rw [numberText, map_digitValue large small, readBack_numeral]

/-- The text of a value is its numeral exactly when the sixteen iterations cover the value. -/
theorem isNumeral_numberText_iff {base : Nat} (large : 1 < base) (small : base ≤ 16) (value : Nat) :
    IsNumeral base value (numberText base value) ↔ value < base ^ 16 := by
  have printed := isNumeral_numberText large small value
  constructor
  · intro exact'
    rw [← exact'.value, printed.value]
    exact Nat.mod_lt _ (Nat.pow_pos (by omega))
  · intro covered
    rw [Nat.mod_eq_of_lt covered] at printed
    exact printed

/-- `print_unsigned` gives every writer the canonical numeral of the value in one call. -/
def PrintsExactly (value : BitVec 64) (base : BitVec 8) : Prop :=
  ∃ text, IsNumeral base.toNat value.toNat text ∧
    ∀ (World : Type) (gWriter : Writer World), printUnsigned gWriter value base = liftWriter (gWriter text)

/-- This writer records its text. -/
def recorder : Writer (List (BitVec 8)) := fun text => modify (· ++ text)

/-- `print_unsigned` prints a value exactly when the sixteen iterations cover it. -/
theorem printsExactly_iff (value : BitVec 64) {base : BitVec 8} (large : 1 < base.toNat) (small : base.toNat ≤ 16) :
    PrintsExactly value base ↔ value.toNat < base.toNat ^ 16 := by
  rw [← isNumeral_numberText_iff large small]
  constructor
  · intro prints
    obtain ⟨text, numeral, sent⟩ := prints
    have same := (sent _ recorder).symm.trans (printUnsigned_eq recorder value large small)
    have run := congrArg (fun program => (lastState program ⟨fun _ => 0, fun _ => 0, [], []⟩).world) same
    have equal : text = numberText base.toNat value.toNat := run
    rwa [← equal]
  · intro numeral
    exact ⟨_, numeral, fun World gWriter => printUnsigned_eq gWriter value large small⟩

end UmbralOS
