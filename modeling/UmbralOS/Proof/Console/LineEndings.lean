import UmbralOS.Kernel.Serial
import UmbralOS.Proof.Console.Formats

/-!
This file proves which line endings `kprintv` sends to the serial port.
-/

namespace UmbralOS

open Library

/-- The transmit buffer always becomes empty again. -/
def Uart.Drains (uart : Uart) : Prop := ∀ poll, ∃ later, poll ≤ later ∧ uart.lineStatus later &&& 0x20 ≠ 0

/-- The characters that `serial_write` sends for one character. -/
def lineEnding (c : BitVec 8) : List (BitVec 8) := if c = char '\n' then [char '\r', char '\n'] else [c]

/-- The wait ends at an empty transmit buffer and sends nothing. -/
theorem returns_serialWaitTransmit {later : Nat} (rest : Nat) : ∀ uart : Uart,
    uart.polls + rest = later → uart.lineStatus later &&& 0x20 ≠ 0 →
    ∃ polls, ∀ fuel, rest < fuel → Returns (serialWaitTransmit fuel) uart () { uart with polls := polls } := by
  induction rest with
  | zero =>
      intro uart here ready
      refine ⟨uart.polls + 1, ?_⟩
      intro fuel enough
      obtain ⟨fuel, rfl⟩ := Nat.exists_eq_add_one_of_ne_zero (by omega : fuel ≠ 0)
      apply (returns_bind _ _ _ _ _).mpr
      refine ⟨uart.lineStatus uart.polls, { uart with polls := uart.polls + 1 }, rfl, ?_⟩
      rw [if_neg (by rwa [show uart.polls = later from here])]
      rfl
  | succ rest ih =>
      intro uart here ready
      by_cases empty : uart.lineStatus uart.polls &&& 0x20 = 0
      · obtain ⟨polls, waited⟩ := ih { uart with polls := uart.polls + 1 } (by simp; omega) ready
        refine ⟨polls, ?_⟩
        intro fuel enough
        obtain ⟨fuel, rfl⟩ := Nat.exists_eq_add_one_of_ne_zero (by omega : fuel ≠ 0)
        apply (returns_bind _ _ _ _ _).mpr
        refine ⟨uart.lineStatus uart.polls, { uart with polls := uart.polls + 1 }, rfl, ?_⟩
        rw [if_pos empty]
        exact waited fuel (by omega)
      · refine ⟨uart.polls + 1, ?_⟩
        intro fuel enough
        obtain ⟨fuel, rfl⟩ := Nat.exists_eq_add_one_of_ne_zero (by omega : fuel ≠ 0)
        apply (returns_bind _ _ _ _ _).mpr
        refine ⟨uart.lineStatus uart.polls, { uart with polls := uart.polls + 1 }, rfl, ?_⟩
        rw [if_neg empty]
        rfl

/-- A program sends these characters, whatever the port does between them. -/
def SendsChars (program : Nat → UartProgram Unit) (uart : Uart) (text : List (BitVec 8)) : Prop :=
  ∃ polls bound, ∀ patience, bound ≤ patience →
    Returns (program patience) uart () { uart with polls := polls, sent := uart.sent ++ text }

theorem sendsChars_bind {first second : Nat → UartProgram Unit} {text1 text2 : List (BitVec 8)} {uart : Uart}
    (head : SendsChars first uart text1)
    (tail : ∀ polls, SendsChars second { uart with polls := polls, sent := uart.sent ++ text1 } text2) :
    SendsChars (fun patience => first patience >>= fun _ => second patience) uart (text1 ++ text2) := by
  obtain ⟨polls1, bound1, sent1⟩ := head
  obtain ⟨polls2, bound2, sent2⟩ := tail polls1
  refine ⟨polls2, max bound1 bound2, ?_⟩
  intro patience enough
  apply (returns_bind _ _ _ _ _).mpr
  refine ⟨(), _, sent1 patience (by omega), ?_⟩
  rw [← List.append_assoc]
  exact sent2 patience (by omega)

/-- One character goes to the port once the transmit buffer is empty. -/
theorem sendsChars_serialPutc (uart : Uart) (drains : uart.Drains) (c : BitVec 8) :
    SendsChars (fun patience => serialPutc patience c) uart [c] := by
  obtain ⟨later, reached, ready⟩ := drains uart.polls
  obtain ⟨polls, waited⟩ := returns_serialWaitTransmit (later - uart.polls) uart (by omega) ready
  refine ⟨polls, later - uart.polls + 1, ?_⟩
  intro patience enough
  apply (returns_bind _ _ _ _ _).mpr
  exact ⟨(), _, waited patience (by omega), rfl⟩

theorem sendsChars_serialWriteChar {uart : Uart} (drains : uart.Drains) (c : BitVec 8) :
    SendsChars (fun patience => serialWriteChar patience c) uart (lineEnding c) := by
  unfold serialWriteChar lineEnding
  by_cases newline : c = char '\n'
  · simp only [if_pos newline]
    subst newline
    exact sendsChars_bind (sendsChars_serialPutc uart drains _) fun polls =>
      sendsChars_serialPutc ⟨uart.lineStatus, polls, uart.sent ++ [char '\r']⟩ drains (char '\n')
  · simp only [if_neg newline]
    exact sendsChars_serialPutc uart drains c

/-- The writer sends its text with each newline as CR LF. -/
theorem sendsChars_serialWrite (text : List (BitVec 8)) : ∀ uart : Uart, uart.Drains →
    SendsChars (fun patience => serialWrite patience text) uart (text.flatMap lineEnding) := by
  induction text with
  | nil => exact fun uart _ => ⟨uart.polls, 0, fun patience _ => by simp [serialWrite, Returns]⟩
  | cons c text ih =>
      intro uart drains
      exact sendsChars_bind (sendsChars_serialWriteChar drains c) fun polls => ih _ drains

theorem sendsChars_forM (calls : List (List (BitVec 8))) : ∀ uart : Uart, uart.Drains →
    SendsChars (fun patience => calls.forM (serialWrite patience)) uart (calls.flatten.flatMap lineEnding) := by
  induction calls with
  | nil => exact fun uart _ => ⟨uart.polls, 0, fun patience _ => by simp [Returns]⟩
  | cons text calls ih =>
      intro uart drains
      rw [List.flatten_cons, List.flatMap_append]
      exact sendsChars_bind (sendsChars_serialWrite text uart drains) fun polls => ih _ drains

/-- The text of a piece: a literal character, or the argument as formatted. -/
def Piece.text (slot : BitVec 64) (string : List (BitVec 8)) : Piece → List (BitVec 8)
  | .literal c => [c]
  | .escape longs conversion => (conversion.calls (slot.toNat % 2 ^ conversion.width longs) string).flatten

/-- The rendered text of the pieces. -/
def textFrom (va : Nat → BitVec 64) (texts : Nat → List (BitVec 8)) : List Piece → Nat → List (BitVec 8)
  | [], _ => []
  | piece :: pieces, taken =>
      piece.text (va taken) (texts taken) ++ textFrom va texts pieces (taken + piece.widths.length)

/-- The format loop and the writer both expand a literal newline, so its carriage return is sent twice. -/
theorem piece_lineEndings (slot : BitVec 64) (string : List (BitVec 8)) (piece : Piece) :
    (piece.calls slot string).flatten.flatMap lineEnding =
      if piece = .literal (char '\n') then char '\r' :: (piece.text slot string).flatMap lineEnding
      else (piece.text slot string).flatMap lineEnding := by
  cases piece with
  | literal c =>
      by_cases newline : c = char '\n'
      · subst newline
        rw [if_pos rfl]
        rfl
      · rw [if_neg (by simpa using newline), Piece.calls, if_neg newline]
        simp [Piece.text]
  | escape longs conversion =>
      rw [if_neg (by simp)]
      rfl

/-- The sent bytes are longer by one carriage return for each literal newline. -/
theorem length_lineEndings (va : Nat → BitVec 64) (texts : Nat → List (BitVec 8)) (pieces : List Piece) :
    ∀ taken, ((callsFrom va texts pieces taken).flatten.flatMap lineEnding).length =
      ((textFrom va texts pieces taken).flatMap lineEnding).length + pieces.count (.literal (char '\n')) := by
  induction pieces with
  | nil => exact fun taken => rfl
  | cons piece pieces ih =>
      intro taken
      rw [callsFrom, textFrom, List.flatten_append, List.flatMap_append, List.flatMap_append, List.length_append,
        List.length_append, ih, piece_lineEndings, List.count_cons]
      by_cases newline : piece = .literal (char '\n')
      · simp [newline]
        omega
      · simp [newline]
        omega

/-- Without a literal newline, the sent bytes are the text with each newline as CR LF. -/
theorem lineEndings_of_none {va : Nat → BitVec 64} {texts : Nat → List (BitVec 8)} {pieces : List Piece}
    (none : .literal (char '\n') ∉ pieces) (taken : Nat) :
    (callsFrom va texts pieces taken).flatten.flatMap lineEnding = (textFrom va texts pieces taken).flatMap lineEnding := by
  induction pieces generalizing taken with
  | nil => rfl
  | cons piece pieces ih =>
      rw [List.mem_cons, not_or] at none
      rw [callsFrom, textFrom, List.flatten_append, List.flatMap_append, List.flatMap_append, ih none.2,
        piece_lineEndings, if_neg (Ne.symm none.1)]

/-- A newline of an accepted format is a literal. -/
theorem newline_mem_iff {format : List (BitVec 8)} {pieces : List Piece} (accepted : Accepts format pieces) :
    char '\n' ∈ format ↔ .literal (char '\n') ∈ pieces := by
  rw [accepted.spells, spelled, List.mem_flatMap]
  constructor
  · intro found
    obtain ⟨piece, member, inside⟩ := found
    cases piece with
    | literal c =>
        obtain rfl : char '\n' = c := by simpa [Piece.spelling] using inside
        exact member
    | escape longs conversion =>
        simp only [Piece.spelling, List.mem_cons, List.mem_append, List.mem_replicate, List.not_mem_nil, or_false]
          at inside
        rcases inside with other | ⟨_, other⟩ | other
        · exact absurd other (by decide)
        · exact absurd other (by decide)
        · cases conversion <;> exact absurd other (by decide)
  · exact fun member => ⟨_, member, by simp [Piece.spelling]⟩

/-- A call of `kprintv` with this format sends these bytes to the port. -/
def Sends (format : List (BitVec 8)) (printer : Printer Uart) (bytes : List (BitVec 8)) : Prop :=
  ∃ enough, ∀ patience, enough ≤ patience → ∃ bound, ∀ fuel, bound ≤ fuel →
    ∃ after, Returns (kprintv (serialWrite patience) (stringConstant format) fuel) printer () after ∧
      after.world.sent = printer.world.sent ++ bytes

theorem Sends.unique {format bytes bytes' : List (BitVec 8)} {printer : Printer Uart}
    (first : Sends format printer bytes) (second : Sends format printer bytes') : bytes = bytes' := by
  obtain ⟨enough1, sends1⟩ := first
  obtain ⟨enough2, sends2⟩ := second
  obtain ⟨bound1, sends1⟩ := sends1 (max enough1 enough2) (by omega)
  obtain ⟨bound2, sends2⟩ := sends2 (max enough1 enough2) (by omega)
  obtain ⟨after1, returned1, sent1⟩ := sends1 (max bound1 bound2) (by omega)
  obtain ⟨after2, returned2, sent2⟩ := sends2 (max bound1 bound2) (by omega)
  rw [(returned1.unique returned2).2, sent2] at sent1
  exact (List.append_cancel_left sent1).symm

/-- An accepted format sends its texts through both layers. -/
theorem sends_accepted {format : List (BitVec 8)} {pieces : List Piece} (accepted : Accepts format pieces)
    (running : ∀ c ∈ format, c ≠ 0) {printer : Printer Uart} (drains : printer.world.Drains)
    {texts : Nat → List (BitVec 8)}
    (held : StringsHeld printer.memory printer.va texts pieces printer.taken.length) :
    Sends format printer
      ((callsFrom printer.va texts pieces printer.taken.length).flatten.flatMap lineEnding) := by
  obtain ⟨polls, enough, written⟩ := sendsChars_forM (callsFrom printer.va texts pieces printer.taken.length)
    printer.world drains
  refine ⟨enough, ?_⟩
  intro patience waits
  obtain ⟨bound, returned⟩ := returns_kprintv accepted running held (written patience waits)
  exact ⟨bound, fun fuel more => ⟨_, returned fuel more, rfl⟩⟩

/-- The text arrives with each newline as one CR LF exactly when the format has no newline. -/
theorem sends_text_iff {format : List (BitVec 8)} {pieces : List Piece} (accepted : Accepts format pieces)
    (running : ∀ c ∈ format, c ≠ 0) {printer : Printer Uart} (drains : printer.world.Drains)
    {texts : Nat → List (BitVec 8)}
    (held : StringsHeld printer.memory printer.va texts pieces printer.taken.length) :
    Sends format printer ((textFrom printer.va texts pieces printer.taken.length).flatMap lineEnding) ↔
      char '\n' ∉ format := by
  have sent := sends_accepted accepted running drains held
  rw [newline_mem_iff accepted]
  constructor
  · intro text found
    have longer := length_lineEndings printer.va texts pieces printer.taken.length
    rw [sent.unique text] at longer
    have counted := List.count_pos_iff.mpr found
    omega
  · intro none
    rw [← lineEndings_of_none none]
    exact sent

/-- A string without an escape is a list of literals. -/
theorem accepts_literals {s : List (BitVec 8)} (literal : char '%' ∉ s) : Accepts s (s.map .literal) where
  plain piece member := by
    obtain ⟨c, inside, rfl⟩ := List.mem_map.mp member
    intro escape
    exact literal (escape ▸ inside)
  spells := by
    simp [spelled, List.flatMap_map, Piece.spelling]

theorem textFrom_literals (va : Nat → BitVec 64) (texts : Nat → List (BitVec 8)) (s : List (BitVec 8)) (taken : Nat) :
    textFrom va texts (s.map .literal) taken = s := by
  induction s with
  | nil => rfl
  | cons c s ih => simpa [textFrom, Piece.text, Piece.widths] using ih

theorem stringsHeld_literals (memory : Memory) (va : Nat → BitVec 64) (texts : Nat → List (BitVec 8))
    (s : List (BitVec 8)) (taken : Nat) : StringsHeld memory va texts (s.map .literal) taken := by
  induction s with
  | nil => trivial
  | cons c s ih => exact ⟨fun impossible => impossible.elim, ih⟩

/-- The serial console gets each newline of the text as exactly one CR LF exactly when the format has no
newline, so a string that is a format and the same string as an argument differ exactly at a newline. -/
theorem line_endings_exact (printer : Printer Uart) (drains : printer.world.Drains) :
    (∀ format pieces texts, Accepts format pieces → (∀ c ∈ format, c ≠ 0) →
      StringsHeld printer.memory printer.va texts pieces printer.taken.length →
      (Sends format printer ((textFrom printer.va texts pieces printer.taken.length).flatMap lineEnding) ↔
        char '\n' ∉ format)) ∧
    ∀ s, char '%' ∉ s → Spells (pointerTo printer.memory (printer.va printer.taken.length)) s →
      ((∃ bytes, Sends s printer bytes ∧ Sends [char '%', char 's'] printer bytes) ↔ char '\n' ∉ s) := by
  refine ⟨fun format pieces texts accepted running held => sends_text_iff accepted running drains held, ?_⟩
  intro s literal spells
  have format := sends_text_iff (accepts_literals literal) spells.running drains
    (stringsHeld_literals printer.memory printer.va (fun _ => []) s printer.taken.length)
  rw [textFrom_literals] at format
  have argument : Sends [char '%', char 's'] printer (s.flatMap lineEnding) := by
    have accepted : Accepts [char '%', char 's'] [.escape 0 .s] := ⟨by simp [Piece.Plain], rfl⟩
    have held : StringsHeld printer.memory printer.va (fun _ => s) [.escape 0 .s] printer.taken.length :=
      ⟨fun _ => spells, trivial⟩
    have sent := sends_accepted accepted (by decide) drains held
    simpa [callsFrom, Piece.calls, Conversion.calls] using sent
  rw [← format]
  constructor
  · intro both
    obtain ⟨bytes, first, second⟩ := both
    rwa [second.unique argument] at first
  · exact fun first => ⟨_, first, argument⟩

/-- The transmit buffer of this port is always empty, and every pointer of its printer points to a newline. -/
def sampleConsole : Printer Uart where
  memory i := if i % 2 = 0 then char '\n' else 0
  va _ := 8
  taken := []
  world := ⟨fun _ => 0x20, 0, []⟩

theorem sampleConsole_drains : sampleConsole.world.Drains := fun poll => ⟨poll, le_refl poll, by simp [sampleConsole]⟩

theorem sampleConsole_spells (slot : Nat) :
    Spells (pointerTo sampleConsole.memory (sampleConsole.va slot)) [char '\n'] where
  character i inside := by
    obtain rfl : i = 0 := by simpa using inside
    simp [pointerTo, sampleConsole]
  terminator := by simp [pointerTo, sampleConsole]
  running := by decide

/-- A newline as a format and a newline as an argument send different bytes. -/
theorem line_endings_exact_sample : ¬ ∃ bytes, Sends [char '\n'] sampleConsole bytes ∧
    Sends [char '%', char 's'] sampleConsole bytes := fun same =>
  ((line_endings_exact sampleConsole sampleConsole_drains).2 [char '\n'] (by decide) (sampleConsole_spells 0)).mp same
    (by decide)

/-- The format of one newline does not send one CR LF. -/
theorem not_sends_newline : ¬ Sends [char '\n'] sampleConsole [char '\r', char '\n'] := by
  intro sent
  have literal : char '%' ∉ [char '\n'] := by decide
  have text := sends_text_iff (accepts_literals literal) (by decide) sampleConsole_drains
    (stringsHeld_literals sampleConsole.memory sampleConsole.va (fun _ => []) [char '\n'] 0)
  rw [textFrom_literals] at text
  exact text.mp sent (by decide)

end UmbralOS
