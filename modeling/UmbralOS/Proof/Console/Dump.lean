import UmbralOS.Library.Strings
import UmbralOS.Proof.Console.Echo

/-!
This file proves that the dump of an exception shows the whole frame.
-/

namespace UmbralOS

open Library

/-- The bytes of a plain text. -/
def literalBytes (lead : List (BitVec 8)) : List (BitVec 8) :=
  lead.flatMap fun c => ((Piece.literal c).calls 0 []).flatten.flatMap lineEnding

theorem callsFrom_literals (va : Nat → BitVec 64) (texts : Nat → List (BitVec 8)) (rest : List Piece) (taken : Nat)
    (lead : List (BitVec 8)) : (callsFrom va texts (lead.map .literal ++ rest) taken).flatten.flatMap lineEnding =
      literalBytes lead ++ (callsFrom va texts rest taken).flatten.flatMap lineEnding := by
  induction lead with
  | nil => rfl
  | cons c lead ih =>
      rw [List.map_cons, List.cons_append, callsFrom, List.flatten_append, List.flatMap_append, Piece.widths,
        List.length_nil, Nat.add_zero, ih, literalBytes, literalBytes, List.flatMap_cons, List.append_assoc]
      rfl

/-- The digits of a number are no line endings. -/
theorem digits_plain {value : Nat} {c : BitVec 8} (member : c ∈ numberText 16 value) : c ≠ char '\n' ∧ c ≠ char '\r' := by
  obtain ⟨digit, small, rfl⟩ := (isNumeral_numberText (by decide) (le_refl 16) value).digits c member
  interval_cases digit <;> decide

theorem lineEnding_numberText (value : Nat) : (numberText 16 value).flatMap lineEnding = numberText 16 value := by
  have each : ∀ text : List (BitVec 8), (∀ c ∈ text, c ≠ char '\n') → text.flatMap lineEnding = text := by
    intro text
    induction text with
    | nil => exact fun _ => rfl
    | cons c text ih =>
        intro plain
        rw [List.flatMap_cons, ih fun other member => plain other (by simp [member]), lineEnding,
          if_neg (plain c (by simp))]
        rfl
  exact each _ fun c member => (digits_plain member).1

/-- The text of a number shows the number. -/
theorem numberText_injective {first second : BitVec 64}
    (same : numberText 16 first.toNat = numberText 16 second.toNat) : first = second := by
  have shown : ∀ value : BitVec 64, readBack 16 ((numberText 16 value.toNat).map digitValue) = value.toNat := by
    intro value
    rw [(isNumeral_numberText (by decide) (le_refl 16) value.toNat).value]
    exact Nat.mod_eq_of_lt value.isLt
  apply BitVec.eq_of_toNat_eq
  rw [← shown first, same, shown second]

/-- The end of the format of each line. -/
def hexTail : List (BitVec 8) := [char '%', char 'l', char 'x', char '\n']

/-- The text before the number of a line. -/
def hexLead (format : String) : List (BitVec 8) := (format.toList.map char).take (format.toList.length - 4)

/-- The pieces of the format of a line. -/
def hexPieces (format : String) : List Piece :=
  (hexLead format).map Piece.literal ++ [.escape 1 .x, .literal (char '\n')]

/-- The format is a plain text before one 64-bit hexadecimal number and a newline. -/
structure HexLine (format : String) : Prop where
  shape : format.toList.map char = hexLead format ++ hexTail
  plain : ∀ c ∈ hexLead format, c ≠ char '%'
  running : ∀ c ∈ hexLead format, c ≠ 0

/-- The bytes of a line. The format and the writer both expand its newline. -/
def hexLineBytes (line : String × BitVec 64) : List (BitVec 8) :=
  literalBytes (hexLead line.1) ++ (numberText 16 line.2.toNat ++ char '\r' :: [char '\r', char '\n'])

/-- The bytes of the pieces are the bytes of the line. -/
theorem messageBytes_hexPieces (format : String) (value : BitVec 64) :
    messageBytes (hexPieces format) [value] = hexLineBytes (format, value) := by
  rw [messageBytes, hexPieces, callsFrom_literals, hexLineBytes, List.append_cancel_left_eq]
  change ([numberText 16 (value.toNat % 2 ^ 64), [char '\r'], [char '\n']] : List (List (BitVec 8))).flatten.flatMap
    lineEnding = _
  rw [Nat.mod_eq_of_lt value.isLt, List.flatten_cons, List.flatMap_append, lineEnding_numberText]
  rfl

section Line

variable {memory : Memory} {format : String} {uart : Uart}

theorem HexLine.accepts (line : HexLine format) :
    Accepts (format.toList.map char) (hexPieces format) where
  plain piece member := by
    rcases List.mem_append.mp member with literal | tail
    · obtain ⟨c, inside, rfl⟩ := List.mem_map.mp literal
      exact line.plain c inside
    · simp only [List.mem_cons, List.not_mem_nil, or_false] at tail
      rcases tail with rfl | rfl
      · trivial
      · exact (by decide : char '\n' ≠ char '%')
  spells := by
    rw [line.shape, spelled, hexPieces, List.flatMap_append, List.flatMap_map]
    simp [Piece.spelling, hexTail, Conversion.letter]

theorem sendsLog_hexLine (line : HexLine format) (value : BitVec 64) (drains : uart.Drains) :
    SendsLog memory [(format, [value])] uart (hexLineBytes (format, value)) := by
  have running : ∀ c ∈ format.toList.map char, c ≠ 0 := by
    intro c member
    rw [line.shape, List.mem_append] at member
    rcases member with lead | tail
    · exact line.running c lead
    · exact (by decide : ∀ c ∈ hexTail, c ≠ 0) c tail
  have none : ∀ piece ∈ hexPieces format, ¬ piece.TakesString := by
    intro piece member
    rcases List.mem_append.mp member with literal | tail
    · obtain ⟨c, _, rfl⟩ := List.mem_map.mp literal
      exact id
    · simp only [List.mem_cons, List.not_mem_nil, or_false] at tail
      rcases tail with rfl | rfl
      · exact Conversion.noConfusion
      · exact id
  have sent := @sendsLog_message memory uart format _ line.accepts running none [value] drains
  rwa [messageBytes_hexPieces] at sent

end Line

/-- The bytes of two lists of lines with the same formats differ when their numbers differ. -/
theorem hexLines_injective {lines lines' : List (String × BitVec 64)} (formats : lines.map Prod.fst = lines'.map Prod.fst)
    (same : lines.flatMap hexLineBytes = lines'.flatMap hexLineBytes) : lines = lines' := by
  induction lines generalizing lines' with
  | nil => exact (List.map_eq_nil_iff.mp formats.symm).symm
  | cons line lines ih =>
      cases lines' with
      | nil => cases formats
      | cons line' lines' =>
          obtain ⟨format, formats⟩ := List.cons.inj formats
          rw [List.flatMap_cons, List.flatMap_cons, hexLineBytes, hexLineBytes, format, List.append_assoc, List.append_assoc,
            List.append_assoc, List.append_assoc, List.append_cancel_left_eq] at same
          obtain ⟨number, later⟩ := append_separator_inj (fun member => (digits_plain member).2 rfl)
            (fun member => (digits_plain member).2 rfl) same
          rw [ih formats (List.append_cancel_left later), Prod.ext format (numberText_injective number)]

/-- The formats of a dump. -/
def dumpFormats : List String := sampleFrame.lines.map Prod.fst

theorem lines_formats (stackFrame : StackFrame) : stackFrame.lines.map Prod.fst = dumpFormats := rfl

theorem dumpFormats_hexLine {format : String} (member : format ∈ dumpFormats) : HexLine format := by
  have each : ∀ format ∈ dumpFormats, format.toList.map char = hexLead format ++ hexTail ∧
      (∀ c ∈ hexLead format, c ≠ char '%') ∧ ∀ c ∈ hexLead format, c ≠ 0 := by
    simp [dumpFormats, sampleFrame, StackFrame.lines, hexLead, char, hexTail]
  obtain ⟨shape, plain, running⟩ := each format member
  exact ⟨shape, plain, running⟩

/-- The lines show every field. -/
theorem lines_injective {stackFrame other : StackFrame} (same : stackFrame.lines = other.lines) : stackFrame = other := by
  cases stackFrame
  cases other
  simpa [StackFrame.lines] using same

theorem sendsLog_dump {memory : Memory} (stackFrame : StackFrame) {uart : Uart} (drains : uart.Drains) :
    SendsLog memory (dumpLog stackFrame) uart (stackFrame.lines.flatMap hexLineBytes) := by
  have lines : ∀ lines : List (String × BitVec 64), (∀ line ∈ lines, HexLine line.1) → ∀ uart : Uart, uart.Drains →
      SendsLog memory (lines.map fun line => (line.1, [line.2])) uart (lines.flatMap hexLineBytes) := by
    intro lines
    induction lines with
    | nil => exact fun _ _ _ => sendsLog_nil
    | cons line lines ih =>
        intro hex uart drains
        exact (sendsLog_hexLine (hex line (by simp)) line.2 drains).append fun _ =>
          ih (fun other member => hex other (by simp [member])) _ drains
  refine lines _ (fun line member => dumpFormats_hexLine ?_) uart drains
  rw [← lines_formats stackFrame]
  exact List.mem_map_of_mem member

/-- The handler dumps the frame of a breakpoint and of each vector without an answer. -/
def Dumps (vector : BitVec 8) : Prop := vector = idtIdxExceptionBp ∨ ¬ Answered vector

instance (vector : BitVec 8) : Decidable (Dumps vector) := inferInstanceAs (Decidable (_ ∨ _))

section Handler

variable {timing : Ps2Timing} {handling : Handling} {vector : BitVec 8} {stackFrame : StackFrame}

/-- A vector that is dumped adds the messages of the dump. -/
theorem dumped_messages (dumps : Dumps vector) :
    ∃ log, (lastState (interruptHandler timing vector stackFrame) handling).ps2.messages =
      handling.ps2.messages ++ dumpLog stackFrame ++ log := by
  rcases dumps with rfl | unanswered
  · have returned : Returns (interruptHandler timing idtIdxExceptionBp stackFrame) handling ()
        (handling.answered timing idtIdxExceptionBp stackFrame) :=
      returns_interruptHandler.mpr ⟨by decide, fun device => absurd device (by decide), rfl⟩
    rw [returned.lastState_eq]
    exact ⟨[("Continuing after #BP...\n", [])], (List.append_assoc _ _ _).symm⟩
  · rw [(@stops_interruptHandler timing handling vector stackFrame unanswered).lastState_eq]
    exact ⟨[], (List.append_nil _).symm⟩

/-- For a breakpoint and for every vector without an answer, the handler prints the dump of its frame, and the bytes that
the serial port gets for the dump determine all sixteen words of the frame. -/
theorem exception_dump_exact {memory : Memory} {uart : Uart} (dumps : Dumps vector) (drains : uart.Drains) :
    (∃ log, (lastState (interruptHandler timing vector stackFrame) handling).ps2.messages =
      handling.ps2.messages ++ dumpLog stackFrame ++ log) ∧
    ∃ bytes, SendsLog memory (dumpLog stackFrame) uart bytes ∧
      ∀ other, SendsLog memory (dumpLog other) uart bytes → other = stackFrame := by
  refine ⟨dumped_messages dumps, _, sendsLog_dump stackFrame drains, fun other sent => ?_⟩
  have same := (sendsLog_dump other drains).unique sent
  exact lines_injective (hexLines_injective ((lines_formats other).trans (lines_formats stackFrame).symm) same)

end Handler

/-- A program was interrupted with different values in all its registers. -/
def sampleFault : StackFrame :=
  ⟨0x11, 0x10, 0x9, 0x8, 0x512, 0xD, 0xC, 0xFFFFFFFF80000ABC#64, 0xD1, 0x0D, 0x18, 0xFFFFFFFF80001234#64, 0x8, 0x10246,
    0xFFFF800000050000#64, 0x30⟩

/-- On the sample port, the dump of a general protection fault shows its frame. -/
theorem exception_dump_exact_sample : ∃ bytes, SendsLog (fun _ => 0) (dumpLog sampleFault) sampleConsole.world bytes ∧
    ∀ other, SendsLog (fun _ => 0) (dumpLog other) sampleConsole.world bytes → other = sampleFault :=
  (@exception_dump_exact instantTiming sampleQuiet 0x0D#8 sampleFault _ _ (by decide) sampleConsole_drains).2

end UmbralOS
