import UmbralOS.Proof.Console.LineEndings

/-!
This file proves which bytes a sequence of messages sends to the serial port.
-/

namespace UmbralOS

open Library

/-- The messages are printed in their order, and the port gets these bytes. -/
def SendsLog (memory : Memory) (log : List (String × List (BitVec 64))) (uart : Uart) (bytes : List (BitVec 8)) : Prop :=
  ∃ polls enough, ∀ patience, enough ≤ patience → ∃ bound, ∀ fuel, bound ≤ fuel →
    Returns (log.forM (kprintCall (serialWrite patience) memory fuel)) uart ()
      { uart with polls := polls, sent := uart.sent ++ bytes }

section Log

variable {memory : Memory} {log log' : List (String × List (BitVec 64))} {uart : Uart} {bytes bytes' : List (BitVec 8)}

theorem sendsLog_nil : SendsLog memory [] uart [] :=
  ⟨uart.polls, 0, fun _ _ => ⟨0, fun _ _ => (returns_pure _ _ _ _).mpr ⟨rfl, by rw [List.append_nil]⟩⟩⟩

/-- Two logs send their bytes one after the other. -/
theorem SendsLog.append (head : SendsLog memory log uart bytes)
    (tail : ∀ polls, SendsLog memory log' { uart with polls := polls, sent := uart.sent ++ bytes } bytes') :
    SendsLog memory (log ++ log') uart (bytes ++ bytes') := by
  obtain ⟨polls, enough, first⟩ := head
  obtain ⟨polls', enough', second⟩ := tail polls
  refine ⟨polls', max enough enough', fun patience waits => ?_⟩
  obtain ⟨bound, first⟩ := first patience (by omega)
  obtain ⟨bound', second⟩ := second patience (by omega)
  refine ⟨max bound bound', fun fuel more => ?_⟩
  rw [forM_append]
  refine (returns_bind _ _ _ _ _).mpr ⟨(), _, first fuel (by omega), ?_⟩
  rw [← List.append_assoc]
  exact second fuel (by omega)

theorem SendsLog.unique (first : SendsLog memory log uart bytes) (second : SendsLog memory log uart bytes') :
    bytes = bytes' := by
  obtain ⟨_, enough, first⟩ := first
  obtain ⟨_, enough', second⟩ := second
  obtain ⟨bound, first⟩ := first (max enough enough') (by omega)
  obtain ⟨bound', second⟩ := second (max enough enough') (by omega)
  have same := ((first (max bound bound') (by omega)).unique (second (max bound bound') (by omega))).2
  exact List.append_cancel_left (congrArg Uart.sent same)

/-- The bytes that a message with these pieces sends. -/
def messageBytes (pieces : List Piece) (arguments : List (BitVec 64)) : List (BitVec 8) :=
  (callsFrom (fun i => arguments.getD i 0) (fun _ => []) pieces 0).flatten.flatMap lineEnding

theorem stringsHeld_of_none {va : Nat → BitVec 64} {texts : Nat → List (BitVec 8)} {pieces : List Piece}
    (none : ∀ piece ∈ pieces, ¬ piece.TakesString) (taken : Nat) : StringsHeld memory va texts pieces taken := by
  induction pieces generalizing taken with
  | nil => trivial
  | cons piece pieces ih =>
      exact ⟨fun string => absurd string (none piece (by simp)), ih (fun other member => none other (by simp [member])) _⟩

/-- A message without strings among its arguments sends the bytes of its pieces. -/
theorem sendsLog_message {format : String} {pieces : List Piece} (accepted : Accepts (format.toList.map char) pieces)
    (running : ∀ c ∈ format.toList.map char, c ≠ 0) (none : ∀ piece ∈ pieces, ¬ piece.TakesString)
    (arguments : List (BitVec 64)) (drains : uart.Drains) :
    SendsLog memory [(format, arguments)] uart (messageBytes pieces arguments) := by
  obtain ⟨polls, enough, written⟩ := sendsChars_forM
    (callsFrom (fun i => arguments.getD i 0) (fun _ => []) pieces 0) uart drains
  refine ⟨polls, enough, fun patience waits => ?_⟩
  obtain ⟨bound, returned⟩ := @returns_kprintv _ _ _ _ accepted running _ ⟨memory, fun i => arguments.getD i 0, [], uart⟩ _
    (stringsHeld_of_none none 0) (written patience waits)
  refine ⟨bound, fun fuel more => (returns_bind _ _ _ _ _).mpr ⟨(), _, ?_, (returns_pure _ _ _ _).mpr ⟨rfl, rfl⟩⟩⟩
  exact returns_focus.mpr ⟨_, returned fuel more, rfl⟩

/-- A log whose messages send their bytes sends all these bytes in order. -/
theorem sendsLog_map {Item : Type} {message : Item → String × List (BitVec 64)} {sent : Item → List (BitVec 8)}
    (each : ∀ item, ∀ uart : Uart, uart.Drains → SendsLog memory [message item] uart (sent item)) (items : List Item) :
    ∀ uart : Uart, uart.Drains → SendsLog memory (items.map message) uart (items.flatMap sent) := by
  induction items with
  | nil => exact fun _ _ => sendsLog_nil
  | cons item items ih => exact fun uart drains => (each item uart drains).append fun _ => ih _ drains

end Log

end UmbralOS
