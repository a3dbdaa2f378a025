import Mathlib.Data.List.TakeWhile
import UmbralOS.Proof.Console.Numerals

/-!
This file proves which formats `kprintv` accepts, which arguments it takes and which text it writes.
-/

namespace UmbralOS

open Library

variable {World : Type}

/-- The letters that end an escape. -/
inductive Conversion where
  | c
  | p
  | s
  | u
  | x
  deriving DecidableEq

def Conversion.letter : Conversion → BitVec 8
  | .c => char 'c'
  | .p => char 'p'
  | .s => char 's'
  | .u => char 'u'
  | .x => char 'x'

/-- A piece of a format is a literal character or an escape with a number of `l`. -/
inductive Piece where
  | literal (c : BitVec 8)
  | escape (longs : Nat) (conversion : Conversion)
  deriving DecidableEq

/-- The characters of a piece. -/
def Piece.spelling : Piece → List (BitVec 8)
  | .literal c => [c]
  | .escape longs conversion => char '%' :: (List.replicate longs (char 'l') ++ [conversion.letter])

/-- A literal character does not start an escape. -/
def Piece.Plain : Piece → Prop
  | .literal c => c ≠ char '%'
  | .escape _ _ => True

/-- The format that the pieces spell. -/
def spelled (pieces : List Piece) : List (BitVec 8) := pieces.flatMap Piece.spelling

/-- The grammar of the accepted formats. -/
structure Accepts (format : List (BitVec 8)) (pieces : List Piece) : Prop where
  plain : ∀ piece ∈ pieces, piece.Plain
  spells : format = spelled pieces

/-- After the pieces, the format has an escape that goes on with a character that is no letter,
or that ends with the format. -/
structure Rejects (format : List (BitVec 8)) (pieces : List Piece) (longs : Nat) (rest : List (BitVec 8)) : Prop where
  plain : ∀ piece ∈ pieces, piece.Plain
  spells : format = spelled pieces ++ char '%' :: (List.replicate longs (char 'l') ++ rest)
  letter : ∀ conversion : Conversion, rest.headD 0 ≠ conversion.letter
  long : rest.headD 0 ≠ char 'l'

/-- Every format is accepted or rejected. -/
theorem accepts_or_rejects (format : List (BitVec 8)) :
    (∃ pieces, Accepts format pieces) ∨ ∃ pieces longs rest, Rejects format pieces longs rest := by
  induction length : format.length using Nat.strong_induction_on generalizing format with
  | _ size ih =>
    cases format with
    | nil => exact Or.inl ⟨[], by simp, rfl⟩
    | cons c format =>
        have extend : ∀ (piece : Piece) (tail : List (BitVec 8)), piece.Plain → c :: format = piece.spelling ++ tail →
            tail.length < size → (∃ pieces, Accepts (c :: format) pieces) ∨
              ∃ pieces longs rest, Rejects (c :: format) pieces longs rest := by
          intro piece tail plain split shorter
          rcases ih tail.length shorter tail rfl with ⟨pieces, accepted⟩ | ⟨pieces, longs, rest, rejected⟩
          · left
            refine ⟨piece :: pieces, List.forall_mem_cons.mpr ⟨plain, accepted.plain⟩, ?_⟩
            rw [split, accepted.spells, spelled, spelled, List.flatMap_cons]
          · right
            refine ⟨piece :: pieces, longs, rest, List.forall_mem_cons.mpr ⟨plain, rejected.plain⟩, ?_,
              rejected.letter, rejected.long⟩
            rw [split, rejected.spells, spelled, spelled, List.flatMap_cons, List.append_assoc]
        rw [List.length_cons] at length
        by_cases escape : c = char '%'
        · subst escape
          -- The run of `l` ends at a letter, at another character or at the end of the format.
          have run := List.takeWhile_append_dropWhile (p := fun c => decide (c = char 'l')) (l := format)
          have all : format.takeWhile (fun c => decide (c = char 'l')) =
              List.replicate (format.takeWhile fun c => decide (c = char 'l')).length (char 'l') := by
            apply List.eq_replicate_iff.mpr
            refine ⟨rfl, ?_⟩
            intro c member
            simpa using List.mem_takeWhile_imp member
          rw [all] at run
          generalize (format.takeWhile fun c => decide (c = char 'l')).length = longs at run
          have long : (format.dropWhile fun c => decide (c = char 'l')).headD 0 ≠ char 'l' := by
            cases shape : format.dropWhile (fun c => decide (c = char 'l')) with
            | nil => decide
            | cons next rest =>
                have stop := List.head?_dropWhile_not (fun c => decide (c = char 'l')) format
                simpa [shape] using stop
          generalize format.dropWhile (fun c => decide (c = char 'l')) = rest at run long
          by_cases letter : ∃ conversion : Conversion, rest.headD 0 = conversion.letter
          · obtain ⟨conversion, letter⟩ := letter
            cases rest with
            | nil => cases conversion <;> exact absurd letter (by decide)
            | cons next rest =>
                apply extend (.escape longs conversion) rest trivial
                · rw [← run, Piece.spelling, ← letter]
                  simp
                · rw [← length, ← run]
                  simp
                  omega
          · right
            exact ⟨[], longs, rest, by simp, by simp [spelled, run], not_exists.mp letter, long⟩
        · exact extend (.literal c) format escape rfl (by omega)

@[simp] theorem returns_liftWriter {A : Type} (program : Program Stop World A) (before after : Printer World) (value : A) :
    Returns (liftWriter program) before value after ↔
      ∃ world, Returns program before.world value world ∧ { before with world := world } = after := by
  unfold Returns
  cases result : program.run before.world with
  | ok found world =>
      have run : (liftWriter program).run before = .ok found { before with world := world } := by
        change liftWriter program before = _
        simp only [liftWriter, result]
      simp [run, and_comm]
  | error reason world =>
      have run : (liftWriter program).run before = .error reason { before with world := world } := by
        change liftWriter program before = _
        simp only [liftWriter, result]
      simp [run]

theorem returns_vaArg (bits : Nat) (before : Printer World) :
    Returns (vaArg bits) before (BitVec.ofNat 64 ((before.va before.taken.length).toNat % 2 ^ bits))
      { before with taken := before.taken ++ [bits] } := rfl

theorem returns_demand {State A : Type} {found : Except Stop A} {value : A} (ok : found = .ok value) (before : State) :
    Returns (demand found) before value before := by
  rw [ok]
  rfl

/-- A program after a taken argument runs on that argument. -/
theorem returns_vaArg_bind {A : Type} {bits : Nat} {next : BitVec 64 → PrinterProgram World A}
    {before after : Printer World} {value : A}
    (finished : Returns (next (BitVec.ofNat 64 ((before.va before.taken.length).toNat % 2 ^ bits)))
      { before with taken := before.taken ++ [bits] } value after) :
    Returns (vaArg bits >>= next) before value after :=
  (returns_bind _ _ _ _ _).mpr ⟨_, _, returns_vaArg bits before, finished⟩

/-- One text in the list of calls is one call of the writer. -/
theorem returns_forM_singleton {gWriter : Writer World} {text : List (BitVec 8)} {before after : World} :
    Returns ([text].forM gWriter) before () after ↔ Returns (gWriter text) before () after := by
  change Returns (gWriter text >>= fun _ => pure ()) before () after ↔ _
  simp

theorem returns_liftWriter_bind {A : Type} {program : Program Stop World Unit} {next : Unit → PrinterProgram World A}
    {before after : Printer World} {world : World} {value : A} (written : Returns program before.world () world)
    (finished : Returns (next ()) { before with world := world } value after) :
    Returns (liftWriter program >>= next) before value after :=
  (returns_bind _ _ _ _ _).mpr ⟨(), _, (returns_liftWriter _ _ _ _).mpr ⟨world, written, rfl⟩, finished⟩

theorem returns_pure_self {State A : Type} (value : A) (state : State) :
    Returns (pure value : Program Stop State A) state value state := rfl

/-- The format shows the character at the cursor. -/
theorem stringConstant_cursor (before : List (BitVec 8)) (c : BitVec 8) (rest : List (BitVec 8)) :
    stringConstant (before ++ c :: rest) before.length = .ok c := by
  simp [stringConstant]

theorem stringConstant_end (text : List (BitVec 8)) : stringConstant text text.length = .ok 0 := by
  simp [stringConstant]

theorem spells_stringConstant {text : List (BitVec 8)} (running : ∀ c ∈ text, c ≠ 0) :
    Spells (stringConstant text) text where
  character i inside := by
    rw [stringConstant, List.getElem?_append_left inside, List.getElem?_eq_getElem inside]
  terminator := stringConstant_end text
  running := running

/-- The width at which an escape takes its argument. -/
def Conversion.width (longs : Nat) : Conversion → Nat
  | .c => 32
  | .p => 64
  | .s => 64
  | .u => if longs = 0 then 32 else 64
  | .x => if longs = 0 then 32 else 64

/-- The texts that an escape gives to the writer, for the taken argument and the string that it points to. -/
def Conversion.calls (argument : Nat) (text : List (BitVec 8)) : Conversion → List (List (BitVec 8))
  | .c => [[BitVec.ofNat 8 argument]]
  | .p => [[char '0', char 'x'], numberText 16 argument]
  | .s => [text]
  | .u => [numberText 10 argument]
  | .x => [numberText 16 argument]

/-- An argument is below the power of its width. -/
theorem toNat_argument (bits : Nat) (slot : BitVec 64) :
    (BitVec.ofNat 64 (slot.toNat % 2 ^ bits)).toNat = slot.toNat % 2 ^ bits := by
  rw [BitVec.toNat_ofNat, Nat.mod_eq_of_lt]
  exact lt_of_le_of_lt (Nat.mod_le _ _) slot.isLt

/-- An escape takes one argument and gives its texts to the writer. -/
theorem returns_printEscape {gWriter : Writer World} {conversion : Conversion} {text : List (BitVec 8)} {after : World}
    (rest : List (BitVec 8)) (longs : Nat) : ∀ (isLong : Bool) (before : List (BitVec 8)) (fuel : Nat) (printer : Printer World),
      longs + text.length + 3 < fuel →
      (conversion = .s → Spells (pointerTo printer.memory (printer.va printer.taken.length)) text) →
      Returns ((conversion.calls ((printer.va printer.taken.length).toNat %
        2 ^ conversion.width (longs + isLong.toNat)) text).forM gWriter) printer.world () after →
      Returns (printEscape gWriter
          (stringConstant (before ++ (List.replicate longs (char 'l') ++ conversion.letter :: rest)))
          fuel before.length isLong)
        printer (before.length + longs)
        { printer with taken := printer.taken ++ [conversion.width (longs + isLong.toNat)], world := after } := by
  induction longs with
  | zero =>
      intro isLong before fuel printer enough held written
      obtain ⟨fuel, rfl⟩ := Nat.exists_eq_add_one_of_ne_zero (by omega : fuel ≠ 0)
      have shown := stringConstant_cursor before conversion.letter rest
      simp only [List.replicate_zero, List.nil_append]
      rw [printEscape]
      apply (returns_bind _ _ _ _ _).mpr
      refine ⟨conversion.letter, printer, returns_demand shown printer, ?_⟩
      cases conversion with
      | c =>
          rw [if_pos (show Conversion.c.letter = char 'c' from rfl)]
          apply returns_vaArg_bind
          have argument : (BitVec.ofNat 64 ((printer.va printer.taken.length).toNat % 2 ^ 32)).setWidth 8 =
              BitVec.ofNat 8 ((printer.va printer.taken.length).toNat % 2 ^ 32) := by
            apply BitVec.eq_of_toNat_eq
            simp
          rw [printChar, argument]
          exact returns_liftWriter_bind (returns_forM_singleton.mp written) (returns_pure_self _ _)
      | p =>
          rw [if_neg (by decide), if_neg (by decide), if_pos (show Conversion.p.letter = char 'p' from rfl)]
          apply returns_vaArg_bind
          rw [printString_spells gWriter (spells_stringConstant (by decide)) (by simp; omega),
            printUnsigned_eq gWriter _ (by decide) (by decide), toNat_argument]
          obtain ⟨_, middle, prefixed, written⟩ := (returns_bind _ _ _ _ _).mp written
          refine returns_liftWriter_bind prefixed ?_
          exact returns_liftWriter_bind (returns_forM_singleton.mp written) (returns_pure_self _ _)
      | s =>
          rw [if_neg (by decide), if_neg (by decide), if_neg (by decide),
            if_pos (show Conversion.s.letter = char 's' from rfl)]
          apply returns_vaArg_bind
          apply (returns_bind _ _ _ _ _).mpr
          refine ⟨_, _, (returns_get _ _ _).mpr ⟨rfl, rfl⟩, ?_⟩
          have slot : BitVec.ofNat 64 ((printer.va printer.taken.length).toNat % 2 ^ 64) =
              printer.va printer.taken.length := by
            apply BitVec.eq_of_toNat_eq
            rw [toNat_argument]
            exact Nat.mod_eq_of_lt (printer.va printer.taken.length).isLt
          rw [slot, printString_spells gWriter (held rfl) (by omega)]
          exact returns_liftWriter_bind (returns_forM_singleton.mp written) (returns_pure_self _ _)
      | u =>
          rw [if_neg (by decide), if_neg (by decide), if_neg (by decide), if_neg (by decide),
            if_pos (show Conversion.u.letter = char 'u' from rfl)]
          apply returns_vaArg_bind
          rw [printUnsigned_eq gWriter _ (by decide) (by decide), toNat_argument]
          cases isLong
          all_goals
            exact returns_liftWriter_bind (returns_forM_singleton.mp written) (returns_pure_self _ _)
      | x =>
          rw [if_neg (by decide), if_neg (by decide), if_neg (by decide), if_neg (by decide), if_neg (by decide),
            if_pos (show Conversion.x.letter = char 'x' from rfl)]
          apply returns_vaArg_bind
          rw [printUnsigned_eq gWriter _ (by decide) (by decide), toNat_argument]
          cases isLong
          all_goals
            exact returns_liftWriter_bind (returns_forM_singleton.mp written) (returns_pure_self _ _)
  | succ longs ih =>
      intro isLong before fuel printer enough held written
      obtain ⟨fuel, rfl⟩ := Nat.exists_eq_add_one_of_ne_zero (by omega : fuel ≠ 0)
      have shown := stringConstant_cursor before (char 'l')
        (List.replicate longs (char 'l') ++ conversion.letter :: rest)
      have shape : before ++ (List.replicate (longs + 1) (char 'l') ++ conversion.letter :: rest) =
          (before ++ [char 'l']) ++ (List.replicate longs (char 'l') ++ conversion.letter :: rest) := by
        simp [List.replicate_succ]
      have wide : conversion.width (longs + 1 + isLong.toNat) = conversion.width (longs + true.toNat) := by
        cases conversion <;> simp [Conversion.width]
      rw [wide] at written ⊢
      have inner := ih true (before ++ [char 'l']) fuel printer (by omega) held written
      rw [← shape, List.length_append, List.length_singleton] at inner
      rw [printEscape]
      apply (returns_bind _ _ _ _ _).mpr
      refine ⟨char 'l', printer, returns_demand shown printer, ?_⟩
      rw [if_neg (by decide), if_pos rfl, show before.length + (longs + 1) = before.length + 1 + longs by omega]
      exact inner

/-- The widths of the arguments that a piece takes. -/
def Piece.widths : Piece → List Nat
  | .literal _ => []
  | .escape longs conversion => [conversion.width longs]

/-- The texts that a piece gives to the writer. A literal newline is two calls. -/
def Piece.calls (slot : BitVec 64) (text : List (BitVec 8)) : Piece → List (List (BitVec 8))
  | .literal c => if c = char '\n' then [[char '\r'], [char '\n']] else [[c]]
  | .escape longs conversion => conversion.calls (slot.toNat % 2 ^ conversion.width longs) text

/-- The piece takes a string. -/
def Piece.TakesString : Piece → Prop
  | .literal _ => False
  | .escape _ conversion => conversion = .s

/-- The switch handles one piece and returns the cursor of its last character. -/
theorem returns_kprintvSwitch {gWriter : Writer World} {piece : Piece} (plain : piece.Plain) {c : BitVec 8}
    (before rest : List (BitVec 8)) {text tail : List (BitVec 8)} (spelling : piece.spelling = c :: tail) {fuel : Nat}
    {printer : Printer World} {after : World} (enough : piece.spelling.length + text.length + 3 < fuel)
    (held : piece.TakesString → Spells (pointerTo printer.memory (printer.va printer.taken.length)) text)
    (written : Returns ((piece.calls (printer.va printer.taken.length) text).forM gWriter) printer.world () after) :
    Returns (kprintvSwitch gWriter (stringConstant (before ++ (piece.spelling ++ rest))) fuel before.length c) printer
      (before.length + tail.length) { printer with taken := printer.taken ++ piece.widths, world := after } := by
  unfold kprintvSwitch
  cases piece with
  | literal found =>
      obtain ⟨rfl, rfl⟩ := List.cons.inj spelling
      rw [if_neg plain]
      simp only [Piece.widths, List.append_nil]
      by_cases newline : found = char '\n'
      · rw [if_pos newline]
        rw [Piece.calls, if_pos newline] at written
        obtain ⟨_, middle, returned, fed⟩ := (returns_bind _ _ _ _ _).mp written
        refine returns_liftWriter_bind returned ?_
        exact returns_liftWriter_bind (returns_forM_singleton.mp fed) (returns_pure_self _ _)
      · rw [if_neg newline]
        rw [Piece.calls, if_neg newline] at written
        exact returns_liftWriter_bind (returns_forM_singleton.mp written) (returns_pure_self _ _)
  | escape longs conversion =>
      obtain ⟨rfl, rfl⟩ := List.cons.inj spelling
      rw [if_pos rfl]
      have shape : before ++ ((Piece.escape longs conversion).spelling ++ rest) =
          (before ++ [char '%']) ++ (List.replicate longs (char 'l') ++ conversion.letter :: rest) := by
        simp [Piece.spelling]
      have taken : longs + text.length + 3 < fuel := by
        simp [Piece.spelling] at enough
        omega
      have escaped := returns_printEscape rest longs false (before ++ [char '%']) fuel printer taken held written
      rw [← shape, List.length_append, List.length_singleton] at escaped
      rw [List.length_append, List.length_replicate, List.length_singleton,
        show before.length + (longs + 1) = before.length + 1 + longs by omega]
      exact escaped

/-- The loop handles one piece and goes on behind it. -/
theorem kprintvFrom_piece {gWriter : Writer World} {piece : Piece} (plain : piece.Plain)
    (before rest : List (BitVec 8)) {text : List (BitVec 8)} (fuel : Nat) {printer : Printer World} {after : World}
    (running : ∀ c ∈ piece.spelling, c ≠ 0) (enough : piece.spelling.length + text.length + 3 < fuel)
    (held : piece.TakesString → Spells (pointerTo printer.memory (printer.va printer.taken.length)) text)
    (written : Returns ((piece.calls (printer.va printer.taken.length) text).forM gWriter) printer.world () after) :
    (kprintvFrom gWriter (stringConstant (before ++ (piece.spelling ++ rest))) (fuel + 1) before.length).run printer =
      (kprintvFrom gWriter (stringConstant (before ++ (piece.spelling ++ rest))) fuel
        (before ++ piece.spelling).length).run
        { printer with taken := printer.taken ++ piece.widths, world := after } := by
  obtain ⟨c, tail, spelling⟩ : ∃ c tail, piece.spelling = c :: tail := by
    cases piece with
    | literal c => exact ⟨c, [], rfl⟩
    | escape longs conversion => exact ⟨_, _, rfl⟩
  have shown : stringConstant (before ++ (piece.spelling ++ rest)) before.length = .ok c := by
    rw [spelling]
    exact stringConstant_cursor before c (tail ++ rest)
  have handled := returns_kprintvSwitch plain before rest spelling enough held written
  have length : (before ++ piece.spelling).length = before.length + tail.length + 1 := by
    rw [List.length_append, spelling, List.length_cons]
    omega
  rw [kprintvFrom, (returns_demand shown printer).run_bind, if_neg (running c (by simp [spelling])),
    handled.run_bind, length]

/-- The texts that the pieces give to the writer, from the given number of taken arguments. -/
def callsFrom (va : Nat → BitVec 64) (texts : Nat → List (BitVec 8)) : List Piece → Nat → List (List (BitVec 8))
  | [], _ => []
  | piece :: pieces, taken =>
      piece.calls (va taken) (texts taken) ++ callsFrom va texts pieces (taken + piece.widths.length)

/-- Each taken string argument points to its text. -/
def StringsHeld (memory : Memory) (va : Nat → BitVec 64) (texts : Nat → List (BitVec 8)) : List Piece → Nat → Prop
  | [], _ => True
  | piece :: pieces, taken =>
      (piece.TakesString → Spells (pointerTo memory (va taken)) (texts taken)) ∧
        StringsHeld memory va texts pieces (taken + piece.widths.length)

/-- The loop handles the pieces and goes on behind them. -/
theorem kprintvFrom_pieces {gWriter : Writer World} {texts : Nat → List (BitVec 8)} (rest : List (BitVec 8))
    {after : World} (pieces : List Piece) : ∀ (before : List (BitVec 8)) (printer : Printer World),
      (∀ piece ∈ pieces, piece.Plain) → (∀ c ∈ spelled pieces, c ≠ 0) →
      StringsHeld printer.memory printer.va texts pieces printer.taken.length →
      Returns ((callsFrom printer.va texts pieces printer.taken.length).forM gWriter) printer.world () after →
      ∃ bound, ∀ fuel, bound ≤ fuel →
        (kprintvFrom gWriter (stringConstant (before ++ (spelled pieces ++ rest))) (fuel + pieces.length)
            before.length).run printer =
          (kprintvFrom gWriter (stringConstant (before ++ (spelled pieces ++ rest))) fuel
            (before ++ spelled pieces).length).run
            { printer with taken := printer.taken ++ pieces.flatMap Piece.widths, world := after } := by
  induction pieces with
  | nil =>
      intro before printer _ _ _ written
      obtain ⟨_, rfl⟩ := (returns_pure _ _ _ _).mp written
      exact ⟨0, fun fuel _ => by simp [spelled]⟩
  | cons piece pieces ih =>
      intro before printer plain running held written
      rw [callsFrom, forM_append] at written
      obtain ⟨_, middle, first, written⟩ := (returns_bind _ _ _ _ _).mp written
      have split : spelled (piece :: pieces) = piece.spelling ++ spelled pieces := List.flatMap_cons
      rw [split] at running ⊢
      obtain ⟨bound, later⟩ := ih (before ++ piece.spelling)
        { printer with taken := printer.taken ++ piece.widths, world := middle }
        (fun other member => plain other (by simp [member])) (fun c member => running c (by simp [member]))
        (by rw [List.length_append]; exact held.2) (by rw [List.length_append]; exact written)
      refine ⟨max bound (piece.spelling.length + (texts printer.taken.length).length + 4), ?_⟩
      intro fuel enough
      have head := kprintvFrom_piece (plain piece (by simp)) before (spelled pieces ++ rest) (fuel + pieces.length)
        (fun c member => running c (by simp [member])) (by omega) held.1 first
      have tail := later fuel (by omega)
      simp only [List.append_assoc, List.flatMap_cons, List.length_cons] at head tail ⊢
      rw [show fuel + (pieces.length + 1) = fuel + pieces.length + 1 by omega, head]
      exact tail

/-- An escape without a letter stops in the panic. -/
theorem stops_printEscape (gWriter : Writer World) {rest : List (BitVec 8)}
    (letter : ∀ conversion : Conversion, rest.headD 0 ≠ conversion.letter) (long : rest.headD 0 ≠ char 'l')
    (printer : Printer World) (longs : Nat) : ∀ (isLong : Bool) (before : List (BitVec 8)) (fuel : Nat), longs < fuel →
      Stops (printEscape gWriter (stringConstant (before ++ (List.replicate longs (char 'l') ++ rest))) fuel
        before.length isLong) printer
        (.panic "Unknown character %c in print frormat" [((rest.headD 0).signExtend 32).setWidth 64]) printer := by
  induction longs with
  | zero =>
      intro isLong before fuel enough
      obtain ⟨fuel, rfl⟩ := Nat.exists_eq_add_one_of_ne_zero (by omega : fuel ≠ 0)
      have shown : stringConstant (before ++ (List.replicate 0 (char 'l') ++ rest)) before.length =
          .ok (rest.headD 0) := by
        cases rest with
        | nil => simpa using stringConstant_end before
        | cons c rest => exact stringConstant_cursor before c rest
      rw [printEscape]
      apply (stops_bind _ _ _ _ _).mpr
      refine Or.inr ⟨rest.headD 0, printer, returns_demand shown printer, ?_⟩
      rw [if_neg (show rest.headD 0 ≠ char 'c' from letter .c), if_neg long,
        if_neg (show rest.headD 0 ≠ char 'p' from letter .p), if_neg (show rest.headD 0 ≠ char 's' from letter .s),
        if_neg (show rest.headD 0 ≠ char 'u' from letter .u), if_neg (show rest.headD 0 ≠ char 'x' from letter .x)]
      exact (stops_throw _ _ _ _).mpr ⟨rfl, rfl⟩
  | succ longs ih =>
      intro isLong before fuel enough
      obtain ⟨fuel, rfl⟩ := Nat.exists_eq_add_one_of_ne_zero (by omega : fuel ≠ 0)
      have shown := stringConstant_cursor before (char 'l') (List.replicate longs (char 'l') ++ rest)
      have shape : before ++ (List.replicate (longs + 1) (char 'l') ++ rest) =
          (before ++ [char 'l']) ++ (List.replicate longs (char 'l') ++ rest) := by
        simp [List.replicate_succ]
      have inner := ih true (before ++ [char 'l']) fuel (by omega)
      rw [← shape, List.length_append, List.length_singleton] at inner
      rw [printEscape]
      apply (stops_bind _ _ _ _ _).mpr
      refine Or.inr ⟨char 'l', printer, returns_demand shown printer, ?_⟩
      rw [if_neg (by decide), if_pos rfl]
      exact inner

/-- The recorded text is the texts of the calls in their order. -/
theorem returns_forM_recorder (calls : List (List (BitVec 8))) (before : List (BitVec 8)) :
    Returns (calls.forM recorder) before () (before ++ calls.flatten) := by
  induction calls generalizing before with
  | nil => simp [Returns]
  | cons text calls ih =>
      apply (returns_bind _ _ _ _ _).mpr
      refine ⟨(), before ++ text, rfl, ?_⟩
      have rest := ih (before ++ text)
      rwa [List.append_assoc, ← List.flatten_cons] at rest

/-- The printer after the pieces: each escape has taken one argument at its width, and the writer has got the
literal characters, with each newline as CR LF, and the arguments in their order. -/
def Printer.after (printer : Printer (List (BitVec 8))) (texts : Nat → List (BitVec 8)) (pieces : List Piece) :
    Printer (List (BitVec 8)) :=
  { printer with
      taken := printer.taken ++ pieces.flatMap Piece.widths
      world := printer.world ++ (callsFrom printer.va texts pieces printer.taken.length).flatten }

/-- An accepted format is read to its NUL. -/
theorem returns_kprintv {gWriter : Writer World} {format : List (BitVec 8)} {pieces : List Piece}
    (accepted : Accepts format pieces) (running : ∀ c ∈ format, c ≠ 0) {texts : Nat → List (BitVec 8)}
    {printer : Printer World} {after : World}
    (held : StringsHeld printer.memory printer.va texts pieces printer.taken.length)
    (written : Returns ((callsFrom printer.va texts pieces printer.taken.length).forM gWriter) printer.world () after) :
    ∃ bound, ∀ fuel, bound ≤ fuel → Returns (kprintv gWriter (stringConstant format) fuel) printer ()
      { printer with taken := printer.taken ++ pieces.flatMap Piece.widths, world := after } := by
  obtain ⟨plain, rfl⟩ := accepted
  obtain ⟨bound, handled⟩ := kprintvFrom_pieces [] pieces [] printer plain running held written
  refine ⟨bound + pieces.length + 1, ?_⟩
  intro fuel enough
  have run := handled (fuel - pieces.length) (by omega)
  rw [List.nil_append, List.nil_append, List.append_nil, Nat.sub_add_cancel (by omega)] at run
  unfold kprintv Returns
  refine run.trans ?_
  obtain ⟨rest, more⟩ := Nat.exists_eq_add_one_of_ne_zero (by omega : fuel - pieces.length ≠ 0)
  rw [more, kprintvFrom, (returns_demand (stringConstant_end _) _).run_bind, if_pos rfl]
  rfl

/-- A rejected format stops in the panic at the first escape without a letter. -/
theorem stops_kprintv {gWriter : Writer World} {format rest : List (BitVec 8)} {pieces : List Piece} {longs : Nat}
    (rejected : Rejects format pieces longs rest) (running : ∀ c ∈ format, c ≠ 0) {texts : Nat → List (BitVec 8)}
    {printer : Printer World} {after : World}
    (held : StringsHeld printer.memory printer.va texts pieces printer.taken.length)
    (written : Returns ((callsFrom printer.va texts pieces printer.taken.length).forM gWriter) printer.world () after) :
    ∃ bound, ∀ fuel, bound ≤ fuel → Stops (kprintv gWriter (stringConstant format) fuel) printer
      (.panic "Unknown character %c in print frormat" [((rest.headD 0).signExtend 32).setWidth 64])
      { printer with taken := printer.taken ++ pieces.flatMap Piece.widths, world := after } := by
  obtain ⟨plain, rfl, letter, long⟩ := rejected
  obtain ⟨bound, handled⟩ := kprintvFrom_pieces (char '%' :: (List.replicate longs (char 'l') ++ rest)) pieces []
    printer plain (fun c member => running c (by simp [member])) held written
  refine ⟨bound + pieces.length + longs + 2, ?_⟩
  intro fuel enough
  have run := handled (fuel - pieces.length) (by omega)
  rw [List.nil_append, List.nil_append, Nat.sub_add_cancel (by omega)] at run
  unfold kprintv Stops
  refine run.trans ?_
  obtain ⟨less, more⟩ := Nat.exists_eq_add_one_of_ne_zero (by omega : fuel - pieces.length ≠ 0)
  have shown := stringConstant_cursor (spelled pieces) (char '%') (List.replicate longs (char 'l') ++ rest)
  have shape : spelled pieces ++ char '%' :: (List.replicate longs (char 'l') ++ rest) =
      (spelled pieces ++ [char '%']) ++ (List.replicate longs (char 'l') ++ rest) := by
    simp
  have escaped := stops_printEscape gWriter letter long
    { printer with taken := printer.taken ++ pieces.flatMap Piece.widths, world := after } longs false
    (spelled pieces ++ [char '%']) less (by omega)
  rw [← shape, List.length_append, List.length_singleton] at escaped
  rw [more, kprintvFrom, (returns_demand shown _).run_bind, if_neg (by decide)]
  apply (stops_bind _ _ _ _ _).mpr
  left
  rw [kprintvSwitch, if_pos rfl]
  exact escaped

/-- `kprintv` accepts exactly its grammar. A read of the format past its NUL would stop with another reason. -/
theorem kprintv_exact (format : List (BitVec 8)) (running : ∀ c ∈ format, c ≠ 0)
    (printer : Printer (List (BitVec 8))) (texts : Nat → List (BitVec 8))
    (held : ∀ pieces rest, (∀ piece ∈ pieces, piece.Plain) → format = spelled pieces ++ rest →
      StringsHeld printer.memory printer.va texts pieces printer.taken.length) :
    (∀ pieces, Accepts format pieces → ∃ bound, ∀ fuel, bound ≤ fuel →
        Returns (kprintv recorder (stringConstant format) fuel) printer () (printer.after texts pieces)) ∧
      (∀ pieces longs rest, Rejects format pieces longs rest → ∃ bound, ∀ fuel, bound ≤ fuel →
        Stops (kprintv recorder (stringConstant format) fuel) printer
          (.panic "Unknown character %c in print frormat" [((rest.headD 0).signExtend 32).setWidth 64])
          (printer.after texts pieces)) ∧
      ((∃ bound, ∀ fuel, bound ≤ fuel →
          ∃ after, Returns (kprintv recorder (stringConstant format) fuel) printer () after) ↔
        ∃ pieces, Accepts format pieces) ∧
      ((∃ pieces, Accepts format pieces) ∨ ∃ pieces longs rest, Rejects format pieces longs rest) := by
  have returned : ∀ pieces, Accepts format pieces → ∃ bound, ∀ fuel, bound ≤ fuel →
      Returns (kprintv recorder (stringConstant format) fuel) printer () (printer.after texts pieces) := by
    intro pieces accepted
    have strings := held pieces [] accepted.plain (by rw [accepted.spells, List.append_nil])
    exact returns_kprintv accepted running strings (returns_forM_recorder _ _)
  have stopped : ∀ pieces longs rest, Rejects format pieces longs rest → ∃ bound, ∀ fuel, bound ≤ fuel →
      Stops (kprintv recorder (stringConstant format) fuel) printer
        (.panic "Unknown character %c in print frormat" [((rest.headD 0).signExtend 32).setWidth 64])
        (printer.after texts pieces) := by
    intro pieces longs rest rejected
    exact stops_kprintv rejected running (held pieces _ rejected.plain rejected.spells) (returns_forM_recorder _ _)
  refine ⟨returned, stopped, ⟨?_, ?_⟩, accepts_or_rejects format⟩
  · intro always
    obtain ⟨bound, always⟩ := always
    rcases accepts_or_rejects format with accepted | ⟨pieces, longs, rest, rejected⟩
    · exact accepted
    · obtain ⟨late, stops⟩ := stopped pieces longs rest rejected
      obtain ⟨after, found⟩ := always (max bound late) (by omega)
      exact absurd (stops (max bound late) (by omega)) found.not_stops
  · intro accepted
    obtain ⟨pieces, accepted⟩ := accepted
    obtain ⟨bound, found⟩ := returned pieces accepted
    exact ⟨bound, fun fuel enough => ⟨_, found fuel enough⟩⟩

/-- Strings are held where every slot points to its text. -/
theorem stringsHeld_of_all {memory : Memory} {va : Nat → BitVec 64} {texts : Nat → List (BitVec 8)}
    (all : ∀ slot, Spells (pointerTo memory (va slot)) (texts slot)) (pieces : List Piece) :
    ∀ taken, StringsHeld memory va texts pieces taken := by
  induction pieces with
  | nil => exact fun _ => trivial
  | cons piece pieces ih => exact fun taken => ⟨fun _ => all taken, ih _⟩

/-- Every pointer of this printer points to `aa`. -/
def samplePrinter : Printer (List (BitVec 8)) where
  memory i := if i % 4 = 2 then 0 else char 'a'
  va _ := 8
  taken := []
  world := []

theorem samplePrinter_spells (slot : Nat) :
    Spells (pointerTo samplePrinter.memory (samplePrinter.va slot)) [char 'a', char 'a'] where
  character i inside := by
    have few : i = 0 ∨ i = 1 := by
      simp at inside
      omega
    rcases few with rfl | rfl <;> simp [pointerTo, samplePrinter]
  terminator := by simp [pointerTo, samplePrinter]
  running := by decide

/-- The format `%s\n%lx` prints its two arguments. -/
theorem kprintv_exact_sample : ∃ bound, ∀ fuel, bound ≤ fuel →
    Returns (kprintv recorder (stringConstant [char '%', char 's', char '\n', char '%', char 'l', char 'x']) fuel)
      samplePrinter () { samplePrinter with
        taken := [64, 64]
        world := [char 'a', char 'a', char '\r', char '\n', char '8'] } :=
  (kprintv_exact [char '%', char 's', char '\n', char '%', char 'l', char 'x'] (by decide) samplePrinter
    (fun _ => [char 'a', char 'a']) (fun pieces _ _ _ => stringsHeld_of_all samplePrinter_spells pieces _)).1
    [.escape 0 .s, .literal (char '\n'), .escape 1 .x] ⟨by simp [Piece.Plain, char], by decide⟩

/-- An escape shows its argument as the canonical numeral of a value, behind a lead. -/
def ShowsArgument (slot : BitVec 64) (longs : Nat) (conversion : Conversion) (lead : List (BitVec 8))
    (base value : Nat) : Prop :=
  ∃ text, IsNumeral base value text ∧ ∃ bound, ∀ fuel, bound ≤ fuel →
    Returns (kprintv recorder (stringConstant (Piece.escape longs conversion).spelling) fuel)
      ⟨fun _ => 0, fun _ => slot, [], []⟩ () ⟨fun _ => 0, fun _ => slot, [conversion.width longs], lead ++ text⟩

/-- An escape of a number shows it exactly when the sixteen iterations cover it. -/
theorem showsArgument_iff (slot : BitVec 64) (longs : Nat) {conversion : Conversion} (lead : List (BitVec 8))
    {base : Nat} (large : 1 < base) (small : base ≤ 16) (number : conversion ≠ .s)
    (shape : (conversion.calls (slot.toNat % 2 ^ conversion.width longs) []).flatten =
      lead ++ numberText base (slot.toNat % 2 ^ conversion.width longs)) :
    ShowsArgument slot longs conversion lead base (slot.toNat % 2 ^ conversion.width longs) ↔
      slot.toNat % 2 ^ conversion.width longs < base ^ 16 := by
  have accepted : Accepts (Piece.escape longs conversion).spelling [.escape longs conversion] :=
    ⟨by simp [Piece.Plain], by simp [spelled]⟩
  have running : ∀ c ∈ (Piece.escape longs conversion).spelling, c ≠ 0 := by
    intro c member
    simp only [Piece.spelling, List.mem_cons, List.mem_append, List.mem_replicate, List.not_mem_nil, or_false] at member
    rcases member with rfl | ⟨_, rfl⟩ | rfl
    · decide
    · decide
    · cases conversion <;> decide
  let printer : Printer (List (BitVec 8)) := ⟨fun _ => 0, fun _ => slot, [], []⟩
  have held : StringsHeld printer.memory printer.va (fun _ => []) [.escape longs conversion] printer.taken.length :=
    ⟨fun string => absurd string number, trivial⟩
  obtain ⟨bound, printed⟩ := returns_kprintv accepted running held (returns_forM_recorder _ _)
  have calls : (callsFrom printer.va (fun _ => []) [.escape longs conversion] printer.taken.length).flatten =
      lead ++ numberText base (slot.toNat % 2 ^ conversion.width longs) := by
    rw [← shape]
    simp [callsFrom, Piece.calls, printer]
  rw [calls] at printed
  rw [← isNumeral_numberText_iff large small]
  constructor
  · intro shows
    obtain ⟨text, numeral, late, found⟩ := shows
    have same := (printed (max bound late) (by omega)).unique (found (max bound late) (by omega))
    have world : lead ++ numberText base (slot.toNat % 2 ^ conversion.width longs) = lead ++ text :=
      congrArg Printer.world same.2
    rwa [List.append_cancel_left world]
  · exact fun numeral => ⟨_, numeral, bound, printed⟩

/-- Numbers print exactly up to the sixteenth power of the base, so only `%lu` can lose information. -/
theorem print_unsigned_exact (slot : BitVec 64) :
    (PrintsExactly slot 10 ↔ slot.toNat < 10 ^ 16) ∧ PrintsExactly slot 16 ∧
      (ShowsArgument slot 1 .u [] 10 slot.toNat ↔ slot.toNat < 10 ^ 16) ∧
      ShowsArgument slot 0 .u [] 10 (slot.toNat % 2 ^ 32) ∧ ShowsArgument slot 0 .x [] 16 (slot.toNat % 2 ^ 32) ∧
      ShowsArgument slot 1 .x [] 16 slot.toNat ∧ ShowsArgument slot 0 .p [char '0', char 'x'] 16 slot.toNat := by
  have bound := slot.isLt
  have whole : slot.toNat % 2 ^ 64 = slot.toNat := Nat.mod_eq_of_lt bound
  have half : slot.toNat % 2 ^ 32 < 2 ^ 32 := Nat.mod_lt _ (by decide)
  have wide : ∀ (conversion : Conversion) (longs : Nat) (lead : List (BitVec 8)) (base : Nat),
      conversion.width longs = 64 → conversion ≠ .s → 1 < base → base ≤ 16 →
      (conversion.calls slot.toNat []).flatten = lead ++ numberText base slot.toNat →
      (ShowsArgument slot longs conversion lead base slot.toNat ↔ slot.toNat < base ^ 16) := by
    intro conversion longs lead base width number large small shape
    have shows := showsArgument_iff slot longs lead large small number
    rw [width, whole] at shows
    exact shows shape
  refine ⟨printsExactly_iff slot (by decide) (by decide), ?_, ?_, ?_, ?_, ?_, ?_⟩
  · exact (printsExactly_iff slot (by decide) (by decide)).mpr (lt_of_lt_of_le bound (by decide))
  · exact wide .u 1 [] 10 rfl (by decide) (by decide) (by decide) (by simp [Conversion.calls])
  · exact (showsArgument_iff slot 0 [] (by decide) (by decide) (by decide)
      (by simp [Conversion.calls])).mpr (lt_of_lt_of_le half (by decide))
  · exact (showsArgument_iff slot 0 [] (by decide) (by decide) (by decide)
      (by simp [Conversion.calls])).mpr (lt_of_lt_of_le half (by decide))
  · exact (wide .x 1 [] 16 rfl (by decide) (by decide) (by decide)
      (by simp [Conversion.calls])).mpr (lt_of_lt_of_le bound (by decide))
  · exact (wide .p 0 _ 16 rfl (by decide) (by decide) (by decide)
      (by simp [Conversion.calls])).mpr (lt_of_lt_of_le bound (by decide))

/-- The sixteen iterations do not reach the first digit of ten to the sixteenth power. -/
theorem not_printsExactly_large : ¬ PrintsExactly (BitVec.ofNat 64 (10 ^ 16)) 10 := by
  intro prints
  exact absurd ((printsExactly_iff _ (by decide) (by decide)).mp prints) (by decide)

end UmbralOS
