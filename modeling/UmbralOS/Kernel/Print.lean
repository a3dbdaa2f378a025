import UmbralOS.Kernel.Common

/-!
This file gives the formatted output of `common.c`.
-/

namespace UmbralOS

open Library

/-- A character constant. -/
def char (c : Char) : BitVec 8 := BitVec.ofNat 8 c.toNat

/-- A pointer to characters gives the character at each offset, or it stops an access that is not defined. -/
abbrev CharPointer := Nat → Except Stop (BitVec 8)

/-- A string constant is its characters and a NUL. -/
def stringConstant (text : List (BitVec 8)) : CharPointer := fun i =>
  match (text ++ [0])[i]? with
  | some c => .ok c
  | none => .error (.outOfBounds i)

/-- A pointer into the memory of the kernel. -/
def pointerTo (memory : Memory) (p : Pointer) : CharPointer := fun i => .ok (memory (p.toNat + i))

/-- The loop of `strlen` from an index. -/
def strlen (str : CharPointer) : Nat → Nat → Except Stop Nat
  | 0, _ => .error .running
  | fuel + 1, i => do
      let c ← str i
      if c = 0 then pure i else strlen str fuel (i + 1)

/-- The characters that a pointer and a size give to the writer. -/
def characters (buf : CharPointer) (size : Nat) : Except Stop (List (BitVec 8)) := (List.range size).mapM buf

/-- The arguments of one call stand in 64-bit slots. The printer holds them, the memory that they point to,
the width of each argument that has been taken, and the world that the writer changes. -/
structure Printer (World : Type) where
  memory : Memory
  va : Nat → BitVec 64
  taken : List Nat
  world : World

variable {World A : Type}

abbrev PrinterProgram (World A : Type) := Program Stop (Printer World) A

/-- The writer gets the characters of one call. -/
abbrev Writer (World : Type) := List (BitVec 8) → Program Stop World Unit

/-- The writer runs on its part of the printer. -/
def liftWriter (program : Program Stop World A) : PrinterProgram World A := fun printer =>
  match program.run printer.world with
  | .ok value world => .ok value { printer with world := world }
  | .error reason world => .error reason { printer with world := world }

/-- A value or a stop in a program. -/
def demand {State : Type} (found : Except Stop A) : Program Stop State A :=
  match found with
  | .ok value => pure value
  | .error reason => throw reason

/-- This program takes the next argument at the given width. -/
def vaArg (bits : Nat) : PrinterProgram World (BitVec 64) := do
  let printer ← get
  set { printer with taken := printer.taken ++ [bits] }
  pure (BitVec.ofNat 64 ((printer.va printer.taken.length).toNat % 2 ^ bits))

section Writer

variable (gWriter : Writer World)

def printChar (c : BitVec 8) : PrinterProgram World Unit := liftWriter (gWriter [c])

def printString (str : CharPointer) (fuel : Nat) : PrinterProgram World Unit := do
  let size ← demand (strlen str fuel 0)
  let text ← demand (characters str size)
  liftWriter (gWriter text)

def numBufLen : Nat := 20

/-- The characters of `buf`. A character that has not been written is not there. -/
abbrev NumBuf := List (Option (BitVec 8))

def writeBuf (buf : NumBuf) (i : Nat) (c : BitVec 8) : Except Stop NumBuf :=
  if i < buf.length then .ok (buf.set i (some c)) else .error (.outOfBounds i)

/-- The pointer `buf + start`. -/
def bufFrom (buf : NumBuf) (start : Nat) : CharPointer := fun i =>
  match buf[start + i]? with
  | some (some c) => .ok c
  | _ => .error (.outOfBounds (start + i))

/-- The digit loop for the remaining number of iterations. -/
def printUnsignedLoop (base : BitVec 8) :
    Nat → Nat → BitVec 64 → NumBuf → Nat → Except Stop (NumBuf × Nat)
  | 0, _, _, buf, start => .ok (buf, start)
  | remaining + 1, i, value, buf, start =>
      if value = 0 then .ok (buf, start) else do
        let chIdx : BitVec 8 := (value % base.setWidth 64).setWidth 8
        let bufIdx : BitVec 8 := BitVec.ofNat 8 (numBufLen - 1) - BitVec.ofNat 8 i
        let buf ← writeBuf buf bufIdx.toNat (if chIdx < 10 then chIdx + char '0' else chIdx - 10 + char 'A')
        let start := if chIdx ≠ 0 then bufIdx.toNat else start
        printUnsignedLoop base remaining (i + 1) (value / base.setWidth 64) buf start

/-- The digits of a value in `buf`, and the start of the number. -/
def printUnsignedDigits (value : BitVec 64) (base : BitVec 8) : Except Stop (NumBuf × Nat) := do
  let buf : NumBuf := List.replicate (numBufLen + 1) none
  let buf ← writeBuf buf (numBufLen - 1) (char '0')
  let buf ← writeBuf buf numBufLen 0
  printUnsignedLoop base 16 0 value buf (numBufLen - 1)

/-- A string that leaves `buf` stops, so the search for its end takes at most the characters of `buf`. -/
def printUnsigned (value : BitVec 64) (base : BitVec 8) : PrinterProgram World Unit := do
  let (buf, start) ← demand (printUnsignedDigits value base)
  printString gWriter (bufFrom buf start) (numBufLen + 2)

/-- The escape at a cursor. It returns the cursor of the last character that it has read. -/
def printEscape (format : CharPointer) : Nat → Nat → Bool → PrinterProgram World Nat
  | 0, _, _ => throw .running
  | fuel + 1, p, isLong => do
      let c ← demand (format p)
      if c = char 'c' then do
        let value ← vaArg 32
        printChar gWriter (value.setWidth 8)
        pure p
      else if c = char 'l' then
        printEscape format fuel (p + 1) true
      else if c = char 'p' then do
        let pValue ← vaArg 64
        printString gWriter (stringConstant [char '0', char 'x']) fuel
        printUnsigned gWriter pValue 16
        pure p
      else if c = char 's' then do
        let str ← vaArg 64
        printString gWriter (pointerTo (← get).memory str) fuel
        pure p
      else if c = char 'u' then do
        let uValue ← vaArg (if isLong then 64 else 32)
        printUnsigned gWriter uValue 10
        pure p
      else if c = char 'x' then do
        let xValue ← vaArg (if isLong then 64 else 32)
        printUnsigned gWriter xValue 16
        pure p
      else throw (.panic "Unknown character %c in print frormat" [(c.signExtend 32).setWidth 64])

/-- The switch of the format loop on the character at a cursor. It returns the cursor of the last character. -/
def kprintvSwitch (format : CharPointer) (fuel p : Nat) (c : BitVec 8) : PrinterProgram World Nat :=
  if c = char '%' then printEscape gWriter format fuel (p + 1) false
  else if c = char '\n' then do
    printChar gWriter (char '\r')
    printChar gWriter (char '\n')
    pure p
  else do
    printChar gWriter c
    pure p

/-- The format loop from a cursor. -/
def kprintvFrom (format : CharPointer) : Nat → Nat → PrinterProgram World Unit
  | 0, _ => throw .running
  | fuel + 1, p => do
      let c ← demand (format p)
      if c = 0 then pure () else do
        let p ← kprintvSwitch gWriter format fuel p c
        kprintvFrom format fuel (p + 1)

def kprintv (format : CharPointer) (fuel : Nat) : PrinterProgram World Unit := kprintvFrom gWriter format fuel 0

/-- One call of `kprint` with a string constant takes its arguments from the first slot on. -/
def kprintCall (memory : Memory) (fuel : Nat) (message : String × List (BitVec 64)) : Program Stop World Unit :=
  focus (fun world => ⟨memory, fun i => message.2.getD i 0, [], world⟩) (fun printer _ => printer.world)
    (kprintv gWriter (stringConstant (message.1.toList.map char)) fuel)

end Writer

end UmbralOS
