import UmbralOS.Kernel.Cpu
import UmbralOS.Kernel.Intel

/-!
This file gives the descriptor tables of `gdt.c` and `interrupt.c`, and how the processor reads them.
-/

namespace UmbralOS

open Library

def makeDesriptor (idx pl : BitVec 16) : BitVec 16 := idx <<< 3 ||| pl

def dtSysTypeTss64Avail : BitVec 4 := 0x9#4
def dtSysTypeTss64Busy : BitVec 4 := 0xB#4
def dtSysTypeIntr64 : BitVec 4 := 0xE#4

def gdtIdxNull : BitVec 16 := 0#16
def gdtIdxCode64 : BitVec 16 := 1#16
def gdtIdxTss : BitVec 16 := 3#16
def gdtIdxMax : Nat := 5

def idtIdxMax : Nat := 0xFF

def plKernel : BitVec 16 := 0#16

/-- The operand of `lgdt` and `lidt`. -/
structure Dtr where
  limit : BitVec 16
  addr : Pointer
  deriving DecidableEq

structure GdtSegmentDescriptor where
  limitLow : BitVec 16
  baseLow : BitVec 24
  a : Bool
  rw : Bool
  dc : Bool
  e : Bool
  s : Bool
  dpl : BitVec 2
  p : Bool
  limitHigh : BitVec 4
  avl : Bool
  l : Bool
  db : Bool
  g : Bool
  baseHigh : BitVec 8
  deriving DecidableEq

structure GdtSystemDescriptorLow where
  limitLow : BitVec 16
  baseLow : BitVec 24
  type : BitVec 4
  s : Bool
  dpl : BitVec 2
  p : Bool
  limitHigh : BitVec 4
  avl : Bool
  reserved : BitVec 2
  g : Bool
  baseHigh : BitVec 8
  deriving DecidableEq

structure GdtSystemDescriptorHigh where
  baseVeryhigh : BitVec 32
  reserved : BitVec 32
  deriving DecidableEq

/-- The field of the high part of the offset lies in both words of the entry. -/
structure IdtEntry where
  offsetLow : BitVec 16
  segmentSelector : BitVec 16
  ist : BitVec 3
  reserved0 : BitVec 5
  type : BitVec 4
  reserved1 : Bool
  dpl : BitVec 2
  p : Bool
  offsetHigh : BitVec 48
  reserved2 : BitVec 32
  deriving DecidableEq

def GdtSegmentDescriptor.toWord (entry : GdtSegmentDescriptor) : BitVec 64 :=
  bitField entry.limitLow 0 ||| bitField entry.baseLow 16 ||| bitField (.ofBool entry.a) 40 |||
    bitField (.ofBool entry.rw) 41 ||| bitField (.ofBool entry.dc) 42 ||| bitField (.ofBool entry.e) 43 |||
    bitField (.ofBool entry.s) 44 ||| bitField entry.dpl 45 ||| bitField (.ofBool entry.p) 47 |||
    bitField entry.limitHigh 48 ||| bitField (.ofBool entry.avl) 52 ||| bitField (.ofBool entry.l) 53 |||
    bitField (.ofBool entry.db) 54 ||| bitField (.ofBool entry.g) 55 ||| bitField entry.baseHigh 56

def GdtSegmentDescriptor.ofWord (word : BitVec 64) : GdtSegmentDescriptor where
  limitLow := word.extractLsb' 0 16
  baseLow := word.extractLsb' 16 24
  a := word.getLsbD 40
  rw := word.getLsbD 41
  dc := word.getLsbD 42
  e := word.getLsbD 43
  s := word.getLsbD 44
  dpl := word.extractLsb' 45 2
  p := word.getLsbD 47
  limitHigh := word.extractLsb' 48 4
  avl := word.getLsbD 52
  l := word.getLsbD 53
  db := word.getLsbD 54
  g := word.getLsbD 55
  baseHigh := word.extractLsb' 56 8

@[simp] theorem GdtSegmentDescriptor.ofWord_toWord (entry : GdtSegmentDescriptor) : ofWord entry.toWord = entry := by
  cases entry
  simp (disch := decide) only [ofWord, toWord, BitVec.getLsbD_or, BitVec.extractLsb'_or, extract_bitField,
    extract_bitField_apart, get_bitField, get_bitField_apart, Bool.or_false, Bool.false_or, BitVec.or_zero,
    BitVec.zero_or]

namespace GdtSystemDescriptorLow

def toWord (entry : GdtSystemDescriptorLow) : BitVec 64 :=
  bitField entry.limitLow 0 ||| bitField entry.baseLow 16 ||| bitField entry.type 40 |||
    bitField (.ofBool entry.s) 44 ||| bitField entry.dpl 45 ||| bitField (.ofBool entry.p) 47 |||
    bitField entry.limitHigh 48 ||| bitField (.ofBool entry.avl) 52 ||| bitField entry.reserved 53 |||
    bitField (.ofBool entry.g) 55 ||| bitField entry.baseHigh 56

def ofWord (word : BitVec 64) : GdtSystemDescriptorLow where
  limitLow := word.extractLsb' 0 16
  baseLow := word.extractLsb' 16 24
  type := word.extractLsb' 40 4
  s := word.getLsbD 44
  dpl := word.extractLsb' 45 2
  p := word.getLsbD 47
  limitHigh := word.extractLsb' 48 4
  avl := word.getLsbD 52
  reserved := word.extractLsb' 53 2
  g := word.getLsbD 55
  baseHigh := word.extractLsb' 56 8

@[simp] theorem ofWord_toWord (entry : GdtSystemDescriptorLow) : ofWord entry.toWord = entry := by
  cases entry
  simp (disch := decide) only [ofWord, toWord, BitVec.getLsbD_or, BitVec.extractLsb'_or, extract_bitField,
    extract_bitField_apart, get_bitField, get_bitField_apart, Bool.or_false, Bool.false_or, BitVec.or_zero,
    BitVec.zero_or]

end GdtSystemDescriptorLow

namespace GdtSystemDescriptorHigh

def toWord (entry : GdtSystemDescriptorHigh) : BitVec 64 := bitField entry.baseVeryhigh 0 ||| bitField entry.reserved 32

def ofWord (word : BitVec 64) : GdtSystemDescriptorHigh where
  baseVeryhigh := word.extractLsb' 0 32
  reserved := word.extractLsb' 32 32

@[simp] theorem ofWord_toWord (entry : GdtSystemDescriptorHigh) : ofWord entry.toWord = entry := by
  cases entry
  simp (disch := decide) only [ofWord, toWord, BitVec.extractLsb'_or, extract_bitField, extract_bitField_apart,
    BitVec.or_zero, BitVec.zero_or]

end GdtSystemDescriptorHigh

namespace IdtEntry

def lowWord (entry : IdtEntry) : BitVec 64 :=
  bitField entry.offsetLow 0 ||| bitField entry.segmentSelector 16 ||| bitField entry.ist 32 |||
    bitField entry.reserved0 35 ||| bitField entry.type 40 ||| bitField (.ofBool entry.reserved1) 44 |||
    bitField entry.dpl 45 ||| bitField (.ofBool entry.p) 47 ||| bitField (entry.offsetHigh.extractLsb' 0 16) 48

def highWord (entry : IdtEntry) : BitVec 64 :=
  bitField (entry.offsetHigh.extractLsb' 16 32) 0 ||| bitField entry.reserved2 32

def ofWords (low high : BitVec 64) : IdtEntry where
  offsetLow := low.extractLsb' 0 16
  segmentSelector := low.extractLsb' 16 16
  ist := low.extractLsb' 32 3
  reserved0 := low.extractLsb' 35 5
  type := low.extractLsb' 40 4
  reserved1 := low.getLsbD 44
  dpl := low.extractLsb' 45 2
  p := low.getLsbD 47
  offsetHigh := (high.extractLsb' 0 32).setWidth 48 <<< 16 ||| (low.extractLsb' 48 16).setWidth 48
  reserved2 := high.extractLsb' 32 32

@[simp] theorem ofWords_words (entry : IdtEntry) : ofWords entry.lowWord entry.highWord = entry := by
  have halves : (entry.offsetHigh.extractLsb' 16 32).setWidth 48 <<< 16 |||
      (entry.offsetHigh.extractLsb' 0 16).setWidth 48 = entry.offsetHigh := by
    apply BitVec.eq_of_getLsbD_eq
    intro bit inside
    by_cases low : bit < 16
    · simp [inside, low]
    · simp [inside, low, show bit - 16 < 32 by omega, show 16 + (bit - 16) = bit by omega]
  cases entry
  simp (disch := decide) only [ofWords, lowWord, highWord, BitVec.getLsbD_or, BitVec.extractLsb'_or, extract_bitField,
    extract_bitField_apart, get_bitField, get_bitField_apart, Bool.or_false, Bool.false_or, BitVec.or_zero,
    BitVec.zero_or]
  simpa using halves

end IdtEntry

/-- The size of `struct tss`, which is packed. -/
def sizeofTss : BitVec 32 := 104#32

def gdtCode64 : GdtSegmentDescriptor where
  limitLow := 0
  baseLow := 0
  a := true
  rw := true
  dc := false
  e := true
  s := true
  dpl := plKernel.setWidth 2
  p := true
  limitHigh := 0
  avl := false
  l := true
  db := false
  g := true
  baseHigh := 0

def gdtData64 : GdtSegmentDescriptor := { gdtCode64 with e := false, l := false, db := true }

def gdtTssLow : GdtSystemDescriptorLow where
  limitLow := ((sizeofTss - 1) &&& 0xFFFF).setWidth 16
  baseLow := 0
  type := dtSysTypeTss64Avail
  s := false
  dpl := plKernel.setWidth 2
  p := true
  limitHigh := (((sizeofTss - 1) >>> 16) &&& 0xF).setWidth 4
  avl := false
  reserved := 0
  g := false
  baseHigh := 0

def gdtTssHigh : GdtSystemDescriptorHigh := ⟨0, 0⟩

/-- The words of the array `GDT`. -/
def gdtInitial : List (BitVec 64) :=
  [0, gdtCode64.toWord, gdtData64.toWord, gdtTssLow.toWord, gdtTssHigh.toWord]

/-- Each entry of the array `IDT`. -/
def idtInitial : IdtEntry where
  offsetLow := 0
  segmentSelector := makeDesriptor gdtIdxCode64 plKernel
  ist := 0
  reserved0 := 0
  type := dtSysTypeIntr64
  reserved1 := false
  dpl := 0
  p := true
  offsetHigh := 0
  reserved2 := 0

/-- The part of a task state segment's descriptor that `ltr` loads. -/
structure LoadedTss where
  selector : BitVec 16
  base : Pointer
  limit : BitVec 20
  deriving DecidableEq

structure Segments where
  memory : Memory
  gdtr : Dtr
  idtr : Dtr
  ldtr : BitVec 16
  tr : Option LoadedTss
  cs : BitVec 16
  ss : BitVec 16
  dataSegments : List (BitVec 16)

namespace Segments

def word (segments : Segments) (address : Nat) : BitVec 64 := BitVec.ofNat 64 (segments.memory.load address 8)

def setWord (segments : Segments) (address : Nat) (value : BitVec 64) : Segments :=
  { segments with memory := segments.memory.store address 8 value.toNat }

/-- The upper bits of a selector are an index of the table. -/
def descriptorAddress (segments : Segments) (selector : BitVec 16) : Nat :=
  segments.gdtr.addr.toNat + 8 * (selector >>> 3).toNat

/-- The selector chooses a present 64-bit code segment of the kernel. -/
def IsKernelCode (segments : Segments) (selector : BitVec 16) : Prop :=
  let entry := GdtSegmentDescriptor.ofWord (segments.word (segments.descriptorAddress selector))
  selector >>> 3 ≠ 0 ∧ 8 * (selector >>> 3).toNat + 7 ≤ segments.gdtr.limit.toNat ∧ entry.p = true ∧ entry.s = true ∧
    entry.e = true ∧ entry.dc = false ∧ entry.l = true ∧ entry.db = false ∧ entry.dpl = 0

instance (segments : Segments) (selector : BitVec 16) : Decidable (segments.IsKernelCode selector) :=
  inferInstanceAs (Decidable (_ ∧ _))

/-- The base of a task state segment lies in three fields. -/
def tssBase (low : GdtSystemDescriptorLow) (high : GdtSystemDescriptorHigh) : Pointer :=
  low.baseLow.setWidth 64 ||| low.baseHigh.setWidth 64 <<< 24 ||| high.baseVeryhigh.setWidth 64 <<< 32

/-- `ltr` loads an available task state segment, and it marks the segment busy. -/
def ltr (selector : BitVec 16) (segments : Segments) : Option Segments :=
  let address := segments.descriptorAddress selector
  let low := GdtSystemDescriptorLow.ofWord (segments.word address)
  let high := GdtSystemDescriptorHigh.ofWord (segments.word (address + 8))
  if 8 * (selector >>> 3).toNat + 15 ≤ segments.gdtr.limit.toNat ∧ low.p = true ∧ low.s = false ∧
      low.type = dtSysTypeTss64Avail then
    some { segments.setWord address { low with type := dtSysTypeTss64Busy }.toWord with
      tr := some ⟨selector, tssBase low high, (low.limitHigh.setWidth 20 <<< 16) ||| low.limitLow.setWidth 20⟩ }
  else none

/-- The far return of `flush_gdt` needs a code segment. A null selector is valid for the data segments. -/
def flushGdt (cs ds : BitVec 16) (segments : Segments) : Option Segments :=
  if segments.IsKernelCode cs ∧ ds = 0 then
    some { segments with cs := cs, ss := ds, dataSegments := [ds, ds, ds, ds] }
  else none

end Segments

/-- The addresses of the static arrays and of the stubs. -/
structure TablePlaces where
  gdt : Pointer
  tss : Pointer
  idt : Pointer
  stubs : BitVec 8 → Pointer

/-- The three writes of `load_gdt` to the entry of the task state segment. -/
def setTssBase (places : TablePlaces) (segments : Segments) : Segments :=
  let low := places.gdt.toNat + 8 * 3
  let high := places.gdt.toNat + 8 * 4
  let segments := segments.setWord low
    { GdtSystemDescriptorLow.ofWord (segments.word low) with baseLow := places.tss.setWidth 24 }.toWord
  let segments := segments.setWord low
    { GdtSystemDescriptorLow.ofWord (segments.word low) with baseHigh := (places.tss >>> 24).setWidth 8 }.toWord
  segments.setWord high
    { GdtSystemDescriptorHigh.ofWord (segments.word high) with baseVeryhigh := (places.tss >>> 32).setWidth 32 }.toWord

def loadGdt (places : TablePlaces) (segments : Segments) : Option Segments := do
  let segments := setTssBase places segments
  let segments := { segments with
    gdtr := ⟨BitVec.ofNat 16 (8 * gdtIdxMax - 1), places.gdt⟩, ldtr := makeDesriptor gdtIdxNull plKernel }
  let segments ← segments.ltr (makeDesriptor gdtIdxTss plKernel)
  segments.flushGdt (makeDesriptor gdtIdxCode64 plKernel) (makeDesriptor gdtIdxNull plKernel)

/-- The two writes of `load_idt` to an entry. -/
def IdtEntry.setOffset (entry : IdtEntry) (stub : Pointer) : IdtEntry :=
  { entry with offsetLow := stub.setWidth 16, offsetHigh := (stub >>> 16).setWidth 48 }

/-- The entry at an address. -/
def Segments.idtEntry (segments : Segments) (address : Nat) : IdtEntry :=
  .ofWords (segments.word address) (segments.word (address + 8))

def loadIdtEntry (places : TablePlaces) (segments : Segments) (x : Nat) : Segments :=
  let address := places.idt.toNat + 16 * x
  let entry := (segments.idtEntry address).setOffset (places.stubs (BitVec.ofNat 8 x))
  (segments.setWord address entry.lowWord).setWord (address + 8) entry.highWord

def loadIdt (places : TablePlaces) (segments : Segments) : Segments :=
  { (List.range (idtIdxMax + 1)).foldl (loadIdtEntry places) segments with
    idtr := ⟨BitVec.ofNat 16 (16 * (idtIdxMax + 1) - 1), places.idt⟩ }

def rflagsTf : Nat := 8
def rflagsIf : Nat := 9
def rflagsNt : Nat := 14
def rflagsRf : Nat := 16

/-- An interrupt gate disables the interrupts, and it ends single steps, nested tasks and resumes. -/
def gateFlags (rflags : BitVec 64) : BitVec 64 :=
  rflags &&& ~~~(1#64 <<< rflagsTf ||| 1#64 <<< rflagsIf ||| 1#64 <<< rflagsNt ||| 1#64 <<< rflagsRf)

/-- The processor finds a present interrupt gate without a stack of its own, and the gate leads to a canonical address in a
code segment of the kernel. Any other entry faults. -/
def Segments.gate (segments : Segments) (vector : BitVec 8) (rflags : BitVec 64) : Option Gate :=
  let entry := segments.idtEntry (segments.idtr.addr.toNat + 16 * vector.toNat)
  let offset := entry.offsetLow.setWidth 64 ||| entry.offsetHigh.setWidth 64 <<< 16
  if 16 * vector.toNat + 15 ≤ segments.idtr.limit.toNat ∧ entry.p = true ∧ entry.reserved1 = false ∧
      entry.type = dtSysTypeIntr64 ∧ entry.ist = 0 ∧ segments.IsKernelCode entry.segmentSelector ∧ Canonical offset then
    some ⟨offset, entry.segmentSelector, segments.ss, gateFlags rflags⟩
  else none

end UmbralOS
