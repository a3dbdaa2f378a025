import UmbralOS.Kernel.Common
import UmbralOS.Library.PathTree

/-!
This file gives the processor structures of `intel.h` and the page walk of the processor.
-/

namespace UmbralOS

open Library

def cpuid1EdxPat : BitVec 64 := 1#64 <<< 16

def msrIa32Pat : BitVec 32 := 0x277#32

/-- The registers that the `cpuid` instruction returns. -/
structure CpuidResult where
  eax : BitVec 64
  ebx : BitVec 64
  ecx : BitVec 64
  edx : BitVec 64

/-- An entry of a table that selects the next table. -/
@[ext] structure PageDirectoryEntrySubdirectory where
  p : Bool
  rw : Bool
  us : Bool
  pwt : Bool
  pcd : Bool
  a : Bool
  avl0 : Bool
  ps : Bool
  avl1 : BitVec 4
  addr : BitVec 40
  avl2 : BitVec 11
  xd : Bool
  deriving DecidableEq

/-- An entry of a last-level table. -/
@[ext] structure PageTableEntry where
  p : Bool
  rw : Bool
  us : Bool
  pwt : Bool
  pcd : Bool
  a : Bool
  d : Bool
  pat : Bool
  g : Bool
  avl1 : BitVec 3
  addr : BitVec 40
  avl2 : BitVec 7
  pk : BitVec 4
  xd : Bool
  deriving DecidableEq

/-- This function places a bit field in a word. -/
def bitField {width : Nat} (value : BitVec width) (position : Nat) : BitVec 64 :=
  value.setWidth 64 <<< position

section BitField

variable {width : Nat} {position index count : Nat}

/-- A field reads back from its position. -/
theorem extract_bitField (value : BitVec width) (fits : position + width ≤ 64) :
    (bitField value position).extractLsb' position width = value := by
  apply BitVec.eq_of_getLsbD_eq
  intro bit inside
  simp [bitField, inside, show position + bit < 64 by omega]

/-- A field leaves the other positions clear. -/
theorem extract_bitField_apart (value : BitVec width) (apart : position + width ≤ index ∨ index + count ≤ position) :
    (bitField value position).extractLsb' index count = .ofNat count 0 := by
  apply BitVec.eq_of_getLsbD_eq
  intro bit inside
  by_cases below : index + bit < position
  · simp [bitField, below]
  · have outside : width ≤ index + bit - position := by omega
    simp [bitField, BitVec.getLsbD_of_ge value _ outside]

theorem get_bitField (value : Bool) (fits : position < 64) :
    (bitField (.ofBool value) position).getLsbD position = value := by
  simp [bitField, fits]

theorem get_bitField_apart (value : BitVec width) (apart : position + width ≤ index ∨ index < position) :
    (bitField value position).getLsbD index = false := by
  by_cases below : index < position
  · simp [bitField, below]
  · have outside : width ≤ index - position := by omega
    simp [bitField, BitVec.getLsbD_of_ge value _ outside]

end BitField

namespace PageDirectoryEntrySubdirectory

/-- The bit fields fill the word from its lowest bit. -/
def toWord (entry : PageDirectoryEntrySubdirectory) : BitVec 64 :=
  bitField (.ofBool entry.p) 0 ||| bitField (.ofBool entry.rw) 1 ||| bitField (.ofBool entry.us) 2 |||
    bitField (.ofBool entry.pwt) 3 ||| bitField (.ofBool entry.pcd) 4 ||| bitField (.ofBool entry.a) 5 |||
    bitField (.ofBool entry.avl0) 6 ||| bitField (.ofBool entry.ps) 7 ||| bitField entry.avl1 8 |||
    bitField entry.addr 12 ||| bitField entry.avl2 52 ||| bitField (.ofBool entry.xd) 63

def ofWord (word : BitVec 64) : PageDirectoryEntrySubdirectory where
  p := word.getLsbD 0
  rw := word.getLsbD 1
  us := word.getLsbD 2
  pwt := word.getLsbD 3
  pcd := word.getLsbD 4
  a := word.getLsbD 5
  avl0 := word.getLsbD 6
  ps := word.getLsbD 7
  avl1 := word.extractLsb' 8 4
  addr := word.extractLsb' 12 40
  avl2 := word.extractLsb' 52 11
  xd := word.getLsbD 63

/-- A stored entry reads back with every field. -/
@[simp] theorem ofWord_toWord (entry : PageDirectoryEntrySubdirectory) : ofWord entry.toWord = entry := by
  cases entry
  simp (disch := decide) only [ofWord, toWord, BitVec.getLsbD_or, BitVec.extractLsb'_or, extract_bitField,
    extract_bitField_apart, get_bitField, get_bitField_apart, Bool.or_false, Bool.false_or, BitVec.or_zero,
    BitVec.zero_or]

end PageDirectoryEntrySubdirectory

namespace PageTableEntry

/-- The bit fields fill the word from its lowest bit. -/
def toWord (entry : PageTableEntry) : BitVec 64 :=
  bitField (.ofBool entry.p) 0 ||| bitField (.ofBool entry.rw) 1 ||| bitField (.ofBool entry.us) 2 |||
    bitField (.ofBool entry.pwt) 3 ||| bitField (.ofBool entry.pcd) 4 ||| bitField (.ofBool entry.a) 5 |||
    bitField (.ofBool entry.d) 6 ||| bitField (.ofBool entry.pat) 7 ||| bitField (.ofBool entry.g) 8 |||
    bitField entry.avl1 9 ||| bitField entry.addr 12 ||| bitField entry.avl2 52 |||
    bitField entry.pk 59 ||| bitField (.ofBool entry.xd) 63

def ofWord (word : BitVec 64) : PageTableEntry where
  p := word.getLsbD 0
  rw := word.getLsbD 1
  us := word.getLsbD 2
  pwt := word.getLsbD 3
  pcd := word.getLsbD 4
  a := word.getLsbD 5
  d := word.getLsbD 6
  pat := word.getLsbD 7
  g := word.getLsbD 8
  avl1 := word.extractLsb' 9 3
  addr := word.extractLsb' 12 40
  avl2 := word.extractLsb' 52 7
  pk := word.extractLsb' 59 4
  xd := word.getLsbD 63

/-- A stored entry reads back with every field. -/
@[simp] theorem ofWord_toWord (entry : PageTableEntry) : ofWord entry.toWord = entry := by
  cases entry
  simp (disch := decide) only [ofWord, toWord, BitVec.getLsbD_or, BitVec.extractLsb'_or, extract_bitField,
    extract_bitField_apart, get_bitField, get_bitField_apart, Bool.or_false, Bool.false_or, BitVec.or_zero,
    BitVec.zero_or]

end PageTableEntry

/-- This function reads one entry of the table in the given physical page. -/
def tableWord (memory : Memory) (table : Nat) (index : Fin 512) : BitVec 64 :=
  BitVec.ofNat 64 (memory.load (table * 0x1000 + index * 8) 8)

/-- A present directory entry selects the next table. A large page selects none. -/
def tableChild (memory : Memory) (table : Nat) (index : Fin 512) : Option Nat :=
  let entry := PageDirectoryEntrySubdirectory.ofWord (tableWord memory table index)
  if entry.p && !entry.ps then some entry.addr.toNat else none

/-- Nine bits of an address select the entry at each level. -/
def walkIndex (level : Nat) (virt : Pointer) : Fin 512 :=
  ⟨virt.toNat / 2 ^ (12 + 9 * level) % 512, Nat.mod_lt _ (by decide)⟩

/-- The first three levels of the walk select the last table. -/
def walkPath (virt : Pointer) : List (Fin 512) := [walkIndex 3 virt, walkIndex 2 virt, walkIndex 1 virt]

/-- The processor walks four levels from the root table to a present leaf. -/
def walk (memory : Memory) (root : Nat) (virt : Pointer) : Option PageTableEntry :=
  (PathTree.resolve (tableChild memory) root (walkPath virt)).bind fun table =>
    let entry := PageTableEntry.ofWord (tableWord memory table (walkIndex 0 virt))
    if entry.p then some entry else none

/-- A canonical address repeats its bit 47 in every higher bit. -/
def Canonical (virt : Pointer) : Prop := virt.toNat < 2 ^ 47 ∨ 2 ^ 64 - 2 ^ 47 ≤ virt.toNat

instance (virt : Pointer) : Decidable (Canonical virt) := inferInstanceAs (Decidable (_ ∨ _))

/-- The three index bits of a leaf select one byte of the attribute table. -/
def patLookup (pat : BitVec 64) (entry : PageTableEntry) : BitVec 8 :=
  let index := entry.pat.toNat * 4 + entry.pcd.toNat * 2 + entry.pwt.toNat
  pat.extractLsb' (8 * index) 8

end UmbralOS
