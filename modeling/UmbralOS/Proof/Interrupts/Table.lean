import UmbralOS.Library.Records
import UmbralOS.Kernel.Madt

/-!
This file reduces the walk over a well-formed table to a loop over its records.
-/

namespace UmbralOS

open Library Library.Memory

/-- The size of the packed struct of each record type. The walk reads only the header of a processor record. -/
def madtStructSize (type : BitVec 8) : Nat :=
  match type.toNat with
  | 1 => 12
  | 2 => 10
  | 3 => 8
  | 4 => 6
  | _ => 2

/-- A record of a known type whose length byte counts its own bytes, and that is at least as long as its struct. -/
structure MadtChunk where
  bytes : List (BitVec 8)
  known : (bytes.getD 0 0).toNat ≤ 4
  counted : (bytes.getD 1 0).toNat = bytes.length
  covers : madtStructSize (bytes.getD 0 0) ≤ bytes.length

namespace MadtChunk

def record (chunk : MadtChunk) : MadtRecord := madtRecord (ofList chunk.bytes) 0

theorem two_le (chunk : MadtChunk) : 2 ≤ chunk.bytes.length := by
  have covers := chunk.covers
  unfold madtStructSize at covers
  split at covers <;> omega

/-- The bytes of a sequence of records. -/
def flatten (chunks : List MadtChunk) : List (BitVec 8) := chunks.flatMap bytes

theorem flatten_cons (chunk : MadtChunk) (chunks : List MadtChunk) :
    flatten (chunk :: chunks) = chunk.bytes ++ flatten chunks := List.flatMap_cons

end MadtChunk

/-- The records cover the bytes of the table exactly, in this order. -/
structure Madt.TiledBy (pMADT : Madt) (chunks : List MadtChunk) : Prop where
  length : pMADT.length.toNat = (MadtChunk.flatten chunks).length + offsetofRecords
  holds : pMADT.records.Holds 0 (MadtChunk.flatten chunks)

/-- The table with these records in this order. -/
def Madt.ofChunks (flags : BitVec 32) (chunks : List MadtChunk) : Madt where
  length := BitVec.ofNat 32 ((MadtChunk.flatten chunks).length + offsetofRecords)
  flags := flags
  records := ofList (MadtChunk.flatten chunks)

theorem tiledBy_ofChunks (flags : BitVec 32) {chunks : List MadtChunk}
    (small : (MadtChunk.flatten chunks).length + offsetofRecords < 2 ^ 32) :
    (Madt.ofChunks flags chunks).TiledBy chunks := by
  constructor
  · rw [Madt.ofChunks, BitVec.toNat_ofNat, Nat.mod_eq_of_lt small]
  · exact holds_ofList _

/-- The record at an offset depends only on the bytes of the record. -/
theorem madtRecord_eq {records : Memory} {offset : Nat} {chunk : MadtChunk} (held : records.Holds offset chunk.bytes) :
    madtRecord records offset = chunk.record := by
  have known := chunk.known
  have covers := chunk.covers
  have long := chunk.two_le
  have at0 : records offset = chunk.bytes.getD 0 0 := held 0 (by omega)
  have byte : ∀ index, index < chunk.bytes.length → records (offset + index) = ofList chunk.bytes index :=
    fun index inside => held index inside
  have field : ∀ index width, index + width ≤ chunk.bytes.length →
      readField records (offset + index) width = readField (ofList chunk.bytes) index width := by
    intro index width inside
    rw [readField, readField, held.load inside]
  unfold MadtChunk.record madtRecord
  rw [at0, show ofList chunk.bytes 0 = chunk.bytes.getD 0 0 from rfl]
  generalize chunk.bytes.getD 0 0 = type at known covers
  have cases : type = 0#8 ∨ type = 1#8 ∨ type = 2#8 ∨ type = 3#8 ∨ type = 4#8 := by
    simp only [← BitVec.toNat_inj, BitVec.toNat_ofNat]
    omega
  rcases cases with rfl | rfl | rfl | rfl | rfl
  · rfl
  · have size : 12 ≤ chunk.bytes.length := covers
    change MadtRecord.ioapic ⟨readField records (offset + 4) 4, readField records (offset + 8) 4⟩ = _
    rw [field 4 4 (by omega), field 8 4 (by omega)]
    rfl
  · have size : 10 ≤ chunk.bytes.length := covers
    change MadtRecord.sourceOverride ⟨records (offset + 2), records (offset + 3), readField records (offset + 4) 4,
      readField records (offset + 8) 2⟩ = _
    rw [byte 2 (by omega), byte 3 (by omega), field 4 4 (by omega), field 8 2 (by omega)]
    rfl
  · have size : 8 ≤ chunk.bytes.length := covers
    change MadtRecord.nmiSource ⟨readField records (offset + 2) 2, readField records (offset + 4) 4⟩ = _
    rw [field 2 2 (by omega), field 4 4 (by omega)]
    rfl
  · have size : 6 ≤ chunk.bytes.length := covers
    change MadtRecord.localApicNmi ⟨records (offset + 2), readField records (offset + 3) 2, records (offset + 5)⟩ = _
    rw [byte 2 (by omega), field 3 2 (by omega), byte 5 (by omega)]
    rfl

/-- A record of a known type does not stop the walk. -/
theorem MadtChunk.record_known (chunk : MadtChunk) (type : BitVec 8) : chunk.record ≠ .unknown type := by
  have known := chunk.known
  unfold MadtChunk.record madtRecord
  rw [show ofList chunk.bytes 0 = chunk.bytes.getD 0 0 from rfl]
  generalize (chunk.bytes.getD 0 0).toNat = number at known
  have cases : number = 0 ∨ number = 1 ∨ number = 2 ∨ number = 3 ∨ number = 4 := by omega
  rcases cases with rfl | rfl | rfl | rfl | rfl <;> exact MadtRecord.noConfusion

/-- From the offset of a record, the walk handles the remaining records in their order. -/
theorem acpiWalkMadt_from {pMADT : Madt} {chunks : List MadtChunk} {fuel : Nat} {i : BitVec 32}
    (held : pMADT.records.Holds i.toNat (MadtChunk.flatten chunks))
    (last : pMADT.length.toNat = i.toNat + (MadtChunk.flatten chunks).length + offsetofRecords)
    (enough : chunks.length < fuel) :
    acpiWalkMadt pMADT fuel i = (chunks.map MadtChunk.record).forM acpiHandleMadtRecord := by
  induction chunks generalizing fuel i with
  | nil =>
      obtain ⟨fuel, rfl⟩ : ∃ rest, fuel = rest + 1 := ⟨fuel - 1, by omega⟩
      have done : ¬ i.toNat + offsetofRecords < pMADT.length.toNat := by
        rw [last, MadtChunk.flatten, List.flatMap_nil, List.length_nil]
        omega
      rw [acpiWalkMadt, if_neg done]
      rfl
  | cons chunk chunks ih =>
      obtain ⟨fuel, rfl⟩ : ∃ rest, fuel = rest + 1 := ⟨fuel - 1, by omega⟩
      have long := chunk.two_le
      have bound := pMADT.length.isLt
      rw [MadtChunk.flatten_cons, holds_append] at held
      rw [MadtChunk.flatten_cons, List.length_append] at last
      have inside : i.toNat + offsetofRecords < pMADT.length.toNat := by omega
      have size : (pMADT.records (i.toNat + 1)).toNat = chunk.bytes.length := by
        rw [held.1 1 (by omega), chunk.counted]
      -- The table is shorter than 2 ^ 32 bytes, so the offset does not wrap.
      have next : (i + (pMADT.records (i.toNat + 1)).setWidth 32).toNat = i.toNat + chunk.bytes.length := by
        rw [BitVec.toNat_add, BitVec.toNat_setWidth, size]
        have small := (pMADT.records (i.toNat + 1)).isLt
        rw [offsetofRecords] at last
        rw [Nat.mod_eq_of_lt (by omega), Nat.mod_eq_of_lt (by omega)]
      rw [acpiWalkMadt, if_pos inside, madtRecord_eq held.1, ih (by rw [next]; exact held.2) (by omega)
        (by rw [List.length_cons] at enough; omega)]
      rfl

/-- The walk over a well-formed table is a loop over its records. -/
theorem acpiParseMadt_eq {pMADT : Madt} {chunks : List MadtChunk} {fuel : Nat} (tiled : pMADT.TiledBy chunks)
    (enough : chunks.length < fuel) : acpiParseMadt fuel pMADT = (do
      acpiBeginMadt pMADT
      (chunks.map MadtChunk.record).forM acpiHandleMadtRecord) := by
  rw [acpiParseMadt, acpiWalkMadt_from tiled.holds (by rw [tiled.length]; simp) enough]

end UmbralOS
