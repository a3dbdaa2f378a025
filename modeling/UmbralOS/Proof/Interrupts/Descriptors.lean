import UmbralOS.Kernel.Descriptors

/-!
This file proves that the descriptor tables lead every interrupt to its stub.
-/

namespace UmbralOS

open Library

namespace Segments

variable {segments : Segments} {address target : Nat} {value : BitVec 64}

/-- A word reads back. -/
@[simp] theorem word_setWord_same : (segments.setWord address value).word address = value := by
  rw [word, setWord, Memory.load_store_same, Nat.mod_eq_of_lt (by simpa using value.isLt), BitVec.ofNat_toNat,
    BitVec.setWidth_eq]

/-- A write keeps the separate words. -/
theorem word_setWord_separate (separate : target + 8 ≤ address ∨ address + 8 ≤ target) :
    (segments.setWord address value).word target = segments.word target := by
  rw [word, setWord, Memory.load_store_separate _ separate]
  rfl

end Segments

/-- The linker has placed the two tables apart from each other, and it has placed their initial contents. -/
structure TablesHeld (places : TablePlaces) (segments : Segments) : Prop where
  gdt : ∀ i : Fin 5, segments.word (places.gdt.toNat + 8 * i) = gdtInitial[i]
  idt : ∀ x < 256, segments.idtEntry (places.idt.toNat + 16 * x) = idtInitial
  apart : places.idt.toNat + 4096 ≤ places.gdt.toNat ∨ places.gdt.toNat + 40 ≤ places.idt.toNat

section Offset

variable (stub : Pointer)

/-- The two fields of an entry hold the whole address. -/
theorem offset_setOffset (entry : IdtEntry) :
    (entry.setOffset stub).offsetLow.setWidth 64 ||| (entry.setOffset stub).offsetHigh.setWidth 64 <<< 16 = stub := by
  apply BitVec.eq_of_getLsbD_eq
  intro bit inside
  by_cases low : bit < 16
  · simp [IdtEntry.setOffset, low, inside]
  · simp [IdtEntry.setOffset, low, inside, show bit - 16 < 48 by omega, show 16 + (bit - 16) = bit by omega]

end Offset

/-- The three fields of the two entries hold the whole base. -/
theorem tssBase_fields (low : GdtSystemDescriptorLow) (high : GdtSystemDescriptorHigh) (tss : Pointer) :
    Segments.tssBase { low with baseLow := tss.setWidth 24, baseHigh := (tss >>> 24).setWidth 8 }
      { high with baseVeryhigh := (tss >>> 32).setWidth 32 } = tss := by
  apply BitVec.eq_of_getLsbD_eq
  intro bit inside
  by_cases first : bit < 24
  · simp [Segments.tssBase, first, inside, show bit < 32 by omega]
  · by_cases second : bit < 32
    · simp [Segments.tssBase, first, second, inside, show bit - 24 < 8 by omega, show 24 + (bit - 24) = bit by omega]
    · simp [Segments.tssBase, first, second, inside, show ¬ bit - 24 < 8 by omega, show bit - 32 < 32 by omega,
        show 32 + (bit - 32) = bit by omega]

/-- The first entries have the addresses of their stubs, and nothing else has changed. -/
structure IdtLoaded (places : TablePlaces) (segments : Segments) (count : Nat) (loaded : Segments) : Prop where
  entries : ∀ x < count, loaded.idtEntry (places.idt.toNat + 16 * x) =
    (segments.idtEntry (places.idt.toNat + 16 * x)).setOffset (places.stubs (BitVec.ofNat 8 x))
  words : ∀ target, target + 8 ≤ places.idt.toNat ∨ places.idt.toNat + 16 * count ≤ target →
    loaded.word target = segments.word target
  registers : { loaded with memory := segments.memory } = segments

section LoadIdt

variable {places : TablePlaces} {segments loaded : Segments} {count : Nat}

/-- An entry is two words. -/
theorem idtEntry_congr {first second : Segments} {address : Nat} (low : first.word address = second.word address)
    (high : first.word (address + 8) = second.word (address + 8)) : first.idtEntry address = second.idtEntry address := by
  rw [Segments.idtEntry, low, high]
  rfl

theorem loadIdtEntry_same (x : Nat) : (loadIdtEntry places segments x).idtEntry (places.idt.toNat + 16 * x) =
    (segments.idtEntry (places.idt.toNat + 16 * x)).setOffset (places.stubs (BitVec.ofNat 8 x)) := by
  rw [Segments.idtEntry, loadIdtEntry, Segments.word_setWord_same, Segments.word_setWord_separate (Or.inl le_rfl),
    Segments.word_setWord_same, IdtEntry.ofWords_words]

theorem loadIdtEntry_word {x target : Nat}
    (separate : target + 8 ≤ places.idt.toNat + 16 * x ∨ places.idt.toNat + 16 * (x + 1) ≤ target) :
    (loadIdtEntry places segments x).word target = segments.word target := by
  rw [loadIdtEntry, Segments.word_setWord_separate (by omega), Segments.word_setWord_separate (by omega)]

/-- One iteration sets one more entry. -/
theorem IdtLoaded.next (holds : IdtLoaded places segments count loaded) :
    IdtLoaded places segments (count + 1) (loadIdtEntry places loaded count) where
  entries x inside := by
    by_cases here : x = count
    · subst here
      have before : loaded.idtEntry (places.idt.toNat + 16 * x) = segments.idtEntry (places.idt.toNat + 16 * x) :=
        idtEntry_congr (holds.words _ (by omega)) (holds.words _ (by omega))
      rw [loadIdtEntry_same, before]
    · rw [← holds.entries x (by omega)]
      exact idtEntry_congr (loadIdtEntry_word (by omega)) (loadIdtEntry_word (by omega))
  words target separate := by
    rw [loadIdtEntry_word (by omega)]
    exact holds.words target (by omega)
  registers := holds.registers

theorem loadIdtEntries_loaded (places : TablePlaces) (segments : Segments) (count : Nat) :
    IdtLoaded places segments count ((List.range count).foldl (loadIdtEntry places) segments) := by
  induction count with
  | zero => exact ⟨fun x inside => absurd inside (Nat.not_lt_zero x), fun _ _ => rfl, rfl⟩
  | succ count ih =>
      rw [List.range_succ, List.foldl_append]
      exact ih.next

/-- The loop fills the whole table, and the register gets the address of the table. -/
theorem loadIdt_loaded (places : TablePlaces) (segments : Segments) : ∃ filled, IdtLoaded places segments 256 filled ∧
    loadIdt places segments = { filled with idtr := ⟨4095#16, places.idt⟩ } :=
  ⟨_, loadIdtEntries_loaded places segments (idtIdxMax + 1), rfl⟩

end LoadIdt

/-- The segment table holds the code segment, the task register has the whole base, and nothing outside has changed. -/
structure GdtLoaded (places : TablePlaces) (segments loaded : Segments) : Prop where
  gdtr : loaded.gdtr = ⟨39#16, places.gdt⟩
  tr : loaded.tr = some ⟨0x18#16, places.tss, 103#20⟩
  cs : loaded.cs = 8#16
  ss : loaded.ss = 0
  code : loaded.word (places.gdt.toNat + 8 * 1) = gdtCode64.toWord
  words : ∀ target, target + 8 ≤ places.gdt.toNat ∨ places.gdt.toNat + 40 ≤ target →
    loaded.word target = segments.word target

section LoadGdt

variable {places : TablePlaces} {segments loaded : Segments}

/-- The entries of the task state segment after the three writes. -/
def tssLow (tss : Pointer) : GdtSystemDescriptorLow :=
  { gdtTssLow with baseLow := tss.setWidth 24, baseHigh := (tss >>> 24).setWidth 8 }

def tssHigh (tss : Pointer) : GdtSystemDescriptorHigh := { gdtTssHigh with baseVeryhigh := (tss >>> 32).setWidth 32 }

theorem setTssBase_eq (held : TablesHeld places segments) : setTssBase places segments =
    (((segments.setWord (places.gdt.toNat + 8 * 3) { gdtTssLow with baseLow := places.tss.setWidth 24 }.toWord).setWord
      (places.gdt.toNat + 8 * 3) (tssLow places.tss).toWord).setWord (places.gdt.toNat + 8 * 4)
      (tssHigh places.tss).toWord) := by
  have low : segments.word (places.gdt.toNat + 8 * 3) = gdtTssLow.toWord := held.gdt 3
  have high : segments.word (places.gdt.toNat + 8 * 4) = gdtTssHigh.toWord := held.gdt 4
  rw [setTssBase, low, Segments.word_setWord_same, Segments.word_setWord_separate (Or.inr (by omega)),
    Segments.word_setWord_separate (Or.inr (by omega)), high, GdtSystemDescriptorLow.ofWord_toWord,
    GdtSystemDescriptorLow.ofWord_toWord, GdtSystemDescriptorHigh.ofWord_toWord]
  rfl

/-- `ltr` accepts the task state segment and changes only its entry. -/
theorem ltr_tss (gdtr : segments.gdtr = ⟨39#16, places.gdt⟩)
    (low : segments.word (places.gdt.toNat + 8 * 3) = (tssLow places.tss).toWord)
    (high : segments.word (places.gdt.toNat + 8 * 3 + 8) = (tssHigh places.tss).toWord) :
    ∃ marked, segments.ltr 0x18#16 = some marked ∧ marked.gdtr = ⟨39#16, places.gdt⟩ ∧
      marked.tr = some ⟨0x18#16, places.tss, 103#20⟩ ∧
      ∀ target, target + 8 ≤ places.gdt.toNat + 8 * 3 ∨ places.gdt.toNat + 40 ≤ target →
        marked.word target = segments.word target := by
  have address : segments.descriptorAddress 0x18#16 = places.gdt.toNat + 8 * 3 := by
    rw [Segments.descriptorAddress, gdtr]
    rfl
  have base : Segments.tssBase (tssLow places.tss) (tssHigh places.tss) = places.tss := tssBase_fields _ _ _
  have limit : ((tssLow places.tss).limitHigh.setWidth 20 <<< 16) ||| (tssLow places.tss).limitLow.setWidth 20 = 103#20 := by
    change (gdtTssLow.limitHigh.setWidth 20 <<< 16) ||| gdtTssLow.limitLow.setWidth 20 = 103#20
    decide
  have inside : 8 * (0x18#16 >>> 3).toNat + 15 ≤ segments.gdtr.limit.toNat := by
    rw [gdtr]
    change 8 * (0x18#16 >>> 3).toNat + 15 ≤ (39#16).toNat
    decide
  rw [Segments.ltr, address, low, high, GdtSystemDescriptorLow.ofWord_toWord, GdtSystemDescriptorHigh.ofWord_toWord,
    if_pos ⟨inside, rfl, rfl, rfl⟩, base, limit]
  exact ⟨_, rfl, gdtr, rfl, fun target separate => Segments.word_setWord_separate (by omega)⟩

/-- The segment of the kernel's code passes the checks of the processor. -/
theorem isKernelCode_of_word (gdtr : segments.gdtr = ⟨39#16, places.gdt⟩)
    (code : segments.word (places.gdt.toNat + 8 * 1) = gdtCode64.toWord) : segments.IsKernelCode 8#16 := by
  have address : segments.descriptorAddress 8#16 = places.gdt.toNat + 8 * 1 := by
    rw [Segments.descriptorAddress, gdtr]
    rfl
  rw [Segments.IsKernelCode, address, code, GdtSegmentDescriptor.ofWord_toWord, gdtr]
  change 8#16 >>> 3 ≠ 0 ∧ 8 * (8#16 >>> 3).toNat + 7 ≤ (39#16).toNat ∧ _
  decide

/-- The processor accepts the segments of `load_gdt`. -/
theorem loadGdt_loaded (held : TablesHeld places segments) :
    ∃ loaded, loadGdt places segments = some loaded ∧ GdtLoaded places segments loaded := by
  have written : ∀ target, target + 8 ≤ places.gdt.toNat + 8 * 3 ∨ places.gdt.toNat + 40 ≤ target →
      (setTssBase places segments).word target = segments.word target := by
    intro target separate
    rw [setTssBase_eq held, Segments.word_setWord_separate (by omega), Segments.word_setWord_separate (by omega),
      Segments.word_setWord_separate (by omega)]
  have low : (setTssBase places segments).word (places.gdt.toNat + 8 * 3) = (tssLow places.tss).toWord := by
    rw [setTssBase_eq held, Segments.word_setWord_separate (by omega), Segments.word_setWord_same]
  have high : (setTssBase places segments).word (places.gdt.toNat + 8 * 3 + 8) = (tssHigh places.tss).toWord := by
    rw [setTssBase_eq held]
    exact Segments.word_setWord_same
  obtain ⟨table, run, gdtr, words⟩ : ∃ table : Segments, loadGdt places segments =
      (table.ltr 0x18#16).bind (fun marked => marked.flushGdt 8#16 0) ∧ table.gdtr = ⟨39#16, places.gdt⟩ ∧
      ∀ target, table.word target = (setTssBase places segments).word target := ⟨_, rfl, rfl, fun _ => rfl⟩
  obtain ⟨marked, loaded, same, tr, kept⟩ := ltr_tss gdtr ((words _).trans low) ((words _).trans high)
  have outside : ∀ target, target + 8 ≤ places.gdt.toNat + 8 * 3 ∨ places.gdt.toNat + 40 ≤ target →
      marked.word target = segments.word target := fun target separate =>
    (kept target separate).trans ((words target).trans (written target separate))
  have code : marked.word (places.gdt.toNat + 8 * 1) = gdtCode64.toWord := (outside _ (by omega)).trans (held.gdt 1)
  have accepted : marked.flushGdt 8#16 0 = some { marked with cs := 8#16, ss := 0, dataSegments := [0, 0, 0, 0] } :=
    if_pos ⟨isKernelCode_of_word same code, rfl⟩
  refine ⟨{ marked with cs := 8#16, ss := 0, dataSegments := [0, 0, 0, 0] }, ?_, same, tr, rfl, rfl, code,
    fun target separate => outside target (by omega)⟩
  rw [run, loaded, Option.bind_some, accepted]

end LoadGdt

section Delivery

variable {places : TablePlaces} {segments loaded filled : Segments}

/-- Each entry of the filled table has the address of its stub. -/
theorem filled_entry (held : TablesHeld places segments) (gdt : GdtLoaded places segments loaded)
    (idt : IdtLoaded places loaded 256 filled) (vector : BitVec 8) :
    filled.idtEntry (places.idt.toNat + 16 * vector.toNat) = idtInitial.setOffset (places.stubs vector) := by
  have apart := held.apart
  have bound : vector.toNat < 256 := vector.isLt
  have before : loaded.idtEntry (places.idt.toNat + 16 * vector.toNat) = idtInitial := by
    rw [← held.idt vector.toNat bound]
    exact idtEntry_congr (gdt.words _ (by omega)) (gdt.words _ (by omega))
  have entry := idt.entries vector.toNat bound
  rwa [before, BitVec.ofNat_toNat, BitVec.setWidth_eq] at entry

/-- The filled table leaves the code segment in place. -/
theorem filled_code (held : TablesHeld places segments) (gdt : GdtLoaded places segments loaded)
    (idt : IdtLoaded places loaded 256 filled) : filled.IsKernelCode 8#16 := by
  have apart := held.apart
  refine isKernelCode_of_word ((congrArg Segments.gdtr idt.registers).trans gdt.gdtr) ?_
  rw [← gdt.code]
  exact idt.words _ (by omega)

/-- After `load_gdt` and `load_idt`, every vector is delivered to its own stub, in the code segment of the kernel and with
interrupts disabled, and the task register has the address and the size of the task state segment. This holds for all
addresses of the tables and of the stubs. -/
theorem interrupts_reach_stubs (held : TablesHeld places segments)
    (canonical : ∀ vector, Canonical (places.stubs vector)) :
    ∃ loaded, loadGdt places segments = some loaded ∧
      (loadIdt places loaded).tr = some ⟨0x18#16, places.tss, 103#20⟩ ∧ (loadIdt places loaded).cs = 8#16 ∧
      ∀ vector rflags, (loadIdt places loaded).gate vector rflags =
        some ⟨places.stubs vector, 8#16, 0, gateFlags rflags⟩ := by
  obtain ⟨loaded, ran, gdt⟩ := loadGdt_loaded held
  obtain ⟨filled, idt, last⟩ := loadIdt_loaded places loaded
  refine ⟨loaded, ran, ?_, ?_, fun vector rflags => ?_⟩
  · rw [last]
    exact (congrArg Segments.tr idt.registers).trans gdt.tr
  · rw [last]
    exact (congrArg Segments.cs idt.registers).trans gdt.cs
  · have bound : vector.toNat < 256 := vector.isLt
    have inside : 16 * vector.toNat + 15 ≤ (4095#16).toNat := by
      change 16 * vector.toNat + 15 ≤ 4095
      omega
    have offset := offset_setOffset (places.stubs vector) idtInitial
    have ss : filled.ss = 0 := (congrArg Segments.ss idt.registers).trans gdt.ss
    have entry : Segments.idtEntry { filled with idtr := ⟨4095#16, places.idt⟩ }
        (places.idt.toNat + 16 * vector.toNat) = idtInitial.setOffset (places.stubs vector) :=
      filled_entry held gdt idt vector
    have code := filled_code held gdt idt
    rw [last, Segments.gate, entry, offset]
    refine (if_pos ⟨inside, rfl, rfl, rfl, rfl, code, canonical vector⟩).trans ?_
    exact congrArg (fun ss => some (Gate.mk (places.stubs vector) 8#16 ss (gateFlags rflags))) ss

end Delivery

/-- The stubs of the sample kernel are sixteen bytes apart. -/
def samplePlaces : TablePlaces where
  gdt := 0x100#64
  tss := 0xFFFFFFFF81234568#64
  idt := 0x1000#64
  stubs vector := 0xFFFFFFFF80000000#64 + vector.setWidth 64 * 16#64

/-- The byte of a list of words at an offset. -/
def wordByte (words : List (BitVec 64)) (offset : Nat) : BitVec 8 :=
  (words.getD (offset / 8) 0 >>> (8 * (offset % 8))).setWidth 8

/-- The memory of the sample kernel holds the initial tables. -/
def sampleSegments : Segments where
  memory address :=
    if address < 0x1000 then wordByte gdtInitial (address - 0x100)
    else wordByte [idtInitial.lowWord, idtInitial.highWord] ((address - 0x1000) % 16)
  gdtr := ⟨0, 0⟩
  idtr := ⟨0, 0⟩
  ldtr := 0
  tr := none
  cs := 0
  ss := 0
  dataSegments := []

theorem sampleSegments_held : TablesHeld samplePlaces sampleSegments where
  gdt := by decide +kernel
  idt := by decide +kernel
  apart := by decide

/-- On the sample kernel, a page fault reaches its stub. -/
theorem interrupts_reach_stubs_sample : ∃ loaded, loadGdt samplePlaces sampleSegments = some loaded ∧
    (loadIdt samplePlaces loaded).gate 14#8 0x202#64 = some ⟨0xFFFFFFFF800000E0#64, 8#16, 0, 0x2#64⟩ := by
  obtain ⟨loaded, ran, _, _, gates⟩ := interrupts_reach_stubs sampleSegments_held (by decide +kernel)
  exact ⟨loaded, ran, gates 14#8 0x202#64⟩

end UmbralOS
