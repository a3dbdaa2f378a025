import UmbralOS.Proof.Memory.Accounting

/-!
This file proves that `pmm_zero` touches only free memory.
-/

namespace UmbralOS

open Library

/-- Every byte of the usable pages below an index is zero, and every other byte is unchanged. -/
structure ZeroedBelow (before after : Mm) (index : Nat) : Prop where
  data : after = { before with memory := after.memory }
  zero : ∀ address, address / 4096 ∈ before.usablePages → address / 4096 < index → after.memory address = 0
  frame : ∀ address, address / 4096 ∉ before.usablePages ∨ index ≤ address / 4096 →
    after.memory address = before.memory address

section ZeroedBelow

variable {before after : Mm} {index : Nat}

theorem zeroedBelow_start (mm : Mm) : ZeroedBelow mm mm 0 where
  data := rfl
  zero address _ below := by omega
  frame _ _ := rfl

/-- The zeroed pages hold no part of the bitmap, so the answers of the bitmap stay the same. -/
theorem ZeroedBelow.usablePages_eq (zeroed : ZeroedBelow before after index)
    (apart : Disjoint before.usablePages before.bitmapPages) : after.usablePages = before.usablePages := by
  apply usablePages_congr zeroed.data
  intro address inside
  exact zeroed.frame address (Or.inl fun usable => Set.disjoint_left.mp apart usable inside)

theorem ZeroedBelow.numPages_eq (zeroed : ZeroedBelow before after index) :
    after.pmmData.numPages = before.pmmData.numPages := by
  rw [zeroed.data]

theorem ZeroedBelow.placed (zeroed : ZeroedBelow before after index) (placed : before.Placed) : after.Placed := by
  rw [zeroed.data]
  exact ⟨placed.fits, placed.count⟩

/-- A page that is not usable is skipped. -/
theorem ZeroedBelow.skip (zeroed : ZeroedBelow before after index) (used : index ∉ before.usablePages) :
    ZeroedBelow before after (index + 1) where
  data := zeroed.data
  zero address usable below := by
    apply zeroed.zero address usable
    have different : address / 4096 ≠ index := fun same => used (same ▸ usable)
    omega
  frame address outside := zeroed.frame address (outside.imp_right fun above => by omega)

/-- A usable page is filled with zeros. -/
theorem ZeroedBelow.fill (zeroed : ZeroedBelow before after index) (usable : index ∈ before.usablePages) :
    ZeroedBelow before { after with memory := after.memory.fill (index * 4096) 4096 0 } (index + 1) where
  data := by
    rw [zeroed.data]
  zero address member below := by
    by_cases here : address / 4096 = index
    · exact Memory.fill_inside _ _ (by omega) (by omega)
    · change after.memory.fill (index * 4096) 4096 0 address = 0
      rw [Memory.fill_outside _ _ (by omega)]
      exact zeroed.zero address member (by omega)
  frame address outside := by
    have different : address / 4096 ≠ index := by
      intro same
      rcases outside with outside | above
      · exact outside (same ▸ usable)
      · omega
    change after.memory.fill (index * 4096) 4096 0 address = _
    rw [Memory.fill_outside _ _ (by omega)]
    exact zeroed.frame address (outside.imp_right fun above => by omega)

end ZeroedBelow

/-- One iteration zeroes its page when the page is usable. -/
theorem returns_pmmZeroPage {before state : Mm} {index : Nat} (placed : before.Placed)
    (apart : Disjoint before.usablePages before.bitmapPages) (zeroed : ZeroedBelow before state index)
    (counted : index < before.pmmData.numPages.toNat) :
    ∃ state', Returns (pmmZeroPage index) state () state' ∧ ZeroedBelow before state' (index + 1) := by
  have count := placed.count
  have place : (BitVec.ofNat 64 index * pageSize).toNat = index * 4096 := by
    have whole := toNat_window index 0
    simp only [Nat.add_zero, BitVec.add_zero] at whole
    rw [whole]
    omega
  have quotient : (BitVec.ofNat 64 index * pageSize).toNat / 4096 = index := by omega
  have queried : Returns (pmmQueryPage (BitVec.ofNat 64 index * pageSize)) state (state.usable index) state := by
    apply (returns_pmmQueryPage (zeroed.placed placed)).mpr
    exact ⟨by omega, by rw [zeroed.numPages_eq]; omega, by rw [quotient], rfl⟩
  have same : state.usable index = true ↔ index ∈ before.usablePages := by
    rw [← zeroed.usablePages_eq apart]
    rfl
  by_cases usable : index ∈ before.usablePages
  · refine ⟨_, ?_, zeroed.fill usable⟩
    apply (returns_bind _ _ _ _ _).mpr
    refine ⟨_, state, queried, ?_⟩
    rw [if_pos (same.mpr usable)]
    simp only [returns_bind, returns_phyToVirt, returns_memzero]
    refine ⟨_, state, ⟨rfl, rfl⟩, ?_⟩
    have physical : state.physical (state.pHHDM + BitVec.ofNat 64 index * pageSize) = index * 4096 := by
      rw [← place, Mm.physical]
      congr 1
      bv_omega
    rw [physical]
    rfl
  · refine ⟨state, ?_, zeroed.skip usable⟩
    apply (returns_bind _ _ _ _ _).mpr
    refine ⟨_, state, queried, ?_⟩
    rw [if_neg fun found => usable (same.mp found)]
    exact (returns_pure _ _ _ _).mpr ⟨rfl, rfl⟩

/-- `pmm_zero` returns, and it zeroes exactly the usable pages. -/
theorem returns_pmmZero {mm : Mm} (placed : mm.Placed) (apart : Disjoint mm.usablePages mm.bitmapPages) :
    ∃ mm', Returns pmmZero mm () mm' ∧ ZeroedBelow mm mm' mm.pmmData.numPages.toNat := by
  have loop : ∃ found mm', Returns (forRange (fun i _ => pmmZeroPage i) mm.pmmData.numPages.toNat ()) mm found mm' ∧
      ZeroedBelow mm mm' mm.pmmData.numPages.toNat := by
    apply forRange_returns (fun index _ state => ZeroedBelow mm state index) (zeroedBelow_start mm)
    intro index _ state counted zeroed
    obtain ⟨state', returned, next⟩ := returns_pmmZeroPage placed apart zeroed counted
    exact ⟨(), state', returned, next⟩
  obtain ⟨_, mm', returned, zeroed⟩ := loop
  exact ⟨mm', (returns_bind _ _ _ _ _).mpr ⟨mm, mm, (returns_get _ _ _).mpr ⟨rfl, rfl⟩, returned⟩, zeroed⟩

/-- In every state of a run, `pmm_zero` returns, sets every byte of the usable pages to zero and leaves every other
byte unchanged. The bitmap, the live pages and the boot stack are among the other bytes. -/
theorem pmm_zero_touches_free {memmap : List LimineMemmapEntry} {phhdm : Pointer} {boot start mm : Mm}
    {stack : Option (Set Nat)} {live : Set Nat} (map : PooledMap memmap)
    (ends : ∀ entry ∈ memmap, entry.base.toNat + entry.length.toNat ≤ 2 ^ 52)
    (init : Returns (pmmInit memmap phhdm) boot () start) (run : PoolRun memmap start stack mm live) :
    ∃ memory, Returns pmmZero mm () { mm with memory := memory } ∧
      (∀ address, address / 4096 ∈ mm.usablePages → memory address = 0) ∧
      (∀ address, address / 4096 ∉ mm.usablePages → memory address = mm.memory address) ∧
      ∀ address, address / 4096 ∈ mm.bitmapPages ∪ live ∪ stack.getD ∅ → memory address = mm.memory address := by
  have started := returns_pmmInit (fun entry member _ => by have last := ends entry member; omega) init
  have invariant := run.invariant map (fun entry member _ => ends entry member) started
  have free := invariant.balanced.free_eq
  have kept : ∀ page ∈ mm.bitmapPages ∪ live ∪ stack.getD ∅, page ∉ mm.usablePages := by
    intro page member usable
    rw [free] at usable
    rw [invariant.bitmapPages_eq] at member
    rcases member with (bitmap | used) | reserved
    · exact usable.2 (Or.inl (Or.inl bitmap))
    · exact usable.2 (Or.inr used)
    · exact usable.2 (Or.inl (Or.inr reserved))
  have apart : Disjoint mm.usablePages mm.bitmapPages := by
    rw [Set.disjoint_left]
    exact fun page usable bitmap => kept page (Or.inl (Or.inl bitmap)) usable
  obtain ⟨mm', returned, zeroed⟩ := returns_pmmZero invariant.placed apart
  have unchanged : ∀ address, address / 4096 ∉ mm.usablePages → mm'.memory address = mm.memory address :=
    fun address outside => zeroed.frame address (Or.inl outside)
  refine ⟨mm'.memory, ?_, ?_, unchanged, fun address member => unchanged address (kept _ member)⟩
  · rw [← zeroed.data]
    exact returned
  · intro address usable
    apply zeroed.zero address usable
    exact of_decide_eq_true (Bool.and_eq_true_iff.mp usable).1

/-- After an allocation and the donation on the sample machine, the taken page and the stack keep their bytes. -/
theorem pmm_zero_touches_free_sample : ∃ memory, Returns pmmZero sampleReclaimed () { sampleReclaimed with memory := memory } ∧
    memory 0x2000 = sampleReclaimed.memory 0x2000 ∧ memory 0xA000 = sampleReclaimed.memory 0xA000 := by
  obtain ⟨memory, returned, _, _, kept⟩ :=
    pmm_zero_touches_free sampleMemmap_pooled (by decide) sampleStart_returns sampleReclaimed_run
  refine ⟨memory, returned, kept 0x2000 (Or.inl (Or.inr (Or.inr ⟨by decide, by decide⟩))), kept 0xA000 (Or.inr ?_)⟩
  have direct : sampleTaken.pHHDM = sampleHhdm := by decide +kernel
  change _ ∈ stackPages sampleTaken _ _
  unfold stackPages
  rw [direct]
  simp [sampleHhdm]

end UmbralOS
