import UmbralOS.Proof.Memory.Accounting
import Mathlib.Data.Nat.Find
import Mathlib.Order.Bounds.Basic

/-!
This file proves that the allocator is first fit and all or nothing, and when its own range check stops it.
-/

namespace UmbralOS

open Library

/-- The range check names the address of a page that the bitmap does not count. -/
def outOfRange (page : Nat) : Stop :=
  .panic "page_to_bitmap_location: page 0x%lx out of range\n" [BitVec.ofNat 64 (page * 4096)]

/-- The allocator reports that no window fits. -/
def couldNotFind (numPages : BitVec 64) : Stop :=
  .panic "pmm_alloc_pages: Could not find %lu contiguous pages" [numPages]

theorem outOfRange_ne_couldNotFind {page : Nat} {numPages : BitVec 64} : outOfRange page ≠ couldNotFind numPages := by
  intro same
  rw [outOfRange, couldNotFind, Stop.panic.injEq] at same
  exact absurd same.1 (by decide)

/-- A query of a page past the last page stops in the range check and changes nothing. -/
theorem stops_pmmQueryPage {mm : Mm} {page : Phy} (aligned : page.toNat % 4096 = 0)
    (outside : mm.pmmData.numPages.toNat ≤ page.toNat / 4096) :
    Stops (pmmQueryPage page) mm (outOfRange (page.toNat / 4096)) mm := by
  have name : BitVec.ofNat 64 (page.toNat / 4096 * 4096) = page := by
    rw [Nat.div_mul_cancel (Nat.dvd_of_mod_eq_zero aligned), BitVec.ofNat_toNat, BitVec.setWidth_eq]
  have late : mm.pmmData.numPages ≤ page / pageSize := by
    rw [BitVec.le_def, toNat_div_pageSize]
    exact outside
  apply (stops_bind _ _ _ _ _).mpr
  left
  simp only [pmmAddrToBitmapLocation, stops_bind, returns_panicIf, stops_panicIf, returns_get, stops_get,
    stops_pure, ne_eq, not_not, aligned_iff]
  exact Or.inr ⟨(), mm, ⟨aligned, rfl⟩, Or.inr ⟨mm, mm, ⟨rfl, rfl⟩, Or.inl ⟨late, by rw [outOfRange, name], rfl⟩⟩⟩

/-- Every page of the window is usable. -/
def Mm.UsableRun (mm : Mm) (start count : Nat) : Prop := ∀ index < count, mm.usable (start + index) = true

instance (mm : Mm) (start count : Nat) : Decidable (mm.UsableRun start count) := Nat.decidableBallLT _ _

theorem Mm.usable_lt {mm : Mm} {page : Nat} (usable : mm.usable page = true) : page < mm.pmmData.numPages.toNat := by
  rw [Mm.usable, Bool.and_eq_true, decide_eq_true_eq] at usable
  exact usable.1

/-- A window with a page that is usable ends inside memory. -/
theorem Mm.UsableRun.within {mm : Mm} {start count : Nat} (run : mm.UsableRun start count) (some : 0 < count) :
    start + count ≤ mm.pmmData.numPages.toNat := by
  have last := Mm.usable_lt (run (count - 1) (by omega))
  omega

section Window

variable {mm : Mm} {start : Nat} {numPages : BitVec 64}

/-- The inner loop reaches its next index while the window stays inside memory. -/
theorem queryLoop_returns (placed : mm.Placed) {count : Nat} (fits : start + count ≤ mm.pmmData.numPages.toNat) :
    ∃ found, Returns (forRange (fun j usable => do
      let found ← pmmQueryPage ((BitVec.ofNat 64 start + BitVec.ofNat 64 j) * pageSize)
      pure (usable && found)) count true) mm found mm := by
  have counted := placed.count
  obtain ⟨found, after, returned, rfl⟩ := @forRange_returns _ _ _
    (fun j usable => do
      let found ← pmmQueryPage ((BitVec.ofNat 64 start + BitVec.ofNat 64 j) * pageSize)
      pure (usable && found))
    (fun _ _ state => state = mm) count true mm rfl (by
      intro index current state inside same
      subst same
      refine ⟨_, state, (returns_bind _ _ _ _ _).mpr ⟨_, state, (returns_pmmQueryPage placed).mpr
        ⟨?_, ?_, rfl, rfl⟩, (returns_pure _ _ _ _).mpr ⟨rfl, rfl⟩⟩, rfl⟩
      · rw [toNat_window]
        omega
      · rw [toNat_window]
        omega)
  exact ⟨found, returned⟩

/-- A window inside memory gets its answer. -/
theorem pmmQueryWindow_returns (placed : mm.Placed) (fits : start + numPages.toNat ≤ mm.pmmData.numPages.toNat)
    (inside : start < mm.pmmData.numPages.toNat) :
    ∃ found, Returns (pmmQueryWindow start numPages) mm found mm ∧
      (found = true ↔ mm.UsableRun start numPages.toNat) := by
  obtain ⟨found, returned⟩ := queryLoop_returns placed fits
  exact ⟨found, returned, (returns_pmmQueryWindow placed inside returned).2.2⟩

/-- A window past the end of memory stops at the first page that is not counted. -/
theorem stops_pmmQueryWindow (placed : mm.Placed) (inside : start < mm.pmmData.numPages.toNat)
    (past : mm.pmmData.numPages.toNat < start + numPages.toNat) :
    Stops (pmmQueryWindow start numPages) mm (outOfRange mm.pmmData.numPages.toNat) mm := by
  have counted := placed.count
  generalize total : mm.pmmData.numPages.toNat = last at *
  obtain ⟨found, returned⟩ := @queryLoop_returns mm start placed (last - start) (by omega)
  have place : ((BitVec.ofNat 64 start + BitVec.ofNat 64 (last - start)) * pageSize).toNat = last * 4096 := by
    rw [toNat_window]
    omega
  have asked := @stops_pmmQueryPage mm ((BitVec.ofNat 64 start + BitVec.ofNat 64 (last - start)) * pageSize)
    (by omega) (by omega)
  rw [place, Nat.mul_div_cancel _ (by decide)] at asked
  exact forRange_stops (show last - start < numPages.toNat by omega) returned
    ((stops_bind _ _ _ _ _).mpr (Or.inl asked))

end Window

/-- A loop that marks consecutive pages inside memory returns. -/
theorem markLoop_returns {mm : Mm} (placed : mm.Placed) {address : Nat → Phy} {base : Phy} {count : Nat}
    {usable : Bool} (aligned : base.toNat % 4096 = 0)
    (steps : ∀ index, (address index).toNat = (base.toNat + index * 4096) % 2 ^ 64)
    (fits : base.toNat / 4096 + count ≤ mm.pmmData.numPages.toNat) :
    ∃ mm', Returns (forRange (fun index _ => pmmMarkPage (address index) usable) count ()) mm () mm' ∧
      Marked mm mm' (base.toNat / 4096) count usable := by
  have counted := placed.count
  obtain ⟨_, mm', returned, _⟩ := @forRange_returns _ _ _
    (fun index (_ : Unit) => pmmMarkPage (address index) usable)
    (fun _ _ state => BitmapOnly mm state) count () mm (BitmapOnly.refl mm) (by
      intro index _ state inside only
      have step := steps index
      have numbers := only.numPages_eq
      have within : (address index).toNat / 4096 < state.pmmData.numPages.toNat := by
        rw [numbers]
        omega
      exact ⟨(), _, (returns_pmmMarkPage (only.placed placed)).mpr ⟨by omega, within, rfl⟩,
        only.trans (bitmapOnly_mark state usable within)⟩)
  exact ⟨mm', returned, returns_markLoop placed steps returned⟩

/-- A window inside memory is taken whole. -/
theorem pmmTakeWindow_returns {mm : Mm} (placed : mm.Placed) {start : Nat} {numPages : BitVec 64}
    (fits : start + numPages.toNat ≤ mm.pmmData.numPages.toNat) :
    ∃ mm', Returns (pmmTakeWindow start numPages) mm () mm' ∧ Marked mm mm' start numPages.toNat false := by
  have counted := placed.count
  have place : (BitVec.ofNat 64 (start * 4096)).toNat = start * 4096 := by
    rw [BitVec.toNat_ofNat]
    omega
  obtain ⟨mm', returned, marked⟩ := @markLoop_returns mm placed
    (fun index => (BitVec.ofNat 64 start + BitVec.ofNat 64 index) * pageSize) (BitVec.ofNat 64 (start * 4096))
    numPages.toNat false (by omega)
    (by
      intro index
      rw [toNat_window, place, Nat.add_mul])
    (by omega)
  rw [place, Nat.mul_div_cancel _ (by decide)] at marked
  exact ⟨mm', returned, marked⟩

/-- This is the first window of usable pages. -/
def Mm.FirstRun (mm : Mm) (numPages start : Nat) : Prop :=
  mm.UsableRun start numPages ∧ ∀ earlier < start, ¬ mm.UsableRun earlier numPages

/-- Some window of usable pages is the first one. -/
theorem Mm.exists_firstRun {mm : Mm} {numPages : Nat} (found : ∃ start, mm.UsableRun start numPages) :
    ∃ start, mm.FirstRun numPages start := by
  classical
  exact ⟨Nat.find found, Nat.find_spec found, fun earlier before => Nat.find_min found before⟩

section Search

variable {mm : Mm} {numPages : BitVec 64}

/-- The search skips each start page before the first window and takes that window. -/
theorem pmmSearch_returns (placed : mm.Placed) {remaining start first : Nat}
    (total : start + remaining = mm.pmmData.numPages.toNat) (before : start ≤ first)
    (inside : first < mm.pmmData.numPages.toNat) (fits : first + numPages.toNat ≤ mm.pmmData.numPages.toNat)
    (found : mm.FirstRun numPages.toNat first) :
    ∃ mm', Returns (pmmSearch numPages remaining start) mm (BitVec.ofNat 64 first * pageSize) mm' ∧
      Marked mm mm' first numPages.toNat false := by
  induction remaining generalizing start with
  | zero => omega
  | succ remaining ih =>
      obtain ⟨usable, asked, answer⟩ := @pmmQueryWindow_returns mm start numPages placed (by omega) (by omega)
      unfold pmmSearch
      cases usable with
      | false =>
          have different : start ≠ first := by
            intro same
            rw [same] at answer
            exact absurd (answer.mpr found.1) Bool.false_ne_true
          obtain ⟨mm', returned, marked⟩ := @ih (start + 1) (by omega) (by omega)
          exact ⟨mm', (returns_bind _ _ _ _ _).mpr ⟨false, mm, asked, returned⟩, marked⟩
      | true =>
          have same : start = first := by
            by_contra different
            exact found.2 start (by omega) (answer.mp rfl)
          subst same
          obtain ⟨mm', taken, marked⟩ := pmmTakeWindow_returns placed fits
          refine ⟨mm', (returns_bind _ _ _ _ _).mpr ⟨true, mm, asked, ?_⟩, marked⟩
          exact (returns_bind _ _ _ _ _).mpr ⟨(), mm', taken, (returns_pure _ _ _ _).mpr ⟨rfl, rfl⟩⟩

/-- A search without a window stops in its own report for single pages, and in the range check for longer windows. -/
theorem stops_pmmSearch (placed : mm.Placed) {remaining start : Nat} (some : 0 < numPages.toNat)
    (total : start + remaining = mm.pmmData.numPages.toNat)
    (none : ∀ found, start ≤ found → ¬ mm.UsableRun found numPages.toNat) :
    Stops (pmmSearch numPages remaining start) mm
      (if remaining = 0 ∨ numPages.toNat = 1 then couldNotFind numPages
        else outOfRange mm.pmmData.numPages.toNat) mm := by
  induction remaining generalizing start with
  | zero =>
      rw [if_pos (Or.inl rfl)]
      exact (stops_throw _ _ _ _).mpr ⟨rfl, rfl⟩
  | succ remaining ih =>
      unfold pmmSearch
      apply (stops_bind _ _ _ _ _).mpr
      by_cases fits : start + numPages.toNat ≤ mm.pmmData.numPages.toNat
      · right
        obtain ⟨usable, asked, answer⟩ := @pmmQueryWindow_returns mm start numPages placed fits (by omega)
        have denied : usable = false := by
          rw [Bool.eq_false_iff]
          exact mt answer.mp (none start (Nat.le_refl start))
        subst denied
        refine ⟨false, mm, asked, ?_⟩
        have rest := @ih (start + 1) (by omega) fun found later => none found (by omega)
        have same : (remaining = 0 ∨ numPages.toNat = 1) ↔ (remaining + 1 = 0 ∨ numPages.toNat = 1) := by omega
        simp only [same] at rest
        exact rest
      · left
        rw [if_neg (by omega)]
        exact stops_pmmQueryWindow placed (by omega) (by omega)

end Search

section Allocation

variable {mm : Mm} {numPages : BitVec 64}

/-- An allocation takes the first window of usable pages. -/
theorem pmmAllocPages_returns (placed : mm.Placed) {first : Nat} (some : 0 < numPages.toNat)
    (found : mm.FirstRun numPages.toNat first) :
    ∃ mm', Returns (pmmAllocPages numPages) mm (BitVec.ofNat 64 first * pageSize) mm' ∧
      Marked mm mm' first numPages.toNat false := by
  have fits := found.1.within some
  obtain ⟨mm', returned, marked⟩ := pmmSearch_returns placed (Nat.zero_add _) (Nat.zero_le first) (by omega) fits found
  exact ⟨mm', (returns_bind _ _ _ _ _).mpr ⟨mm, mm, (returns_get _ _ _).mpr ⟨rfl, rfl⟩, returned⟩, marked⟩

/-- An allocation without a window stops and changes nothing. -/
theorem stops_pmmAllocPages (placed : mm.Placed) (some : 0 < numPages.toNat)
    (none : ∀ start, ¬ mm.UsableRun start numPages.toNat) :
    Stops (pmmAllocPages numPages) mm
      (if mm.pmmData.numPages.toNat = 0 ∨ numPages.toNat = 1 then couldNotFind numPages
        else outOfRange mm.pmmData.numPages.toNat) mm := by
  have stopped := stops_pmmSearch placed some (Nat.zero_add _) fun found _ => none found
  exact (stops_bind _ _ _ _ _).mpr (Or.inr ⟨mm, mm, (returns_get _ _ _).mpr ⟨rfl, rfl⟩, stopped⟩)

end Allocation

/-- An allocation returns the lowest window of usable pages and takes exactly its pages. Without such a window it
stops and changes nothing. -/
theorem pmm_alloc_pages_first_fit {mm : Mm} (placed : mm.Placed) {numPages : BitVec 64} (some : 1 ≤ numPages.toNat) :
    ((∃ start, mm.UsableRun start numPages.toNat) →
      ∃ first paddr mm', IsLeast { start | mm.UsableRun start numPages.toNat } first ∧
        Returns (pmmAllocPages numPages) mm paddr mm' ∧ paddr.toNat = first * 4096 ∧
        Marked mm mm' first numPages.toNat false) ∧
    ((¬ ∃ start, mm.UsableRun start numPages.toNat) →
      ∃ reason, reason.IsPanic ∧ Stops (pmmAllocPages numPages) mm reason mm) := by
  constructor
  · intro found
    obtain ⟨first, least⟩ := Mm.exists_firstRun found
    obtain ⟨mm', returned, marked⟩ := pmmAllocPages_returns placed some least
    have fits := least.1.within some
    have counted := placed.count
    refine ⟨first, _, mm', ⟨least.1, fun start run => ?_⟩, returned, ?_, marked⟩
    · by_contra before
      exact least.2 start (by omega) run
    · have place := toNat_window first 0
      rw [BitVec.add_zero] at place
      rw [place]
      omega
  · intro none
    have stopped := stops_pmmAllocPages placed some (not_exists.mp none)
    refine ⟨_, ?_, stopped⟩
    split_ifs <;> exact trivial

theorem sampleStart_placed : sampleStart.Placed :=
  (returns_pmmInit (by decide) sampleStart_returns).placed

/-- The sample machine has eight usable pages. -/
theorem sampleStart_no_run : ¬ ∃ start, sampleStart.UsableRun start (9#64).toNat := by
  intro given
  obtain ⟨start, run⟩ := given
  have within := run.within (by decide)
  have total : sampleStart.pmmData.numPages.toNat = 16 := by decide +kernel
  have none : ∀ start < 8, ¬ sampleStart.UsableRun start (9#64).toNat := by decide +kernel
  rw [total, show (9#64).toNat = 9 from rfl] at within
  exact none start (by omega) run

/-- The sample machine hands out a window of two pages, and it has no window of nine pages. -/
theorem pmm_alloc_pages_first_fit_sample :
    (∃ first paddr mm', IsLeast { start | sampleStart.UsableRun start 2 } first ∧
      Returns (pmmAllocPages 2) sampleStart paddr mm' ∧ paddr.toNat = first * 4096 ∧
      Marked sampleStart mm' first 2 false) ∧
    ∃ reason, reason.IsPanic ∧ Stops (pmmAllocPages 9) sampleStart reason sampleStart := by
  have pair : sampleStart.UsableRun 2 2 := by decide +kernel
  exact ⟨(pmm_alloc_pages_first_fit sampleStart_placed (show 1 ≤ (2#64).toNat by decide)).1 ⟨2, pair⟩,
    (pmm_alloc_pages_first_fit sampleStart_placed (show 1 ≤ (9#64).toNat by decide)).2 sampleStart_no_run⟩

/-- The allocator stops only in its own report. A page past the last page would stop it in the range check. -/
def ReportsOwnFailure (mm : Mm) (numPages : BitVec 64) : Prop :=
  ∀ reason mm', Stops (pmmAllocPages numPages) mm reason mm' → reason = couldNotFind numPages

/-- The range check stops an allocation exactly when a window of several pages does not exist. -/
theorem pmm_alloc_pages_reports_own_failure_iff {mm : Mm} (placed : mm.Placed) {numPages : BitVec 64}
    (counted : 1 ≤ mm.pmmData.numPages.toNat) (some : 1 ≤ numPages.toNat) :
    ReportsOwnFailure mm numPages ↔ numPages.toNat = 1 ∨ ∃ start, mm.UsableRun start numPages.toNat := by
  by_cases found : ∃ start, mm.UsableRun start numPages.toNat
  · have holds : ReportsOwnFailure mm numPages := by
      intro reason mm' stopped
      obtain ⟨first, least⟩ := Mm.exists_firstRun found
      obtain ⟨_, returned, _⟩ := pmmAllocPages_returns placed some least
      exact absurd stopped returned.not_stops
    exact iff_of_true holds (Or.inr found)
  · have stopped := stops_pmmAllocPages placed some (not_exists.mp found)
    by_cases single : numPages.toNat = 1
    · rw [if_pos (Or.inr single)] at stopped
      have holds : ReportsOwnFailure mm numPages := fun _ _ other => (stopped.unique other).1.symm
      exact iff_of_true holds (Or.inl single)
    · rw [if_neg (by omega)] at stopped
      have fails : ¬ ReportsOwnFailure mm numPages := fun holds =>
        outOfRange_ne_couldNotFind (holds _ _ stopped)
      exact iff_of_false fails fun condition => condition.elim single found

/-- The sample machine has no window of nine pages, so the range check stops the allocation. -/
theorem range_check_tripped : ¬ ReportsOwnFailure sampleStart 9 := by
  intro holds
  have stopped := stops_pmmAllocPages sampleStart_placed (show 0 < (9#64).toNat by decide)
    (not_exists.mp sampleStart_no_run)
  rw [if_neg (by decide +kernel)] at stopped
  exact outOfRange_ne_couldNotFind (holds _ _ stopped)

theorem pmm_alloc_pages_reports_own_failure_iff_sample :
    (ReportsOwnFailure sampleStart 2 ↔ (2#64).toNat = 1 ∨ ∃ start, sampleStart.UsableRun start (2#64).toNat) ∧
    (ReportsOwnFailure sampleStart 9 ↔ (9#64).toNat = 1 ∨ ∃ start, sampleStart.UsableRun start (9#64).toNat) := by
  have counted : 1 ≤ sampleStart.pmmData.numPages.toNat := by decide +kernel
  exact ⟨pmm_alloc_pages_reports_own_failure_iff sampleStart_placed counted (by decide),
    pmm_alloc_pages_reports_own_failure_iff sampleStart_placed counted (by decide)⟩

/-- A returned pointer starts consecutive pages that hold the size, and these pages are taken now. -/
def KallocGivesEnough (mm : Mm) (size : BitVec 64) : Prop :=
  (∀ reason mm', Stops (kalloc size) mm reason mm' → reason.IsPanic) ∧
  ∀ ptr mm', Returns (kalloc size) mm ptr mm' → ∃ first count, ptr = mm.pHHDM + BitVec.ofNat 64 (first * 4096) ∧
    size.toNat ≤ count * 4096 ∧ ∀ index < count, mm.usable (first + index) = true ∧ mm'.usable (first + index) = false

section Kalloc

variable {mm : Mm} {size : BitVec 64}

/-- A request of no page returns the first address when the memory has a page. -/
theorem pmmAllocPages_zero_returns (counted : mm.pmmData.numPages ≠ 0) : Returns (pmmAllocPages 0) mm 0 mm := by
  apply (returns_bind _ _ _ _ _).mpr
  refine ⟨mm, mm, (returns_get _ _ _).mpr ⟨rfl, rfl⟩, ?_⟩
  have positive : mm.pmmData.numPages.toNat ≠ 0 := fun zero => counted (BitVec.eq_of_toNat_eq zero)
  obtain ⟨remaining, total⟩ := Nat.exists_eq_succ_of_ne_zero positive
  rw [total]
  rfl

/-- A memory without pages has nothing to hand out. -/
theorem stops_pmmAllocPages_empty (empty : mm.pmmData.numPages = 0) (numPages : BitVec 64) :
    Stops (pmmAllocPages numPages) mm (couldNotFind numPages) mm := by
  apply (stops_bind _ _ _ _ _).mpr
  refine Or.inr ⟨mm, mm, (returns_get _ _ _).mpr ⟨rfl, rfl⟩, ?_⟩
  rw [empty]
  rfl

theorem stops_kalloc {reason : Stop} {mm' : Mm} :
    Stops (kalloc size) mm reason mm' ↔ Stops (pmmAllocPages (roundUp size pageSize / pageSize)) mm reason mm' := by
  simp only [kalloc, stops_bind, stops_phyToVirt, and_false, exists_false, or_false]

/-- A size that rounds up without wrapping gets its pages. -/
theorem kallocGivesEnough_of_fits (placed : mm.Placed) (fits : size.toNat ≤ 2 ^ 64 - 4096) :
    KallocGivesEnough mm size := by
  refine ⟨fun reason mm' stopped => panics_pmmAllocPages _ _ _ _ (stops_kalloc.mp stopped),
    fun ptr mm' returned => ?_⟩
  simp only [kalloc, returns_bind, returns_phyToVirt] at returned
  obtain ⟨paddr, middle, allocated, rfl, rfl⟩ := returned
  obtain ⟨aligned, inside, free, marked⟩ := returns_pmmAllocPages placed allocated
  rw [toNat_pageCount fits] at free marked
  refine ⟨paddr.toNat / 4096, (size.toNat + 4095) / 4096, ?_, by omega, fun index below => ⟨?_, ?_⟩⟩
  · rw [marked.only.pHHDM_eq, Nat.div_mul_cancel (Nat.dvd_of_mod_eq_zero aligned), BitVec.ofNat_toNat,
      BitVec.setWidth_eq]
  · exact free ⟨by omega, by omega⟩
  · rw [marked.bits, if_pos ⟨by omega, by omega⟩]

/-- A size that wraps gets a pointer to no page. -/
theorem not_kallocGivesEnough_of_wraps (counted : mm.pmmData.numPages ≠ 0)
    (large : 2 ^ 64 - 4096 < size.toNat) : ¬ KallocGivesEnough mm size := by
  intro given
  obtain ⟨_, gives⟩ := given
  have returned : Returns (kalloc size) mm (mm.pHHDM + 0) mm := by
    rw [kalloc, pageCount_wraps large]
    exact (returns_bind _ _ _ _ _).mpr ⟨0, mm, pmmAllocPages_zero_returns counted, returns_phyToVirt.mpr ⟨rfl, rfl⟩⟩
  obtain ⟨first, count, _, room, taken⟩ := gives _ _ returned
  have some : 0 < count := by omega
  have same := taken 0 some
  rw [same.1] at same
  cases same.2

end Kalloc

/-- An allocation of bytes gives enough pages unless its size wraps when it is rounded up. -/
theorem kalloc_gives_enough_iff {mm : Mm} (placed : mm.Placed) {size : BitVec 64} :
    KallocGivesEnough mm size ↔ size.toNat ≤ 2 ^ 64 - 4096 ∨ mm.pmmData.numPages = 0 := by
  by_cases fits : size.toNat ≤ 2 ^ 64 - 4096
  · exact iff_of_true (kallocGivesEnough_of_fits placed fits) (Or.inl fits)
  · by_cases empty : mm.pmmData.numPages = 0
    · refine iff_of_true ⟨fun reason mm' stopped => ?_, fun ptr mm' returned => ?_⟩ (Or.inr empty)
      · exact panics_pmmAllocPages _ _ _ _ (stops_kalloc.mp stopped)
      · exact absurd (stops_kalloc.mpr (stops_pmmAllocPages_empty empty _)) returned.not_stops
    · exact iff_of_false (not_kallocGivesEnough_of_wraps empty (by omega))
        fun condition => condition.elim fits empty

theorem kalloc_gives_enough_iff_sample :
    KallocGivesEnough sampleStart 0x1001#64 ↔
      (0x1001#64).toNat ≤ 2 ^ 64 - 4096 ∨ sampleStart.pmmData.numPages = 0 :=
  kalloc_gives_enough_iff sampleStart_placed

/-- The largest size rounds up to no page, and the caller gets a pointer to memory that it does not own. -/
theorem kalloc_gives_nothing : ¬ KallocGivesEnough sampleStart 0xFFFFFFFFFFFFFFFF#64 :=
  not_kallocGivesEnough_of_wraps (by decide +kernel) (by decide)

end UmbralOS
