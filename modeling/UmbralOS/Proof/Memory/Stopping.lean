import UmbralOS.Proof.Memory.FirstFit
import UmbralOS.Proof.Memory.Mapping

/-!
This file proves that the mapper changes no translation when a page stops it.
-/

namespace UmbralOS

open Library PathTree

section Stopped

variable {mm mm' : Mm} {reason : Stop} {live : Set Nat}

/-- An allocation that stops changes nothing. -/
theorem pmmAllocPage_of_stops (placed : mm.Placed) (stopped : Stops pmmAllocPage mm reason mm') : mm = mm' := by
  by_cases found : ∃ start, mm.UsableRun start (1#64).toNat
  · obtain ⟨first, least⟩ := Mm.exists_firstRun found
    obtain ⟨_, returned, _⟩ := pmmAllocPages_returns placed (by decide) least
    exact absurd stopped returned.not_stops
  · exact (Stops.unique (stops_pmmAllocPages placed (by decide) (not_exists.mp found)) stopped).2

theorem vmmEnsurePresent_of_stops {entry : Pointer} (placed : mm.Placed)
    (stopped : Stops (vmmEnsurePresent entry) mm reason mm') : mm = mm' := by
  have read : ∀ pointer, StopsOnly (fun _ => False) (load64 pointer) :=
    fun _ => stopsOnly_bind stopsOnly_get fun _ => stopsOnly_pure _
  have point : ∀ page, StopsOnly (fun _ => False) (phyToVirt page) :=
    fun _ => stopsOnly_bind stopsOnly_get fun _ => stopsOnly_pure _
  have finish : StopsOnly (fun _ => False) (do
      let word ← load64 entry
      phyToVirt ((PageDirectoryEntrySubdirectory.ofWord word).addr.setWidth 64 <<< 12)) :=
    stopsOnly_bind (read entry) fun _ => point _
  rcases (stops_bind _ _ _ _ _).mp stopped with fault | ⟨word, _, loaded, stopped⟩
  · exact absurd fault (read entry _ _ _)
  · obtain ⟨_, rfl⟩ := returns_load64.mp loaded
    cases present : (PageDirectoryEntrySubdirectory.ofWord word).p with
    | true =>
        rw [present] at stopped
        exact absurd stopped (finish _ _ _)
    | false =>
        rw [present] at stopped
        rcases (stops_bind _ _ _ _ _).mp stopped with fault | ⟨page, middle, _, stopped⟩
        · exact pmmAllocPage_of_stops placed fault
        · refine absurd stopped (stopsOnly_bind (point page) (fun table => ?_) _ _ _)
          refine stopsOnly_bind (stopsOnly_modify _) fun _ => ?_
          refine stopsOnly_bind (read entry) fun old => ?_
          exact stopsOnly_bind (stopsOnly_modify _) fun _ => finish

theorem cachePat_of_stops {flags : BitVec 32} (stopped : Stops (cachePat flags) mm reason mm') : mm = mm' := by
  unfold cachePat at stopped
  split_ifs at stopped
  · exact absurd stopped (stops_pure _ _ _ _)
  · exact absurd stopped (stops_pure _ _ _ _)
  · exact absurd stopped (stops_pure _ _ _ _)
  · exact ((stops_throw _ _ _ _).mp stopped).2

/-- A page writes its leaf last, so a page that stops keeps every translation. -/
theorem vmmMapPage_of_stops {what : Phy} {virt : Pointer} {flags : BitVec 32} (tabled : Tabled mm live)
    (stopped : Stops (vmmMapPage what virt flags) mm reason mm') : mm'.translate = mm.translate := by
  rcases stops_panicIf_bind stopped with rfl | stopped
  · rfl
  rcases stops_panicIf_bind stopped with rfl | stopped
  · rfl
  rcases stops_panicIf_bind stopped with rfl | stopped
  · rfl
  rcases stops_panicIf_bind stopped with rfl | stopped
  · rfl
  rcases (stops_bind _ _ _ _ _).mp stopped with fault | ⟨pat, _, cached, stopped⟩
  · rw [cachePat_of_stops fault]
  obtain rfl := (returns_cachePat cached).1
  rcases (stops_bind _ _ _ _ _).mp stopped with fault | ⟨_, _, passed, stopped⟩
  · exact absurd fault (stops_get _ _ _)
  obtain ⟨rfl, rfl⟩ := (returns_get _ _ _).mp passed
  rw [← tabled.tablePointer_root] at stopped
  rcases (stops_bind _ _ _ _ _).mp stopped with fault | ⟨pdpt, first, firstReturned, stopped⟩
  · rw [vmmEnsurePresent_of_stops tabled.pool.placed fault]
  obtain ⟨firstGrown, _, firstWalk, _, rfl, firstSelected⟩ :=
    returns_vmmEnsurePresent tabled (by simp) (resolve_nil _ _) (toNat_tableIndex virt 3) firstReturned
  rcases (stops_bind _ _ _ _ _).mp stopped with fault | ⟨pd, second, secondReturned, stopped⟩
  · rw [← vmmEnsurePresent_of_stops firstGrown.tabled.pool.placed fault]
    exact funext (firstGrown.translate_eq firstWalk)
  obtain ⟨secondGrown, _, secondWalk, _, rfl, secondSelected⟩ :=
    returns_vmmEnsurePresent firstGrown.tabled (by simp) firstSelected (toNat_tableIndex virt 2) secondReturned
  rcases (stops_bind _ _ _ _ _).mp stopped with fault | ⟨pt, third, thirdReturned, stopped⟩
  · rw [← vmmEnsurePresent_of_stops secondGrown.tabled.pool.placed fault]
    exact funext ((firstGrown.trans secondGrown).translate_eq (secondWalk.trans firstWalk))
  have quiet : StopsOnly (fun _ => False) (do
      let old ← load64 (entryAt pt (tableIndex virt 12))
      store64 (entryAt pt (tableIndex virt 12)) ((PageTableEntry.ofWord old).mapTo what flags pat).toWord) :=
    stopsOnly_bind (stopsOnly_bind stopsOnly_get fun _ => stopsOnly_pure _) fun _ => stopsOnly_modify _
  exact absurd stopped (quiet _ _ _)

end Stopped
end UmbralOS
