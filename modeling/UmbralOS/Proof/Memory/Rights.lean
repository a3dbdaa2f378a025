import UmbralOS.Proof.Memory.Refinement

/-!
This file proves which rights the processor derives from all four levels of a walk.
-/

namespace UmbralOS

open Library PathTree

/-- The rights of one entry, or of a whole walk. -/
@[ext] structure Rights where
  writable : Bool
  user : Bool
  executable : Bool
  deriving DecidableEq

/-- The processor allows an access that both entries allow. -/
def Rights.both (first second : Rights) : Rights :=
  ⟨first.writable && second.writable, first.user && second.user, first.executable && second.executable⟩

def PageDirectoryEntrySubdirectory.rights (entry : PageDirectoryEntrySubdirectory) : Rights :=
  ⟨entry.rw, entry.us, !entry.xd⟩

def PageTableEntry.rights (entry : PageTableEntry) : Rights := ⟨entry.rw, entry.us, !entry.xd⟩

/-- The walk through the directories collects the rights of their entries. -/
def directoryRights (memory : Memory) : Nat → List (Fin 512) → Rights → Option (Nat × Rights)
  | table, [], rights => some (table, rights)
  | table, index :: path, rights =>
      (tableChild memory table index).bind fun next =>
        directoryRights memory next path
          (rights.both (PageDirectoryEntrySubdirectory.ofWord (tableWord memory table index)).rights)

/-- The rights that all four levels of the walk of an address allow. -/
def Mm.effectiveRights (mm : Mm) (virt : Pointer) : Option Rights :=
  (directoryRights mm.memory mm.root (walkPath virt) ⟨true, true, true⟩).bind fun (table, rights) =>
    let entry := PageTableEntry.ofWord (tableWord mm.memory table (walkIndex 0 virt))
    if entry.p then some (rights.both entry.rights) else none

/-- The rights that the flags of a call ask for. -/
def requestedRights (flags : BitVec 32) : Rights :=
  ⟨flags &&& mW != 0, flags &&& mU != 0, flags &&& mX != 0⟩

section Directories

variable {mm mm' : Mm} {live : Set Nat}

/-- The directories of the kernel allow writing and execution, and they stop user code. -/
theorem directoryRights_eq (tabled : Tabled mm live) (kernel : mm.KernelOnly) {path : List (Fin 512)}
    {before : List (Fin 512)} {table : Nat} {user : Bool} (short : before.length + path.length ≤ 3)
    (reached : resolve (tableChild mm.memory) mm.root before = some table) :
    directoryRights mm.memory table path ⟨true, user, true⟩ =
      (resolve (tableChild mm.memory) table path).map fun last => (last, ⟨true, user && path.isEmpty, true⟩) := by
  induction path generalizing before table user with
  | nil => simp [directoryRights]
  | cons index path ih =>
      rw [List.length_cons] at short
      unfold directoryRights resolve
      cases found : tableChild mm.memory table index with
      | none => rfl
      | some next =>
          have present : (mm.directoryEntry table index).p = true := by
            by_contra absent
            rw [Mm.directoryEntry] at absent
            simp [tableChild, absent] at found
          have directory : Selected (tableChild mm.memory) mm.root 2 table := ⟨before, by omega, reached⟩
          have grants := tabled.grants table index directory present
          have closed := kernel table index directory present
          have step : resolve (tableChild mm.memory) mm.root (before ++ [index]) = some next := by
            rw [resolve_snoc, reached, Option.bind_some, found]
          have rights : Rights.both ⟨true, user, true⟩
              (PageDirectoryEntrySubdirectory.ofWord (tableWord mm.memory table index)).rights = ⟨true, false, true⟩ := by
            change Rights.both _ (mm.directoryEntry table index).rights = _
            unfold Rights.both PageDirectoryEntrySubdirectory.rights
            rw [grants.writable, grants.executable, closed, Bool.and_false]
            rfl
          have length : (before ++ [index]).length + path.length ≤ 3 := by
            rw [List.length_append, List.length_singleton]
            omega
          rw [Option.bind_some, Option.bind_some, rights, ih length step, Bool.false_and, List.isEmpty_cons,
            Bool.and_false]

/-- The effective rights of a page are those of its leaf, without the user right. -/
theorem effectiveRights_eq (tabled : Tabled mm live) (kernel : mm.KernelOnly) (virt : Pointer) :
    mm.effectiveRights virt = (mm.walk virt).map fun entry => ⟨entry.rw, false, !entry.xd⟩ := by
  have directories := @directoryRights_eq mm live tabled kernel (walkPath virt) [] mm.root true (Nat.le_refl 3)
    (resolve_nil _ _)
  rw [Mm.effectiveRights, directories, Mm.walk, UmbralOS.walk]
  cases resolve (tableChild mm.memory) mm.root (walkPath virt) with
  | none => rfl
  | some last =>
      simp only [Option.map_some, Option.bind_some]
      split_ifs
      · rfl
      · rfl

end Directories

/-- A call maps the pages from its first page, one for each page of its size. -/
def MapCall.Maps (call : MapCall) (virt : Pointer) : Prop :=
  ∃ page < call.size.toNat / 4096, virtualPage virt = virtualPage (call.virt + BitVec.ofNat 64 page * pageSize)

instance (call : MapCall) (virt : Pointer) : Decidable (call.Maps virt) :=
  inferInstanceAs (Decidable (∃ page < _, _))

/-- A call gives its flags to the pages that it maps. -/
def MapCall.flagsRule (call : MapCall) : Pointer → Option (BitVec 32) := fun virt =>
  if call.Maps virt then some call.flags else none

/-- The flags with which a page was last mapped. -/
def lastFlags (calls : List MapCall) (virt : Pointer) : Option (BitVec 32) :=
  lastApplicable (calls.map MapCall.flagsRule) virt

/-- A run takes any mapping calls that return, and client steps between them. -/
inductive TableRun (start : Mm) (owned : Set Nat) : List MapCall → Mm → Set Nat → Prop where
  | start : TableRun start owned [] start owned
  | map {calls : List MapCall} {call : MapCall} {mm mm' : Mm} {live : Set Nat}
      (run : TableRun start owned calls mm live) (returned : Returns call.run mm () mm') :
      TableRun start owned (calls ++ [call]) mm' live
  | client {calls : List MapCall} {mm mm' : Mm} {live live' handed : Set Nat}
      (run : TableRun start owned calls mm live) (step : ClientStep mm live handed mm' live') :
      TableRun start owned calls mm' live'

/-- The rights of every leaf are those of the last call, and no directory lets user code pass. -/
structure RightsInvariant (calls : List MapCall) (mm : Mm) (live : Set Nat) : Prop where
  tabled : Tabled mm live
  attributes : mm.msr msrIa32Pat = patValue
  kernel : mm.KernelOnly
  leaf : ∀ virt, (mm.walk virt).map PageTableEntry.rights = (lastFlags calls virt).map requestedRights

section Calls

variable {start mm mm' : Mm} {owned live : Set Nat} {calls : List MapCall} {call : MapCall}

/-- A mapped page gives its rights to one leaf. -/
theorem vmmMapPage_rights {what : Phy} {virt : Pointer} {flags : BitVec 32} (tabled : Tabled mm live)
    (kernel : mm.KernelOnly) (returned : Returns (vmmMapPage what virt flags) mm () mm') :
    Grown live mm mm' ∧ mm'.KernelOnly ∧ ∀ found, (mm'.walk found).map PageTableEntry.rights =
      if virtualPage found = virtualPage virt then some (requestedRights flags)
      else (mm.walk found).map PageTableEntry.rights := by
  obtain ⟨_, upper, table, old, pat, grown, _, walks, closed, selected, _, rfl⟩ := vmmMapPage_leaf tabled returned
  have same := @Tabled.sameDirectories_withWord upper live _ table (walkIndex 0 virt) grown.tabled rfl selected
    (old.mapTo what flags pat).toWord
  refine ⟨grown.trans (grown.tabled.grown_withWord rfl selected _), same.kernelOnly (closed kernel), fun found => ?_⟩
  rw [grown.tabled.walk_withWord rfl selected (mapTo_p old what flags pat)]
  simp only [← virtualPage_eq_iff]
  split_ifs
  · rw [PageTableEntry.ofWord_toWord, Option.map_some, PageTableEntry.rights, PageTableEntry.mapTo, Bool.not_not]
    rfl
  · rw [walks]

/-- A mapping call gives its rights to the leaves of its pages. -/
theorem vmmMap_rights (tabled : Tabled mm live) (kernel : mm.KernelOnly) (returned : Returns call.run mm () mm') :
    Grown live mm mm' ∧ mm'.KernelOnly ∧ ∀ found, (mm'.walk found).map PageTableEntry.rights =
      if call.Maps found then some (requestedRights call.flags) else (mm.walk found).map PageTableEntry.rights := by
  simp only [MapCall.run, vmmMap, returns_bind, returns_panicIf] at returned
  obtain ⟨_, _, ⟨_, rfl⟩, _, _, ⟨_, rfl⟩, _, _, ⟨_, rfl⟩, loop⟩ := returned
  rw [toNat_div_pageSize] at loop
  refine returns_forRange (fun count _ state => Grown live mm state ∧ state.KernelOnly ∧
    ∀ found, (state.walk found).map PageTableEntry.rights =
      if ∃ page < count, virtualPage found = virtualPage (call.virt + BitVec.ofNat 64 page * pageSize) then
        some (requestedRights call.flags)
      else (mm.walk found).map PageTableEntry.rights)
    ⟨Grown.refl tabled, kernel, fun found => by rw [if_neg (by simp)]⟩ ?_ loop
  intro index _ _ state state' _ reached mapped
  obtain ⟨grown, closed, earlier⟩ := reached
  obtain ⟨more, still, page⟩ := vmmMapPage_rights grown.tabled closed mapped
  refine ⟨grown.trans more, still, fun found => ?_⟩
  rw [page, earlier]
  by_cases last : virtualPage found = virtualPage (call.virt + BitVec.ofNat 64 index * pageSize)
  · rw [if_pos last, if_pos ⟨index, Nat.lt_succ_self index, last⟩]
  · rw [if_neg last]
    congr 1
    apply propext
    constructor
    · intro ⟨page, before, same⟩
      exact ⟨page, by omega, same⟩
    · intro ⟨page, before, same⟩
      refine ⟨page, ?_, same⟩
      have different : page ≠ index := by
        rintro rfl
        exact last same
      omega

/-- A zeroed root has no directory entry. -/
theorem RootZeroed.rightsInvariant (zeroed : RootZeroed start owned) : RightsInvariant [] start owned := by
  refine ⟨zeroed.tabled, zeroed.attributes, fun table index directory present => ?_, fun virt => ?_⟩
  · obtain ⟨path, _, found⟩ := directory
    rw [(resolve_leaf zeroed.tableChild_eq found).2, Mm.directoryEntry, tableWord_zero index zeroed.zero] at present
    cases present
  · have none := zeroed.translate_eq virt
    rw [Mm.translate, Option.map_eq_none_iff] at none
    rw [none]
    rfl

/-- Every state of a run satisfies the invariant. -/
theorem TableRun.invariant (zeroed : RootZeroed start owned) (run : TableRun start owned calls mm live) :
    RightsInvariant calls mm live := by
  induction run with
  | start => exact zeroed.rightsInvariant
  | map _ returned ih =>
      obtain ⟨grown, kernel, leaf⟩ := vmmMap_rights ih.tabled ih.kernel returned
      refine ⟨grown.tabled, by rw [grown.data]; exact ih.attributes, kernel, fun virt => ?_⟩
      rw [leaf, ih.leaf]
      simp only [lastFlags, List.map_append, List.map_singleton, lastApplicable_snoc, MapCall.flagsRule]
      split_ifs
      · rfl
      · rfl
  | client _ step ih =>
      obtain ⟨_, _, _, released, effect⟩ := ih.tabled.client step
      obtain ⟨tabled, _, walk⟩ := ih.tabled.client_walk effect
      have same := sameDirectories_keep effect.data (ih.tabled.client_frame effect)
      refine ⟨tabled, by rw [effect.data]; exact ih.attributes, same.kernelOnly ih.kernel, fun virt => ?_⟩
      rw [walk, ih.leaf]

end Calls

/-- The walk of a page that was last mapped with some flags allows what they ask for, but no access by user code. -/
theorem effectiveRights_last {start mm : Mm} {owned live : Set Nat} {calls : List MapCall}
    (zeroed : RootZeroed start owned) (run : TableRun start owned calls mm live) {virt : Pointer} {flags : BitVec 32}
    (last : lastFlags calls virt = some flags) :
    mm.effectiveRights virt = some ⟨flags &&& mW != 0, false, flags &&& mX != 0⟩ := by
  have invariant := run.invariant zeroed
  have leaf := invariant.leaf virt
  rw [last, Option.map_some, Option.map_eq_some_iff] at leaf
  obtain ⟨entry, found, rights⟩ := leaf
  have writable : entry.rw = (flags &&& mW != 0) := congrArg Rights.writable rights
  have executable : (!entry.xd) = (flags &&& mX != 0) := congrArg Rights.executable rights
  rw [effectiveRights_eq invariant.tabled invariant.kernel, found, Option.map_some, writable, executable]

/-- In every state of a run, a page last mapped with some flags has exactly the requested right to write and to
execute. It has exactly the requested rights when the flags do not ask for the user right. -/
theorem effective_rights_iff {start mm : Mm} {owned live : Set Nat} {calls : List MapCall}
    (zeroed : RootZeroed start owned) (run : TableRun start owned calls mm live) {virt : Pointer} {flags : BitVec 32}
    (last : lastFlags calls virt = some flags) :
    (∃ user, mm.effectiveRights virt = some ⟨flags &&& mW != 0, user, flags &&& mX != 0⟩) ∧
    (mm.effectiveRights virt = some (requestedRights flags) ↔ flags &&& mU = 0) := by
  rw [effectiveRights_last zeroed run last]
  refine ⟨⟨false, rfl⟩, ?_⟩
  rw [requestedRights, Option.some_inj, Rights.mk.injEq]
  constructor
  · intro same
    exact not_not.mp fun asked => Bool.false_ne_true (same.2.1.trans (bne_iff_ne.mpr asked))
  · intro clear
    rw [clear]
    exact ⟨rfl, rfl, rfl⟩

theorem effective_rights_iff_sample :
    sampleSecond.effectiveRights 0xFFFF900000001000#64 = some (requestedRights mX) ↔ mX &&& mU = 0 := by
  have first : Returns sampleFirstCall.run sampleRoot () sampleFirst := returns_lastState (by decide +kernel)
  have second : Returns sampleSecondCall.run sampleFirst () sampleSecond := returns_lastState (by decide +kernel)
  have run := ((@TableRun.start sampleRoot ∅).map first).map second
  have last : lastFlags ([] ++ [sampleFirstCall] ++ [sampleSecondCall]) 0xFFFF900000001000#64 = some mX := by decide
  exact (effective_rights_iff sampleRoot_zeroed run last).2

/-- The sample user call maps one page that user code may read. -/
def sampleUserCall : MapCall := ⟨0xC000#64, 0xFFFF900000000000#64, 0x1000#64, mU⟩

/-- The upper levels stop user code at a page that was mapped for it. -/
theorem user_page_stays_closed :
    ¬ ∀ calls mm live, TableRun sampleRoot ∅ calls mm live → ∀ virt flags, lastFlags calls virt = some flags →
      mm.effectiveRights virt = some (requestedRights flags) := by
  intro exact
  have mapped : Returns sampleUserCall.run sampleRoot () (lastState sampleUserCall.run sampleRoot) :=
    returns_lastState (by decide +kernel)
  have run := (@TableRun.start sampleRoot ∅).map mapped
  have last : lastFlags ([] ++ [sampleUserCall]) 0xFFFF900000000000#64 = some mU := by decide
  have asked := exact _ _ _ run _ _ last
  rw [effectiveRights_last sampleRoot_zeroed run last, Option.some_inj] at asked
  exact absurd asked (by decide)

end UmbralOS
