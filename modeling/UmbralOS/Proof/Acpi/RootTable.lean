import UmbralOS.Proof.Acpi.Bounds

/-!
This file gives the walk over the root table and the bytes of the root table that it interprets.
-/

namespace UmbralOS

open Library

/-- The address that stands at an index of the root table, as a pointer into the direct map. -/
def Acpi.sdt (acpi : Acpi) (root : Pointer) (width i : Nat) : Pointer :=
  acpi.machine.mm.pHHDM + (readField (acpi.machine.mm.object root) (offsetofSdts + width * i) width).setWidth 64

def Acpi.useRoot (acpi : Acpi) (offset width : Nat) : Acpi :=
  { acpi with rootUses := acpi.rootUses ++ List.range' offset width }

/-- The kernel starts with empty notes. -/
def Acpi.fresh (acpi : Acpi) : Acpi := { acpi with parsed := [], rootUses := [], uses := [] }

/-- The first tables of the root table were parsed in their order. -/
inductive RootRun (fuel : Nat) (root : Pointer) (width : Nat) (before : Acpi) : List Pointer → Acpi → Prop where
  | start : RootRun fuel root width before [] before
  | entry {pointers : List Pointer} {middle after : Acpi} : RootRun fuel root width before pointers middle →
      Returns (parseSdt fuel (middle.sdt root width pointers.length))
        (middle.useRoot (offsetofSdts + width * pointers.length) width) () after →
      RootRun fuel root width before (pointers ++ [middle.sdt root width pointers.length]) after

/-- A validated root table is rejected when it is shorter than its header. Otherwise the tables at its addresses are parsed
in their order, and no byte behind the declared length is interpreted. -/
structure RootWalkInside (acpi : Acpi) (p : Pointer) : Prop where
  rejects : ∀ fuel root width middle, Returns (acpiFindRoot p) acpi.fresh (root, width) middle →
    (sdtLength (middle.machine.mm.object root)).toNat < offsetofSdts →
      ∃ reason after, reason.IsPanic ∧ Stops (acpiParseRsdp fuel p) acpi.fresh reason after ∧ after.parsed = []
  parses : ∀ fuel root width middle, Returns (acpiFindRoot p) acpi.fresh (root, width) middle →
    offsetofSdts ≤ (sdtLength (middle.machine.mm.object root)).toNat →
    ∀ after, Returns (acpiParseRsdp fuel p) acpi.fresh () after →
      ∃ pointers, pointers.length = ((sdtLength (middle.machine.mm.object root)).toNat - offsetofSdts) / width ∧
        RootRun fuel root width (middle.useRoot 4 4) pointers after ∧ after.parsed = pointers
  stops : ∀ fuel root width middle, Returns (acpiFindRoot p) acpi.fresh (root, width) middle →
    offsetofSdts ≤ (sdtLength (middle.machine.mm.object root)).toNat →
    ∀ reason after, Stops (acpiParseRsdp fuel p) acpi.fresh reason after →
      ∃ pointers state, pointers.length < ((sdtLength (middle.machine.mm.object root)).toNat - offsetofSdts) / width ∧
        RootRun fuel root width (middle.useRoot 4 4) pointers state ∧
        Stops (parseSdt fuel (state.sdt root width pointers.length))
          (state.useRoot (offsetofSdts + width * pointers.length) width) reason after ∧
        after.parsed = pointers ++ [state.sdt root width pointers.length]
  inside : ∀ fuel root width middle, Returns (acpiFindRoot p) acpi.fresh (root, width) middle →
    ∀ offset ∈ (lastState (acpiParseRsdp fuel p) acpi.fresh).rootUses,
      offset < (sdtLength (middle.machine.mm.object root)).toNat

section Find

variable {before after : Acpi} {p root : Pointer} {width width' : Nat}

theorem returns_readObject {pointer : Pointer} {bytes : Memory} :
    Returns (readObject pointer) before bytes after ↔ before.machine.mm.object pointer = bytes ∧ before = after :=
  returns_read _ _ _ _

theorem returns_pointer {paddr : Phy} {pointer : Pointer} :
    Returns (liftMachine (liftMm (phyToVirt paddr))) before pointer after ↔
      before.machine.mm.pHHDM + paddr = pointer ∧ before = after := by
  rw [returns_liftMachine]
  constructor
  · intro returned
    obtain ⟨machine, lifted, rfl⟩ := returned
    obtain ⟨mm, ran, rfl⟩ := (returns_liftMm _ _ _ _).mp lifted
    obtain ⟨rfl, rfl⟩ := returns_phyToVirt.mp ran
    exact ⟨rfl, rfl⟩
  · intro same
    obtain ⟨rfl, rfl⟩ := same
    exact ⟨before.machine, (returns_liftMm _ _ _ _).mpr ⟨before.machine.mm, returns_phyToVirt.mpr ⟨rfl, rfl⟩, rfl⟩, rfl⟩

/-- A root table whose validation passes is found without a change of the state. -/
theorem returns_validateRoot {paddr : Phy}
    (found : Returns (do
      let pRoot ← liftMachine (liftMm (phyToVirt paddr))
      let table ← readObject pRoot
      validateSdt table
      pure (pRoot, width) : AcpiProgram (Pointer × Nat)) before (root, width') after) :
    before = after ∧ width = width' := by
  obtain ⟨_, _, pointer, rest⟩ := (returns_bind _ _ _ _ _).mp found
  obtain ⟨_, rfl⟩ := returns_pointer.mp pointer
  obtain ⟨_, _, read, rest⟩ := (returns_bind _ _ _ _ _).mp rest
  obtain ⟨_, rfl⟩ := returns_readObject.mp read
  obtain ⟨_, _, valid, last⟩ := (returns_bind _ _ _ _ _).mp rest
  obtain ⟨_, rfl⟩ := returns_panicIf.mp valid
  obtain ⟨same, rfl⟩ := (returns_pure _ _ _ _).mp last
  exact ⟨rfl, congrArg Prod.snd same⟩

/-- The search for the root table only reads. -/
theorem returns_acpiFindRoot (found : Returns (acpiFindRoot p) before (root, width) after) :
    before = after ∧ (width = 8 ∨ width = 4) := by
  obtain ⟨pRSDP, _, read, rest⟩ := (returns_bind _ _ _ _ _).mp found
  obtain ⟨_, rfl⟩ := returns_readObject.mp read
  obtain ⟨_, _, valid, rest⟩ := (returns_bind _ _ _ _ _).mp rest
  obtain ⟨_, rfl⟩ := returns_panicIf.mp valid
  split_ifs at rest with extended
  · obtain ⟨_, _, valid, rest⟩ := (returns_bind _ _ _ _ _).mp rest
    obtain ⟨_, rfl⟩ := returns_panicIf.mp valid
    obtain ⟨same, wide⟩ := returns_validateRoot rest
    exact ⟨same, Or.inl wide.symm⟩
  · obtain ⟨same, narrow⟩ := returns_validateRoot rest
    exact ⟨same, Or.inr narrow.symm⟩

end Find

section Count

variable {length : BitVec 32} {width : Nat}

theorem toNat_numSdts (length : BitVec 32) (narrow : width = 8 ∨ width = 4) :
    (numSdts length width).toNat = (2 ^ 64 - offsetofSdts + length.toNat) % 2 ^ 64 / width := by
  have small := length.isLt
  have widened : (length.setWidth 64).toNat = length.toNat := BitVec.toNat_setWidth_of_le (by decide)
  have step : (BitVec.ofNat 64 width).toNat = width := by
    rcases narrow with rfl | rfl <;> rfl
  rw [numSdts, BitVec.toNat_udiv, BitVec.toNat_sub, widened, step]
  rfl

theorem numSdts_of_long (long : offsetofSdts ≤ length.toNat) (narrow : width = 8 ∨ width = 4) :
    (numSdts length width).toNat = (length.toNat - offsetofSdts) / width := by
  have small := length.isLt
  have offset : offsetofSdts = 36 := rfl
  rw [toNat_numSdts length narrow]
  congr 1
  omega

/-- The subtraction of the header wraps below zero, so a short table has many addresses. -/
theorem numSdts_of_short (short : length.toNat < offsetofSdts) (narrow : width = 8 ∨ width = 4) :
    0 < (numSdts length width).toNat := by
  have offset : offsetofSdts = 36 := rfl
  rw [toNat_numSdts length narrow]
  rcases narrow with rfl | rfl <;> omega

end Count

/-- The state with other notes about the root table and about the parsed tables. -/
def Acpi.mapNotes (roots : List Nat → List Nat) (tables : List Pointer → List Pointer) (acpi : Acpi) : Acpi :=
  { acpi with rootUses := roots acpi.rootUses, parsed := tables acpi.parsed }

section Notes

variable {roots : List Nat → List Nat} {tables : List Pointer → List Pointer}

theorem respects_liftMachine {A : Type} (program : MachineProgram A) :
    Respects (Acpi.mapNotes roots tables) (liftMachine program) := by
  intro before
  rcases returns_or_stops program before.machine with ⟨value, machine, returned⟩ | ⟨reason, machine, stopped⟩
  · have lifted := fun state : Acpi => fun same : state.machine = before.machine =>
      (returns_liftMachine program state { state with machine := machine } value).mpr ⟨machine, same ▸ returned, rfl⟩
    rw [lifted before rfl, lifted (before.mapNotes roots tables) rfl]
    rfl
  · have lifted := fun state : Acpi => fun same : state.machine = before.machine =>
      (stops_liftMachine program state { state with machine := machine } reason).mpr ⟨machine, same ▸ stopped, rfl⟩
    rw [lifted before rfl, lifted (before.mapNotes roots tables) rfl]
    rfl

theorem respects_useOwn (pTable : Memory) (offset width : Nat) :
    Respects (Acpi.mapNotes roots tables) (useOwn pTable offset width) :=
  fun _ => rfl

theorem respects_useBody (pTable : Memory) (record offset width : Nat) :
    Respects (Acpi.mapNotes roots tables) (useBody pTable record offset width) :=
  fun _ => rfl

theorem respects_readObject (pointer : Pointer) :
    Respects (Acpi.mapNotes roots tables) (readObject pointer) :=
  fun _ => rfl

theorem respects_panicIf {guard : Prop} [Decidable guard] {format : String} {arguments : List (BitVec 64)} :
    Respects (Acpi.mapNotes roots tables) (panicIf guard format arguments : AcpiProgram Unit) :=
  respects_stopIf guard _

theorem respects_ioapicInitRegisterAt (pMADT : Memory) (record : Nat) :
    Respects (Acpi.mapNotes roots tables) (ioapicInitRegisterAt pMADT record) := by
  refine respects_get_bind (fun _ => rfl) fun acpi => ?_
  apply respects_bind respects_panicIf
  intro _
  apply respects_bind (respects_useBody _ _ _ _)
  intro _
  apply respects_bind respects_panicIf
  intro _
  exact respects_bind (respects_useBody _ _ _ _) fun _ => respects_liftMachine _

theorem respects_ioapicInitSourceOverrideAt (pMADT : Memory) (record : Nat) :
    Respects (Acpi.mapNotes roots tables) (ioapicInitSourceOverrideAt pMADT record) := by
  apply respects_bind (respects_useBody _ _ _ _)
  intro _
  apply respects_bind respects_panicIf
  intro _
  apply respects_bind (respects_useBody _ _ _ _)
  intro _
  apply respects_bind (respects_useBody _ _ _ _)
  intro _
  exact respects_bind (respects_useBody _ _ _ _) fun _ => respects_liftMachine _

theorem respects_ioapicInitNmisourceAt (pMADT : Memory) (record : Nat) :
    Respects (Acpi.mapNotes roots tables) (ioapicInitNmisourceAt pMADT record) := by
  apply respects_bind (respects_useBody _ _ _ _)
  intro _
  exact respects_bind (respects_useBody _ _ _ _) fun _ => respects_liftMachine _

theorem respects_lapicInitNmiAt (pMADT : Memory) (record : Nat) :
    Respects (Acpi.mapNotes roots tables) (lapicInitNmiAt pMADT record) := by
  apply respects_bind (respects_useBody _ _ _ _)
  intro _
  apply respects_ite
  · apply respects_bind (respects_useBody _ _ _ _)
    intro _
    exact respects_bind (respects_useBody _ _ _ _) fun _ => respects_liftMachine _
  · exact respects_pure ()

theorem respects_acpiHandleMadtAt (pMADT : Memory) (record : Nat) :
    Respects (Acpi.mapNotes roots tables) (acpiHandleMadtAt pMADT record) := by
  apply respects_bind (respects_useOwn _ _ _)
  intro type
  split
  · exact respects_pure ()
  · exact respects_ioapicInitRegisterAt _ _
  · exact respects_ioapicInitSourceOverrideAt _ _
  · exact respects_ioapicInitNmisourceAt _ _
  · exact respects_lapicInitNmiAt _ _
  · exact respects_throw _

theorem respects_acpiWalkMadtAt (pMADT : Memory) (fuel : Nat) (i : BitVec 32) :
    Respects (Acpi.mapNotes roots tables) (acpiWalkMadtAt pMADT fuel i) := by
  induction fuel generalizing i with
  | zero => exact respects_throw _
  | succ fuel ih =>
      apply respects_bind (respects_useOwn _ _ _)
      intro length
      apply respects_ite
      · apply respects_bind (respects_acpiHandleMadtAt _ _)
        intro _
        apply respects_bind (respects_useOwn _ _ _)
        intro _
        exact ih _
      · exact respects_pure ()

theorem respects_acpiParseMadtAt (fuel : Nat) (pMADT : Memory) :
    Respects (Acpi.mapNotes roots tables) (acpiParseMadtAt fuel pMADT) := by
  apply respects_bind (respects_liftMachine _)
  intro _
  apply respects_bind (respects_useOwn _ _ _)
  intro flags
  apply respects_ite
  · exact respects_bind (respects_liftMachine _) fun _ => respects_acpiWalkMadtAt _ _ _
  · exact respects_acpiWalkMadtAt _ _ _

theorem respects_acpiParseFadt (pFADT : Memory) :
    Respects (Acpi.mapNotes roots tables) (acpiParseFadt pFADT) := by
  have last : Respects (Acpi.mapNotes roots tables) (do
      let bootArchitectureFlags ← useOwn pFADT 109 2
      if bootArchitectureFlags &&& iapcBootArch8042 ≠ 0 then
        modify fun acpi => { acpi with hasI8042 := true }) := by
    apply respects_bind (respects_useOwn _ _ _)
    intro _
    apply respects_ite
    · exact respects_modify fun _ => rfl
    · exact respects_pure ()
  apply respects_bind (respects_useOwn _ _ _)
  intro flags
  apply respects_ite
  · exact respects_bind (respects_modify fun _ => rfl) fun _ => last
  · exact last

/-- After its first note, the parser of a table leaves the notes about the root table and about the parsed tables. -/
theorem respects_afterNote (fuel : Nat) (pSDT : Pointer) :
    Respects (Acpi.mapNotes roots tables) (do
      let table ← readObject pSDT
      validateSdt table
      if strncmp table signatureApic 4 = 0 then acpiParseMadtAt fuel table
      else if strncmp table signatureFacp 4 = 0 then acpiParseFadt table
      else pure ()) := by
  apply respects_bind (respects_readObject _)
  intro table
  apply respects_bind respects_panicIf
  intro _
  apply respects_ite
  · exact respects_acpiParseMadtAt _ _
  · apply respects_ite
    · exact respects_acpiParseFadt _
    · exact respects_pure ()

end Notes

section Tables

variable {fuel : Nat} {pSDT : Pointer} {before after : Acpi}

/-- The parser of a table notes the table, and nothing of the root table. -/
theorem parseSdt_notes (fuel : Nat) (pSDT : Pointer) (before : Acpi) :
    (lastState (parseSdt fuel pSDT) before).rootUses = before.rootUses ∧
      (lastState (parseSdt fuel pSDT) before).parsed = before.parsed ++ [pSDT] := by
  have logged : Returns (modify fun acpi => { acpi with parsed := acpi.parsed ++ [pSDT] } : AcpiProgram Unit) before ()
    { before with parsed := before.parsed ++ [pSDT] } := rfl
  unfold parseSdt
  rw [logged.lastState_bind]
  let noted := { before with parsed := before.parsed ++ [pSDT] }
  have fixed : noted.mapNotes (fun _ => before.rootUses) (fun _ => before.parsed ++ [pSDT]) = noted := rfl
  rw [← (respects_afterNote fuel pSDT).lastState fixed]
  exact ⟨rfl, rfl⟩

theorem parsed_of_returns (returned : Returns (parseSdt fuel pSDT) before () after) :
    after.parsed = before.parsed ++ [pSDT] := by
  rw [← (parseSdt_notes fuel pSDT before).2, returned.lastState_eq]

theorem parsed_of_stops {reason : Stop} (stopped : Stops (parseSdt fuel pSDT) before reason after) :
    after.parsed = before.parsed ++ [pSDT] := by
  rw [← (parseSdt_notes fuel pSDT before).2, stopped.lastState_eq]

end Tables

section Walk

variable {fuel : Nat} {p root : Pointer} {width i : Nat} {before after : Acpi}

/-- One iteration notes the address and parses the table there. -/
theorem run_acpiParseEntry (fuel : Nat) (root : Pointer) (width i : Nat) (before : Acpi) :
    (acpiParseEntry fuel root width i).run before =
      (parseSdt fuel (before.sdt root width i)).run (before.useRoot (offsetofSdts + width * i) width) := by
  have used : Returns (useRoot root (offsetofSdts + width * i) width) before
      (readField (before.machine.mm.object root) (offsetofSdts + width * i) width)
      (before.useRoot (offsetofSdts + width * i) width) := rfl
  have pointer := (@returns_pointer (before.useRoot (offsetofSdts + width * i) width) _
    ((readField (before.machine.mm.object root) (offsetofSdts + width * i) width).setWidth 64) _).mpr ⟨rfl, rfl⟩
  unfold acpiParseEntry
  rw [used.run_bind, pointer.run_bind]
  rfl

theorem returns_acpiParseEntry : Returns (acpiParseEntry fuel root width i) before () after ↔
    Returns (parseSdt fuel (before.sdt root width i)) (before.useRoot (offsetofSdts + width * i) width) () after := by
  unfold Returns
  rw [run_acpiParseEntry]

theorem stops_acpiParseEntry {reason : Stop} : Stops (acpiParseEntry fuel root width i) before reason after ↔
    Stops (parseSdt fuel (before.sdt root width i)) (before.useRoot (offsetofSdts + width * i) width) reason after := by
  unfold Stops
  rw [run_acpiParseEntry]

/-- After one iteration, the notes about the root table are those of its address. -/
theorem acpiParseEntry_rootUses (fuel : Nat) (root : Pointer) (width i : Nat) (before : Acpi) :
    (lastState (acpiParseEntry fuel root width i) before).rootUses =
      before.rootUses ++ List.range' (offsetofSdts + width * i) width := by
  have same : lastState (acpiParseEntry fuel root width i) before =
      lastState (parseSdt fuel (before.sdt root width i)) (before.useRoot (offsetofSdts + width * i) width) := by
    unfold lastState
    rw [run_acpiParseEntry]
  rw [same]
  exact (parseSdt_notes _ _ _).1

/-- The parsed tables are noted. -/
theorem RootRun.parsed {pointers : List Pointer} (run : RootRun fuel root width before pointers after) :
    after.parsed = before.parsed ++ pointers := by
  induction run with
  | start => exact (List.append_nil _).symm
  | entry _ returned ih =>
      rw [parsed_of_returns returned, ← List.append_assoc, ← ih]
      rfl

/-- The walk of a root table that was found. -/
theorem run_acpiParseRsdp (found : Returns (acpiFindRoot p) before (root, width) after) :
    (acpiParseRsdp fuel p).run before =
      (forRange (fun i _ => acpiParseEntry fuel root width i)
        (numSdts (sdtLength (after.machine.mm.object root)) width).toNat ()).run (after.useRoot 4 4) := by
  have used : Returns (useRoot root 4 4) after (sdtLength (after.machine.mm.object root)) (after.useRoot 4 4) := rfl
  unfold acpiParseRsdp
  rw [found.run_bind]
  unfold acpiWalkRoot
  exact used.run_bind _

theorem lastState_acpiParseRsdp (found : Returns (acpiFindRoot p) before (root, width) after) :
    lastState (acpiParseRsdp fuel p) before =
      lastState (forRange (fun i _ => acpiParseEntry fuel root width i)
        (numSdts (sdtLength (after.machine.mm.object root)) width).toNat ()) (after.useRoot 4 4) := by
  unfold lastState
  rw [run_acpiParseRsdp found]

/-- The iterations up to an index parse as many tables. -/
theorem rootRun_step {count : Nat} {start state state' : Acpi}
    (reached : ∃ pointers, pointers.length = count ∧ RootRun fuel root width start pointers state)
    (returned : Returns (acpiParseEntry fuel root width count) state () state') :
    ∃ pointers, pointers.length = count + 1 ∧ RootRun fuel root width start pointers state' := by
  obtain ⟨pointers, rfl, run⟩ := reached
  exact ⟨_, List.length_append, run.entry (returns_acpiParseEntry.mp returned)⟩

/-- A short table has a first address, and its bytes are noted. -/
theorem short_table_read (found : Returns (acpiFindRoot p) before (root, width) after) (narrow : width = 8 ∨ width = 4)
    (short : (sdtLength (after.machine.mm.object root)).toNat < offsetofSdts) :
    offsetofSdts ∈ (lastState (acpiParseRsdp fuel p) before).rootUses := by
  rw [lastState_acpiParseRsdp found]
  apply @forRange_establishes _ _ _ fun acpi : Acpi => offsetofSdts ∈ acpi.rootUses
  · exact numSdts_of_short short narrow
  · rw [acpiParseEntry_rootUses]
    apply List.mem_append_right
    apply List.mem_range'_1.mpr
    omega
  · intro index _ state member
    rw [acpiParseEntry_rootUses]
    exact List.mem_append_left _ member

/-- The bytes that are noted for a table with a whole header lie inside the table. -/
theorem long_table_inside (found : Returns (acpiFindRoot p) before (root, width) after) (narrow : width = 8 ∨ width = 4)
    (long : offsetofSdts ≤ (sdtLength (after.machine.mm.object root)).toNat) (unused : after.rootUses = []) :
    ∀ offset ∈ (lastState (acpiParseRsdp fuel p) before).rootUses,
      offset < (sdtLength (after.machine.mm.object root)).toNat := by
  have header : offsetofSdts = 36 := rfl
  rw [lastState_acpiParseRsdp found, numSdts_of_long long narrow]
  apply @leaves_forRange _ _ _ fun acpi : Acpi => ∀ offset ∈ acpi.rootUses,
    offset < (sdtLength (after.machine.mm.object root)).toNat
  · intro index inside _ state covered offset member
    rw [acpiParseEntry_rootUses] at member
    rcases List.mem_append.mp member with earlier | added
    · exact covered offset earlier
    · have range := List.mem_range'_1.mp added
      rcases narrow with rfl | rfl <;> omega
  · intro offset member
    change offset ∈ after.rootUses ++ List.range' 4 4 at member
    rw [unused] at member
    have range := List.mem_range'_1.mp member
    omega

end Walk

/-- The walk parses the declared tables and stays inside the root table exactly when the root table that passes the
validation is at least as long as its header. -/
theorem root_walk_inside_iff (acpi : Acpi) (p : Pointer) :
    RootWalkInside acpi p ↔ ∀ root width middle, Returns (acpiFindRoot p) acpi.fresh (root, width) middle →
      offsetofSdts ≤ (sdtLength (middle.machine.mm.object root)).toNat := by
  constructor
  · intro walk root width middle found
    by_contra short
    have narrow := (returns_acpiFindRoot found).2
    have used := @short_table_read 0 _ _ _ _ _ found narrow (by omega)
    have inside := walk.inside 0 root width middle found _ used
    omega
  · intro long
    constructor
    · intro fuel root width middle found short
      have covered := long root width middle found
      omega
    · intro fuel root width middle found covered after returned
      obtain ⟨rfl, narrow⟩ := returns_acpiFindRoot found
      unfold Returns at returned
      rw [run_acpiParseRsdp found, numSdts_of_long covered narrow] at returned
      obtain ⟨pointers, counted, run⟩ := returns_forRange (fun index _ state => ∃ pointers, pointers.length = index ∧
        RootRun fuel root width (acpi.fresh.useRoot 4 4) pointers state) ⟨[], rfl, .start⟩
        (fun _ _ _ _ _ _ reached => rootRun_step reached) returned
      exact ⟨pointers, counted, run, run.parsed⟩
    · intro fuel root width middle found covered reason after stopped
      obtain ⟨rfl, narrow⟩ := returns_acpiFindRoot found
      unfold Stops at stopped
      rw [run_acpiParseRsdp found, numSdts_of_long covered narrow] at stopped
      obtain ⟨index, _, state, inside, ⟨pointers, counted, run⟩, fault⟩ :=
        stops_forRange (fun index _ state => ∃ pointers, pointers.length = index ∧
          RootRun fuel root width (acpi.fresh.useRoot 4 4) pointers state) ⟨[], rfl, .start⟩
          (fun _ _ _ _ _ _ reached => rootRun_step reached) stopped
      subst counted
      have ended := stops_acpiParseEntry.mp fault
      refine ⟨pointers, state, inside, run, ended, ?_⟩
      rw [parsed_of_stops ended]
      exact congrArg (· ++ _) run.parsed
    · intro fuel root width middle found
      obtain ⟨rfl, narrow⟩ := returns_acpiFindRoot found
      exact long_table_inside found narrow (long _ _ _ found) rfl

/-- The pointer structure of the firmware gives a root table whose length is zero. -/
def sampleHeaderless : Acpi := sampleFirmware
  [0x52, 0x53, 0x44, 0x20, 0x50, 0x54, 0x52, 0x20, 0xDF, 0, 0, 0, 0, 0, 0, 2, 0, 0, 0, 0, 0x24, 0, 0, 0, 0x40, 0xD0,
    0, 0, 0, 0, 0, 0, 0xCC, 0, 0, 0, 0, 0, 0, 0, 0, 0, 0, 0, 0, 0, 0, 0, 0, 0, 0, 0, 0, 0, 0, 0, 0, 0, 0, 0, 0, 0, 0,
    0, 0x58, 0x53, 0x44, 0x54, 0, 0, 0, 0]

/-- A root table of length zero passes the validation, and the bytes behind it give the address of a table. -/
theorem root_table_without_header :
    let p := sampleHhdm + 0xD000#64
    let root := sampleHhdm + 0xD040#64
    Returns (acpiFindRoot p) sampleHeaderless.fresh (root, 8) sampleHeaderless.fresh ∧
      sdtLength (sampleHeaderless.machine.mm.object root) = 0 ∧
      36 ∈ (lastState (acpiParseRsdp 1 p) sampleHeaderless.fresh).rootUses ∧ ¬ RootWalkInside sampleHeaderless p := by
  intro p root
  have ended : Returns (acpiFindRoot p) sampleHeaderless.fresh (root, 8)
      (lastState (acpiFindRoot p) sampleHeaderless.fresh) := returns_lastState (by decide +kernel)
  have found : Returns (acpiFindRoot p) sampleHeaderless.fresh (root, 8) sampleHeaderless.fresh := by
    rw [← (returns_acpiFindRoot ended).1] at ended
    exact ended
  have length : sdtLength (sampleHeaderless.machine.mm.object root) = 0 := by decide +kernel
  have short : (sdtLength (sampleHeaderless.fresh.machine.mm.object root)).toNat < offsetofSdts := by
    change (sdtLength (sampleHeaderless.machine.mm.object root)).toNat < _
    rw [length]
    decide
  have used := @short_table_read 1 _ _ _ _ _ found (Or.inl rfl) short
  refine ⟨found, length, used, ?_⟩
  intro walk
  have inside := walk.inside 1 root 8 _ found _ used
  omega

end UmbralOS
