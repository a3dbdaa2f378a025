import UmbralOS.Proof.Startup.Accounts

/-!
This file proves that the tables of the firmware decide which legacy devices the start of the kernel uses.
-/

namespace UmbralOS

open Library

section Frame

variable {memmap : List LimineMemmapEntry} {executable : LimineExecutableAddress} {phhdm : Pointer} {mm mm' : Mm}
  {live : Set Nat}

/-- The allocator starts with writes to its bitmap only. -/
theorem pmmInit_frame (ends : ∀ entry ∈ memmap, entry.Usable → entry.base.toNat + entry.length.toNat ≤ 2 ^ 64)
    (returned : Returns (pmmInit memmap phhdm) mm () mm') :
    ∀ address, address / 4096 ∉ mm'.bitmapPages → mm'.memory address = mm.memory address := by
  simp only [pmmInit, returns_bind, returns_modify, returns_panicIf, returns_phyToVirt, returns_memzero] at returned
  obtain ⟨_, _, rfl, _, _, rfl, _, _, ⟨found, rfl⟩, _, _, ⟨rfl, rfl⟩, _, _, rfl, _, _, rfl, _, marked, loop, last⟩ :=
    returned
  generalize counted : roundUp (highestAddr memmap) pageSize / pageSize = numPages at *
  have count : numPages.toNat < 2 ^ 52 := by
    rw [← counted, toNat_div_pageSize]
    omega
  obtain ⟨entry, member, usable, room, base⟩ := bitmapRegion_spec found
  rw [base] at loop last
  have size := toNat_bitmapSize count
  have longer := BitVec.lt_def.mp room
  have inside := ends entry member usable
  let start : Mm := {
    memory := mm.memory.fill (phhdm + entry.base - phhdm).toNat (bitmapSize numPages).toNat 0
    pmmData := ⟨numPages, phhdm + entry.base⟩
    pHHDM := phhdm, pml4 := mm.pml4, cr3 := mm.cr3, msr := mm.msr, cpuid := mm.cpuid }
  have cancel : phhdm + entry.base - phhdm = entry.base := by bv_omega
  have startBase : start.bitmapBase = entry.base.toNat := by
    simp only [Mm.bitmapBase, Mm.physical, start, cancel]
  have startBytes : start.bitmapBytes = (numPages.toNat + 7) / 8 := rfl
  have placed : start.Placed := ⟨by rw [startBase, startBytes]; omega, count⟩
  change Returns _ start () marked at loop
  obtain ⟨only, _⟩ := usablePages_markEntries placed LimineMemmapEntry.Usable
    (fun entry chosen => if_pos chosen) (fun entry skipped => if_neg skipped) loop
  obtain ⟨_, _, kept⟩ := returns_pmmMarkRange (only.placed placed) last
  have all := only.trans kept.only
  intro address outside
  rw [all.bitmapPages_eq] at outside
  rw [all.frame_page outside]
  refine Memory.fill_outside _ _ ?_
  by_contra within
  refine outside ⟨address, ?_, ?_, rfl⟩
  · rw [startBase]
    rw [cancel] at within
    omega
  · rw [startBase, startBytes]
    rw [cancel, size] at within
    omega

/-- The root table takes a usable page. -/
theorem vmmInitRoot_frame (pool : PoolSound mm live) (returned : Returns vmmInitRoot mm () mm') :
    ∀ address, address / 4096 ∉ mm.usablePages → address / 4096 ∉ mm.bitmapPages →
      mm'.memory address = mm.memory address := by
  simp only [vmmInitRoot, wrmsr, returns_bind, returns_get, returns_panicIf, returns_modify, returns_phyToVirt,
    returns_memzero] at returned
  obtain ⟨_, _, ⟨rfl, rfl⟩, _, _, ⟨_, rfl⟩, _, registered, registeredEq, page, marked, allocated, _, _,
    ⟨rfl, rfl⟩, _, _, rfl, filledEq⟩ := returned
  have placed : registered.Placed := by
    rw [← registeredEq]
    exact ⟨pool.placed.fits, pool.placed.count⟩
  obtain ⟨aligned, _, available, taken⟩ := returns_pmmAllocPages placed allocated
  have usableBefore : registered.usablePages = mm.usablePages := by rw [← registeredEq]; rfl
  have bitmapBefore : registered.bitmapPages = mm.bitmapPages := by rw [← registeredEq]; rfl
  have free : page.toNat / 4096 ∈ mm.usablePages := usableBefore ▸ available ⟨le_rfl, by simp⟩
  have start : marked.pHHDM + page - marked.pHHDM = page := by bv_omega
  have whole : pageSize.toNat = 4096 := rfl
  simp only [Mm.physical, start, whole] at filledEq
  intro address unused unmapped
  have other : address / 4096 ≠ page.toNat / 4096 := fun same => unused (same ▸ free)
  have filled : mm'.memory address = marked.memory address := by
    rw [← filledEq]
    exact Memory.fill_outside _ _ (by omega)
  rw [filled, taken.only.frame_page (by rwa [bitmapBefore]), ← registeredEq]

/-- A call of the mapper leaves the memory alone outside the pages of the allocator. -/
theorem preserves_vmmMap {start : Mm} (call : MapCall) :
    Preserves (fun mm => mm.Outlasts live start) call.run := by
  intro mm _ mm' outlasts returned
  obtain ⟨grown, framed⟩ := vmmMap_framed outlasts.tabled returned
  exact ⟨grown.tabled, outlasts.framed.trans framed, grown.pHHDM_eq.trans outlasts.place⟩

theorem preserves_vmmMapEntry {start : Mm} (entry : LimineMemmapEntry) :
    Preserves (fun mm => mm.Outlasts live start) (vmmMapEntry entry) := by
  have map (flags : BitVec 32) (virt : Pointer) := @preserves_vmmMap live start ⟨entry.base, virt, entry.length, flags⟩
  refine preserves_bind (fun mm _ mm' outlasts returned => ?_) fun virt => ?_
  · obtain ⟨_, rfl⟩ := returns_phyToVirt.mp returned
    exact outlasts
  · split
    · exact map _ _
    · exact map _ _
    · exact map _ _
    · exact map _ _
    · exact map _ _
    · exact preserves_pure ()

theorem preserves_vmmMapSegments {start : Mm} (pType : ElfSegmentType) :
    Preserves (fun mm => mm.Outlasts live start) (vmmMapSegments executable pType) :=
  preserves_forM (fun _ => preserves_ite _ (preserves_vmmMap (unalignedCall _ _ _ _)) (preserves_pure ())) _

/-- The boot mapping writes only to usable pages and to the bitmap. -/
theorem vmmInit_frame (pool : PoolSound mm live) (returned : Returns (vmmInit memmap executable) mm () mm') :
    ∀ address, address / 4096 ∉ mm.usablePages → address / 4096 ∉ mm.bitmapPages →
      mm'.memory address = mm.memory address := by
  intro address unused unmapped
  obtain ⟨root, last, rooted, mapped, rfl⟩ := returns_vmmInit_iff.mp returned
  obtain ⟨state, _⟩ := @vmmInitRoot_poolState memmap executable mm.pHHDM mm root live pool rooted
  have start : root.Outlasts live root := ⟨state.tabled, Framed.refl root, rfl⟩
  have outlasts : last.Outlasts live root := by
    refine preserves_bind (preserves_forM preserves_vmmMapEntry memmap) (fun _ => ?_) _ _ _ start mapped
    exact preserves_bind (preserves_vmmMapSegments _) fun _ => preserves_vmmMapSegments _
  have outside : address / 4096 ∉ root.allocatorPages := by
    rintro (taken | bitmap)
    · exact unused (state.pool ▸ (taken : address / 4096 ∈ root.poolPages))
    · exact unmapped (state.bitmap ▸ bitmap)
  exact (outlasts.framed.memory address outside).trans (vmmInitRoot_frame pool rooted address unused unmapped)

end Frame

/-- The pointer structure gives the root table and the width of its addresses. -/
def Mm.rootOf (mm : Mm) (p : Pointer) : Pointer × Nat :=
  if 0 < (mm.object p 15).toNat then (mm.pHHDM + readField (mm.object p) 24 8, 8)
  else (mm.pHHDM + (readField (mm.object p) 16 4).setWidth 64, 4)

theorem root_of_validateRoot {acpi acpi' : Acpi} {root : Pointer} {width width' : Nat} {paddr : Phy}
    (found : Returns (do
      let pRoot ← liftMachine (liftMm (phyToVirt paddr))
      let table ← readObject pRoot
      validateSdt table
      pure (pRoot, width) : AcpiProgram (Pointer × Nat)) acpi (root, width') acpi') :
    (acpi.machine.mm.pHHDM + paddr, width) = (root, width') := by
  obtain ⟨_, _, pointer, rest⟩ := (returns_bind _ _ _ _ _).mp found
  obtain ⟨rfl, _⟩ := returns_pointer.mp pointer
  obtain ⟨_, _, _, rest⟩ := (returns_bind _ _ _ _ _).mp rest
  obtain ⟨_, _, _, last⟩ := (returns_bind _ _ _ _ _).mp rest
  exact ((returns_pure _ _ _ _).mp last).1

theorem rootOf_of_returns {acpi acpi' : Acpi} {p root : Pointer} {width : Nat}
    (found : Returns (acpiFindRoot p) acpi (root, width) acpi') : acpi.machine.mm.rootOf p = (root, width) := by
  obtain ⟨pRSDP, _, read, rest⟩ := (returns_bind _ _ _ _ _).mp found
  obtain ⟨rfl, rfl⟩ := returns_readObject.mp read
  obtain ⟨_, _, valid, rest⟩ := (returns_bind _ _ _ _ _).mp rest
  obtain ⟨_, rfl⟩ := returns_panicIf.mp valid
  unfold Mm.rootOf
  split_ifs at rest ⊢ with extended
  · obtain ⟨_, _, valid, rest⟩ := (returns_bind _ _ _ _ _).mp rest
    obtain ⟨_, rfl⟩ := returns_panicIf.mp valid
    exact root_of_validateRoot rest
  · exact root_of_validateRoot rest

/-- Outside some pages, the pointer structure gives the same root table in both states. -/
theorem Mm.Agrees.rootOf_eq {busy : Set Nat} {first second : Mm} {p : Pointer} (agrees : first.Agrees busy second)
    (outside : ∀ offset < sizeofXsdp, first.physical (p + BitVec.ofNat 64 offset) / 4096 ∉ busy) :
    second.rootOf p = first.rootOf p := by
  have size : sizeofXsdp = 36 := rfl
  have field (offset width : Nat) (inside : offset + width ≤ 36) :
      readField (second.object p) offset width = readField (first.object p) offset width := by
    unfold readField
    rw [Memory.load_congr fun found _ upper => agrees.object_eq (outside found (by omega))]
  have revision : second.object p 15 = first.object p 15 := agrees.object_eq (outside 15 (by decide))
  rw [rootOf, rootOf, revision, field 24 8 (by decide), field 16 4 (by decide), agrees.place]

/-- The pages that the start of the kernel may change before it parses the tables. -/
def busyPages (memmap : List LimineMemmapEntry) : Set Nat :=
  pagesOf LimineMemmapEntry.Usable memmap ∪ pagesOf LimineMemmapEntry.Framebuffer memmap

/-- The boot memory, seen through the direct map of the boot loader. -/
def Booting.loaded (booting : Booting) (offset : Pointer) : Acpi :=
  { booting.acpi with machine := { booting.machine with mm := { booting.machine.mm with pHHDM := offset } } }

/-- The pointer structure, the root table and the first bytes of the tables lie in memory that the kernel leaves alone. -/
structure FirmwareStays (memmap : List LimineMemmapEntry) (acpi : Acpi) (p : Pointer) : Prop where
  pointer : ∀ offset < sizeofXsdp, acpi.machine.mm.physical (p + BitVec.ofNat 64 offset) / 4096 ∉ busyPages memmap
  tables : acpi.TablesStay (busyPages memmap) (acpi.machine.mm.rootOf p).1 (acpi.machine.mm.rootOf p).2

section Firmware

variable {debugChecks : Bool} {timing : Ps2Timing} {fuel : Nat} {flantermFbInit : BootingProgram Unit}
  {responses : LimineResponses} {stackOrigin : Pointer} {stackFrame : StackFrame} {booting booted : Booting} {p : Pointer}

/-- The kernel reaches the parser with the boot memory outside the pages that it changes. -/
theorem MainStages.agrees {start : Mm} {mapped drawn : Booting} {parsed : Acpi} {reclaimed : Mm}
    (stages : MainStages debugChecks fuel flantermFbInit responses stackOrigin booting start mapped drawn p parsed
      reclaimed booted)
    (pooled : PooledMap responses.memmap)
    (ends : ∀ entry ∈ responses.memmap, entry.Pooled → entry.base.toNat + entry.length.toNat ≤ 2 ^ 52)
    (client : ClientTerminal responses.memmap flantermFbInit) :
    (∃ live, Tabled drawn.machine.mm live) ∧
      drawn.machine.mm.allocatorPages ⊆ pagesOf LimineMemmapEntry.Usable responses.memmap ∧
      (booting.loaded responses.offset).machine.mm.Agrees (busyPages responses.memmap) drawn.machine.mm ∧
      ∀ firmware, drawn.acpi.platform firmware = mapped.acpi.platform firmware := by
  obtain ⟨within, invariant⟩ := @systemInvariant_start Unit _ _ _ _ _ _ ends stages.init stages.map
  have usableEnds := fun entry member usable => ends entry member (Or.inl usable)
  have wide : ∀ entry ∈ responses.memmap, entry.Usable → entry.base.toNat + entry.length.toNat ≤ 2 ^ 64 :=
    fun entry member usable => by have last := usableEnds entry member usable; omega
  have pmm := returns_pmmInit wide stages.init
  have pool := pmm.poolSound usableEnds
  have place := (poolState_vmmInit pool stages.map).1.place.trans pmm.pHHDM
  obtain ⟨held, mm, run, same⟩ := clientTerminal_start client _ _ _ _ stages.draw
  obtain ⟨shown, data, _, frame⟩ := terminalRun_accounts pooled within invariant () run
  have machine : drawn.machine.mm = mm := congrArg (fun acpi : Acpi => acpi.machine.mm) same
  rw [← machine] at shown data frame
  refine ⟨⟨_, shown.tabled⟩, Set.subset_union_left.trans (shown.within_usable within rfl), ⟨?_, ?_⟩, fun firmware => ?_⟩
  · rw [data]
    exact place
  · intro address outside
    have unused : address / 4096 ∉ pagesOf LimineMemmapEntry.Usable responses.memmap := fun inside =>
      outside (Or.inl inside)
    have unmapped : address / 4096 ∉ start.bitmapPages := fun inside => unused (within inside)
    have taken : address / 4096 ∉ start.usablePages := by
      rw [pmm.usablePages]
      exact fun inside => unused inside.1
    rw [frame address unused fun inside => outside (Or.inr inside),
      vmmInit_frame pool stages.map address taken unmapped]
    exact pmmInit_frame wide stages.init address unmapped
  · rw [same]
    rfl

/-- The tables in the boot memory decide, in their order, whether the kernel starts the PS/2 driver and whether it turns
the legacy controllers off. Controllers that are off never interrupt. The serial port ends in the setup of its driver. -/
theorem main_follows_firmware (rsdp : responses.rsdp = some p) (pooled : PooledMap responses.memmap)
    (ends : ∀ entry ∈ responses.memmap, entry.Pooled → entry.base.toNat + entry.length.toNat ≤ 2 ^ 52)
    (client : ClientTerminal responses.memmap flantermFbInit)
    (stays : FirmwareStays responses.memmap (booting.loaded responses.offset) p)
    (returned : Returns (main debugChecks timing fuel flantermFbInit responses stackOrigin stackFrame) booting () booted)
    (firmware : LegacyDevices) :
    let loaded := booting.loaded responses.offset
    let ready := (booting.machine.legacy firmware).serialReady
    let tables := loaded.tables (loaded.machine.mm.rootOf p).1 (loaded.machine.mm.rootOf p).2
    booted.hasI8042 = (tables.foldl LegacyPlatform.apply ⟨booting.hasI8042, ready⟩).hasI8042 ∧
      booted.machine.legacy firmware = (if ∃ table ∈ tables, TellsPics table then ready.silenced else ready) ∧
      ((∃ table ∈ tables, TellsPics table) →
        ∀ lines slaveLines, ¬ (booted.machine.legacy firmware).Interrupts lines slaveLines) := by
  intro loaded ready tables
  obtain ⟨start, mapped, drawn, p', parsed, reclaimed, stages⟩ := main_stages returned
  obtain rfl : p = p' := Option.some.inj (rsdp.symm.trans stages.rsdp)
  obtain ⟨⟨live, tabled⟩, usable, agrees, drawnPlatform⟩ := stages.agrees pooled ends client
  obtain ⟨⟨root, width⟩, _, found, _⟩ := (returns_bind _ _ _ _ _).mp stages.parse
  obtain ⟨rfl, _⟩ := returns_acpiFindRoot found
  have place : loaded.machine.mm.rootOf p = (root, width) :=
    (agrees.rootOf_eq stays.pointer).symm.trans (rootOf_of_returns found)
  have stay : loaded.TablesStay (busyPages responses.memmap) root width := by
    have tables := stays.tables
    rwa [place] at tables
  have platform : booted.acpi.platform firmware = tables.foldl LegacyPlatform.apply ⟨booting.hasI8042, ready⟩ := by
    have drawnStay : drawn.acpi.TablesStay drawn.acpi.machine.mm.allocatorPages root width :=
      stay.transfer agrees (usable.trans Set.subset_union_left)
    have parsedPlatform := @acpi_parse_rsdp_applies_tables firmware _ _ _ _ _ _ _ tabled found drawnStay stages.parse
    have same := @Acpi.TablesStay.foldl_eq loaded drawn.acpi _ _ _ stay agrees
    have listed : tables = loaded.tables root width := by
      change loaded.tables (loaded.machine.mm.rootOf p).1 (loaded.machine.mm.rootOf p).2 = _
      rw [place]
    rw [stages.finish, parsedPlatform, same, drawnPlatform, stages.setup, listed]
  have devices : booted.machine.legacy firmware = _ := congrArg LegacyPlatform.devices platform
  rw [LegacyPlatform.foldl_devices] at devices
  refine ⟨congrArg LegacyPlatform.hasI8042 platform, devices, fun tells lines slaveLines => ?_⟩
  rw [devices, if_pos tells]
  exact ready.not_interrupts_silenced lines slaveLines

end Firmware

/-- The sample firmware, as the kernel finds it in the boot memory. -/
def sampleFound : Acpi := sampleBooting.loaded sampleHhdm

/-- The page of the sample tables is neither usable nor part of the framebuffer. -/
theorem sampleTables_page {place : Nat} (lower : 0xB000 ≤ place) (upper : place < 0xC000) :
    place / 4096 ∉ busyPages sampleStartMemmap := by
  have apart : ∀ entry ∈ sampleStartMemmap, entry.type = .usable ∨ entry.type = .framebuffer →
      entry.base.toNat + entry.length.toNat ≤ 0xB000 ∨ 0xC000 ≤ entry.base.toNat := by decide
  rintro (⟨entry, member, type, address, inside, page⟩ | ⟨entry, member, type, address, inside, page⟩)
  · have first := apart entry member (Or.inl type)
    have last := inside.2
    have start := inside.1
    omega
  · have first := apart entry member (Or.inr type)
    have last := inside.2
    have start := inside.1
    omega

/-- A byte behind a place in the sample tables is in their page. -/
theorem sampleTables_physical {mm : Mm} {pointer : Pointer} {start offset : Nat} (place : mm.physical pointer = start)
    (lower : 0xB000 ≤ start) (upper : start + offset < 0xC000) :
    mm.physical (pointer + BitVec.ofNat 64 offset) / 4096 ∉ busyPages sampleStartMemmap := by
  have shifted : mm.physical (pointer + BitVec.ofNat 64 offset) = start + offset := by
    unfold Mm.physical at place ⊢
    bv_omega
  rw [shifted]
  exact sampleTables_page (by omega) upper

theorem sampleFound_stays : FirmwareStays sampleStartMemmap sampleFound (sampleHhdm + 0xB000#64) := by
  have pointer : sampleFound.machine.mm.physical (sampleHhdm + 0xB000#64) = 0xB000 := by decide +kernel
  have place : sampleFound.machine.mm.rootOf (sampleHhdm + 0xB000#64) = (sampleHhdm + 0xB014#64, 4) := by decide +kernel
  have root : sampleFound.machine.mm.physical (sampleHhdm + 0xB014#64) = 0xB014 := by decide +kernel
  have count : sampleFound.tableCount (sampleHhdm + 0xB014#64) 4 = 2 := by decide +kernel
  have first : sampleFound.machine.mm.physical (sampleFound.sdt (sampleHhdm + 0xB014#64) 4 0) = 0xB040 := by decide +kernel
  have second : sampleFound.machine.mm.physical (sampleFound.sdt (sampleHhdm + 0xB014#64) 4 1) = 0xB078 := by decide +kernel
  have header : offsetofSdts = 36 := rfl
  have size : sizeofXsdp = 36 := rfl
  have tables : sampleFound.TablesStay (busyPages sampleStartMemmap) (sampleHhdm + 0xB014#64) 4 := by
    refine ⟨fun offset below => ?_, fun i inside offset below => ?_⟩
    · rw [count] at below
      exact sampleTables_physical root (by omega) (by omega)
    · rw [count] at inside
      obtain rfl | rfl : i = 0 ∨ i = 1 := by omega
      · exact sampleTables_physical first (by omega) (by omega)
      · exact sampleTables_physical second (by omega) (by omega)
  refine ⟨fun offset below => sampleTables_physical pointer (by omega) (by omega), ?_⟩
  rw [place]
  exact tables

/-- The firmware left both controllers without a mask, and it left the serial port without a setup. -/
def sampleLegacy : LegacyDevices where
  master := ⟨.ready, true, false, 0x08, 4, true, 0⟩
  slave := ⟨.ready, true, false, 0x70, 2, true, 0⟩
  uart := ⟨0x80, 0, 0, 0, 0, 0⟩

/-- On the sample machine, the kernel turns the controllers off and sets the serial port up. -/
theorem main_follows_firmware_sample :
    sampleStarted.machine.legacy sampleLegacy = sampleLegacy.serialReady.silenced ∧
      ∀ lines slaveLines, ¬ (sampleStarted.machine.legacy sampleLegacy).Interrupts lines slaveLines := by
  have place : sampleFound.machine.mm.rootOf (sampleHhdm + 0xB000#64) = (sampleHhdm + 0xB014#64, 4) := by decide +kernel
  have count : sampleFound.tableCount (sampleHhdm + 0xB014#64) 4 = 2 := by decide +kernel
  have tells : TellsPics (sampleFound.machine.mm.object (sampleFound.sdt (sampleHhdm + 0xB014#64) 4 0)) := by
    decide +kernel
  have listed : ∃ table ∈ sampleFound.tables (sampleFound.machine.mm.rootOf (sampleHhdm + 0xB000#64)).1
      (sampleFound.machine.mm.rootOf (sampleHhdm + 0xB000#64)).2, TellsPics table := by
    rw [place]
    refine ⟨_, List.mem_map.mpr ⟨0, List.mem_range.mpr ?_, rfl⟩, tells⟩
    rw [count]
    decide
  have fresh : sampleBooting.machine.legacy sampleLegacy = sampleLegacy := rfl
  have follows := main_follows_firmware rfl sampleStartMemmap_pooled (by decide) sampleTerminal_client sampleFound_stays
    sampleStarted_returns sampleLegacy
  have devices := follows.2.1.trans (if_pos listed)
  rw [fresh] at devices
  exact ⟨devices, follows.2.2 listed⟩

end UmbralOS
