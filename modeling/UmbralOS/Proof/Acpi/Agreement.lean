import UmbralOS.Proof.Acpi.Mappings

/-!
This file proves that both root tables lead to the same run.
-/

namespace UmbralOS

open Library

/-- The pointer structure of revision zero is valid, and it gives this root table. -/
structure Mm.Rsdp (mm : Mm) (p root : Pointer) : Prop where
  valid : checksum (mm.object p) sizeofRsdp = 0
  revision : mm.object p 15 = 0
  address : root = mm.pHHDM + (readField (mm.object p) 16 4).setWidth 64

/-- The extended pointer structure is valid, and it gives this root table. -/
structure Mm.Xsdp (mm : Mm) (p root : Pointer) : Prop where
  valid : checksum (mm.object p) sizeofRsdp = 0
  revision : mm.object p 15 ≠ 0
  extended : checksum (mm.object p) sizeofXsdp = 0
  address : root = mm.pHHDM + readField (mm.object p) 24 8

/-- The root table is valid, and it lists these addresses in fields of this width. The allocator does not hand out its
pages. -/
structure Mm.Lists (mm : Mm) (root : Pointer) (width : Nat) (addresses : List (BitVec 32)) : Prop where
  valid : checksum (mm.object root) (sdtLength (mm.object root)).toNat = 0
  header : offsetofSdts ≤ (sdtLength (mm.object root)).toNat
  count : ((sdtLength (mm.object root)).toNat - offsetofSdts) / width = addresses.length
  entries : ∀ i (inside : i < addresses.length),
    readField (mm.object root) (offsetofSdts + width * i) width = addresses[i].setWidth (8 * width)
  outside : ∀ offset < (sdtLength (mm.object root)).toNat,
    mm.physical (root + BitVec.ofNat 64 offset) / 4096 ∉ mm.allocatorPages

/-- The state without the notes about the root table. -/
def Acpi.forgetRoot : Acpi → Acpi := Acpi.mapNotes (fun _ => []) id

section Find

variable {acpi : Acpi} {p root : Pointer} {addresses : List (BitVec 32)}

theorem validateRoot_returns {paddr : Phy} {width : Nat} (address : root = acpi.machine.mm.pHHDM + paddr)
    (valid : checksum (acpi.machine.mm.object root) (sdtLength (acpi.machine.mm.object root)).toNat = 0) :
    Returns (do
      let pRoot ← liftMachine (liftMm (phyToVirt paddr))
      let table ← readObject pRoot
      validateSdt table
      pure (pRoot, width) : AcpiProgram (Pointer × Nat)) acpi (root, width) acpi := by
  refine (returns_bind _ _ _ _ _).mpr ⟨_, _, returns_pointer.mpr ⟨address.symm, rfl⟩, ?_⟩
  refine (returns_bind _ _ _ _ _).mpr ⟨_, _, returns_readObject.mpr ⟨rfl, rfl⟩, ?_⟩
  exact (returns_bind _ _ _ _ _).mpr ⟨(), _, returns_panicIf.mpr ⟨not_not.mpr valid, rfl⟩, rfl⟩

theorem Mm.Rsdp.found (rsdp : acpi.machine.mm.Rsdp p root) {width : Nat}
    (lists : acpi.machine.mm.Lists root width addresses) : Returns (acpiFindRoot p) acpi (root, 4) acpi := by
  have old : ¬ 0 < (acpi.machine.mm.object p 15).toNat := by
    rw [rsdp.revision]
    decide
  refine (returns_bind _ _ _ _ _).mpr ⟨_, _, returns_readObject.mpr ⟨rfl, rfl⟩, ?_⟩
  refine (returns_bind _ _ _ _ _).mpr ⟨(), _, returns_panicIf.mpr ⟨not_not.mpr rsdp.valid, rfl⟩, ?_⟩
  rw [if_neg old]
  exact validateRoot_returns rsdp.address lists.valid

theorem Mm.Xsdp.found (xsdp : acpi.machine.mm.Xsdp p root) {width : Nat}
    (lists : acpi.machine.mm.Lists root width addresses) : Returns (acpiFindRoot p) acpi (root, 8) acpi := by
  have new : 0 < (acpi.machine.mm.object p 15).toNat := by
    have revision := xsdp.revision
    rw [← BitVec.toNat_inj.ne] at revision
    exact Nat.pos_of_ne_zero revision
  refine (returns_bind _ _ _ _ _).mpr ⟨_, _, returns_readObject.mpr ⟨rfl, rfl⟩, ?_⟩
  refine (returns_bind _ _ _ _ _).mpr ⟨(), _, returns_panicIf.mpr ⟨not_not.mpr xsdp.valid, rfl⟩, ?_⟩
  rw [if_pos new]
  refine (returns_bind _ _ _ _ _).mpr ⟨(), _, returns_panicIf.mpr ⟨not_not.mpr xsdp.extended, rfl⟩, ?_⟩
  exact validateRoot_returns xsdp.address lists.valid

end Find

/-- The parser of a table does not look at the notes about the root table. -/
theorem respects_parseSdt (roots : List Nat → List Nat) (fuel : Nat) (pSDT : Pointer) :
    Respects (Acpi.mapNotes roots id) (parseSdt fuel pSDT) :=
  respects_bind (respects_modify fun _ => rfl) fun _ => respects_afterNote fuel pSDT

/-- The memory outside the pages of the allocator and the place of the direct map are those of the start. -/
structure Mm.Outlasts (mm : Mm) (live : Set Nat) (start : Mm) : Prop where
  tabled : Tabled mm live
  framed : Framed start mm
  place : mm.pHHDM = start.pHHDM

section Walk

variable {start mm : Mm} {live : Set Nat} {fuel : Nat} {root : Pointer} {width i : Nat} {addresses : List (BitVec 32)}

theorem Mm.Outlasts.driverRun {maps : Mm → MapCall → Prop} {mm' : Mm} (outlasts : mm.Outlasts live start)
    (run : DriverRun maps mm mm') : mm'.Outlasts live start := by
  obtain ⟨tabled, framed, place⟩ := run.framed outlasts.tabled
  exact ⟨tabled, outlasts.framed.trans framed, place.trans outlasts.place⟩

/-- The mapper never changes a root table that lies outside the pages of the allocator. -/
theorem Mm.Lists.sdt_eq {acpi : Acpi} (lists : start.Lists root width addresses)
    (outlasts : acpi.machine.mm.Outlasts live start) (inside : i < addresses.length) :
    acpi.sdt root width i = start.pHHDM + (addresses[i].setWidth (8 * width)).setWidth 64 := by
  have room : offsetofSdts + width * i + width ≤ (sdtLength (start.object root)).toNat := by
    have header := lists.header
    have whole := Nat.mul_div_le ((sdtLength (start.object root)).toNat - offsetofSdts) width
    have last := Nat.mul_le_mul_left width (Nat.succ_le_of_lt inside)
    rw [lists.count] at whole
    rw [Nat.mul_succ] at last
    omega
  have bytes : ∀ offset < (sdtLength (start.object root)).toNat,
      acpi.machine.mm.object root offset = start.object root offset := by
    intro offset below
    have position : acpi.machine.mm.physical (root + BitVec.ofNat 64 offset) =
        start.physical (root + BitVec.ofNat 64 offset) := by rw [Mm.physical, Mm.physical, outlasts.place]
    rw [Mm.object, Mm.object, position]
    exact outlasts.framed.memory _ (lists.outside offset below)
  have field : readField (acpi.machine.mm.object root) (offsetofSdts + width * i) width =
      readField (start.object root) (offsetofSdts + width * i) width := by
    unfold readField
    rw [Memory.load_congr]
    intro offset _ upper
    exact bytes offset (by omega)
  rw [Acpi.sdt, field, lists.entries i inside, outlasts.place]

/-- Both walks parse the same table at each index. -/
theorem walks_agree {acpi : Acpi} {rsdt xsdt : Pointer} (tabled : Tabled acpi.machine.mm live)
    (narrow : acpi.machine.mm.Lists rsdt 4 addresses) (wide : acpi.machine.mm.Lists xsdt 8 addresses) :
    mapState Acpi.forgetRoot ((forRange (fun i _ => acpiParseEntry fuel rsdt 4 i) addresses.length ()).run
      (acpi.useRoot 4 4)) =
    mapState Acpi.forgetRoot ((forRange (fun i _ => acpiParseEntry fuel xsdt 8 i) addresses.length ()).run
      (acpi.useRoot 4 4)) := by
  apply forRange_agree fun _ state => state.machine.mm.Outlasts live acpi.machine.mm
  · exact ⟨tabled, Framed.refl _, rfl⟩
  · rfl
  · intro index _ _ state after _ outlasts returned
    have run := driverRun_parseSdt (fun _ _ => mapsWindows_any) (returns_acpiParseEntry.mp returned)
    exact outlasts.driverRun run
  · intro index _ state state' inside outlasts same
    have machine : state'.machine = state.machine := (congrArg Acpi.machine same).symm
    have first := narrow.sdt_eq outlasts inside
    have second := wide.sdt_eq (machine ▸ outlasts) inside
    have pointer : state'.sdt xsdt 8 index = state.sdt rsdt 4 index := by
      have short : addresses[index].setWidth (8 * 4) = addresses[index] := BitVec.setWidth_eq _
      have long : (addresses[index].setWidth (8 * 8)).setWidth 64 = addresses[index].setWidth 64 := BitVec.setWidth_eq _
      rw [first, second, short, long]
    have respects := respects_parseSdt (fun _ => []) fuel (state.sdt rsdt 4 index)
    have forgotten : Acpi.forgetRoot (state.useRoot (offsetofSdts + 4 * index) 4) =
        Acpi.forgetRoot (state'.useRoot (offsetofSdts + 8 * index) 8) := same
    calc mapState Acpi.forgetRoot ((acpiParseEntry fuel rsdt 4 index).run state)
        = (parseSdt fuel (state.sdt rsdt 4 index)).run (state.useRoot (offsetofSdts + 4 * index) 4).forgetRoot := by
          rw [run_acpiParseEntry]
          exact (respects _).symm
      _ = (parseSdt fuel (state'.sdt xsdt 8 index)).run (state'.useRoot (offsetofSdts + 8 * index) 8).forgetRoot := by
          rw [forgotten, pointer]
      _ = mapState Acpi.forgetRoot ((acpiParseEntry fuel xsdt 8 index).run state') := by
          rw [run_acpiParseEntry, pointer]
          exact respects _

end Walk

/-- Once the tables are built, the legacy structure and the extended structure give the same result: the same tables are
parsed in the same order, and the drivers end in the same state or with the same panic. -/
theorem root_tables_agree {live : Set Nat} {acpi : Acpi} {addresses : List (BitVec 32)} {p p' rsdt xsdt : Pointer}
    (tabled : Tabled acpi.machine.mm live) (rsdp : acpi.machine.mm.Rsdp p rsdt)
    (narrow : acpi.machine.mm.Lists rsdt 4 addresses) (xsdp : acpi.machine.mm.Xsdp p' xsdt)
    (wide : acpi.machine.mm.Lists xsdt 8 addresses) (fuel : Nat) :
    mapState Acpi.forgetRoot ((acpiParseRsdp fuel p).run acpi) =
      mapState Acpi.forgetRoot ((acpiParseRsdp fuel p').run acpi) := by
  rw [run_acpiParseRsdp (rsdp.found narrow), run_acpiParseRsdp (xsdp.found wide),
    numSdts_of_long narrow.header (Or.inr rfl), numSdts_of_long wide.header (Or.inl rfl), narrow.count, wide.count]
  exact walks_agree tabled narrow wide

/-- After `vmm_init`, the pages of the allocator lie in the usable entries of the memory map. -/
theorem VmmStarted.allocatorPages_subset {memmap : List LimineMemmapEntry} {executable : LimineExecutableAddress}
    {phhdm : Pointer} {live : Set Nat} {boot start booted : Mm} (pmm : PmmStarted memmap phhdm boot start)
    (vmm : VmmStarted memmap executable live start booted) :
    booted.allocatorPages ⊆ pagesOf LimineMemmapEntry.Usable memmap := by
  have usable : start.usablePages ⊆ pagesOf LimineMemmapEntry.Usable memmap := by
    rw [pmm.usablePages]
    exact Set.sdiff_subset
  apply Set.union_subset
  · exact Set.union_subset (vmm.usable.trans usable) (vmm.tables.trans usable)
  · rw [vmm.bitmap]
    exact pmm.bitmapPages_subset

/-- The firmware has both pointer structures and both root tables, and each root table lists the same two tables. -/
def sampleBothRoots : Acpi := sampleFirmware
  ([0x52, 0x53, 0x44, 0x20, 0x50, 0x54, 0x52, 0x20, 0xD9, 0, 0, 0, 0, 0, 0, 0, 0x38, 0xD0, 0, 0] ++
    [0x52, 0x53, 0x44, 0x20, 0x50, 0x54, 0x52, 0x20, 0xDF, 0, 0, 0, 0, 0, 0, 2, 0, 0, 0, 0, 0x24, 0, 0, 0, 0x64, 0xD0,
      0, 0, 0, 0, 0, 0, 0xA8, 0, 0, 0] ++
    sampleHeader [0x52, 0x53, 0x44, 0x54] 44 0x52 ++ [0x98, 0xD0, 0, 0, 0x0C, 0xD1, 0, 0] ++
    sampleHeader [0x58, 0x53, 0x44, 0x54] 52 0x44 ++ [0x98, 0xD0, 0, 0, 0, 0, 0, 0, 0x0C, 0xD1, 0, 0, 0, 0, 0, 0] ++
    sampleHeader [0x46, 0x41, 0x43, 0x50] 116 0x70 ++ List.replicate 73 0 ++ [2, 0, 0, 0, 0, 0, 0] ++
    sampleHeader [0x53, 0x53, 0x44, 0x54] 36 0x9E)

theorem sampleBooted_started : Tabled sampleBooted ∅ ∧ sampleBooted.pHHDM = sampleHhdm ∧
    sampleBooted.allocatorPages ⊆ pagesOf LimineMemmapEntry.Usable sampleMemmap := by
  have pmm := sampleBoot_map.pmmStarted sampleStart_returns
  have vmm := sampleBoot_map.vmmStarted sampleStart_returns sampleBooted_returns
  exact ⟨vmm.tabled, vmm.pHHDM.trans pmm.pHHDM, VmmStarted.allocatorPages_subset pmm vmm⟩

/-- Bytes outside the pages of the allocator do not matter to the tables. -/
theorem Tabled.overwrite {mm : Mm} {live : Set Nat} {memory : Memory} {place : Pointer} (tabled : Tabled mm live)
    (position : mm.pHHDM = place)
    (kept : ∀ address, address / 4096 ∈ mm.allocatorPages → memory address = mm.memory address) :
    Tabled { mm with memory := memory, pHHDM := place } live ∧
      ({ mm with memory := memory, pHHDM := place } : Mm).allocatorPages = mm.allocatorPages := by
  subst position
  have usable := @usablePages_congr mm { mm with memory := memory } rfl fun address inside => kept address (Or.inr inside)
  have pool : PoolSound { mm with memory := memory } live :=
    tabled.pool.shrink ⟨tabled.pool.placed.fits, tabled.pool.placed.count⟩ usable.subset rfl
  obtain ⟨still, tables, _⟩ := @Tabled.keep mm { mm with memory := memory } live live tabled rfl
    (fun address inside => kept address (Or.inl (Or.inr inside))) pool (usable ▸ tabled.usable) tabled.live
  refine ⟨still, ?_⟩
  rw [Mm.allocatorPages, Mm.allocatorPages, usable, tables]
  rfl

/-- The page at `0xD000` is not usable in the sample memory map. -/
theorem sampleMemmap_page {place : Nat} (lower : 0xD000 ≤ place) (upper : place < 0xE000) :
    place / 4096 ∉ pagesOf LimineMemmapEntry.Usable sampleMemmap := by
  have apart : ∀ entry ∈ sampleMemmap, entry.Usable → entry.base.toNat + entry.length.toNat ≤ 0xD000 := by decide
  rintro ⟨entry, member, usable, address, inside, page⟩
  have first := apart entry member usable
  have last := inside.2
  omega

/-- The tables of the firmware lie outside the pages of the allocator. -/
theorem sampleFirmware_tabled {bytes : List (BitVec 8)} (short : bytes.length ≤ 4096) :
    Tabled (sampleFirmware bytes).machine.mm ∅ ∧
      (sampleFirmware bytes).machine.mm.allocatorPages ⊆ pagesOf LimineMemmapEntry.Usable sampleMemmap := by
  obtain ⟨tabled, position, usable⟩ := sampleBooted_started
  obtain ⟨still, pages⟩ := @Tabled.overwrite sampleBooted ∅ (placeBytes sampleBooted.memory 0xD000 bytes) sampleHhdm
    tabled position fun address inside => if_neg fun ⟨lower, upper⟩ =>
      sampleMemmap_page lower (by omega) (usable inside)
  exact ⟨still, pages.subset.trans usable⟩

/-- Both pointer structures of the sample firmware lead to the same run. -/
theorem root_tables_agree_sample :
    mapState Acpi.forgetRoot ((acpiParseRsdp 1 (sampleHhdm + 0xD000#64)).run sampleBothRoots) =
      mapState Acpi.forgetRoot ((acpiParseRsdp 1 (sampleHhdm + 0xD014#64)).run sampleBothRoots) := by
  obtain ⟨tabled, usable⟩ : Tabled sampleBothRoots.machine.mm ∅ ∧
      sampleBothRoots.machine.mm.allocatorPages ⊆ pagesOf LimineMemmapEntry.Usable sampleMemmap :=
    sampleFirmware_tabled (by decide +kernel)
  have outside : ∀ {place : Nat}, 0xD000 ≤ place → place < 0xE000 →
      place / 4096 ∉ sampleBothRoots.machine.mm.allocatorPages := fun lower upper inside =>
    sampleMemmap_page lower upper (usable inside)
  have rsdp : sampleBothRoots.machine.mm.Rsdp (sampleHhdm + 0xD000#64) (sampleHhdm + 0xD038#64) :=
    ⟨by decide +kernel, by decide +kernel, by decide +kernel⟩
  have xsdp : sampleBothRoots.machine.mm.Xsdp (sampleHhdm + 0xD014#64) (sampleHhdm + 0xD064#64) :=
    ⟨by decide +kernel, by decide +kernel, by decide +kernel, by decide +kernel⟩
  have narrowLength : (sdtLength (sampleBothRoots.machine.mm.object (sampleHhdm + 0xD038#64))).toNat = 44 := by
    decide +kernel
  have wideLength : (sdtLength (sampleBothRoots.machine.mm.object (sampleHhdm + 0xD064#64))).toNat = 52 := by
    decide +kernel
  have narrow : sampleBothRoots.machine.mm.Lists (sampleHhdm + 0xD038#64) 4 [0xD098#32, 0xD10C#32] := by
    refine ⟨by decide +kernel, by decide +kernel, by decide +kernel, by decide +kernel, fun offset below => ?_⟩
    have place : sampleBothRoots.machine.mm.physical (sampleHhdm + 0xD038#64 + BitVec.ofNat 64 offset) =
        0xD038 + offset := by
      change (sampleHhdm + 0xD038#64 + BitVec.ofNat 64 offset - sampleHhdm).toNat = _
      bv_omega
    rw [place]
    exact outside (by omega) (by omega)
  have wide : sampleBothRoots.machine.mm.Lists (sampleHhdm + 0xD064#64) 8 [0xD098#32, 0xD10C#32] := by
    refine ⟨by decide +kernel, by decide +kernel, by decide +kernel, by decide +kernel, fun offset below => ?_⟩
    have place : sampleBothRoots.machine.mm.physical (sampleHhdm + 0xD064#64 + BitVec.ofNat 64 offset) =
        0xD064 + offset := by
      change (sampleHhdm + 0xD064#64 + BitVec.ofNat 64 offset - sampleHhdm).toNat = _
      bv_omega
    rw [place]
    exact outside (by omega) (by omega)
  exact root_tables_agree tabled rsdp narrow xsdp wide 1

end UmbralOS
