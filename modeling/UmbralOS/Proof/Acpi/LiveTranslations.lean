import UmbralOS.Proof.Acpi.Mappings
import UmbralOS.Proof.Memory.DirectMap
import UmbralOS.Proof.Memory.Stopping

/-!
This file proves when the drivers keep the translations that the processor may have cached.
-/

namespace UmbralOS

open Library

/-- The loop of a call maps its pages one by one. -/
def MapCall.mapPage (call : MapCall) (page : Nat) : MmProgram Unit :=
  vmmMapPage (call.what + BitVec.ofNat 64 page * pageSize) (call.virt + BitVec.ofNat 64 page * pageSize) call.flags

/-- After its earlier pages, the call maps this page, or this page panics. -/
structure MapCall.MapsPage (call : MapCall) (mm : Mm) (page : Nat) (before after : Mm) : Prop where
  inside : page < call.size.toNat / 4096
  earlier : Returns (forRange (fun page _ => call.mapPage page) page ()) mm () before
  mapped : lastState (call.mapPage page) before = after

/-- No present leaf gets another physical page, other rights, or another memory type. -/
def Mm.KeepsLeaves (before after : Mm) : Prop :=
  ∀ virt, Canonical virt → ∀ translation, before.translate virt = some translation → after.translate virt = some translation

/-- In a run of `acpi_parse_rsdp`, no mapped page changes a present leaf. -/
def KeepsLive (fuel : Nat) (p : Pointer) (acpi : Acpi) : Prop :=
  ∀ mm call, AcpiMaps fuel p acpi mm call → ∀ page before after, call.MapsPage mm page before after →
    before.KeepsLeaves after

/-- Where two mappings of the run meet, or a mapping of the run meets the boot mapping, they give the same translation. -/
structure WindowsAgree (base : Pointer → Option Translation) (maps : Mm → MapCall → Prop) : Prop where
  boot : ∀ mm call, maps mm call → Agree call.rule base
  devices : ∀ mm call mm' call', maps mm call → maps mm' call' → Agree call.rule call'.rule

/-- Every translation comes from the start or from a call. -/
structure LiveInvariant (base : Pointer → Option Translation) (maps : Mm → MapCall → Prop) (live : Set Nat)
    (mm : Mm) : Prop where
  tabled : Tabled mm live
  attributes : mm.msr msrIa32Pat = patValue
  room : DirectRoom mm.pHHDM
  source : ∀ virt, Canonical virt → ∀ translation, mm.translate virt = some translation →
    base virt = some translation ∨ ∃ found call, maps found call ∧ call.rule virt = some translation

namespace LiveInvariant

variable {base : Pointer → Option Translation} {maps : Mm → MapCall → Prop} {live : Set Nat} {mm mm' : Mm}
  {call : MapCall}

/-- A write of the base register keeps every translation. -/
theorem enable (invariant : LiveInvariant base maps live mm) (value : BitVec 64) :
    LiveInvariant base maps live (mm.withMsr msrIa32ApicBase value) := by
  have other : msrIa32Pat ≠ msrIa32ApicBase := by decide
  refine ⟨invariant.tabled.withMsr value, (mm.withMsr_other other value).trans invariant.attributes, invariant.room, ?_⟩
  rw [Mm.translate_withMsr other]
  exact invariant.source

/-- A call adds only its own translations. -/
theorem map (invariant : LiveInvariant base maps live mm) (window : maps mm call) (whole : call.Whole)
    (returned : Returns call.run mm () mm') : LiveInvariant base maps live mm' := by
  obtain ⟨accepted, remapped⟩ := returns_vmmMap invariant.tabled invariant.attributes whole.physical returned
  refine ⟨remapped.grown.tabled, by rw [remapped.msr_eq, invariant.attributes], ?_, ?_⟩
  · rw [remapped.grown.pHHDM_eq]
    exact invariant.room
  · intro virt canonical translation found
    rw [remapped.translate, show lastApplicable (mapRules call.what call.virt (call.size.toNat / 4096) call.flags) virt =
      call.rule virt from MapCall.lastApplicable_rules whole.toFits accepted canonical, Option.or_eq_some_iff] at found
    rcases found with added | ⟨_, kept⟩
    · exact Or.inr ⟨mm, call, window, added⟩
    · exact invariant.source virt canonical translation kept

/-- The pages of a call keep the leaves when the call agrees with the start and with the other calls. -/
theorem keepsLeaves (invariant : LiveInvariant base maps live mm) (agree : WindowsAgree base maps) (window : maps mm call)
    (whole : call.Whole) {page : Nat} {before after : Mm} (mapped : call.MapsPage mm page before after) :
    before.KeepsLeaves after := by
  have physical := whole.physical
  have inside := mapped.inside
  obtain ⟨_, earlier⟩ := returns_mapPages invariant.tabled invariant.attributes (by omega) mapped.earlier
  have small : (call.what + BitVec.ofNat 64 page * pageSize).toNat < 2 ^ 52 := by
    rw [toNat_pageOffset]
    omega
  intro virt canonical translation found
  obtain rfl := mapped.mapped
  rcases returns_or_stops (call.mapPage page) before with ⟨_, after, returned⟩ | ⟨_, after, stopped⟩
  swap
  · rw [stopped.lastState_eq, vmmMapPage_of_stops earlier.grown.tabled stopped]
    exact found
  rw [returned.lastState_eq]
  obtain ⟨_, last⟩ := returns_vmmMapPage earlier.grown.tabled (by rw [earlier.msr_eq, invariant.attributes]) small returned
  rw [last.translate, lastApplicable_singleton]
  cases applied : pageRule (call.what + BitVec.ofNat 64 page * pageSize) (call.virt + BitVec.ofNat 64 page * pageSize)
      call.flags virt with
  | none => rwa [Option.none_or]
  | some other =>
      rw [whole.pageRule_eq inside canonical] at applied
      split_ifs at applied
      rw [Option.some_or, Option.some_inj]
      rw [earlier.translate, Option.or_eq_some_iff] at found
      rcases found with own | ⟨_, kept⟩
      · have same := whole.rule_of_mapRules inside.le canonical own
        rwa [applied, Option.some_inj] at same
      · rcases invariant.source virt canonical translation kept with start | ⟨_, call', window', given⟩
        · exact agree.boot mm call window virt other translation applied start
        · exact agree.devices mm call _ call' window window' virt other translation applied given

end LiveInvariant

section Run

variable {base : Pointer → Option Translation} {fuel : Nat} {p : Pointer} {acpi : Acpi} {live : Set Nat} {mm : Mm}
  {call : MapCall}

/-- The windows of the devices are whole ranges of the direct map. -/
theorem AcpiMaps.whole (window : AcpiMaps fuel p acpi mm call) (room : DirectRoom mm.pHHDM) : call.Whole := by
  cases window with
  | lapic _ _ => exact lapicCall_whole room
  | ioapic _ _ _ _ _ _ => exact ioapicCall_whole room _

theorem LiveInvariant.driverRun {start : Mm} (invariant : LiveInvariant base (AcpiMaps fuel p acpi) live start)
    (run : DriverRun (AcpiMaps fuel p acpi) start mm) : LiveInvariant base (AcpiMaps fuel p acpi) live mm := by
  induction run with
  | start => exact invariant
  | enable _ _ ih => exact ih.enable _
  | map _ window returned ih => exact ih.map window (window.whole ih.room) returned

/-- Every call of the run starts in a state with the invariant. -/
theorem LiveInvariant.keepsLive (invariant : LiveInvariant base (AcpiMaps fuel p acpi) live acpi.machine.mm)
    (agree : WindowsAgree base (AcpiMaps fuel p acpi)) : KeepsLive fuel p acpi := by
  intro mm call window page before after mapped
  have reached := invariant.driverRun window.driverRun
  exact reached.keepsLeaves agree window (window.whole reached.room) mapped

end Run

section Boot

variable {memmap : List LimineMemmapEntry} {executable : LimineExecutableAddress} {phhdm : Pointer}
  {boot start booted mm : Mm} {live : Set Nat}

/-- The clients of the allocator keep the tables and every translation. -/
theorem PoolRun.clients {stack : Option (Set Nat)} (tabled : Tabled booted ∅)
    (run : PoolRun memmap booted stack mm live) (early : stack = none) :
    Tabled mm live ∧ mm = { booted with memory := mm.memory } ∧ mm.translate = booted.translate := by
  induction run with
  | start => exact ⟨tabled, rfl, rfl⟩
  | client _ step ih =>
      obtain ⟨reached, data, translate⟩ := ih early
      obtain ⟨kept, _, same, _, effect⟩ := reached.client step
      refine ⟨kept, ?_, same.trans translate⟩
      rw [effect.data, data]
  | reclaim _ _ _ _ => cases early

/-- No mapped entry and no segment has a byte on the pages of a range in the direct map. -/
def WindowOutside (memmap : List LimineMemmapEntry) (executable : LimineExecutableAddress) (phhdm : Pointer)
    (address size : BitVec 64) : Prop :=
  ∀ offset, SharesPage address.toNat size.toNat offset →
    (∀ entry ∈ memmap, entry.type.direct ≠ none → offset ∉ entry.bytes) ∧
      ∀ phdr ∈ executable.elfPhdrs, phdr.Used → ¬ SegmentPage phdr executable.virtualBase ((phhdm.toNat + offset) / 4096)

/-- The registers of the local APIC and of every I/O APIC in the tables lie outside the mapped entries and the segments.
The page of the local APIC holds no register of an I/O APIC. -/
structure DevicesOutside (memmap : List LimineMemmapEntry) (executable : LimineExecutableAddress) (phhdm : Pointer)
    (fuel : Nat) (p : Pointer) (acpi : Acpi) : Prop where
  lapic : (acpi.machine.mm.cpuid 1 0).ecx &&& cpuid1EcxX2apic = 0 → WindowOutside memmap executable phhdm
    (acpi.machine.mm.msr msrIa32ApicBase &&& msrIa32ApicBaseMask) (lapicRegisterMax.setWidth 64 * lapicRegisterSize)
  ioapic : ∀ record, acpi.FindsIoapic fuel p record →
    WindowOutside memmap executable phhdm (record.address.setWidth 64) 0x20#64
  apart : (acpi.machine.mm.cpuid 1 0).ecx &&& cpuid1EcxX2apic = 0 → ∀ record, acpi.FindsIoapic fuel p record →
    ∀ offset, SharesPage (acpi.machine.mm.msr msrIa32ApicBase &&& msrIa32ApicBaseMask).toNat
      (lapicRegisterMax.setWidth 64 * lapicRegisterSize).toNat offset →
    ¬ SharesPage (record.address.setWidth 64).toNat (0x20#64).toNat offset

/-- A call that covers no page of a mapped entry and no page of a segment agrees with the boot mapping. -/
theorem MapCall.agree_of_outside {call : MapCall}
    (entries : ∀ virt, call.Covers virt → ∀ entry ∈ memmap, entry.type.direct ≠ none →
      (virt - phhdm).toNat ∉ entry.bytes)
    (segments : ∀ virt, call.Covers virt → ∀ phdr ∈ executable.elfPhdrs, phdr.Used →
      ¬ SegmentPage phdr executable.virtualBase (virt.toNat / 4096)) :
    Agree call.rule (lastApplicable (bootRules memmap executable phhdm)) := by
  apply agree_of_apart
  intro virt applies
  have covered : call.Covers virt := by
    by_contra outside
    exact applies (MapCall.rule_outside outside)
  rw [lastApplicable_eq_none_iff]
  intro rule member
  rcases mem_bootRules.mp member with ⟨entry, inside, rfl⟩ | ⟨phdr, inside, used, rfl⟩
  · cases direct : entry.type.direct with
    | none =>
        rw [entryRule, direct]
        rfl
    | some value =>
        rw [entryRule_mapped direct]
        exact if_neg (entries virt covered entry inside (by rw [direct]; exact Option.some_ne_none value))
  · exact if_neg (segments virt covered phdr inside used)

/-- Calls without a common address agree. -/
theorem MapCall.agree_of_disjoint {call call' : MapCall} (disjoint : ∀ virt, call.Covers virt → ¬ call'.Covers virt) :
    Agree call.rule call'.rule := by
  apply agree_of_apart
  intro virt applies
  apply MapCall.rule_outside
  by_contra both
  exact applies (MapCall.rule_outside fun covered => disjoint virt covered both)

/-- A window outside the mapped entries and the segments agrees with the boot mapping. -/
theorem WindowOutside.agree {address size : BitVec 64} {flags : BitVec 32}
    (outside : WindowOutside memmap executable phhdm address size) (room : DirectRoom phhdm) (some : 1 ≤ size.toNat)
    (low : address.toNat + size.toNat ≤ 2 ^ 36) :
    Agree (windowCall phhdm address size flags).rule (lastApplicable (bootRules memmap executable phhdm)) := by
  apply MapCall.agree_of_outside
  · intro virt covered entry member direct
    obtain ⟨offset, inside, rfl, shares⟩ := windowCall_covers room some low covered
    rw [toNat_direct phhdm (by omega)]
    exact (outside offset shares).1 entry member direct
  · intro virt covered phdr member used
    obtain ⟨offset, inside, rfl, shares⟩ := windowCall_covers room some low covered
    rw [room.toNat_add inside]
    exact (outside offset shares).2 phdr member used

/-- It spares the boot mapping. -/
theorem WindowOutside.spares {address size : BitVec 64} {flags : BitVec 32}
    (outside : WindowOutside memmap executable phhdm address size) (map : BootMap memmap executable phhdm)
    (room : DirectRoom phhdm) (some : 1 ≤ size.toNat) (low : address.toNat + size.toNat ≤ 2 ^ 36) :
    (windowCall phhdm address size flags).Spares (bootPlaces memmap executable phhdm) := by
  have whole := windowCall_whole room some low flags
  have length := toNat_unalignedCall_size (show address.toNat + size.toNat ≤ 2 ^ 52 by omega) (phhdm + address) flags
  have pages : (windowCall phhdm address size flags).size.toNat % 4096 = 0 := by
    rw [windowCall, length]
    omega
  refine MapCall.spares_of_disjoint ⟨whole.virtAligned, pages⟩ whole.canonical map.canonicalPlaces ?_
  intro virt place covered
  obtain ⟨offset, inside, rfl, shares⟩ := windowCall_covers room some low covered
  rcases place with ⟨entry, member, direct, bytes⟩ | ⟨phdr, member, used, page⟩
  · rw [toNat_direct phhdm (by omega)] at bytes
    exact (outside offset shares).1 entry member direct bytes
  · rw [room.toNat_add inside] at page
    exact (outside offset shares).2 phdr member used page

/-- Windows on different pages agree. -/
theorem windowCall_agree_of_apart {address size address' size' : BitVec 64} {flags flags' : BitVec 32}
    (room : DirectRoom phhdm) (some : 1 ≤ size.toNat) (low : address.toNat + size.toNat ≤ 2 ^ 36)
    (some' : 1 ≤ size'.toNat) (low' : address'.toNat + size'.toNat ≤ 2 ^ 36)
    (apart : ∀ offset, SharesPage address.toNat size.toNat offset → ¬ SharesPage address'.toNat size'.toNat offset) :
    Agree (windowCall phhdm address size flags).rule (windowCall phhdm address' size' flags').rule := by
  apply MapCall.agree_of_disjoint
  intro virt covered covered'
  obtain ⟨offset, inside, rfl, shares⟩ := windowCall_covers room some low covered
  obtain ⟨offset', inside', same, shares'⟩ := windowCall_covers room some' low' covered'
  have equal : offset = offset' := by
    have places := congrArg BitVec.toNat same
    rw [room.toNat_add inside, room.toNat_add inside'] at places
    omega
  subst equal
  exact apart offset shares shares'

/-- Windows with the same flags agree, because each translates a page of the direct map to the same offset. -/
theorem windowCall_agree_of_flags {address size address' size' : BitVec 64} {flags : BitVec 32}
    (room : DirectRoom phhdm) (some : 1 ≤ size.toNat) (low : address.toNat + size.toNat ≤ 2 ^ 36)
    (some' : 1 ≤ size'.toNat) (low' : address'.toNat + size'.toNat ≤ 2 ^ 36) :
    Agree (windowCall phhdm address size flags).rule (windowCall phhdm address' size' flags).rule := by
  intro virt first second applied applied'
  have covered : (windowCall phhdm address size flags).Covers virt := by
    by_contra outside
    rw [MapCall.rule_outside outside] at applied
    cases applied
  obtain ⟨offset, inside, rfl, _⟩ := windowCall_covers room some low covered
  rw [windowCall_rule room some low inside] at applied
  rw [windowCall_rule room some' low' inside] at applied'
  split_ifs at applied applied'
  exact Option.some.inj (applied.symm.trans applied')

/-- Windows of devices outside the boot mapping agree with it and with each other. -/
theorem DevicesOutside.agree {fuel : Nat} {p : Pointer} {acpi : Acpi}
    (outside : DevicesOutside memmap executable phhdm fuel p acpi) (room : DirectRoom phhdm)
    (tabled : Tabled acpi.machine.mm live) (place : acpi.machine.mm.pHHDM = phhdm) :
    WindowsAgree (lastApplicable (bootRules memmap executable phhdm)) (AcpiMaps fuel p acpi) := by
  subst place
  have size : 1 ≤ (lapicRegisterMax.setWidth 64 * lapicRegisterSize).toNat := by decide
  have lapicLow := lapicRange_low (acpi.machine.mm.msr msrIa32ApicBase)
  constructor
  · intro mm call window
    rcases window.call_eq tabled with ⟨absent, rfl⟩ | ⟨record, found, rfl⟩
    · exact (outside.lapic absent).agree room size lapicLow
    · exact (outside.ioapic record found).agree room (by decide) (ioapicRange_low _)
  · intro mm call mm' call' window window'
    rcases window.call_eq tabled with ⟨absent, rfl⟩ | ⟨record, found, rfl⟩
    · rcases window'.call_eq tabled with ⟨_, rfl⟩ | ⟨record', found', rfl⟩
      · exact Agree.refl _
      · exact windowCall_agree_of_apart room size lapicLow (by decide) (ioapicRange_low _)
          (outside.apart absent record' found')
    · rcases window'.call_eq tabled with ⟨absent', rfl⟩ | ⟨record', _, rfl⟩
      · exact (windowCall_agree_of_apart room size lapicLow (by decide) (ioapicRange_low _)
          (outside.apart absent' record found)).symm
      · exact windowCall_agree_of_flags room (by decide) (ioapicRange_low _) (by decide) (ioapicRange_low _)

/-- They also spare the boot mapping. -/
theorem DevicesOutside.spares {fuel : Nat} {p : Pointer} {acpi : Acpi} {call : MapCall}
    (outside : DevicesOutside memmap executable phhdm fuel p acpi) (map : BootMap memmap executable phhdm)
    (room : DirectRoom phhdm) (tabled : Tabled acpi.machine.mm live) (place : acpi.machine.mm.pHHDM = phhdm)
    (window : AcpiMaps fuel p acpi mm call) : call.Spares (bootPlaces memmap executable phhdm) := by
  subst place
  rcases window.call_eq tabled with ⟨absent, rfl⟩ | ⟨record, found, rfl⟩
  · exact (outside.lapic absent).spares map room (by decide) (lapicRange_low _)
  · exact (outside.ioapic record found).spares map room (by decide) (ioapicRange_low _)

/-- After `vmm_init` and client steps of the allocator, a run of `acpi_parse_rsdp` changes no present leaf when the device
windows lie outside the mapped entries and the segments, and the local APIC shares no page with an I/O APIC. -/
theorem live_translations_kept (map : BootMap memmap executable phhdm) (room : DirectRoom phhdm)
    (init : Returns (pmmInit memmap phhdm) boot () start) (mapped : Returns (vmmInit memmap executable) start () booted)
    {acpi : Acpi} (clients : PoolRun memmap booted none acpi.machine.mm live) {fuel : Nat} {p : Pointer}
    (outside : DevicesOutside memmap executable phhdm fuel p acpi) : KeepsLive fuel p acpi := by
  have position := (map.pmmStarted init).pHHDM
  have vmm := map.vmmStarted init mapped
  obtain ⟨tabled, data, translate⟩ := clients.clients vmm.tabled rfl
  have place : acpi.machine.mm.pHHDM = phhdm := by
    rw [data]
    exact vmm.pHHDM.trans position
  have invariant : LiveInvariant (lastApplicable (bootRules memmap executable phhdm)) (AcpiMaps fuel p acpi) live
      acpi.machine.mm := by
    refine ⟨tabled, ?_, ?_, fun virt canonical translation found => Or.inl ?_⟩
    · rw [data]
      exact vmm.attributes
    · rwa [place]
    · rwa [translate, vmm.translate virt canonical, position] at found
  exact invariant.keepsLive (outside.agree room tabled place)

end Boot

/-- The first table of the root table is the only interrupt table, and the only record of that table is an I/O APIC. -/
structure Acpi.OneIoapic (acpi : Acpi) (fuel : Nat) (p root pSDT : Pointer) (record : MadtIoapic) : Prop where
  found : outcome (acpiFindRoot p) acpi = some (root, 4)
  count : 0 < (numSdts (sdtLength (acpi.machine.mm.object root)) 4).toNat
  others : ∀ pointers state, RootRun fuel root 4 (acpi.useRoot 4 4) pointers state → 0 < pointers.length →
    pointers.length < (numSdts (sdtLength (acpi.machine.mm.object root)) 4).toNat →
    strncmp (state.machine.mm.object (state.sdt root 4 pointers.length)) signatureApic 4 ≠ 0
  address : acpi.sdt root 4 0 = pSDT
  valid : checksum (acpi.machine.mm.object pSDT) (sdtLength (acpi.machine.mm.object pSDT)).toNat = 0
  signature : strncmp (acpi.machine.mm.object pSDT) signatureApic 4 = 0
  length : (Madt.ofBytes (acpi.machine.mm.object pSDT)).length = 56
  record : madtRecord (Madt.ofBytes (acpi.machine.mm.object pSDT)).records 0 = .ioapic record
  step : (Madt.ofBytes (acpi.machine.mm.object pSDT)).records 1 = 12

section OneIoapic

variable {acpi : Acpi} {p root pSDT : Pointer} {record : MadtIoapic} {fuel : Nat}

theorem Acpi.OneIoapic.returns (one : acpi.OneIoapic fuel p root pSDT record) :
    Returns (acpiFindRoot p) acpi (root, 4) acpi := by
  have returned := returns_lastState one.found
  have same := (returns_acpiFindRoot returned).1
  rwa [← same] at returned

theorem Acpi.OneIoapic.reached (one : acpi.OneIoapic fuel p root pSDT record) :
    MadtReached fuel p acpi (acpi.machine.mm.object pSDT) acpi.machine :=
  ⟨⟨root, 4, [], acpi.useRoot 4 4, one.returns, .start, one.count, congrArg acpi.machine.mm.object one.address, rfl⟩,
    one.valid, one.signature⟩

/-- The run parses no other table as an interrupt table. -/
theorem Acpi.OneIoapic.parsed {table : Memory} {machine : Machine} (one : acpi.OneIoapic fuel p root pSDT record)
    (parsed : MadtReached fuel p acpi table machine) : acpi.machine.mm.object pSDT = table := by
  obtain ⟨_, _, pointers, state, found, run, within, rfl, rfl⟩ := parsed.reached
  obtain ⟨same, _⟩ := Returns.unique one.returns found
  obtain ⟨rfl, rfl⟩ := Prod.mk.inj same
  by_cases first : pointers.length = 0
  · cases run with
    | start => exact congrArg acpi.machine.mm.object one.address.symm
    | entry _ _ =>
        rw [List.length_append, List.length_singleton] at first
        omega
  · exact absurd parsed.signature (one.others pointers state run (Nat.pos_of_ne_zero first) within)

/-- The walk over the tables finds no other I/O APIC. -/
theorem Acpi.OneIoapic.finds {other : MadtIoapic} (one : acpi.OneIoapic fuel p root pSDT record)
    (finds : acpi.FindsIoapic fuel p other) : other = record := by
  obtain ⟨table, boot, handled, i, machine, parsed, walked, inside, found⟩ := finds
  obtain rfl := one.parsed parsed
  have offsets : ∀ handled i machine, WalkReaches (.ofBytes (acpi.machine.mm.object pSDT)) boot handled i machine →
      i = 0 ∨ i = 12 := by
    intro handled i machine reached
    induction reached with
    | start _ => exact Or.inl rfl
    | record _ inside _ ih =>
        rcases ih with rfl | rfl
        · rw [show (0 : BitVec 32).toNat + 1 = 1 from rfl, one.step]
          exact Or.inr rfl
        · rw [one.length] at inside
          exact absurd inside (by decide)
  rcases offsets _ _ _ walked with rfl | rfl
  · rw [show (0 : BitVec 32).toNat = 0 from rfl, one.record] at found
    exact (MadtRecord.ioapic.inj found).symm
  · rw [one.length] at inside
    exact absurd inside (by decide)

/-- The run maps at most the windows of the local APIC and of the I/O APIC. -/
theorem Acpi.OneIoapic.maps {live : Set Nat} {mm : Mm} {call : MapCall} (one : acpi.OneIoapic fuel p root pSDT record)
    (tabled : Tabled acpi.machine.mm live) (window : AcpiMaps fuel p acpi mm call) :
    call = lapicCall acpi.machine.mm ∨ call = ioapicCall acpi.machine.mm record := by
  rcases window.call_eq tabled with ⟨_, same⟩ | ⟨other, finds, same⟩
  · exact Or.inl same
  · rw [one.finds finds] at same
    exact Or.inr same

end OneIoapic

/-- Two root tables, each with one address of an interrupt table. The I/O APIC of the first interrupt table lies outside
the memory map, and the I/O APIC of the second lies in the reserved memory that `vmm_init` maps. -/
def sampleTables : List (BitVec 8) :=
  [0x52, 0x53, 0x44, 0x20, 0x50, 0x54, 0x52, 0x20, 0x09, 0, 0, 0, 0, 0, 0, 0, 0x28, 0xB0, 0, 0] ++
    [0x52, 0x53, 0x44, 0x20, 0x50, 0x54, 0x52, 0x20, 0xE1, 0, 0, 0, 0, 0, 0, 0, 0x50, 0xB0, 0, 0] ++
    sampleHeader [0x52, 0x53, 0x44, 0x54] 40 0x73 ++ [0x78, 0xB0, 0, 0] ++
    sampleHeader [0x52, 0x53, 0x44, 0x54] 40 0x3B ++ [0xB0, 0xB0, 0, 0] ++
    sampleHeader [0x41, 0x50, 0x49, 0x43] 56 0x9B ++ [0, 0, 0, 0, 0, 0, 0, 0, 1, 12, 0, 0, 0, 0, 3, 0, 0, 0, 0, 0] ++
    sampleHeader [0x41, 0x50, 0x49, 0x43] 56 0xCE ++ [0, 0, 0, 0, 0, 0, 0, 0, 1, 12, 0, 0, 0, 0xD0, 0, 0, 0, 0, 0, 0]

/-- The tables lie in memory from the start, and the processor has no x2APIC. -/
def sampleLoaded : Mm := { sampleBoot with
  memory := placeBytes sampleBoot.memory 0xB000 sampleTables
  msr := fun register => if register = msrIa32ApicBase then 0x20900#64 else 0
  cpuid := fun _ _ => ⟨0, 0, 0, cpuid1EdxPat⟩ }

def sampleLoadedStart : Mm := lastState (pmmInit sampleMemmap sampleHhdm) sampleLoaded

theorem sampleLoadedStart_returns : Returns (pmmInit sampleMemmap sampleHhdm) sampleLoaded () sampleLoadedStart :=
  returns_lastState (by decide +kernel)

def sampleLoadedBooted : Mm := lastState (vmmInit sampleMemmap sampleExecutable) sampleLoadedStart

theorem sampleLoadedBooted_returns :
    Returns (vmmInit sampleMemmap sampleExecutable) sampleLoadedStart () sampleLoadedBooted :=
  returns_lastState (by decide +kernel)

/-- The parser starts with the sample devices and this memory manager. -/
def sampleParser (mm : Mm) : Acpi where
  machine := { sampleMachine with mm := mm }
  hasI8042 := true
  parsed := []
  rootUses := []
  uses := []

theorem sampleParser_mm (mm : Mm) : (sampleParser mm).machine.mm = mm := rfl

theorem sampleLoaded_started : Tabled (sampleParser sampleLoadedBooted).machine.mm ∅ ∧
    (sampleParser sampleLoadedBooted).machine.mm.pHHDM = sampleHhdm := by
  have vmm := sampleBoot_map.vmmStarted sampleLoadedStart_returns sampleLoadedBooted_returns
  rw [sampleParser_mm]
  exact ⟨vmm.tabled, vmm.pHHDM.trans (sampleBoot_map.pmmStarted sampleLoadedStart_returns).pHHDM⟩

/-- A root table with one address has no other table. -/
theorem sampleLoaded_others {acpi : Acpi} {root : Pointer}
    (one : (numSdts (sdtLength (acpi.machine.mm.object root)) 4).toNat = 1) (pointers : List Pointer) (state : Acpi)
    (_ : RootRun 1 root 4 (acpi.useRoot 4 4) pointers state) (later : 0 < pointers.length)
    (within : pointers.length < (numSdts (sdtLength (acpi.machine.mm.object root)) 4).toNat) :
    strncmp (state.machine.mm.object (state.sdt root 4 pointers.length)) signatureApic 4 ≠ 0 := by omega

/-- The I/O APIC of the first interrupt table, and the I/O APIC of the second. -/
theorem sampleLoaded_outside : (sampleParser sampleLoadedBooted).OneIoapic 1 (sampleHhdm + 0xB000#64)
    (sampleHhdm + 0xB028#64) (sampleHhdm + 0xB078#64) ⟨0x30000#32, 0⟩ :=
  ⟨by decide +kernel, by decide +kernel, sampleLoaded_others (by decide +kernel), by decide +kernel, by decide +kernel,
    by decide +kernel, by decide +kernel, by decide +kernel, by decide +kernel⟩

theorem sampleLoaded_reserved : (sampleParser sampleLoadedBooted).OneIoapic 1 (sampleHhdm + 0xB014#64)
    (sampleHhdm + 0xB050#64) (sampleHhdm + 0xB0B0#64) ⟨0xD000#32, 0⟩ :=
  ⟨by decide +kernel, by decide +kernel, sampleLoaded_others (by decide +kernel), by decide +kernel, by decide +kernel,
    by decide +kernel, by decide +kernel, by decide +kernel, by decide +kernel⟩

theorem sampleLapicCall_eq : lapicCall (sampleParser sampleLoadedBooted).machine.mm =
    ⟨0x20000#64, 0xFFFF800000020000#64, 0x1000#64, mW⟩ := by decide +kernel

theorem sampleReservedCall_eq : ioapicCall (sampleParser sampleLoadedBooted).machine.mm ⟨0xD000#32, 0⟩ =
    ⟨0xD000#64, 0xFFFF80000000D000#64, 0x1000#64, mCacheUc ||| mW⟩ := by decide +kernel

/-- The drivers start to walk the second interrupt table here, and they map the page of its I/O APIC. -/
def sampleReservedTable : Madt :=
  .ofBytes ((sampleParser sampleLoadedBooted).machine.mm.object (sampleHhdm + 0xB0B0#64))

def sampleReservedBegun : Machine :=
  lastState (acpiBeginMadt sampleReservedTable) (sampleParser sampleLoadedBooted).machine

def sampleReservedMapped : Mm :=
  lastState ((ioapicCall sampleReservedBegun.mm ⟨0xD000#32, 0⟩).mapPage 0) sampleReservedBegun.mm

/-- The window of an I/O APIC lies in reserved memory, outside the memory of the allocator and the framebuffer. The boot
mapping translates it for reading with caching, and the driver makes it writable and uncached. -/
theorem not_live_translations_kept :
    BootMap sampleMemmap sampleExecutable sampleHhdm ∧
    Returns (pmmInit sampleMemmap sampleHhdm) sampleLoaded () sampleLoadedStart ∧
    Returns (vmmInit sampleMemmap sampleExecutable) sampleLoadedStart () sampleLoadedBooted ∧
    (∀ mm call, AcpiMaps 1 (sampleHhdm + 0xB014#64) (sampleParser sampleLoadedBooted) mm call →
      ∀ virt, call.Covers virt → ∀ entry ∈ sampleMemmap, entry.Pooled ∨ entry.type = .framebuffer →
        (virt - sampleHhdm).toNat ∉ entry.bytes) ∧
    ¬ KeepsLive 1 (sampleHhdm + 0xB014#64) (sampleParser sampleLoadedBooted) := by
  refine ⟨sampleBoot_map, sampleLoadedStart_returns, sampleLoadedBooted_returns, ?_, fun kept => ?_⟩
  · intro mm call window virt covered entry member selected inside
    have calls := sampleLoaded_reserved.maps sampleLoaded_started.1 window
    rw [sampleLapicCall_eq, sampleReservedCall_eq] at calls
    have hhdm : sampleHhdm.toNat = 0xFFFF800000000000 := rfl
    have below : ∀ entry ∈ sampleMemmap, entry.Pooled ∨ entry.type = .framebuffer →
        entry.base.toNat + entry.length.toNat ≤ 0xD000 := by decide
    have last := below entry member selected
    have first : 0xFFFF80000000D000 ≤ virt.toNat ∧ virt.toNat < 0xFFFF800000021000 := by
      rcases calls with rfl | rfl
      · exact ⟨le_trans (by decide) covered.1, covered.2.trans_le (by decide)⟩
      · exact ⟨covered.1, covered.2.trans_le (by decide)⟩
    have place := inside.2
    rw [BitVec.toNat_sub] at place
    omega
  · have begun : Returns (acpiBeginMadt sampleReservedTable) (sampleParser sampleLoadedBooted).machine ()
        sampleReservedBegun := returns_lastState (by decide +kernel)
    have window : AcpiMaps 1 (sampleHhdm + 0xB014#64) (sampleParser sampleLoadedBooted) sampleReservedBegun.mm
        (ioapicCall sampleReservedBegun.mm ⟨0xD000#32, 0⟩) :=
      .ioapic (sampleLoaded_reserved.reached) (.start begun) (by decide +kernel) sampleLoaded_reserved.record
        (by decide +kernel) rfl
    have page : (ioapicCall sampleReservedBegun.mm ⟨0xD000#32, 0⟩).MapsPage sampleReservedBegun.mm 0
        sampleReservedBegun.mm sampleReservedMapped :=
      ⟨by decide +kernel, (returns_pure _ _ _ _).mpr ⟨rfl, rfl⟩, rfl⟩
    have before : sampleReservedBegun.mm.translate (sampleHhdm + 0xD000#64) = some ⟨0xD, false, false, true, 6#8⟩ := by
      decide +kernel
    have after : sampleReservedMapped.translate (sampleHhdm + 0xD000#64) = some ⟨0xD, true, false, true, 7#8⟩ := by
      decide +kernel
    have same := kept _ _ window 0 _ _ page (sampleHhdm + 0xD000#64) (by decide) _ before
    rw [after] at same
    exact absurd same (by decide)

/-- A low range between the sample entries lies outside the boot mapping. -/
theorem sampleWindow_outside {memmap : List LimineMemmapEntry}
    (apart : ∀ entry ∈ memmap, entry.base.toNat + entry.length.toNat ≤ 0x10000 ∨ 0x40000 ≤ entry.base.toNat)
    {address size : BitVec 64} (lower : 0x10000 ≤ address.toNat) (upper : address.toNat + size.toNat ≤ 0x40000) :
    WindowOutside memmap sampleExecutable sampleHhdm address size := by
  rintro offset ⟨k, below, same⟩
  constructor
  · intro entry member _ inside
    have away := apart entry member
    have start := inside.1
    have last := inside.2
    omega
  · intro phdr _ _ page
    have window : sampleExecutable.virtualBase.toNat = 0xFFFFFFFF80000000 := rfl
    have hhdm : sampleHhdm.toNat = 0xFFFF800000000000 := rfl
    have first := page.1
    omega

/-- The windows at 0x20000 and 0x30000 lie between the sample entries. -/
theorem sampleDevices_outside {memmap : List LimineMemmapEntry}
    (apart : ∀ entry ∈ memmap, entry.base.toNat + entry.length.toNat ≤ 0x10000 ∨ 0x40000 ≤ entry.base.toNat)
    {acpi : Acpi} {fuel : Nat} {p root pSDT : Pointer} (one : acpi.OneIoapic fuel p root pSDT ⟨0x30000#32, 0⟩)
    (base : acpi.machine.mm.msr msrIa32ApicBase &&& msrIa32ApicBaseMask = 0x20000#64) :
    DevicesOutside memmap sampleExecutable sampleHhdm fuel p acpi := by
  constructor
  · intro _
    rw [base]
    exact sampleWindow_outside apart (by decide) (by decide)
  · intro record finds
    rw [one.finds finds]
    exact sampleWindow_outside apart (by decide) (by decide)
  · intro _ record finds offset shares shares'
    rw [base] at shares
    rw [one.finds finds] at shares'
    obtain ⟨k, below, same⟩ := shares
    obtain ⟨k', _, same'⟩ := shares'
    have size : (lapicRegisterMax.setWidth 64 * lapicRegisterSize).toNat ≤ 0x1000 := by decide
    have small := below.trans_le size
    have pages : (0x20000 + k) / 4096 = (0x30000 + k') / 4096 := same.trans same'.symm
    omega

/-- Both devices lie outside the memory map, and no leaf changes. -/
theorem live_translations_kept_sample :
    (∃ mm, AcpiMaps 1 (sampleHhdm + 0xB000#64) (sampleParser sampleLoadedBooted) mm
      (lapicCall (sampleParser sampleLoadedBooted).machine.mm)) ∧
    KeepsLive 1 (sampleHhdm + 0xB000#64) (sampleParser sampleLoadedBooted) := by
  have clients : PoolRun sampleMemmap sampleLoadedBooted none (sampleParser sampleLoadedBooted).machine.mm ∅ := by
    rw [sampleParser_mm]
    exact .start
  exact ⟨⟨_, .lapic (sampleLoaded_outside.reached) (by decide +kernel)⟩,
    live_translations_kept sampleBoot_map sampleHhdm_room sampleLoadedStart_returns sampleLoadedBooted_returns clients
      (sampleDevices_outside (by decide) sampleLoaded_outside (by decide +kernel))⟩

end UmbralOS
