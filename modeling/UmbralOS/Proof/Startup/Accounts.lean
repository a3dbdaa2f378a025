import UmbralOS.Proof.Memory.System
import UmbralOS.Proof.Startup.Parts

/-!
This file proves the accounts of the memory after `main` and in every later run of the system.
-/

namespace UmbralOS

open Library

open Classical in
/-- The system in which one client holds these pages and no other client holds a page. -/
noncomputable def System.sole {Client : Type} (mm : Mm) (stack : Option (Set Nat)) (terminal : Client) (held : Set Nat) :
    System Client :=
  ⟨mm, stack, fun page => if page ∈ held then some terminal else none⟩

section Accounts

variable {Client : Type} {memmap : List LimineMemmapEntry} {executable : LimineExecutableAddress} {kept : Set Nat}
  {debugChecks : Bool} {timing : Ps2Timing}
  {fuel : Nat} {flantermFbInit : BootingProgram Unit} {responses : LimineResponses} {stackOrigin : Pointer}
  {stackFrame : StackFrame} {booting booted : Booting} {terminal : Client} {start mm : Mm} {held : Set Nat}
  {stack : Option (Set Nat)} {actors : List (Option Client)}

theorem System.live_sole : (System.sole mm stack terminal held).live = held := by
  ext page
  simp [System.live, System.sole]

theorem System.held_sole : (System.sole mm stack terminal held).held terminal = held := by
  ext page
  simp [System.held, System.sole]

theorem System.sole_empty : System.sole mm none terminal ∅ = System.booted mm := by
  simp [System.sole, System.booted]

/-- A step of the only client leaves it the only client. -/
theorem System.give_sole {mm' : Mm} {pages : Set Nat} :
    (System.sole mm stack terminal held).give terminal mm' pages = System.sole mm' stack terminal pages := by
  refine congrArg (System.mk mm' stack) (funext fun page => ?_)
  rw [System.held_sole]
  by_cases new : page ∈ pages
  · rw [if_pos new, if_pos new]
  · by_cases old : page ∈ held
    · rw [if_neg new, if_neg new, if_pos old]
    · rw [if_neg new, if_neg new, if_neg old]
      exact if_neg old

/-- No page of the framebuffer is usable. -/
theorem PooledMap.disjoint_framebuffer (pooled : PooledMap memmap) :
    Disjoint (pagesOf LimineMemmapEntry.Framebuffer memmap) (pagesOf LimineMemmapEntry.Usable memmap) := by
  rw [Set.disjoint_left]
  rintro page ⟨first, firstMember, framebuffer, firstInside⟩ ⟨second, secondMember, usable, secondInside⟩
  have same := pooled.unique secondMember firstMember (Or.inl usable) secondInside firstInside
  subst same
  rw [LimineMemmapEntry.Usable, framebuffer] at usable
  contradiction

/-- Before the donation, the allocator and the clients use only usable entries. -/
theorem SystemInvariant.within_usable {system : System Client} (invariant : SystemInvariant memmap kept system)
    (within : kept ⊆ pagesOf LimineMemmapEntry.Usable memmap) (early : system.stack = none) :
    system.mm.allocatorPages ∪ system.live ⊆ pagesOf LimineMemmapEntry.Usable memmap := by
  have owned : ownedPages memmap none = pagesOf LimineMemmapEntry.Usable memmap := by simp [ownedPages]
  have balanced := invariant.balanced
  rw [early, owned] at balanced
  have pool : system.mm.poolPages ⊆ pagesOf LimineMemmapEntry.Usable memmap := by
    rw [balanced.free_eq]
    exact Set.sdiff_subset
  refine Set.union_subset (Set.union_subset pool ?_) fun page used => (balanced.live_within used).1
  rw [invariant.bitmap]
  exact within

/-- The terminal keeps the accounts and every translation. It changes bytes only in usable entries and on the
framebuffer. -/
theorem terminalRun_accounts (pooled : PooledMap memmap) (within : kept ⊆ pagesOf LimineMemmapEntry.Usable memmap)
    (invariant : SystemInvariant memmap kept (System.booted start : System Client)) (terminal : Client)
    (run : TerminalRun memmap start held mm) :
    SystemInvariant memmap kept (System.sole mm none terminal held) ∧ mm = { start with memory := mm.memory } ∧
      mm.translate = start.translate ∧ ∀ address, address / 4096 ∉ pagesOf LimineMemmapEntry.Usable memmap →
        address / 4096 ∉ pagesOf LimineMemmapEntry.Framebuffer memmap → mm.memory address = start.memory address := by
  induction run with
  | start => exact ⟨System.sole_empty ▸ invariant, rfl, rfl, fun _ _ _ => rfl⟩
  | @client held handed held' mm mm' _ step ih =>
      obtain ⟨reached, data, translate, frame⟩ := ih
      have usable : mm.allocatorPages ∪ held ⊆ pagesOf LimineMemmapEntry.Usable memmap := by
        have all := reached.within_usable within rfl
        rwa [System.live_sole] at all
      have pool : PoolSound mm held := by
        have sound := reached.tabled.pool
        rwa [System.live_sole] at sound
      obtain ⟨released, effect⟩ := step.effect pool.placed pool.liveBitmap pool.liveSmall
      have own : ClientStep (System.sole mm none terminal held).mm ((System.sole mm none terminal held).held terminal)
          handed mm' held' := by rwa [System.held_sole]
      obtain ⟨next, _, same, _⟩ := reached.client own
      refine ⟨System.give_sole ▸ next, ?_, same.trans translate, fun address unused undrawn => ?_⟩
      · exact effect.data.trans (congrArg (fun found : Mm => { found with memory := mm'.memory }) data)
      · rw [effect.frame address (fun bitmap => unused (usable (Or.inl (Or.inr bitmap)))) fun mine =>
          unused (usable (Or.inr mine)), frame address unused undrawn]
  | @draw held mm memory _ outside ih =>
      obtain ⟨reached, data, translate, frame⟩ := ih
      have apart : ∀ address, address / 4096 ∈ mm.tables ∪ mm.bitmapPages ∪ (System.sole mm none terminal held).live →
          memory address = mm.memory address := by
        intro address inside
        have used : address / 4096 ∈ mm.allocatorPages ∪ (System.sole mm none terminal held).live := by
          rcases inside with (table | bitmap) | mine
          · exact Or.inl (Or.inl (Or.inr table))
          · exact Or.inl (Or.inr bitmap)
          · exact Or.inr mine
        exact outside address (Set.disjoint_right.mp pooled.disjoint_framebuffer (reached.within_usable within rfl used))
      obtain ⟨effect, same⟩ := @kernelEffect_memory memmap ∅ mm { mm with memory := memory } _ reached.tabled rfl apart
      refine ⟨reached.kernel effect, ?_, same.trans translate,
        fun address unused undrawn => (outside address undrawn).trans (frame address unused undrawn)⟩
      · exact congrArg (fun found : Mm => { found with memory := memory }) data

/-- The stack is placed by the direct map alone. -/
theorem StackPlaced.congr {mm mm' : Mm} {stackSize : BitVec 64} (placed : StackPlaced memmap mm stackOrigin stackSize)
    (place : mm'.pHHDM = mm.pHHDM) : StackPlaced memmap mm' stackOrigin stackSize := by
  obtain ⟨bottom, size, inside⟩ := placed
  rw [← place] at bottom inside
  exact ⟨bottom, size, inside⟩

/-- The clearing of the free memory is a step of the kernel. -/
theorem kernelEffect_clear {live : Set Nat} {places : Set Pointer} {mm mm' : Mm} (tabled : Tabled mm live)
    (returned : Returns (if debugChecks then pmmZero else pure ()) mm () mm') : KernelEffect memmap places live mm mm' := by
  split_ifs at returned
  · exact kernelEffect_zero tabled returned
  · obtain ⟨_, rfl⟩ := (returns_pure _ _ _ _).mp returned
    exact KernelEffect.refl tabled

/-- The parser of the tables makes these calls for the windows of the devices, after the first part of `main`. -/
def MainMaps (fuel : Nat) (flantermFbInit : BootingProgram Unit) (responses : LimineResponses) (booting : Booting)
    (mm : Mm) (call : MapCall) : Prop :=
  ∃ drawn p, Returns (startMemory flantermFbInit responses) booting () drawn ∧ responses.rsdp = some p ∧
    AcpiMaps fuel p drawn.acpi mm call

/-- The first part of `main` establishes the accounts, and the terminal is the only client. -/
theorem MainStages.mapped {drawn mapped : Booting} {p : Pointer} {parsed : Acpi} {reclaimed : Mm}
    (stages : MainStages debugChecks fuel flantermFbInit responses stackOrigin booting start mapped drawn p parsed
      reclaimed booted)
    (map : BootMap responses.memmap responses.executable responses.offset) (pooled : PooledMap responses.memmap)
    (windows : WindowsDisjoint responses.memmap responses.executable responses.offset)
    (client : ClientTerminal responses.memmap flantermFbInit) (terminal : Client) :
    start.bitmapPages ⊆ pagesOf LimineMemmapEntry.Usable responses.memmap ∧
      drawn.machine.mm.pHHDM = responses.offset ∧
      ∃ held, SystemMapped responses.memmap responses.executable responses.offset start.bitmapPages
        (System.sole drawn.machine.mm none terminal held) := by
  obtain ⟨within, invariant⟩ := @systemMapped_start Client _ _ _ _ _ _ map pooled windows stages.init stages.map
  have place := (map.vmmStarted stages.init stages.map).pHHDM.trans (map.pmmStarted stages.init).pHHDM
  obtain ⟨held, mm, run, same⟩ := clientTerminal_start client _ _ _ _ stages.draw
  obtain ⟨shown, data, translate, _⟩ := terminalRun_accounts pooled within invariant.toSystemInvariant terminal run
  have machine : drawn.machine.mm = mm := congrArg (fun acpi : Acpi => acpi.machine.mm) same
  have shownMapped := invariant.keep shown data translate
  rw [← machine] at shownMapped data
  refine ⟨within, ?_, held, shownMapped⟩
  rw [data]
  exact place

/-- Devices outside the boot mapping are harmless. -/
theorem mainMaps_harmless (map : BootMap responses.memmap responses.executable responses.offset)
    (pooled : PooledMap responses.memmap)
    (windows : WindowsDisjoint responses.memmap responses.executable responses.offset)
    (client : ClientTerminal responses.memmap flantermFbInit) (room : DirectRoom responses.offset)
    (outside : ∀ drawn p, Returns (startMemory flantermFbInit responses) booting () drawn → responses.rsdp = some p →
      DevicesOutside responses.memmap responses.executable responses.offset fuel p drawn.acpi)
    (returned : Returns (main debugChecks timing fuel flantermFbInit responses stackOrigin stackFrame) booting () booted) :
    ∀ mm call, MainMaps fuel flantermFbInit responses booting mm call →
      call.Harmless responses.memmap responses.executable responses.offset := by
  rintro mm call ⟨drawn, p, drew, rsdp, window⟩
  obtain ⟨start, mapped, drawn', p', parsed, reclaimed, stages⟩ := main_stages returned
  obtain ⟨_, rfl⟩ := Returns.unique drew stages.memory
  obtain ⟨_, place, held, shown⟩ := stages.mapped map pooled windows client ()
  have spares := (outside drawn p drew rsdp).spares map room shown.tabled place window
  exact ⟨spares.avoids map.pooledEnds, spares.image⟩

/-- The start of the kernel keeps the accounts. It keeps back the boot stack, and the terminal is the only client. -/
theorem systemMapped_main (map : BootMap responses.memmap responses.executable responses.offset)
    (pooled : PooledMap responses.memmap)
    (windows : WindowsDisjoint responses.memmap responses.executable responses.offset)
    (client : ClientTerminal responses.memmap flantermFbInit)
    (placed : StackPlaced responses.memmap { booting.machine.mm with pHHDM := responses.offset } stackOrigin
      defaultStackSize)
    (harmless : ∀ mm call, MainMaps fuel flantermFbInit responses booting mm call →
      call.Harmless responses.memmap responses.executable responses.offset)
    (returned : Returns (main debugChecks timing fuel flantermFbInit responses stackOrigin stackFrame) booting () booted)
    (terminal : Client) :
    ∃ kept ⊆ pagesOf LimineMemmapEntry.Usable responses.memmap, ∃ held,
      SystemMapped responses.memmap responses.executable responses.offset kept (System.sole booted.machine.mm
        (some (stackPages booted.machine.mm stackOrigin defaultStackSize)) terminal held) := by
  have ends := map.pooledEnds
  obtain ⟨start, mapped, drawn, p, parsed, reclaimed, stages⟩ := main_stages returned
  obtain ⟨within, drawnPlace, held, shown⟩ := stages.mapped map pooled windows client terminal
  have outside : ∀ mm call, AcpiMaps fuel p drawn.acpi mm call →
      call.Harmless responses.memmap responses.executable drawn.machine.mm.pHHDM := by
    intro mm call window
    rw [drawnPlace]
    exact harmless mm call ⟨drawn, p, stages.memory, stages.rsdp, window⟩
  have walked := (shown.step pooled ends within (.acpi rfl outside stages.parse)).1
  have parsedPlace : parsed.machine.mm.pHHDM = responses.offset :=
    ((driverRun_acpiParseRsdp stages.parse).framed shown.tabled).2.2.trans drawnPlace
  have stackPlaced := placed.congr parsedPlace
  have donated := (walked.step pooled ends within (.reclaim rfl stackPlaced stages.reclaim)).1
  obtain ⟨only, _⟩ := returns_pmmReclaim walked.tabled.pool.placed stages.reclaim
  have effect : KernelEffect responses.memmap (kernelImage responses.executable) _ reclaimed booted.machine.mm :=
    kernelEffect_clear donated.tabled stages.clear
  have stack : stackPages booted.machine.mm stackOrigin defaultStackSize =
      stackPages parsed.machine.mm stackOrigin defaultStackSize := by
    rw [stackPages, stackPages, effect.place.trans only.pHHDM_eq]
  refine ⟨start.bitmapPages, within, held, ?_⟩
  rw [stack]
  exact donated.kernel effect

/-- The donation happens once, so a run after it keeps back the same stack. -/
theorem SystemRun.stack_eq {system later : System Client} {stack : Set Nat} (donated : system.stack = some stack)
    (run : SystemRun memmap executable system actors later) : later.stack = some stack := by
  induction run with
  | start => exact donated
  | step _ step ih =>
      cases step with
      | reclaim once _ _ =>
          rw [ih] at once
          contradiction
      | _ => exact ih

/-- After `main`, the terminal holds some pages. In every state that the system reaches from there, the free pages are
exactly the usable and reclaimable pages without the bitmap, the boot stack, the pages of the clients and the tables. The
tables and the clients share no page, the direct map translates every page that the allocator may own to itself, and the
kernel's segments are translated as `vmm_init` mapped them. -/
theorem main_exact_accounts (map : BootMap responses.memmap responses.executable responses.offset)
    (pooled : PooledMap responses.memmap)
    (windows : WindowsDisjoint responses.memmap responses.executable responses.offset)
    (client : ClientTerminal responses.memmap flantermFbInit)
    (placed : StackPlaced responses.memmap { booting.machine.mm with pHHDM := responses.offset } stackOrigin
      defaultStackSize)
    (harmless : ∀ mm call, MainMaps fuel flantermFbInit responses booting mm call →
      call.Harmless responses.memmap responses.executable responses.offset)
    (returned : Returns (main debugChecks timing fuel flantermFbInit responses stackOrigin stackFrame) booting () booted)
    (terminal : Client) :
    let stack := stackPages booted.machine.mm stackOrigin defaultStackSize
    let owned := pagesOf LimineMemmapEntry.Pooled responses.memmap
    ∃ held, ∀ actors later,
      SystemRun responses.memmap responses.executable (System.sole booted.machine.mm (some stack) terminal held) actors later →
        later.mm.usablePages = owned \ (booted.machine.mm.bitmapPages ∪ stack ∪ later.live ∪ later.mm.tables) ∧
        later.mm.tables ⊆ owned \ (booted.machine.mm.bitmapPages ∪ stack ∪ later.live) ∧
        later.live ⊆ owned \ (booted.machine.mm.bitmapPages ∪ stack) ∧
        DirectMapped responses.memmap later.mm ∧
        ImageMapped responses.memmap responses.executable responses.offset later.mm := by
  obtain ⟨kept, within, held, invariant⟩ := systemMapped_main map pooled windows client placed harmless returned terminal
  refine ⟨held, fun actors later run => ?_⟩
  have reached := (invariant.run pooled map.pooledEnds within run).1
  have accounts := reached.accounts
  have stack := run.stack_eq rfl
  have owned : ownedPages responses.memmap later.stack = pagesOf LimineMemmapEntry.Pooled responses.memmap := by
    rw [stack, ownedPages, Option.isSome_some, if_pos rfl]
    ext page
    simp only [pagesOf, LimineMemmapEntry.Pooled, Set.mem_union, Set.mem_ofPred_eq, or_and_right, and_or_left, exists_or]
  have bitmap : booted.machine.mm.bitmapPages = kept := invariant.bitmap
  rw [owned, stack] at accounts
  rw [bitmap]
  obtain ⟨usable, tables, live⟩ := accounts
  exact ⟨usable, tables, live, reached.direct, reached.image⟩

end Accounts

theorem sampleTerminal_client : ClientTerminal sampleStartMemmap sampleTerminal := by
  intro before value after returned
  obtain ⟨ptr, _, allocated, drawn⟩ := (returns_bind _ _ _ _ _).mp returned
  obtain ⟨mm, taken, rfl⟩ := returns_onMm allocated
  obtain rfl := (returns_modify _ _ _ _).mp drawn
  refine ⟨_, _, (TerminalRun.start.client (.kalloc (by decide) taken)).draw fun address outside => ?_, rfl⟩
  have apart : address ≠ 0xC000 := by
    rintro rfl
    exact outside ⟨⟨0xC000#64, 0x1000#64, .framebuffer⟩, by decide, rfl, 0xC000, ⟨by decide, by decide⟩, rfl⟩
  exact if_neg apart

theorem sampleStartMemmap_pooled : PooledMap sampleStartMemmap := pooledMap_of_sorted (by decide) (by decide)

/-- A client takes a page of the sample machine after its start. -/
def sampleServed : Mm := lastState pmmAllocPage sampleStarted.machine.mm

theorem sampleServed_returns : Returns pmmAllocPage sampleStarted.machine.mm 0xA000#64 sampleServed :=
  returns_lastState (by decide +kernel)

/-- A client takes a page of a system with one other client. -/
theorem systemRun_page {Client : Type} {memmap : List LimineMemmapEntry} {executable : LimineExecutableAddress}
    {mm mm' : Mm} {stack held : Set Nat} {paddr : Phy} (taken : Returns pmmAllocPage mm paddr mm')
    (terminal client : Client) :
    SystemRun memmap executable (System.sole mm (some stack) terminal held) [some client]
      ((System.sole mm (some stack) terminal held).give client mm'
        ((System.sole mm (some stack) terminal held).held client ∪ spanPages paddr 1)) :=
  SystemRun.start.step (.client (.allocPage taken))

theorem sampleStartMemmap_map : BootMap sampleStartMemmap sampleExecutable sampleHhdm :=
  bootMap_of_high (by decide) (by decide) (by decide) (by decide) (by decide)

/-- The sample machine before the parser of the tables, and after the interrupt table. -/
def sampleDrawn : Booting := lastState (startMemory sampleTerminal sampleResponses) sampleBooting

def sampleEntered : Acpi := (sampleDrawn.acpi.useRoot 4 4).useRoot (offsetofSdts + 4 * 0) 4

def sampleWalked : Acpi :=
  lastState (parseSdt 8 ((sampleDrawn.acpi.useRoot 4 4).sdt (sampleHhdm + 0xB014#64) 4 0)) sampleEntered

theorem sampleWalked_returns : Returns (parseSdt 8 ((sampleDrawn.acpi.useRoot 4 4).sdt (sampleHhdm + 0xB014#64) 4 0))
    sampleEntered () sampleWalked := returns_lastState (by decide +kernel)

/-- The other table of the sample machine is no interrupt table. -/
theorem sampleDrawn_ioapic : sampleDrawn.acpi.OneIoapic 8 (sampleHhdm + 0xB000#64) (sampleHhdm + 0xB014#64)
    (sampleHhdm + 0xB040#64) ⟨0x30000#32, 0⟩ := by
  have count : (numSdts (sdtLength (sampleDrawn.acpi.machine.mm.object (sampleHhdm + 0xB014#64))) 4).toNat = 2 := by
    decide +kernel
  refine ⟨by decide +kernel, by decide +kernel, fun pointers state run later within => ?_, by decide +kernel,
    by decide +kernel, by decide +kernel, by decide +kernel, by decide +kernel, by decide +kernel⟩
  rw [count] at within
  cases run with
  | start => exact absurd later (Nat.lt_irrefl 0)
  | entry earlier returned =>
      cases earlier with
      | entry _ _ =>
          simp only [List.length_append, List.length_singleton] at within
          omega
      | start =>
          rw [List.length_nil, ← sampleEntered] at returned
          obtain ⟨_, rfl⟩ := Returns.unique sampleWalked_returns returned
          exact (by decide +kernel : strncmp (sampleWalked.machine.mm.object
            (sampleWalked.sdt (sampleHhdm + 0xB014#64) 4 1)) signatureApic 4 ≠ 0)

theorem sampleDrawn_outside (drawn : Booting) (p : Pointer)
    (drew : Returns (startMemory sampleTerminal sampleResponses) sampleBooting () drawn)
    (rsdp : sampleResponses.rsdp = some p) :
    DevicesOutside sampleStartMemmap sampleExecutable sampleHhdm 8 p drawn.acpi := by
  obtain rfl : sampleHhdm + 0xB000#64 = p := Option.some.inj rsdp
  have ran : Returns (startMemory sampleTerminal sampleResponses) sampleBooting () sampleDrawn :=
    returns_lastState (by decide +kernel)
  obtain ⟨_, rfl⟩ := Returns.unique ran drew
  exact sampleDevices_outside (by decide) sampleDrawn_ioapic (by decide +kernel)

/-- On the sample machine, the accounts hold after a second client has taken a page. -/
theorem main_exact_accounts_sample : ∃ later : System Bool, later.mm = sampleServed ∧
    later.mm.usablePages = pagesOf LimineMemmapEntry.Pooled sampleStartMemmap \
      (sampleStarted.machine.mm.bitmapPages ∪
        stackPages sampleStarted.machine.mm (sampleHhdm + 0x50000#64) defaultStackSize ∪ later.live ∪ later.mm.tables) := by
  have placed : StackPlaced sampleStartMemmap { sampleBooting.machine.mm with pHHDM := sampleHhdm }
      (sampleHhdm + 0x50000#64) defaultStackSize := by
    refine ⟨by decide, by decide, ⟨0x40000#64, 0x10000#64, .bootloaderReclaimable⟩, by decide, rfl, ?_, ?_⟩ <;> decide
  have harmless := mainMaps_harmless sampleStartMemmap_map sampleStartMemmap_pooled (windowsDisjoint_of_low (by decide))
    sampleTerminal_client sampleHhdm_room sampleDrawn_outside sampleStarted_returns
  have started := main_exact_accounts sampleStartMemmap_map sampleStartMemmap_pooled (windowsDisjoint_of_low (by decide))
    sampleTerminal_client placed harmless sampleStarted_returns true
  obtain ⟨held, accounts⟩ := started
  exact ⟨_, System.give_mm _ _ _ _, (accounts _ _ (systemRun_page sampleServed_returns true false)).1⟩

end UmbralOS
