import UmbralOS.Kernel.Main
import UmbralOS.Proof.Acpi.LiveTranslations
import UmbralOS.Proof.Input.Handshake
import UmbralOS.Proof.Interrupts.Legacy

/-!
This file takes a run of `main` apart into the runs of its parts.
-/

namespace UmbralOS

open Library

section Lift

variable {A : Type} {kept : Bool → Machine → Prop}

theorem preserves_onHandling {program : HandlingProgram A}
    (part : ∀ has, Preserves (fun handling : Handling => kept has handling.ps2.machine) program) :
    Preserves (fun booting : Booting => kept booting.hasI8042 booting.machine) (onHandling program) := by
  intro before value after holds returned
  obtain ⟨handling, ran, rfl⟩ := returns_focus.mp returned
  exact part _ _ _ _ holds ran

theorem preserves_onPs2 {program : Ps2Program A}
    (part : ∀ has, Preserves (fun ps2 : Ps2 => kept has ps2.machine) program) :
    Preserves (fun booting : Booting => kept booting.hasI8042 booting.machine) (onPs2 program) :=
  preserves_onHandling fun has => preserves_focus (fun _ _ => rfl) (part has)

theorem returns_onMachine {program : MachineProgram A} {before after : Booting} {value : A}
    (returned : Returns (onMachine program) before value after) :
    ∃ machine, Returns program before.machine value machine ∧
      before.withPs2 { before.handling.ps2 with machine := machine } = after := by
  obtain ⟨_, handled, rfl⟩ := returns_focus.mp returned
  obtain ⟨_, served, rfl⟩ := returns_liftHandling.mp handled
  obtain ⟨machine, ran, rfl⟩ := returns_liftPs2.mp served
  exact ⟨machine, ran, rfl⟩

theorem returns_onMm {program : MmProgram A} {before after : Booting} {value : A}
    (returned : Returns (onMm program) before value after) :
    ∃ mm, Returns program before.machine.mm value mm ∧ before.withPs2 { before.handling.ps2 with
      machine := { before.machine with mm := mm } } = after := by
  obtain ⟨machine, ran, rfl⟩ := returns_onMachine returned
  obtain ⟨mm, found, rfl⟩ := (returns_liftMm _ _ _ _).mp ran
  exact ⟨mm, found, rfl⟩

theorem preserves_onMachine {program : MachineProgram A} (part : ∀ has, Preserves (kept has) program) :
    Preserves (fun booting : Booting => kept booting.hasI8042 booting.machine) (onMachine program) :=
  preserves_onPs2 fun has => preserves_liftPs2 (part has)

theorem preserves_onMm (memory : ∀ has machine mm, kept has machine → kept has { machine with mm := mm })
    (program : MmProgram A) : Preserves (fun booting : Booting => kept booting.hasI8042 booting.machine) (onMm program) := by
  refine preserves_onMachine fun has machine value machine' holds returned => ?_
  obtain ⟨mm, _, rfl⟩ := (returns_liftMm _ _ _ _).mp returned
  exact memory has machine mm holds

/-- The bits of the processor are not part of the machine. -/
theorem preserves_securityInit :
    Preserves (fun booting : Booting => kept booting.hasI8042 booting.machine) securityInit := by
  refine preserves_bind preserves_get fun booting => ?_
  refine preserves_bind (preserves_onHandling fun has => preserves_modify fun _ holds => holds) fun _ => ?_
  refine preserves_bind (preserves_modify fun _ holds => holds) fun _ => ?_
  exact preserves_onHandling fun has => preserves_modify fun _ holds => holds

/-- The breakpoint at the end only prints. -/
theorem preserves_breakpoint (timing : Ps2Timing) (stackFrame : StackFrame) :
    Preserves (fun booting : Booting => kept booting.hasI8042 booting.machine)
      (onHandling (interruptHandler timing idtIdxExceptionBp stackFrame)) := by
  refine preserves_onHandling fun has before value after holds returned => ?_
  obtain ⟨_, _, rfl⟩ := returns_interruptHandler.mp returned
  exact holds

theorem preserves_fpInit : Preserves (fun booting : Booting => kept booting.hasI8042 booting.machine) fpInit :=
  preserves_modify fun _ holds => holds

theorem preserves_clearFreeMemory (memory : ∀ has machine mm, kept has machine → kept has { machine with mm := mm })
    (debugChecks : Bool) :
    Preserves (fun booting : Booting => kept booting.hasI8042 booting.machine) (clearFreeMemory debugChecks) :=
  preserves_ite _ (preserves_onMm memory _) (preserves_pure ())

/-- The input devices are started on a machine on which the driver may enable their interrupts. -/
theorem preserves_startInput {timing : Ps2Timing}
    (enable : ∀ has, ∀ irq : Fin 16, idtIdxIsaBase + BitVec.ofNat 8 irq ∈ deviceVectors →
      Preserves (kept has) (ioapicEnableIsaInterrupt (BitVec.ofNat 8 irq))) (fuel : Nat) :
    Preserves (fun booting : Booting => kept booting.hasI8042 booting.machine) (startInput timing fuel) := by
  refine preserves_bind preserves_get fun booting => preserves_ite _ ?_ (preserves_pure ())
  refine preserves_onPs2 fun has => preserves_ps2Init (fun irq member => ?_) fuel
  simp only [List.mem_cons, List.not_mem_nil, or_false] at member
  rcases member with rfl | rfl
  · exact enable has 1 (by decide)
  · exact enable has 12 (by decide)

end Lift

def LimineMemmapEntry.Framebuffer (entry : LimineMemmapEntry) : Prop := entry.type = .framebuffer

/-- The terminal is a client of the allocator that also draws on the framebuffer. The index holds its pages. -/
inductive TerminalRun (memmap : List LimineMemmapEntry) (start : Mm) : Set Nat → Mm → Prop where
  | start : TerminalRun memmap start ∅ start
  | client {held handed held' : Set Nat} {mm mm' : Mm} (run : TerminalRun memmap start held mm)
      (step : ClientStep mm held handed mm' held') : TerminalRun memmap start held' mm'
  | draw {held : Set Nat} {mm : Mm} {memory : Memory} (run : TerminalRun memmap start held mm)
      (outside : ∀ address, address / 4096 ∉ pagesOf LimineMemmapEntry.Framebuffer memmap →
        memory address = mm.memory address) : TerminalRun memmap start held { mm with memory := memory }

/-- The start of the terminal changes only the memory, as a client that draws. -/
def ClientTerminal (memmap : List LimineMemmapEntry) (flantermFbInit : BootingProgram Unit) : Prop :=
  ∀ before value after, Returns flantermFbInit before value after →
    ∃ held mm, TerminalRun memmap before.machine.mm held mm ∧
      after.acpi = { before.acpi with machine := { before.machine with mm := mm } }

/-- Without a framebuffer, the terminal is not started. -/
theorem clientTerminal_start {memmap : List LimineMemmapEntry} {flantermFbInit : BootingProgram Unit}
    (terminal : ClientTerminal memmap flantermFbInit) (framebufferCount : BitVec 64) :
    ClientTerminal memmap (startTerminal flantermFbInit framebufferCount) := by
  intro before value after returned
  unfold startTerminal at returned
  split_ifs at returned
  · exact terminal before value after returned
  · obtain ⟨_, rfl⟩ := (returns_pure _ _ _ _).mp returned
    exact ⟨∅, _, .start, rfl⟩

/-- The part of `main` before the parser of the tables. -/
def startMemory (flantermFbInit : BootingProgram Unit) (responses : LimineResponses) : BootingProgram Unit := do
  securityInit
  onMachine serialEarlyInit
  onPs2 (kprint "Kernel Base: 0x%lx\n" [responses.executable.virtualBase])
  onMm (pmmInit responses.memmap responses.offset)
  onMm (vmmInit responses.memmap responses.executable)
  startTerminal flantermFbInit responses.framebufferCount

/-- The states of a run of `main` around the start of the terminal and around the parser of the tables. -/
structure MainStages (debugChecks : Bool) (fuel : Nat) (flantermFbInit : BootingProgram Unit)
    (responses : LimineResponses) (stackOrigin : Pointer) (booting : Booting) (start : Mm) (mapped drawn : Booting)
    (p : Pointer) (parsed : Acpi) (reclaimed : Mm) (booted : Booting) : Prop where
  init : Returns (pmmInit responses.memmap responses.offset) booting.machine.mm () start
  map : Returns (vmmInit responses.memmap responses.executable) start () mapped.machine.mm
  setup : ∀ firmware, mapped.acpi.platform firmware =
    ⟨booting.hasI8042, (booting.machine.legacy firmware).serialReady⟩
  draw : Returns (startTerminal flantermFbInit responses.framebufferCount) mapped () drawn
  memory : Returns (startMemory flantermFbInit responses) booting () drawn
  rsdp : responses.rsdp = some p
  parse : Returns (acpiParseRsdp fuel p) drawn.acpi () parsed
  reclaim : Returns (pmmReclaim responses.memmap stackOrigin defaultStackSize) parsed.machine.mm () reclaimed
  clear : Returns (if debugChecks then pmmZero else pure ()) reclaimed () booted.machine.mm
  finish : ∀ firmware, booted.acpi.platform firmware = parsed.platform firmware

section Stages

variable {debugChecks : Bool} {timing : Ps2Timing} {fuel : Nat} {flantermFbInit : BootingProgram Unit}
  {responses : LimineResponses} {stackOrigin : Pointer} {stackFrame : StackFrame} {booting booted : Booting}

/-- The setup of the port changes only the port log. -/
theorem serialEarlyInit_ports {machine machine' : Machine} (returned : Returns serialEarlyInit machine () machine') :
    ∃ ports, machine' = { machine with ports := ports } :=
  @preserves_serialEarlyInit (fun reached => ∃ ports, reached = { machine with ports := ports })
    (fun _ ports same => by obtain ⟨_, rfl⟩ := same; exact ⟨ports, rfl⟩) _ _ _ ⟨machine.ports, rfl⟩ returned

theorem returns_clearFreeMemory (returned : Returns (clearFreeMemory debugChecks) booting () booted) :
    ∃ mm, Returns (if debugChecks then pmmZero else pure ()) booting.machine.mm () mm ∧
      booting.withPs2 { booting.handling.ps2 with machine := { booting.machine with mm := mm } } = booted := by
  unfold clearFreeMemory at returned
  split_ifs at returned ⊢
  · exact returns_onMm returned
  · obtain ⟨_, rfl⟩ := (returns_pure _ _ _ _).mp returned
    exact ⟨_, (returns_pure _ _ _ _).mpr ⟨rfl, rfl⟩, rfl⟩

/-- The last part of `main` writes to no port, and it leaves the memory alone. -/
theorem main_finishes (returned : Returns (do
      onMachine (serialInit true)
      startInput timing fuel
      fpInit
      onHandling (interruptHandler timing idtIdxExceptionBp stackFrame)
      onPs2 (kprint "Boot Complete!\n" [])) booting () booted) :
    booted.hasI8042 = booting.hasI8042 ∧ booted.machine.mm = booting.machine.mm ∧
      booted.machine.ports = booting.machine.ports := by
  let kept : Bool → Machine → Prop := fun has machine =>
    has = booting.hasI8042 ∧ machine.mm = booting.machine.mm ∧ machine.ports = booting.machine.ports
  have enable (has : Bool) (irq : Fin 16) : Preserves (kept has) (ioapicEnableIsaInterrupt (BitVec.ofNat 8 irq)) := by
    intro machine _ machine' same enabled
    obtain ⟨_, rfl⟩ := returns_enable.mp enabled
    exact same
  obtain ⟨_, _, same, returned⟩ :=
    (@preserves_onMachine _ kept _ fun has => enable has 4).head ⟨rfl, rfl, rfl⟩ returned
  obtain ⟨_, _, same, returned⟩ := (@preserves_startInput kept _ (fun has irq _ => enable has irq) _).head same returned
  obtain ⟨_, _, same, returned⟩ := (@preserves_fpInit kept).head same returned
  obtain ⟨_, _, same, returned⟩ := (@preserves_breakpoint kept _ _).head same returned
  exact @preserves_onPs2 _ kept _ (fun _ => preserves_kprint _ _) _ _ _ same returned

theorem main_eq : main debugChecks timing fuel flantermFbInit responses stackOrigin stackFrame = (do
    startMemory flantermFbInit responses
    startAcpi fuel responses.rsdp
    onMm (pmmReclaim responses.memmap stackOrigin defaultStackSize)
    clearFreeMemory debugChecks
    onMachine (serialInit true)
    startInput timing fuel
    fpInit
    onHandling (interruptHandler timing idtIdxExceptionBp stackFrame)
    onPs2 (kprint "Boot Complete!\n" [])) := by
  unfold main startMemory
  simp only [bind_assoc]

/-- Every run of `main` goes through the stages. -/
theorem main_stages
    (returned : Returns (main debugChecks timing fuel flantermFbInit responses stackOrigin stackFrame) booting () booted) :
    ∃ start mapped drawn p parsed reclaimed, MainStages debugChecks fuel flantermFbInit responses stackOrigin booting
      start mapped drawn p parsed reclaimed booted := by
  have print {kept : Bool → Machine → Prop} (format : String) (arguments : List (BitVec 64)) :=
    @preserves_onPs2 _ kept _ fun _ => preserves_kprint format arguments
  rw [main_eq] at returned
  obtain ⟨_, drawn, memory, returned⟩ := (returns_bind _ _ _ _ _).mp returned
  have earlier := memory
  obtain ⟨_, secured, same, earlier⟩ := (@preserves_securityInit fun has machine =>
    has = booting.hasI8042 ∧ machine = booting.machine).head ⟨rfl, rfl⟩ earlier
  obtain ⟨has, machine⟩ := same
  obtain ⟨_, _, early, earlier⟩ := (returns_bind _ _ _ _ _).mp earlier
  obtain ⟨serial, readied, rfl⟩ := returns_onMachine early
  rw [machine] at readied
  obtain ⟨_, printed, again, earlier⟩ := (@print (fun has machine =>
    has = booting.hasI8042 ∧ machine = serial) _ _).head (by exact ⟨has, rfl⟩) earlier
  obtain ⟨has, machine⟩ := again
  obtain ⟨_, _, initialized, earlier⟩ := (returns_bind _ _ _ _ _).mp earlier
  obtain ⟨start, init, rfl⟩ := returns_onMm initialized
  obtain ⟨_, mapped, built, draw⟩ := (returns_bind _ _ _ _ _).mp earlier
  obtain ⟨mm, map, place⟩ := returns_onMm built
  obtain ⟨_, _, started, returned⟩ := (returns_bind _ _ _ _ _).mp returned
  cases rsdp : responses.rsdp with
  | none =>
      rw [rsdp] at started
      exact absurd started (returns_throw _ _ _ _)
  | some p =>
      rw [rsdp] at started
      obtain ⟨parsed, parse, rfl⟩ := returns_focus.mp started
      obtain ⟨_, _, reclaiming, returned⟩ := (returns_bind _ _ _ _ _).mp returned
      obtain ⟨reclaimed, reclaim, rfl⟩ := returns_onMm reclaiming
      obtain ⟨_, cleared, clearing, returned⟩ := (returns_bind _ _ _ _ _).mp returned
      obtain ⟨mm, zeroed, cleared⟩ := returns_clearFreeMemory clearing
      have finished := main_finishes returned
      refine ⟨start, mapped, drawn, p, parsed, reclaimed, ?_, ?_, fun firmware => ?_, draw, memory, rsdp, parse, reclaim, ?_,
        ?_⟩
      · rw [machine] at init
        obtain ⟨ports, rfl⟩ := serialEarlyInit_ports readied
        exact init
      · rw [← place]
        exact map
      · rw [← place]
        have devices := @returns_serialEarlyInit firmware _ _ _ readied
        have log : printed.machine.legacy firmware = serial.legacy firmware := by rw [machine]
        change LegacyPlatform.mk printed.hasI8042 (printed.machine.legacy firmware) = _
        rw [has, log, devices]
      · rw [finished.2.1, ← cleared]
        exact zeroed
      · intro firmware
        rw [Acpi.platform, Booting.acpi, Machine.legacy, finished.1, finished.2.2, ← cleared]
        rfl

end Stages

/-- A root table with an interrupt table and a fixed table. The interrupt table tells of the legacy controllers. The fixed
table has the flag of reduced hardware and the flag of the PS/2 controller. -/
def sampleListed : List (BitVec 8) :=
  [0x52, 0x53, 0x44, 0x20, 0x50, 0x54, 0x52, 0x20, 0x1D, 0, 0, 0, 0, 0, 0, 0, 0x14, 0xB0, 0, 0] ++
    sampleHeader [0x52, 0x53, 0x44, 0x54] 44 0x7F ++ [0x40, 0xB0, 0, 0, 0x78, 0xB0, 0, 0] ++
    sampleHeader [0x41, 0x50, 0x49, 0x43] 56 0x9A ++ [0, 0, 0, 0, 1, 0, 0, 0, 1, 12, 0, 0, 0, 0, 3, 0, 0, 0, 0, 0] ++
    sampleHeader [0x46, 0x41, 0x43, 0x50] 116 0x60 ++ List.replicate 73 0 ++ [2, 0, 0, 0, 0, 0x10, 0]

/-- The tables of the firmware lie in the memory of this machine, and its I/O APIC is masked. -/
def sampleBooting : Booting where
  handling := ⟨{ sampleController with machine := { sampleMasked with
    mm := { sampleLoaded with memory := placeBytes sampleBoot.memory 0xB000 sampleListed } } }, [], 0, [], false, false, 0⟩
  hasI8042 := true
  parsed := []
  rootUses := []
  uses := []
  cr0 := 0
  cr4 := 0

/-- The last entry has room for the boot stack. -/
def sampleStartMemmap : List LimineMemmapEntry :=
  sampleMemmap ++ [⟨0x40000#64, 0x10000#64, .bootloaderReclaimable⟩]

def sampleResponses : LimineResponses :=
  ⟨sampleStartMemmap, sampleHhdm, sampleExecutable, 1, some (sampleHhdm + 0xB000#64)⟩

/-- The terminal allocates a buffer and draws one byte. -/
def sampleTerminal : BootingProgram Unit := do
  let _ ← onMm (kalloc 0x800#64)
  modify fun booting => booting.withPs2 { booting.handling.ps2 with machine := { booting.machine with
    mm := { booting.machine.mm with
      memory := fun address => if address = 0xC000 then 0xFF else booting.machine.mm.memory address } } }

def sampleMain : BootingProgram Unit :=
  main false instantTiming 8 sampleTerminal sampleResponses (sampleHhdm + 0x50000#64) sampleFrame

def sampleStarted : Booting := lastState sampleMain sampleBooting

theorem sampleStarted_returns : Returns sampleMain sampleBooting () sampleStarted :=
  returns_lastState (by decide +kernel)

end UmbralOS
