import UmbralOS.Proof.Startup.Parts

/-!
This file proves that the kernel serves its interrupts after `main` has started the drivers.
-/

namespace UmbralOS

open Library

/-- The terminal leaves the interrupt controllers and their drivers alone. -/
def QuietTerminal (flantermFbInit : BootingProgram Unit) : Prop :=
  ∀ before value after, Returns flantermFbInit before value after →
    SameIoapic before.machine after.machine ∧ (before.machine.LapicReady → after.machine.LapicReady)

section Main

variable {debugChecks : Bool} {timing : Ps2Timing} {fuel : Nat} {flantermFbInit : BootingProgram Unit}
  {responses : LimineResponses} {stackOrigin : Pointer} {stackFrame : StackFrame} {booting booted : Booting}
  {firmware : Ioapic}

theorem guarded_memory (machine : Machine) (mm : Mm) (guarded : machine.Guarded firmware) :
    Machine.Guarded firmware { machine with mm := mm } := guarded.congr ⟨rfl, rfl, rfl⟩ id

theorem preserves_startTerminal (quiet : QuietTerminal flantermFbInit) (framebufferCount : BitVec 64) :
    Preserves (fun booting : Booting => booting.machine.Guarded firmware)
      (startTerminal flantermFbInit framebufferCount) := by
  refine preserves_ite _ (fun before value after holds ran => ?_) (preserves_pure ())
  obtain ⟨same, ready⟩ := quiet before value after ran
  exact holds.congr same ready

theorem preserves_startAcpi (few : firmware.maxEntry ≤ 119) (masked : firmware.Masked firmware.maxEntry) (fuel : Nat)
    (rsdp : Option Pointer) :
    Preserves (fun booting : Booting => booting.machine.Guarded firmware) (startAcpi fuel rsdp) := by
  cases rsdp with
  | none => exact preserves_throw _
  | some address =>
      intro before _ after holds returned
      obtain ⟨acpi, parsed, rfl⟩ := returns_focus.mp returned
      exact preserves_acpiParseRsdp (tableKeeps_guarded few masked) fuel address _ _ _ holds parsed

/-- The serial driver enables the first interrupt, so the kernel has accepted the device before. -/
theorem serialInit_settles {done : Unit} (guarded : booting.machine.Guarded firmware)
    (returned : Returns (onMachine (serialInit true)) booting done booted) : booted.machine.Settled firmware := by
  obtain ⟨machine, enabled, rfl⟩ := returns_onMachine returned
  exact @enable_settles firmware 4 (by decide) _ _ _ guarded enabled

/-- The start of the kernel keeps the pins guarded until it enables the first interrupt, and it keeps them settled from
there. -/
theorem main_settles (few : firmware.maxEntry ≤ 119) (masked : firmware.Masked firmware.maxEntry)
    (quiet : QuietTerminal flantermFbInit) (guarded : booting.machine.Guarded firmware)
    (returned : Returns (main debugChecks timing fuel flantermFbInit responses stackOrigin stackFrame) booting () booted) :
    booted.machine.Settled firmware := by
  have memory := fun (_ : Bool) => @guarded_memory firmware
  have print {kept : Machine → Prop} (format : String) (arguments : List (BitVec 64)) :=
    @preserves_onPs2 _ (fun _ => kept) _ fun _ => preserves_kprint format arguments
  have input {kept : Machine → Prop} := @preserves_startInput (fun _ => kept) timing
  obtain ⟨_, _, guarded, returned⟩ := (@preserves_securityInit fun _ => Machine.Guarded firmware).head guarded returned
  have early : Preserves (Machine.Guarded firmware) serialEarlyInit :=
    preserves_serialEarlyInit fun _ _ guarded => guarded.congr ⟨rfl, rfl, rfl⟩ id
  obtain ⟨_, _, guarded, returned⟩ := (preserves_onMachine fun _ => early).head guarded returned
  obtain ⟨_, _, guarded, returned⟩ := (print _ _).head guarded returned
  obtain ⟨_, _, guarded, returned⟩ := (preserves_onMm memory _).head guarded returned
  obtain ⟨_, _, guarded, returned⟩ := (preserves_onMm memory _).head guarded returned
  obtain ⟨_, _, guarded, returned⟩ := (preserves_startTerminal quiet _).head guarded returned
  obtain ⟨_, _, guarded, returned⟩ := (preserves_startAcpi few masked _ _).head guarded returned
  obtain ⟨_, _, guarded, returned⟩ := (preserves_onMm memory _).head guarded returned
  obtain ⟨_, _, guarded, returned⟩ := (preserves_clearFreeMemory memory _).head guarded returned
  obtain ⟨_, _, serial, returned⟩ := (returns_bind _ _ _ _ _).mp returned
  have settled := serialInit_settles guarded serial
  obtain ⟨_, _, settled, returned⟩ := (input (fun _ irq vector machine done machine' kept enabled =>
    enable_settles vector (Or.inr kept) enabled) _).head settled returned
  obtain ⟨_, _, settled, returned⟩ := (@preserves_fpInit fun _ => Machine.Settled firmware).head settled returned
  obtain ⟨_, _, settled, returned⟩ :=
    (@preserves_breakpoint (fun _ => Machine.Settled firmware) _ _).head settled returned
  exact print _ _ _ _ _ settled returned

/-- After `main`, the open pins deliver only vectors of the drivers and non-maskable interrupts. Every run of answered
interrupts is served: the handlers return, nothing stays in service, and the devices are read once for each of their
interrupts. Otherwise the first event without an answer, such as a non-maskable interrupt, stops the kernel with its
panic. -/
theorem main_serves_interrupts (few : booting.machine.ioapic.maxEntry ≤ 119)
    (masked : booting.machine.ioapic.Masked booting.machine.ioapic.maxEntry)
    (quiet : QuietTerminal flantermFbInit) (unset : booting.machine.ioapicBase = 0)
    (returned : Returns (main debugChecks timing fuel flantermFbInit responses stackOrigin stackFrame) booting () booted)
    (events : List InterruptEvent) (arise : ∀ event ∈ events, event.Arises booted.machine.ioapic) :
    (∀ vector, booted.machine.ioapic.Delivers vector → vector ∈ deviceVectors ∨ vector = idtIdxExceptionNmi) ∧
      ((∀ event ∈ events, event.IsAnswered) →
        ∃ after, Returns (events.forM fun event => event.handle timing) booted.handling () after ∧
          AllServed booted.handling events after) ∧
      ∀ earlier event later, events = earlier ++ event :: later → (∀ event ∈ earlier, event.IsAnswered) →
        ¬ event.IsAnswered → ∃ vector stackFrame served, event = .direct vector stackFrame ∧
          Returns (earlier.forM fun event => event.handle timing) booted.handling () served ∧
          AllServed booted.handling earlier served ∧
          Stops (events.forM fun event => event.handle timing) booted.handling (served.panic vector)
            (served.enforced.say (dumpLog stackFrame)) := by
  obtain ⟨ready, _, served⟩ := main_settles few masked quiet (Or.inl ⟨unset, rfl⟩) returned
  refine ⟨fun vector => served.delivers, events_served served ready events arise, ?_⟩
  rintro earlier event later rfl answered unanswered
  exact events_stop served ready arise answered unanswered

end Main

/-- A character arrives, its interrupt is delivered, and a spurious interrupt follows. Then a non-maskable interrupt
comes. -/
def sampleEvents : List InterruptEvent :=
  [.receive 0x41#8, .deliver 0x34#8 sampleFrame, .direct 0xFF#8 sampleFrame, .direct 0x02#8 sampleFrame]

/-- On the sample machine, the first three events are served, and the last one stops the kernel. -/
theorem main_serves_interrupts_sample :
    ∃ served, Returns ((sampleEvents.take 3).forM fun event => event.handle instantTiming) sampleStarted.handling ()
        served ∧ AllServed sampleStarted.handling (sampleEvents.take 3) served ∧
      Stops (sampleEvents.forM fun event => event.handle instantTiming) sampleStarted.handling
        (.panic "Unhandled Exception #NMI" []) (served.enforced.say (dumpLog sampleFrame)) := by
  have quiet : QuietTerminal sampleTerminal := by
    intro before value after returned
    obtain ⟨_, _, allocated, drawn⟩ := (returns_bind _ _ _ _ _).mp returned
    obtain ⟨mm, _, rfl⟩ := returns_onMm allocated
    obtain rfl := (returns_modify _ _ _ _).mp drawn
    exact ⟨⟨rfl, rfl, rfl⟩, id⟩
  have pin : sampleStarted.machine.ioapic.Delivers 0x34#8 := ⟨4, by decide +kernel⟩
  have arise : ∀ event ∈ sampleEvents, event.Arises sampleStarted.machine.ioapic := by
    intro event member
    simp only [sampleEvents, List.mem_cons, List.not_mem_nil, or_false] at member
    rcases member with rfl | rfl | rfl | rfl
    · trivial
    · exact ⟨pin, by decide⟩
    · exact (by decide : (0xFF#8 : BitVec 8) ∉ deviceVectors)
    · exact (by decide : (0x02#8 : BitVec 8) ∉ deviceVectors)
  have answered : ∀ event ∈ sampleEvents.take 3, event.IsAnswered := by
    intro event member
    simp only [sampleEvents, List.take_succ_cons, List.take_zero, List.mem_cons, List.not_mem_nil, or_false] at member
    rcases member with rfl | rfl | rfl
    · trivial
    · exact (by decide : Answered 0x34#8)
    · exact (by decide : Answered 0xFF#8)
  have runs := main_serves_interrupts (by decide) (by decide) quiet rfl sampleStarted_returns sampleEvents arise
  obtain ⟨vector, stackFrame, served, same, returned, all, stopped⟩ :=
    runs.2.2 (sampleEvents.take 3) (.direct 0x02#8 sampleFrame) [] rfl answered (by decide : ¬ Answered 0x02#8)
  cases same
  exact ⟨served, returned, all, stopped⟩

end UmbralOS
