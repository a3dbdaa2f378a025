import UmbralOS.Library.Stack
import UmbralOS.Kernel.Interrupt

/-!
This file gives the entry and the exit of an interrupt, at any nesting depth.
-/

namespace UmbralOS

open Library Library.Memory

/-- The interrupted code sees no change: all registers and its stack are the same. The kernel uses no red zone, so the
bytes below the stack pointer are free. Memory outside the stack is left open. -/
structure Transparent (top : Nat) (before after : Cpu) : Prop where
  registers : after.registers = before.registers
  rip : after.rip = before.rip
  cs : after.cs = before.cs
  ss : after.ss = before.ss
  rflags : after.rflags = before.rflags
  stack : ∀ address, before.rsp.toNat ≤ address → address < top → after.memory address = before.memory address

/-- A call is ready when the stack is aligned before the return address and the direction flag is clear. -/
structure CallReady (entry : Cpu) : Prop where
  aligned : (entry.rsp.toNat + 8) % 16 = 0
  direction : entry.rflags.getLsbD rflagsDf = false

/-- The registers that a call keeps. -/
def calleeSaved : List Register := [.rbx, .rbp, .r12, .r13, .r14, .r15]

/-- A call that returned kept its registers and the caller's stack, and it removed the return address. -/
structure CallKeeps (top : Nat) (entry exit : Cpu) : Prop where
  registers : ∀ register ∈ calleeSaved, exit.registers register = entry.registers register
  rsp : exit.rsp = entry.rsp + 8
  stack : ∀ address, entry.rsp.toNat + 8 ≤ address → address < top → exit.memory address = entry.memory address

/-- The handler obeys the calling convention, also when transparent interruptions happen between its instructions. -/
def Handler.Obeys (handler : Handler) (top : Nat) : Prop :=
  ∀ entry exit, CallReady entry →
    Relation.ReflTransGen (fun current next => handler.step current next ∨ Transparent top current next) entry exit →
    handler.returned entry exit → CallKeeps top entry exit

/-- The registers and the words that the stubs know. The last entry says that the direction flag is clear. -/
structure Frame where
  registers : Register → BitVec 64
  words : List (Option (BitVec 64))
  isForward : Bool

/-- The deepest frame of the stubs. -/
def frameLimit : Nat := 16

/-- The frame after an instruction, if the instruction stays inside the words. -/
def Instruction.onFrame (base : Nat) (instruction : Instruction) (frame : Frame) : Option Frame :=
  match instruction, frame.words with
  | .subRsp imm, words =>
      if imm.toNat % 8 = 0 ∧ imm.toNat / 8 + words.length ≤ frameLimit then
        some { frame with words := List.replicate (imm.toNat / 8) none ++ words }
      else none
  | .addRsp imm, words =>
      if imm.toNat % 8 = 0 ∧ imm.toNat / 8 ≤ words.length then
        some { frame with words := words.drop (imm.toNat / 8) }
      else none
  | .push register, words =>
      if register ≠ .rsp ∧ words.length + 1 ≤ frameLimit then
        some { frame with words := some (frame.registers register) :: words }
      else none
  | .pop register, some value :: words =>
      if register ≠ .rsp then
        some { frame with registers := Function.update frame.registers register value, words := words }
      else none
  | .pop _, _ => none
  | .movEdi imm, _ => some { frame with registers := Function.update frame.registers .rdi (imm.setWidth 64) }
  | .cld, _ => some { frame with isForward := true }
  | .movRspRsi, words =>
      some { frame with registers := Function.update frame.registers .rsi (BitVec.ofNat 64 (base - 8 * words.length)) }

/-- The frame after a sequence of instructions. -/
def framesAfter (base : Nat) : List Instruction → Frame → Option Frame
  | [], frame => some frame
  | instruction :: code, frame => instruction.onFrame base frame >>= framesAfter base code

/-- The processor has this frame on a stack that starts at the base. The stack above the base is as it was before. -/
structure Shows (before : Cpu) (top base : Nat) (cpu : Cpu) (frame : Frame) : Prop where
  registers : ∀ register, register ≠ .rsp → cpu.registers register = frame.registers register
  words : cpu.memory.Stack cpu.rsp.toNat frame.words
  position : cpu.rsp.toNat + 8 * frame.words.length = base
  stack : ∀ address, base ≤ address → address < top → cpu.memory address = before.memory address
  direction : frame.isForward = true → cpu.rflags.getLsbD rflagsDf = false

section Shows

variable {before cpu cpu' : Cpu} {top base : Nat} {frame frame' : Frame}

/-- A transparent interruption keeps the frame. -/
theorem Shows.transparent (inside : base ≤ top) (shows : Shows before top base cpu frame)
    (same : Transparent top cpu cpu') : Shows before top base cpu' frame := by
  have rsp : cpu'.rsp = cpu.rsp := congrFun same.registers .rsp
  have position := shows.position
  refine ⟨?_, ?_, ?_, ?_, ?_⟩
  · intro register other
    rw [same.registers]
    exact shows.registers register other
  · rw [rsp]
    exact shows.words.congr fun target lower upper => same.stack target lower (by omega)
  · rw [rsp]
    exact position
  · intro address lower upper
    rw [same.stack address (by omega) upper]
    exact shows.stack address lower upper
  · rw [same.rflags]
    exact shows.direction

/-- A pushed word is the first word of the next frame. -/
theorem Shows.push (room : 8 * frameLimit ≤ base) (shows : Shows before top base cpu frame)
    (deep : frame.words.length + 1 ≤ frameLimit) (value : BitVec 64) :
    Shows before top base (cpu.push value) { frame with words := some value :: frame.words } := by
  obtain ⟨registers, words, position, stack, direction⟩ := shows
  rw [frameLimit] at room deep
  have moved : (cpu.rsp - 8).toNat = cpu.rsp.toNat - 8 :=
    BitVec.toNat_sub_of_le (BitVec.le_def.mpr (by change 8 ≤ _; omega))
  refine ⟨fun other unequal => ?_, ?_, ?_, fun address lower upper => ?_, direction⟩
  · exact (cpu.push_registers _ unequal).trans (registers other unequal)
  · rw [Cpu.push_memory, Cpu.rsp_push, moved]
    apply Stack.push
    rwa [show cpu.rsp.toNat - 8 + 8 = cpu.rsp.toNat by omega]
  · rw [Cpu.rsp_push, moved, List.length_cons]
    omega
  · rw [Cpu.push_memory, moved, store_outside _ (by omega)]
    exact stack address lower upper

/-- The same change keeps an agreement of registers. -/
theorem update_agree {first second : Register → BitVec 64} (agree : ∀ other, other ≠ .rsp → first other = second other)
    (register : Register) (value : BitVec 64) : ∀ other, other ≠ .rsp →
      Function.update first register value other = Function.update second register value other := by
  intro other unequal
  by_cases same : other = register
  · subst other
    rw [Function.update_self, Function.update_self]
  · rw [Function.update_of_ne same, Function.update_of_ne same]
    exact agree other unequal

/-- A reserved space is a sequence of unknown words. -/
theorem Shows.reserve (room : 8 * frameLimit ≤ base) (shows : Shows before top base cpu frame) {imm : BitVec 64}
    (whole : imm.toNat % 8 = 0) (deep : imm.toNat / 8 + frame.words.length ≤ frameLimit) :
    Shows before top base (cpu.setRegister .rsp (cpu.rsp - imm))
      { frame with words := List.replicate (imm.toNat / 8) none ++ frame.words } := by
  obtain ⟨registers, words, position, stack, direction⟩ := shows
  rw [frameLimit] at room deep
  have moved : (cpu.rsp - imm).toNat = cpu.rsp.toNat - imm.toNat :=
    BitVec.toNat_sub_of_le (BitVec.le_def.mpr (by omega))
  refine ⟨fun register other => ?_, ?_, ?_, stack, direction⟩
  · exact (Function.update_of_ne other _ _).trans (registers register other)
  · rw [Cpu.setRegister_memory, Cpu.rsp_setRegister, moved]
    apply Stack.reserve
    rwa [show cpu.rsp.toNat - imm.toNat + 8 * (imm.toNat / 8) = cpu.rsp.toNat by omega]
  · rw [Cpu.rsp_setRegister, moved, List.length_append, List.length_replicate]
    omega

/-- A released space drops its words. -/
theorem Shows.release (small : base < 2 ^ 64) (shows : Shows before top base cpu frame) {imm : BitVec 64}
    (whole : imm.toNat % 8 = 0) (inside : imm.toNat / 8 ≤ frame.words.length) :
    Shows before top base (cpu.setRegister .rsp (cpu.rsp + imm))
      { frame with words := frame.words.drop (imm.toNat / 8) } := by
  obtain ⟨registers, words, position, stack, direction⟩ := shows
  have moved : (cpu.rsp + imm).toNat = cpu.rsp.toNat + 8 * (imm.toNat / 8) := by
    rw [BitVec.toNat_add]
    omega
  refine ⟨fun register other => ?_, ?_, ?_, stack, direction⟩
  · exact (Function.update_of_ne other _ _).trans (registers register other)
  · rw [Cpu.setRegister_memory, Cpu.rsp_setRegister, moved]
    exact words.release inside
  · rw [Cpu.rsp_setRegister, moved, List.length_drop]
    omega

/-- A popped word is the first word of the frame. -/
theorem Shows.pop (small : base < 2 ^ 64) (shows : Shows before top base cpu frame) {value : BitVec 64}
    {words : List (Option (BitVec 64))} (first : frame.words = some value :: words) {register : Register}
    (different : register ≠ .rsp) :
    Shows before top base (cpu.pop register)
      { frame with registers := Function.update frame.registers register value, words := words } := by
  obtain ⟨registers, shown, position, stack, direction⟩ := shows
  rw [first] at shown position
  rw [List.length_cons] at position
  have total := cpu.rsp.isLt
  have moved : (cpu.rsp + 8).toNat = cpu.rsp.toNat + 8 := by
    rw [BitVec.toNat_add]
    change (_ + 8) % _ = _
    omega
  have loaded : cpu.stackWord 0 = value := by
    apply BitVec.eq_of_toNat_eq
    rw [Cpu.stackWord_zero, shown.1 value rfl, BitVec.toNat_ofNat, Nat.mod_eq_of_lt value.isLt]
  refine ⟨fun other unequal => ?_, ?_, ?_, stack, direction⟩
  · rw [cpu.pop_registers unequal, loaded]
    exact update_agree registers register value other unequal
  · rw [Cpu.pop_memory, cpu.rsp_pop different, moved]
    exact shown.2
  · rw [cpu.rsp_pop different, moved]
    dsimp only
    omega

/-- A changed register is the same one in the frame. -/
theorem Shows.set (shows : Shows before top base cpu frame) {register : Register} (different : register ≠ .rsp)
    (value : BitVec 64) :
    Shows before top base (cpu.setRegister register value)
      { frame with registers := Function.update frame.registers register value } := by
  have kept : (cpu.setRegister register value).rsp = cpu.rsp := cpu.rsp_setRegister_of_ne _ different
  refine ⟨?_, ?_, ?_, shows.stack, shows.direction⟩
  · intro other unequal
    exact update_agree shows.registers register value other unequal
  · rw [kept]
    exact shows.words
  · rw [kept]
    exact shows.position

/-- An instruction shows the next frame, up to the address of the next instruction and the status flags. -/
theorem Shows.effect (room : 8 * frameLimit ≤ base) (small : base < 2 ^ 64) (shows : Shows before top base cpu frame)
    {instruction : Instruction} (next : instruction.onFrame base frame = some frame') :
    Shows before top base (instruction.effect cpu) frame' := by
  cases instruction with
  | subRsp imm =>
      simp only [Instruction.onFrame, Option.ite_none_right_eq_some, Option.some.injEq] at next
      obtain ⟨⟨whole, deep⟩, rfl⟩ := next
      exact shows.reserve room whole deep
  | addRsp imm =>
      simp only [Instruction.onFrame, Option.ite_none_right_eq_some, Option.some.injEq] at next
      obtain ⟨⟨whole, inside⟩, rfl⟩ := next
      exact shows.release small whole inside
  | push register =>
      simp only [Instruction.onFrame, Option.ite_none_right_eq_some, Option.some.injEq] at next
      obtain ⟨⟨different, deep⟩, rfl⟩ := next
      rw [Instruction.effect, shows.registers register different]
      exact shows.push room deep _
  | pop register =>
      obtain ⟨frameRegisters, frameWords, isForward⟩ := frame
      cases frameWords with
      | nil => simp [Instruction.onFrame] at next
      | cons word frameWords =>
          cases word with
          | none => simp [Instruction.onFrame] at next
          | some value =>
              simp only [Instruction.onFrame, Option.ite_none_right_eq_some, Option.some.injEq] at next
              obtain ⟨different, rfl⟩ := next
              exact shows.pop small rfl different
  | movEdi imm =>
      simp only [Instruction.onFrame, Option.some.injEq] at next
      subst next
      exact shows.set (by decide) _
  | cld =>
      simp only [Instruction.onFrame, Option.some.injEq] at next
      subst next
      refine ⟨shows.registers, shows.words, shows.position, shows.stack, fun _ => ?_⟩
      simp [Instruction.effect, rflagsDf]
  | movRspRsi =>
      simp only [Instruction.onFrame, Option.some.injEq] at next
      subst next
      have value : cpu.rsp = BitVec.ofNat 64 (base - 8 * frame.words.length) := by
        rw [← shows.position, Nat.add_sub_cancel, BitVec.ofNat_toNat, BitVec.setWidth_eq]
      rw [Instruction.effect, value]
      exact shows.set (by decide) _

/-- One instruction of the stubs shows the next frame. -/
theorem Shows.step (room : 8 * frameLimit ≤ base) (small : base < 2 ^ 64) (shows : Shows before top base cpu frame)
    {instruction : Instruction} (next : instruction.onFrame base frame = some frame')
    (step : instruction.Step cpu cpu') : Shows before top base cpu' frame' := by
  obtain ⟨rip, rflags, same, rfl⟩ := step
  obtain ⟨registers, words, position, stack, direction⟩ := shows.effect room small next
  refine ⟨registers, words, position, stack, fun forward => ?_⟩
  -- The direction flag is not a status flag.
  have bits := congrArg (fun flags => flags.getLsbD rflagsDf) same
  have open_ : rflagsStatus.getLsbD rflagsDf = false := by decide
  have bound : rflagsDf < 64 := by decide
  simp only [BitVec.getLsbD_and, BitVec.getLsbD_not, bound, decide_true, open_, Bool.not_false, Bool.and_true] at bits
  exact bits.trans (direction forward)

/-- The code of the stubs shows its last frame, with transparent interruptions between its instructions. -/
theorem Executes.shows {interrupted : Cpu → Cpu → Prop} (room : 8 * frameLimit ≤ base) (small : base < 2 ^ 64)
    (inside : base ≤ top) (transparent : ∀ current next, interrupted current next → Transparent top current next)
    {code : List Instruction} (executes : Executes interrupted code cpu cpu') (shows : Shows before top base cpu frame)
    (last : framesAfter base code frame = some frame') : Shows before top base cpu' frame' := by
  induction executes generalizing frame with
  | done cpu =>
      cases last
      exact shows
  | step step _ ih =>
      obtain ⟨middle, next, rest⟩ := Option.bind_eq_some_iff.mp last
      exact ih (shows.step room small next step) rest
  | interrupt interruption _ ih => exact ih (shows.transparent inside (transparent _ _ interruption)) last

end Shows

/-- The table of stubs agrees with the processor about the error codes. -/
theorem mem_interruptStubEcTable : ∀ vector : BitVec 8, vector ∈ interruptStubEcTable ↔ PushesErrorCode vector := by
  decide +kernel

/-- The words that the processor pushes for every vector, from the first word of the stack up. -/
def Cpu.pushed (cpu : Cpu) : List (Option (BitVec 64)) :=
  [some cpu.rip, some (cpu.cs.setWidth 64), some cpu.rflags, some cpu.rsp, some (cpu.ss.setWidth 64)]

/-- The address at which the pushes of the processor start. -/
def Cpu.stackBase (cpu : Cpu) : Nat := (alignStack cpu.rsp).toNat

theorem Cpu.stackBase_eq (cpu : Cpu) : cpu.stackBase = cpu.rsp.toNat - cpu.rsp.toNat % 16 := by
  have remainder : (cpu.rsp % 16).toNat = cpu.rsp.toNat % 16 := BitVec.toNat_umod
  have less : cpu.rsp % 16 ≤ cpu.rsp := by
    rw [BitVec.le_def, remainder]
    exact Nat.mod_le _ _
  rw [stackBase, alignStack, BitVec.toNat_sub_of_le less, remainder]

/-- The frame at the call of the handler. -/
def callFrame (cpu : Cpu) (vector : BitVec 8) (errorCode : BitVec 64) : Frame where
  registers := Function.update (Function.update cpu.registers .rdi (vector.setWidth 64)) .rsi
    (BitVec.ofNat 64 (cpu.stackBase - 128))
  words := [some (cpu.registers .r11), some (cpu.registers .r10), some (cpu.registers .r9), some (cpu.registers .r8),
    some (cpu.registers .rsi), some (cpu.registers .rdx), some (cpu.registers .rcx), some (cpu.registers .rax),
    some (cpu.registers .rdi), none, if PushesErrorCode vector then some errorCode else none] ++ cpu.pushed
  isForward := true

section Transparency

variable {top : Nat} {cpu called returned left : Cpu} {vector : BitVec 8} {errorCode : BitVec 64} {gate : Gate}
  {interrupted : Cpu → Cpu → Prop} {handler : Handler}

theorem OnStack.room (onStack : OnStack top cpu) :
    interruptStackBytes ≤ cpu.stackBase ∧ cpu.stackBase % 16 = 0 ∧ cpu.stackBase ≤ cpu.rsp.toNat ∧ cpu.stackBase < 2 ^ 64 := by
  obtain ⟨lower, upper⟩ := onStack
  have total := cpu.rsp.isLt
  rw [cpu.stackBase_eq]
  omega

/-- The processor shows the pushed state and the error code. -/
theorem shows_deliver (onStack : OnStack top cpu) : Shows cpu top cpu.stackBase (cpu.deliver vector errorCode gate)
    ⟨cpu.registers, if PushesErrorCode vector then some errorCode :: cpu.pushed else cpu.pushed, false⟩ := by
  have limit : 8 * frameLimit ≤ cpu.stackBase := by
    have room := onStack.room.1
    rw [interruptStackBytes] at room
    rw [frameLimit]
    omega
  have aligned : Shows cpu top cpu.stackBase (cpu.setRegister .rsp (alignStack cpu.rsp)) ⟨cpu.registers, [], false⟩ := by
    refine ⟨fun register other => Function.update_of_ne other _ _, trivial, ?_, fun _ _ _ => rfl, fun forward => nomatch forward⟩
    rw [Cpu.rsp_setRegister]
    rfl
  have first := aligned.push limit (Nat.le_of_ble_eq_true rfl) (cpu.ss.setWidth 64)
  have second := first.push limit (Nat.le_of_ble_eq_true rfl) cpu.rsp
  have third := second.push limit (Nat.le_of_ble_eq_true rfl) cpu.rflags
  have fourth := third.push limit (Nat.le_of_ble_eq_true rfl) (cpu.cs.setWidth 64)
  have pushed := fourth.push limit (Nat.le_of_ble_eq_true rfl) cpu.rip
  unfold Cpu.deliver
  dsimp only
  split_ifs with code
  · obtain ⟨registers, words, position, stack, _⟩ := pushed.push limit (Nat.le_of_ble_eq_true rfl) errorCode
    exact ⟨registers, words, position, stack, fun forward => nomatch forward⟩
  · obtain ⟨registers, words, position, stack, _⟩ := pushed
    exact ⟨registers, words, position, stack, fun forward => nomatch forward⟩

/-- Both shapes of stubs reach the same frame. -/
theorem framesAfter_entry (cpu : Cpu) (vector : BitVec 8) (errorCode : BitVec 64) :
    framesAfter cpu.stackBase (interruptEntry vector)
      ⟨cpu.registers, if PushesErrorCode vector then some errorCode :: cpu.pushed else cpu.pushed, false⟩ =
    some (callFrame cpu vector errorCode) := by
  have table := mem_interruptStubEcTable vector
  have width : (vector.setWidth 32).setWidth 64 = vector.setWidth 64 := by
    apply BitVec.eq_of_toNat_eq
    simp only [BitVec.toNat_setWidth]
    omega
  unfold interruptEntry callFrame
  rw [← width]
  by_cases code : PushesErrorCode vector
  · rw [if_pos code, if_pos code, if_pos (table.mpr code)]
    rfl
  · rw [if_neg code, if_neg code, if_neg (mt table.mp code)]
    rfl

/-- The structure that the handler finds: the interrupted registers and the words of the processor. -/
def Cpu.stackFrame (cpu : Cpu) (reserved errorCode : BitVec 64) : StackFrame where
  r11 := cpu.registers .r11
  r10 := cpu.registers .r10
  r9 := cpu.registers .r9
  r8 := cpu.registers .r8
  rsi := cpu.registers .rsi
  rdx := cpu.registers .rdx
  rcx := cpu.registers .rcx
  rax := cpu.registers .rax
  rdi := cpu.registers .rdi
  reserved := reserved
  errorCode := errorCode
  rip := cpu.rip
  cs := cpu.cs.setWidth 64
  rflags := cpu.rflags
  rsp := cpu.rsp
  ss := cpu.ss.setWidth 64

/-- The state at the call of the handler. -/
structure EntersHandler (cpu called : Cpu) (vector : BitVec 8) (errorCode : BitVec 64) : Prop where
  edi : called.registers .rdi = vector.setWidth 64
  aligned : called.rsp.toNat % 16 = 0
  frame : ∃ reserved code, StackFrame.read called.memory (called.registers .rsi).toNat = cpu.stackFrame reserved code ∧
    (PushesErrorCode vector → code = errorCode)

/-- The state at `iretq`: the stack pointer is at the pushed `rip`, and the other registers are restored. -/
structure LeavesHandler (cpu delivered left : Cpu) (vector : BitVec 8) : Prop where
  rsp : left.rsp = delivered.rsp + if PushesErrorCode vector then 8 else 0
  rip : left.stackWord 0 = cpu.rip
  registers : ∀ register, register ≠ .rsp → left.registers register = cpu.registers register

theorem shows_called (onStack : OnStack top cpu)
    (transparent : ∀ current next, interrupted current next → Transparent top current next)
    (entered : Executes interrupted (interruptEntry vector) (cpu.deliver vector errorCode gate) called) :
    Shows cpu top cpu.stackBase called (callFrame cpu vector errorCode) := by
  obtain ⟨room, _, below, small⟩ := onStack.room
  rw [interruptStackBytes] at room
  exact entered.shows (by rw [frameLimit]; omega) small (le_trans below onStack.2) transparent (shows_deliver onStack)
    (framesAfter_entry cpu vector errorCode)

/-- The stubs enter the handler with the vector, the frame, and an aligned stack. -/
theorem entersHandler (onStack : OnStack top cpu)
    (shows : Shows cpu top cpu.stackBase called (callFrame cpu vector errorCode)) :
    EntersHandler cpu called vector errorCode := by
  obtain ⟨room, aligned, _, small⟩ := onStack.room
  rw [interruptStackBytes] at room
  have length : (callFrame cpu vector errorCode).words.length = 16 := rfl
  have position := shows.position
  rw [length] at position
  have pointer : (called.registers .rsi).toNat = called.rsp.toNat := by
    rw [shows.registers .rsi (by decide)]
    change (BitVec.ofNat 64 (cpu.stackBase - 128)).toNat = _
    rw [BitVec.toNat_ofNat]
    omega
  have field : ∀ index value, (callFrame cpu vector errorCode).words[index]? = some (some value) →
      BitVec.ofNat 64 (called.memory.load (called.rsp.toNat + 8 * index) 8) = value := by
    intro index value known
    rw [shows.words.load known, BitVec.ofNat_toNat, BitVec.setWidth_eq]
  refine ⟨shows.registers .rdi (by decide), by omega, ?_⟩
  refine ⟨BitVec.ofNat 64 (called.memory.load (called.rsp.toNat + 8 * 9) 8),
    BitVec.ofNat 64 (called.memory.load (called.rsp.toNat + 8 * 10) 8), ?_, fun code => ?_⟩
  · rw [pointer, StackFrame.read, Cpu.stackFrame]
    simp only [field 0 _ rfl, field 1 _ rfl, field 2 _ rfl, field 3 _ rfl, field 4 _ rfl, field 5 _ rfl, field 6 _ rfl,
      field 7 _ rfl, field 8 _ rfl, field 11 _ rfl, field 12 _ rfl, field 13 _ rfl, field 14 _ rfl, field 15 _ rfl]
  · apply field
    change some (if PushesErrorCode vector then some errorCode else none) = _
    rw [if_pos code]

/-- The call is ready, and after the handler returned the frame is still on the stack. -/
theorem shows_returned (onStack : OnStack top cpu) (obeys : handler.Obeys top)
    (transparent : ∀ current next, interrupted current next → Transparent top current next)
    (shows : Shows cpu top cpu.stackBase called (callFrame cpu vector errorCode))
    (calls : handler.Calls interrupted called returned) :
    Shows cpu top cpu.stackBase returned ⟨returned.registers, (callFrame cpu vector errorCode).words, false⟩ ∧
      ∀ register ∈ calleeSaved, returned.registers register = cpu.registers register := by
  obtain ⟨room, aligned, below, small⟩ := onStack.room
  rw [interruptStackBytes] at room
  obtain ⟨registers, words, position, stack, direction⟩ := shows
  have length : (callFrame cpu vector errorCode).words.length = 16 := rfl
  rw [length] at position
  obtain ⟨returnAddress, entryPoint, run, finished⟩ := calls
  have entryRsp : (called.push returnAddress).rsp.toNat = called.rsp.toNat - 8 := by
    rw [Cpu.rsp_push]
    exact BitVec.toNat_sub_of_le (BitVec.le_def.mpr (by change 8 ≤ _; omega))
  have ready : CallReady { called.push returnAddress with rip := entryPoint } := by
    refine ⟨?_, direction rfl⟩
    change ((called.push returnAddress).rsp.toNat + 8) % 16 = 0
    omega
  have quiet : Relation.ReflTransGen (fun current next => handler.step current next ∨ Transparent top current next)
      { called.push returnAddress with rip := entryPoint } returned :=
    Relation.ReflTransGen.mono (fun current next step => Or.imp id (transparent current next) step) _ _ run
  have kept := obeys _ _ ready quiet finished
  have rsp : returned.rsp = called.rsp := by
    rw [kept.rsp]
    change (called.push returnAddress).rsp + 8 = _
    rw [Cpu.rsp_push, BitVec.sub_add_cancel]
  -- The return address is below the frame, and the handler keeps the bytes above it.
  have memory : ∀ address, called.rsp.toNat ≤ address → address < top → returned.memory address = called.memory address := by
    intro address lower upper
    have above : (called.push returnAddress).rsp.toNat + 8 ≤ address := by omega
    rw [kept.stack address above upper]
    change (called.push returnAddress).memory address = _
    rw [Cpu.push_memory, ← Cpu.rsp_push _ returnAddress, store_outside _ (by omega)]
  refine ⟨⟨fun _ _ => rfl, ?_, by rw [rsp, length]; exact position, ?_, fun forward => nomatch forward⟩, ?_⟩
  · rw [rsp]
    have top := onStack.2
    exact words.congr fun target lower upper => memory target lower (by rw [length] at upper; omega)
  · intro address lower upper
    rw [memory address (by omega) upper]
    exact stack address lower upper
  · intro register member
    rw [kept.registers register member]
    have unequal : register ≠ .rsp ∧ register ≠ .rdi ∧ register ≠ .rsi := by
      revert register
      decide
    change (called.push returnAddress).registers register = _
    rw [Cpu.push_registers _ _ unequal.1, registers register unequal.1]
    exact (Function.update_of_ne unequal.2.2 _ _).trans (Function.update_of_ne unequal.2.1 _ _)

/-- The pops take the saved registers from the frame and leave the pushed state. -/
theorem framesAfter_exit (cpu returned : Cpu) (vector : BitVec 8) (errorCode : BitVec 64) :
    ∃ restored, framesAfter cpu.stackBase genericInterruptStubExit
        ⟨returned.registers, (callFrame cpu vector errorCode).words, false⟩ = some ⟨restored, cpu.pushed, false⟩ ∧
      ∀ register, register ≠ .rsp → restored register =
        if register ∈ calleeSaved then returned.registers register else cpu.registers register := by
  refine ⟨_, rfl, fun register other => ?_⟩
  cases register with
  | rsp => exact absurd rfl other
  | _ => rfl

theorem shows_left (onStack : OnStack top cpu)
    (transparent : ∀ current next, interrupted current next → Transparent top current next)
    (shows : Shows cpu top cpu.stackBase returned ⟨returned.registers, (callFrame cpu vector errorCode).words, false⟩)
    (saved : ∀ register ∈ calleeSaved, returned.registers register = cpu.registers register)
    (leaves : Executes interrupted genericInterruptStubExit returned left) :
    Shows cpu top cpu.stackBase left ⟨cpu.registers, cpu.pushed, false⟩ := by
  obtain ⟨room, _, below, small⟩ := onStack.room
  rw [interruptStackBytes] at room
  obtain ⟨restored, last, values⟩ := framesAfter_exit cpu returned vector errorCode
  obtain ⟨registers, words, position, stack, direction⟩ := leaves.shows (by rw [frameLimit]; omega) small
    (le_trans below onStack.2) transparent shows last
  refine ⟨fun register other => ?_, words, position, stack, direction⟩
  rw [registers register other]
  change restored register = cpu.registers register
  rw [values register other]
  split_ifs with callee
  · exact saved register callee
  · rfl

/-- A pushed word is found at its offset from the pushed `rip`. -/
theorem stackWord_left (onStack : OnStack top cpu)
    (shows : Shows cpu top cpu.stackBase left ⟨cpu.registers, cpu.pushed, false⟩) (index : Nat) (value : BitVec 64)
    (known : cpu.pushed[index]? = some (some value)) {offset : BitVec 64} (word : offset.toNat = 8 * index) :
    left.stackWord offset = value := by
  have small := onStack.room.2.2.2
  have position := shows.position
  have length : cpu.pushed.length = 5 := rfl
  have inside : index < 5 := by
    obtain ⟨bound, _⟩ := List.getElem?_eq_some_iff.mp known
    rwa [length] at bound
  dsimp only at position
  rw [length] at position
  have address : (left.rsp + offset).toNat = left.rsp.toNat + 8 * index := by
    rw [BitVec.toNat_add, word]
    omega
  rw [Cpu.stackWord, address, shows.words.load known, BitVec.ofNat_toNat, BitVec.setWidth_eq]

/-- The stubs reach `iretq` with the restored registers and the stack pointer at the pushed `rip`. -/
theorem leavesHandler (onStack : OnStack top cpu)
    (shows : Shows cpu top cpu.stackBase left ⟨cpu.registers, cpu.pushed, false⟩) :
    LeavesHandler cpu (cpu.deliver vector errorCode gate) left vector := by
  have delivered := (@shows_deliver top cpu vector errorCode gate onStack).position
  have small := onStack.room.2.2.2
  have position := shows.position
  have length : cpu.pushed.length = 5 := rfl
  refine ⟨?_, stackWord_left onStack shows 0 cpu.rip rfl rfl, shows.registers⟩
  apply BitVec.eq_of_toNat_eq
  dsimp only at position delivered
  rw [length] at position
  split_ifs with code
  · rw [if_pos code, List.length_cons, length] at delivered
    rw [BitVec.toNat_add]
    change _ = (_ + 8) % _
    omega
  · rw [if_neg code, length] at delivered
    rw [BitVec.toNat_add]
    change _ = (_ + 0) % _
    omega

/-- After `iretq`, the interrupted code sees no change. -/
theorem transparent_iretq (onStack : OnStack top cpu)
    (shows : Shows cpu top cpu.stackBase left ⟨cpu.registers, cpu.pushed, false⟩) : Transparent top cpu left.iretq := by
  have rip : left.stackWord 0 = cpu.rip := stackWord_left onStack shows 0 cpu.rip rfl rfl
  have cs : left.stackWord 8 = cpu.cs.setWidth 64 := stackWord_left onStack shows 1 (cpu.cs.setWidth 64) rfl rfl
  have rflags : left.stackWord 16 = cpu.rflags := stackWord_left onStack shows 2 cpu.rflags rfl rfl
  have rsp : left.stackWord 24 = cpu.rsp := stackWord_left onStack shows 3 cpu.rsp rfl rfl
  have ss : left.stackWord 32 = cpu.ss.setWidth 64 := stackWord_left onStack shows 4 (cpu.ss.setWidth 64) rfl rfl
  have narrow : ∀ selector : BitVec 16, (selector.setWidth 64).setWidth 16 = selector := by
    intro selector
    rw [BitVec.setWidth_setWidth_of_le _ (by decide), BitVec.setWidth_eq]
  refine ⟨?_, rip, ?_, ?_, rflags, fun address lower upper => ?_⟩
  · funext register
    change Function.update left.registers .rsp (left.stackWord 24) register = _
    by_cases stack : register = .rsp
    · subst register
      rw [Function.update_self]
      exact rsp
    · rw [Function.update_of_ne stack]
      exact shows.registers register stack
  · exact (congrArg (BitVec.setWidth 16) cs).trans (narrow _)
  · exact (congrArg (BitVec.setWidth 16) ss).trans (narrow _)
  · exact shows.stack address (le_trans onStack.room.2.2.1 lower) upper

/-- Handling an interrupt is transparent to the interrupted code, at any nesting depth. -/
theorem Interrupts.transparent (obeys : handler.Obeys top) {depth : Nat} {cpu' : Cpu}
    (interrupt : Interrupts handler top depth cpu cpu') : Transparent top cpu cpu' := by
  induction depth generalizing cpu cpu' with
  | zero => exact absurd interrupt id
  | succ depth ih =>
      obtain ⟨vector, errorCode, gate, called, returned, left, onStack, entered, calls, leaves, rfl⟩ := interrupt
      have nested : ∀ current next, Interrupts handler top depth current next → Transparent top current next :=
        fun current next => ih
      have entry := shows_called onStack nested entered
      obtain ⟨frame, saved⟩ := shows_returned onStack obeys nested entry calls
      exact transparent_iretq onStack (shows_left onStack nested frame saved leaves)

/-- On entry, the handler finds the vector, the interrupted state, and an aligned stack. When it has returned and
`iretq` executes, the registers are restored, the stack pointer is at the pushed `rip`, and the interrupted code sees
no change. Interrupts of any nesting depth can happen inside. -/
theorem interrupt_entry_and_exit {depth : Nat} (obeys : handler.Obeys top) (onStack : OnStack top cpu)
    (entered : Executes (Interrupts handler top depth) (interruptEntry vector) (cpu.deliver vector errorCode gate) called) :
    EntersHandler cpu called vector errorCode ∧
      ∀ returned left, handler.Calls (Interrupts handler top depth) called returned →
        Executes (Interrupts handler top depth) genericInterruptStubExit returned left →
        LeavesHandler cpu (cpu.deliver vector errorCode gate) left vector ∧ Transparent top cpu left.iretq := by
  have nested : ∀ current next, Interrupts handler top depth current next → Transparent top current next :=
    fun current next => Interrupts.transparent obeys
  have entry := shows_called onStack nested entered
  refine ⟨entersHandler onStack entry, fun returned left calls leaves => ?_⟩
  obtain ⟨frame, saved⟩ := shows_returned onStack obeys nested entry calls
  have shows := shows_left onStack nested frame saved leaves
  exact ⟨leavesHandler onStack shows, transparent_iretq onStack shows⟩

end Transparency

/-- The code at `0x1000` clears `rax` and returns to `0x2000`. -/
def sampleHandler : Handler where
  step current next := current.rip = 0x1000 ∧
    next = { (current.setRegister .rax 0).setRegister .rsp (current.rsp + 8) with rip := 0x2000 }
  returned entry exit := entry.rip = 0x1000 ∧ exit.rip = 0x2000

theorem Transparent.refl (top : Nat) (cpu : Cpu) : Transparent top cpu cpu :=
  ⟨rfl, rfl, rfl, rfl, rfl, fun _ _ _ => rfl⟩

theorem Transparent.rsp {top : Nat} {before after : Cpu} (same : Transparent top before after) : after.rsp = before.rsp :=
  congrFun same.registers .rsp

theorem Transparent.trans {top : Nat} {before middle after : Cpu} (first : Transparent top before middle)
    (second : Transparent top middle after) : Transparent top before after where
  registers := second.registers.trans first.registers
  rip := second.rip.trans first.rip
  cs := second.cs.trans first.cs
  ss := second.ss.trans first.ss
  rflags := second.rflags.trans first.rflags
  stack address lower upper := by
    rw [second.stack address (by rwa [first.rsp]) upper]
    exact first.stack address lower upper

/-- A transparent interruption after the return changes nothing. -/
theorem CallKeeps.transparent {top : Nat} {entry before after : Cpu} (kept : CallKeeps top entry before)
    (same : Transparent top before after) : CallKeeps top entry after where
  registers register callee := by
    rw [same.registers]
    exact kept.registers register callee
  rsp := same.rsp.trans kept.rsp
  stack address lower upper := by
    have added : (entry.rsp + 8).toNat ≤ entry.rsp.toNat + 8 := by
      rw [BitVec.toNat_add]
      exact Nat.mod_le _ _
    rw [same.stack address (by rw [kept.rsp]; omega) upper]
    exact kept.stack address lower upper

/-- The return of the sample handler keeps what the convention asks for. -/
theorem sampleHandler_keeps {top : Nat} {entry current next : Cpu} (same : Transparent top entry current)
    (step : sampleHandler.step current next) : next.rip = 0x2000 ∧ CallKeeps top entry next := by
  obtain ⟨_, rfl⟩ := step
  refine ⟨rfl, ?_, ?_, fun address lower upper => same.stack address (by omega) upper⟩
  · intro register callee
    have unequal : register ≠ .rax ∧ register ≠ .rsp := by
      revert register
      decide
    rw [← same.registers]
    exact (Function.update_of_ne unequal.2 _ _).trans (Function.update_of_ne unequal.1 _ _)
  · rw [← same.rsp]
    exact (current.setRegister .rax 0).rsp_setRegister _

/-- The sample handler obeys the calling convention. -/
theorem sampleHandler_obeys (top : Nat) : sampleHandler.Obeys top := by
  intro entry exit _ run returned
  obtain ⟨start, finish⟩ := returned
  have invariant : exit.rip = 0x1000 ∧ Transparent top entry exit ∨ exit.rip = 0x2000 ∧ CallKeeps top entry exit := by
    clear finish
    induction run with
    | refl => exact Or.inl ⟨start, Transparent.refl top entry⟩
    | tail _ change ih =>
        obtain ⟨before, same⟩ | ⟨after, kept⟩ := ih
        · obtain step | quiet := change
          · exact Or.inr (sampleHandler_keeps same step)
          · exact Or.inl ⟨quiet.rip.trans before, same.trans quiet⟩
        · obtain step | quiet := change
          · exact absurd (step.1.symm.trans after) (by decide)
          · exact Or.inr ⟨quiet.rip.trans after, kept.transparent quiet⟩
  obtain ⟨before, _⟩ | ⟨_, kept⟩ := invariant
  · exact absurd (finish.symm.trans before) (by decide)
  · exact kept

/-- Code runs from every state. -/
theorem executes_exists (interrupted : Cpu → Cpu → Prop) (code : List Instruction) (cpu : Cpu) :
    ∃ cpu', Executes interrupted code cpu cpu' := by
  induction code generalizing cpu with
  | nil => exact ⟨cpu, Executes.done cpu⟩
  | cons instruction code ih =>
      obtain ⟨cpu', rest⟩ := ih { instruction.effect cpu with }
      exact ⟨cpu', Executes.step ⟨_, _, rfl, rfl⟩ rest⟩

/-- The sample handler can be called in every state. -/
theorem sampleHandler_calls (interrupted : Cpu → Cpu → Prop) (cpu : Cpu) :
    ∃ cpu', sampleHandler.Calls interrupted cpu cpu' :=
  ⟨_, 0x2000, 0x1000, Relation.ReflTransGen.single (Or.inl ⟨rfl, rfl⟩), rfl, rfl⟩

/-- An interrupt can be handled on every stack with room. -/
theorem sample_interrupts {top : Nat} {cpu : Cpu} (onStack : OnStack top cpu) (vector : BitVec 8) (errorCode : BitVec 64)
    (gate : Gate) : ∃ cpu', Interrupts sampleHandler top 1 cpu cpu' := by
  obtain ⟨called, entered⟩ := executes_exists (Interrupts sampleHandler top 0) (interruptEntry vector)
    (cpu.deliver vector errorCode gate)
  obtain ⟨returned, calls⟩ := sampleHandler_calls (Interrupts sampleHandler top 0) called
  obtain ⟨left, leaves⟩ := executes_exists (Interrupts sampleHandler top 0) genericInterruptStubExit returned
  exact ⟨left.iretq, vector, errorCode, gate, called, returned, left, onStack, entered, calls, leaves, rfl⟩

def sampleCpu : Cpu where
  registers register := if register = .rsp then 0x8008 else 7
  rip := 0x4000
  cs := 8
  ss := 16
  rflags := 0x602
  memory := fun _ => 1

def sampleGate : Gate := ⟨0x3000, 8, 16, 2⟩

/-- A page fault with the error code 2, interrupted again at its first instruction by the vector 36. -/
theorem interrupt_entry_and_exit_sample : ∃ nested called returned left,
    Interrupts sampleHandler 0x9000 1 (sampleCpu.deliver 14 2 sampleGate) nested ∧
    Executes (Interrupts sampleHandler 0x9000 1) (interruptEntry 14) nested called ∧
    EntersHandler sampleCpu called 14 2 ∧ sampleHandler.Calls (Interrupts sampleHandler 0x9000 1) called returned ∧
    LeavesHandler sampleCpu (sampleCpu.deliver 14 2 sampleGate) left 14 ∧ Transparent 0x9000 sampleCpu left.iretq := by
  have onStack : OnStack 0x9000 sampleCpu := ⟨by decide, by decide⟩
  have inner : OnStack 0x9000 (sampleCpu.deliver 14 2 sampleGate) := ⟨by decide, by decide⟩
  obtain ⟨nested, interrupts⟩ := sample_interrupts inner 36 0 sampleGate
  obtain ⟨called, entered⟩ := executes_exists (Interrupts sampleHandler 0x9000 1) (interruptEntry 14) nested
  obtain ⟨returned, calls⟩ := sampleHandler_calls (Interrupts sampleHandler 0x9000 1) called
  obtain ⟨left, leaves⟩ := executes_exists (Interrupts sampleHandler 0x9000 1) genericInterruptStubExit returned
  have result := interrupt_entry_and_exit (sampleHandler_obeys 0x9000) onStack (Executes.interrupt interrupts entered)
  obtain ⟨leavesStub, same⟩ := result.2 returned left calls leaves
  exact ⟨nested, called, returned, left, interrupts, entered, result.1, calls, leavesStub, same⟩

end UmbralOS
