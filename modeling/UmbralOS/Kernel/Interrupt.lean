import UmbralOS.Kernel.Cpu
import Mathlib.Logic.Relation

/-!
This file gives the stubs of `interrupt.s` and the frame of `interrupt.c`.
-/

namespace UmbralOS

open Library

/-- The instructions of the stubs. Jumps are left out: the code of a stub continues in the generic stub. -/
inductive Instruction where
  | subRsp (imm : BitVec 64)
  | addRsp (imm : BitVec 64)
  | push (register : Register)
  | pop (register : Register)
  | movEdi (imm : BitVec 32)
  | cld
  | movRspRsi

/-- The direction flag. -/
def rflagsDf : Nat := 10

/-- The registers, the flags, and the memory that an instruction leaves. A write of a 32-bit register clears its high half. -/
def Instruction.effect (instruction : Instruction) (cpu : Cpu) : Cpu :=
  match instruction with
  | .subRsp imm => cpu.setRegister .rsp (cpu.rsp - imm)
  | .addRsp imm => cpu.setRegister .rsp (cpu.rsp + imm)
  | .push register => cpu.push (cpu.registers register)
  | .pop register => cpu.pop register
  | .movEdi imm => cpu.setRegister .rdi (imm.setWidth 64)
  | .cld => { cpu with rflags := cpu.rflags &&& ~~~(1#64 <<< rflagsDf) }
  | .movRspRsi => cpu.setRegister .rsi cpu.rsp

/-- The vectors whose line in the table of stubs uses `interrupt_stub_ec`. -/
def interruptStubEcTable : List (BitVec 8) := [8, 10, 11, 12, 13, 14, 17, 21, 29, 30]

/-- The macro `interrupt_stub`. -/
def interruptStub (idx : BitVec 8) : List Instruction := [.subRsp 0x10, .push .rdi, .movEdi (idx.setWidth 32)]

/-- The macro `interrupt_stub_ec`. -/
def interruptStubEc (idx : BitVec 8) : List Instruction := [.subRsp 0x8, .push .rdi, .movEdi (idx.setWidth 32)]

/-- The generic stub before the call of `interrupt_handler`. -/
def genericInterruptStubEntry : List Instruction :=
  [.push .rax, .push .rcx, .push .rdx, .push .rsi, .push .r8, .push .r9, .push .r10, .push .r11, .cld, .movRspRsi]

/-- The generic stub between the call and `iretq`. -/
def genericInterruptStubExit : List Instruction :=
  [.pop .r11, .pop .r10, .pop .r9, .pop .r8, .pop .rsi, .pop .rdx, .pop .rcx, .pop .rax, .pop .rdi, .addRsp 0x10]

/-- The code of a vector from its entry point to the call. -/
def interruptEntry (vector : BitVec 8) : List Instruction :=
  (if vector ∈ interruptStubEcTable then interruptStubEc vector else interruptStub vector) ++ genericInterruptStubEntry

structure StackFrame where
  r11 : BitVec 64
  r10 : BitVec 64
  r9 : BitVec 64
  r8 : BitVec 64
  rsi : BitVec 64
  rdx : BitVec 64
  rcx : BitVec 64
  rax : BitVec 64
  rdi : BitVec 64
  reserved : BitVec 64
  errorCode : BitVec 64
  rip : BitVec 64
  cs : BitVec 64
  rflags : BitVec 64
  rsp : BitVec 64
  ss : BitVec 64

/-- This function reads the structure at an address. Its fields follow each other without padding. -/
def StackFrame.read (memory : Memory) (address : Nat) : StackFrame :=
  let field := fun index => BitVec.ofNat 64 (memory.load (address + 8 * index) 8)
  { r11 := field 0, r10 := field 1, r9 := field 2, r8 := field 3, rsi := field 4, rdx := field 5, rcx := field 6
    rax := field 7, rdi := field 8, reserved := field 9, errorCode := field 10, rip := field 11, cs := field 12
    rflags := field 13, rsp := field 14, ss := field 15 }

/-- The carry, parity, adjust, zero, sign, and overflow flags. -/
def rflagsStatus : BitVec 64 := 0x8D5#64

/-- One instruction runs. The address of the next instruction and the status flags are left open. -/
def Instruction.Step (instruction : Instruction) (cpu cpu' : Cpu) : Prop :=
  ∃ rip rflags, rflags &&& ~~~rflagsStatus = (instruction.effect cpu).rflags &&& ~~~rflagsStatus ∧
    { instruction.effect cpu with rip := rip, rflags := rflags } = cpu'

/-- The instructions run in their order. An interruption can happen before and after each of them. -/
inductive Executes (interrupted : Cpu → Cpu → Prop) : List Instruction → Cpu → Cpu → Prop where
  | done (cpu : Cpu) : Executes interrupted [] cpu cpu
  | step {instruction : Instruction} {code : List Instruction} {cpu next last : Cpu} :
      instruction.Step cpu next → Executes interrupted code next last →
      Executes interrupted (instruction :: code) cpu last
  | interrupt {code : List Instruction} {cpu next last : Cpu} :
      interrupted cpu next → Executes interrupted code next last → Executes interrupted code cpu last

/-- The compiled code of `interrupt_handler` and of the functions that it calls. -/
structure Handler where
  /-- One instruction of the code runs. -/
  step : Cpu → Cpu → Prop
  /-- A call that started in the first state has just returned in the second state. -/
  returned : Cpu → Cpu → Prop

/-- The call pushes a return address, and the handler runs until it returns. An interruption can happen between any two
of its instructions. -/
def Handler.Calls (handler : Handler) (interrupted : Cpu → Cpu → Prop) (cpu cpu' : Cpu) : Prop :=
  ∃ returnAddress entryPoint,
    Relation.ReflTransGen (fun current next => handler.step current next ∨ interrupted current next)
      { cpu.push returnAddress with rip := entryPoint } cpu' ∧
    handler.returned { cpu.push returnAddress with rip := entryPoint } cpu'

/-- The bytes that an interrupt uses below the aligned stack pointer: the frame and the return address. -/
def interruptStackBytes : Nat := 136

/-- The interrupt arrives on a stack that ends at this address, and the stack has room for the frame. -/
def OnStack (top : Nat) (cpu : Cpu) : Prop := interruptStackBytes + 16 ≤ cpu.rsp.toNat ∧ cpu.rsp.toNat ≤ top

/-- An interrupt is handled from its delivery to `iretq`, with at most this depth of nested interrupts. -/
def Interrupts (handler : Handler) (top : Nat) : Nat → Cpu → Cpu → Prop
  | 0, _, _ => False
  | depth + 1, cpu, cpu' => ∃ vector errorCode gate called returned left, OnStack top cpu ∧
      Executes (Interrupts handler top depth) (interruptEntry vector) (cpu.deliver vector errorCode gate) called ∧
      handler.Calls (Interrupts handler top depth) called returned ∧
      Executes (Interrupts handler top depth) genericInterruptStubExit returned left ∧ left.iretq = cpu'

end UmbralOS
