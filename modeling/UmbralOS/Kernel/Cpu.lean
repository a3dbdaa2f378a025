import UmbralOS.Library.Memory
import Mathlib.Logic.Function.Basic

/-!
This file gives the part of a processor that an interrupt saves and restores.
-/

namespace UmbralOS

open Library

/-- The general-purpose registers. -/
inductive Register where
  | rax | rcx | rdx | rbx | rsp | rbp | rsi | rdi
  | r8 | r9 | r10 | r11 | r12 | r13 | r14 | r15
  deriving DecidableEq

structure Cpu where
  registers : Register → BitVec 64
  rip : BitVec 64
  cs : BitVec 16
  ss : BitVec 16
  rflags : BitVec 64
  memory : Memory

namespace Cpu

/-- The stack pointer. -/
def rsp (cpu : Cpu) : BitVec 64 := cpu.registers .rsp

def setRegister (cpu : Cpu) (register : Register) (value : BitVec 64) : Cpu :=
  { cpu with registers := Function.update cpu.registers register value }

/-- A push moves the stack pointer down by eight bytes and stores a word there. -/
def push (cpu : Cpu) (value : BitVec 64) : Cpu :=
  { cpu.setRegister .rsp (cpu.rsp - 8) with memory := cpu.memory.store (cpu.rsp - 8).toNat 8 value.toNat }

/-- This function reads the word at an offset from the stack pointer. -/
def stackWord (cpu : Cpu) (offset : BitVec 64) : BitVec 64 :=
  BitVec.ofNat 64 (cpu.memory.load (cpu.rsp + offset).toNat 8)

/-- A pop loads a word into a register and moves the stack pointer up by eight bytes. -/
def pop (cpu : Cpu) (register : Register) : Cpu :=
  (cpu.setRegister .rsp (cpu.rsp + 8)).setRegister register (cpu.stackWord 0)

section Fields

variable (cpu : Cpu) (value : BitVec 64) {register other : Register}

@[simp] theorem setRegister_memory : (cpu.setRegister register value).memory = cpu.memory := rfl

@[simp] theorem setRegister_registers :
    (cpu.setRegister register value).registers = Function.update cpu.registers register value := rfl

@[simp] theorem rsp_setRegister : (cpu.setRegister .rsp value).rsp = value := by
  rw [rsp, setRegister_registers, Function.update_self]

theorem rsp_setRegister_of_ne (different : register ≠ .rsp) : (cpu.setRegister register value).rsp = cpu.rsp :=
  Function.update_of_ne different.symm _ _

@[simp] theorem rsp_push : (cpu.push value).rsp = cpu.rsp - 8 := cpu.rsp_setRegister _

@[simp] theorem push_memory :
    (cpu.push value).memory = cpu.memory.store (cpu.rsp - 8).toNat 8 value.toNat := rfl

theorem push_registers (different : other ≠ .rsp) : (cpu.push value).registers other = cpu.registers other :=
  Function.update_of_ne different _ _

theorem stackWord_zero : cpu.stackWord 0 = BitVec.ofNat 64 (cpu.memory.load cpu.rsp.toNat 8) := by
  rw [stackWord, show cpu.rsp + 0 = cpu.rsp from BitVec.add_zero _]

theorem rsp_pop (different : register ≠ .rsp) : (cpu.pop register).rsp = cpu.rsp + 8 := by
  rw [pop, rsp_setRegister_of_ne _ _ different, rsp_setRegister]

@[simp] theorem pop_memory : (cpu.pop register).memory = cpu.memory := rfl

theorem pop_registers (different : other ≠ .rsp) : (cpu.pop register).registers other =
    Function.update cpu.registers register (cpu.stackWord 0) other := by
  by_cases same : other = register
  · subst other
    rw [pop, setRegister_registers, Function.update_self, Function.update_self]
  · rw [pop, setRegister_registers, setRegister_registers, Function.update_of_ne same, Function.update_of_ne same,
      Function.update_of_ne different]

end Fields

end Cpu

/-- The processor pushes an error code for these vectors. -/
def PushesErrorCode (vector : BitVec 8) : Prop :=
  vector = 8 ∨ 10 ≤ vector.toNat ∧ vector.toNat ≤ 14 ∨ vector = 17 ∨ vector = 21 ∨ vector = 29 ∨ vector = 30

instance (vector : BitVec 8) : Decidable (PushesErrorCode vector) := inferInstanceAs (Decidable (_ ∨ _))

/-- The gate of a vector gives the handler's address and segments, and the flags that stay set. -/
structure Gate where
  rip : BitVec 64
  cs : BitVec 16
  ss : BitVec 16
  rflags : BitVec 64

/-- The processor aligns the stack pointer to 16 bytes. -/
def alignStack (rsp : BitVec 64) : BitVec 64 := rsp - rsp % 16

/-- The processor delivers an interrupt: it aligns the stack, and it pushes the interrupted state and the error code. -/
def Cpu.deliver (cpu : Cpu) (vector : BitVec 8) (errorCode : BitVec 64) (gate : Gate) : Cpu :=
  let aligned := cpu.setRegister .rsp (alignStack cpu.rsp)
  let pushed := ((((aligned.push (cpu.ss.setWidth 64)).push cpu.rsp).push cpu.rflags).push
    (cpu.cs.setWidth 64)).push cpu.rip
  let pushed := if PushesErrorCode vector then pushed.push errorCode else pushed
  { pushed with rip := gate.rip, cs := gate.cs, ss := gate.ss, rflags := gate.rflags }

/-- `iretq` restores the pushed state. -/
def Cpu.iretq (cpu : Cpu) : Cpu where
  registers := Function.update cpu.registers .rsp (cpu.stackWord 24)
  rip := cpu.stackWord 0
  cs := (cpu.stackWord 8).setWidth 16
  ss := (cpu.stackWord 32).setWidth 16
  rflags := cpu.stackWord 16
  memory := cpu.memory

end UmbralOS
