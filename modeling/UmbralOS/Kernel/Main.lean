import UmbralOS.Kernel.Dispatch
import UmbralOS.Kernel.Sdt

/-!
This file gives `main.c` and `security.c`.
-/

namespace UmbralOS

open Library

def cpuid70EbxSmap : BitVec 64 := 1#64 <<< 20
def cpuid70EbxSmep : BitVec 64 := 1#64 <<< 7
def cpuid70EcxUmip : BitVec 64 := 1#64 <<< 2

def cr0Ne : BitVec 64 := 1#64 <<< 5
def cr0Ts : BitVec 64 := 1#64 <<< 3
def cr0Em : BitVec 64 := 1#64 <<< 2
def cr0Mp : BitVec 64 := 1#64 <<< 1

def cr4Smap : BitVec 64 := 1#64 <<< 21
def cr4Smep : BitVec 64 := 1#64 <<< 20
def cr4Umip : BitVec 64 := 1#64 <<< 11
def cr4Osxmmexcpt : BitVec 64 := 1#64 <<< 10
def cr4Osfxsr : BitVec 64 := 1#64 <<< 9

def defaultStackSize : BitVec 64 := 0x10000#64

/-- The state of `main`. The parser and the handlers share the machine. -/
structure Booting where
  handling : Handling
  hasI8042 : Bool
  parsed : List Pointer
  rootUses : List Nat
  uses : List TableUse
  cr0 : BitVec 64
  cr4 : BitVec 64

abbrev BootingProgram (A : Type) := Program Stop Booting A

namespace Booting

def machine (booting : Booting) : Machine := booting.handling.ps2.machine

def withPs2 (ps2 : Ps2) (booting : Booting) : Booting := { booting with handling := { booting.handling with ps2 := ps2 } }

/-- The part of the state that the parser uses. -/
def acpi (booting : Booting) : Acpi where
  machine := booting.machine
  hasI8042 := booting.hasI8042
  parsed := booting.parsed
  rootUses := booting.rootUses
  uses := booting.uses

def withAcpi (acpi : Acpi) (booting : Booting) : Booting :=
  { booting.withPs2 { booting.handling.ps2 with machine := acpi.machine } with
    hasI8042 := acpi.hasI8042, parsed := acpi.parsed, rootUses := acpi.rootUses, uses := acpi.uses }

end Booting

section Lift

variable {A : Type}

def onHandling (program : HandlingProgram A) : BootingProgram A :=
  focus Booting.handling (fun handling booting => { booting with handling := handling }) program

def onPs2 (program : Ps2Program A) : BootingProgram A := onHandling (liftHandling program)

def onMachine (program : MachineProgram A) : BootingProgram A := onPs2 (liftPs2 program)

def onMm (program : MmProgram A) : BootingProgram A := onMachine (liftMm program)

def onAcpi (program : AcpiProgram A) : BootingProgram A := focus Booting.acpi Booting.withAcpi program

end Lift

/-- The bits that `security_init` sets, as the processor has the features. -/
def securityCr4 (cpuid70 : CpuidResult) (cr4 : BitVec 64) : BitVec 64 :=
  let cr4 := if cpuid70.ebx &&& cpuid70EbxSmap ≠ 0 then cr4 ||| cr4Smap else cr4
  let cr4 := if cpuid70.ebx &&& cpuid70EbxSmep ≠ 0 then cr4 ||| cr4Smep else cr4
  if cpuid70.ecx &&& cpuid70EcxUmip ≠ 0 then cr4 ||| cr4Umip else cr4

def securityInit : BootingProgram Unit := do
  let booting ← get
  let cpuid70 := booting.machine.mm.cpuid 7 0
  onHandling (modify fun handling => { handling with hasSmap := cpuid70.ebx &&& cpuid70EbxSmap != 0 })
  modify fun booting => { booting with cr4 := securityCr4 cpuid70 booting.cr4 }
  onHandling enforceSmap

def fpInit : BootingProgram Unit :=
  modify fun booting => { booting with
    cr0 := booting.cr0 &&& ~~~cr0Em ||| (cr0Ne ||| cr0Ts ||| cr0Mp)
    cr4 := booting.cr4 ||| (cr4Osxmmexcpt ||| cr4Osfxsr) }

/-- The responses of the boot loader that `main` reads. -/
structure LimineResponses where
  memmap : List LimineMemmapEntry
  offset : Pointer
  executable : LimineExecutableAddress
  framebufferCount : BitVec 64
  rsdp : Option Pointer

/-- The terminal of the framebuffer is not part of the repository. -/
def startTerminal (flantermFbInit : BootingProgram Unit) (framebufferCount : BitVec 64) : BootingProgram Unit :=
  if 0 < framebufferCount then flantermFbInit else pure ()

def startAcpi (fuel : Nat) : Option Pointer → BootingProgram Unit
  | none => throw (.panic "No RSDP response from limine" [])
  | some address => onAcpi (acpiParseRsdp fuel address)

/-- The debug build clears the free memory. -/
def clearFreeMemory (debugChecks : Bool) : BootingProgram Unit := if debugChecks then onMm pmmZero else pure ()

def startInput (timing : Ps2Timing) (fuel : Nat) : BootingProgram Unit := do
  let booting ← get
  if booting.hasI8042 then onPs2 (ps2Init timing fuel) else pure ()

/-- The breakpoint at the end is handled with the given frame. The tables of `load_gdt` and `load_idt` are constant, and
the flag of `sti` and the final `hlt` change no variable. -/
def main (debugChecks : Bool) (timing : Ps2Timing) (fuel : Nat) (flantermFbInit : BootingProgram Unit)
    (responses : LimineResponses) (stackOrigin : Pointer) (stackFrame : StackFrame) : BootingProgram Unit := do
  securityInit
  onMachine serialEarlyInit
  onPs2 (kprint "Kernel Base: 0x%lx\n" [responses.executable.virtualBase])
  onMm (pmmInit responses.memmap responses.offset)
  onMm (vmmInit responses.memmap responses.executable)
  startTerminal flantermFbInit responses.framebufferCount
  startAcpi fuel responses.rsdp
  onMm (pmmReclaim responses.memmap stackOrigin defaultStackSize)
  clearFreeMemory debugChecks
  onMachine (serialInit true)
  startInput timing fuel
  fpInit
  onHandling (interruptHandler timing idtIdxExceptionBp stackFrame)
  onPs2 (kprint "Boot Complete!\n" [])

end UmbralOS
