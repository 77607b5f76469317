import LS8.Flags
import LS8.Memory
import LS8.Register

/-! # The machine

A machine is its memory, its registers and flags, the program counter and whether it still runs,
together with the configuration that `reset` goes back to. The program counter has 16 bits, so a
host can point it outside memory. -/

namespace LS8

/-- Whether a machine runs, and if not, why. -/
inductive RunState where
  | running
  | halted
  | faulted (cause : Fault)
deriving DecidableEq

namespace RunState

/-- A machine in a terminal state carries out nothing until it is reset. -/
def isTerminal : RunState → Bool
  | running => false
  | halted => true
  | faulted _ => true

/-- The fault that stopped the machine. -/
def fault? : RunState → Option Fault
  | faulted cause => some cause
  | _ => none

end RunState

/-- What a host may choose about a machine. -/
structure Config where
  /-- Where the stack pointer starts. -/
  stackPointerReset : UInt8 := RegisterFile.stackPointerReset
deriving DecidableEq

/-- A machine between two instructions. -/
@[ext]
structure Machine where
  config : Config
  memory : Memory
  registers : RegisterFile
  flags : Flags
  /-- The address of the next instruction. -/
  pc : UInt16
  runState : RunState
deriving DecidableEq

namespace Machine

/-- A machine of configuration `config` with empty memory, ready to run from address 0. -/
def ofConfig (config : Config) : Machine where
  config := config
  memory := .zero
  registers := .withStackPointer config.stackPointerReset
  flags := .clear
  pc := 0
  runState := .running

/-- A machine that is not configured otherwise. -/
def new : Machine := ofConfig {}

instance : Inhabited Machine := ⟨new⟩

/-- The machine started afresh; only memory and configuration stay. -/
def reset (m : Machine) : Machine := { ofConfig m.config with memory := m.memory }

/-- The machine with `v` in register `r`. -/
def setRegister (m : Machine) (r : Register) (v : UInt8) : Machine :=
  { m with registers := m.registers.set r v }

/-- The machine with the program counter at `address`, inside memory or not. -/
def setPc (m : Machine) (address : UInt16) : Machine := { m with pc := address }

/-! ### Loading -/

/-- The machine with `b` at `address`. -/
def loadByte (m : Machine) (address : UInt16) (b : UInt8) : Except Fault Machine :=
  (m.memory.write address b).map fun memory => { m with memory }

/-- The machine with a list of bytes from `address` on. Loading stops at the first byte that has no
cell; the bytes before it stay loaded. -/
def loadFrom (m : Machine) (address : UInt16) : List UInt8 → Machine × Except Fault Unit
  | [] => (m, .ok ())
  | b :: bs =>
    match m.loadByte address b with
    | .error cause => (m, .error cause)
    | .ok loaded => loaded.loadFrom (address + 1) bs

/-- The machine with a program from address 0 on. -/
def loadProgram (m : Machine) (program : List UInt8) : Machine × Except Fault Unit :=
  m.loadFrom 0 program

/-! ### Stopping -/

/-- The machine after it has halted. -/
def halt (m : Machine) : Machine := { m with runState := .halted }

/-- The machine after a fault has stopped it. -/
def fail (m : Machine) (cause : Fault) : Machine := { m with runState := .faulted cause }

end Machine

end LS8
