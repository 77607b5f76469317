import LS8.Alu
import LS8.Machine
import LS8.Opcode
import LS8.Output

/-! # The machine: handlers

A handler carries out one kind of instruction on a machine and the port it prints to, one access
after the other. An access may fault, and then the handler ends there: the machine and the port stay
as the accesses before have left them, and nothing is taken back.

HLT, CALL and RET are carried out by `Handler.executeOne` itself. For every other opcode it looks up
a handler in `Handler.table`. The handlers of jumps set the program counter themselves; behind all
others it is advanced by the length of the instruction. -/

namespace LS8

namespace Machine

/-- The machine at the instruction after the present one, which has opcode `o`. -/
def advance (m : Machine) (o : Opcode) : Machine := { m with pc := m.pc + UInt16.ofNat o.length }

/-- The address after a two-byte instruction, as a byte to put on the stack. -/
def returnAddress (m : Machine) : Except Fault UInt8 :=
  let back := m.pc + 2
  if back.toNat < 256 then .ok back.toUInt8 else .error (.addressOutOfRange back)

theorem returnAddress_of_lt {m : Machine} (h : (m.pc + 2).toNat < 256) :
    m.returnAddress = .ok (m.pc + 2).toUInt8 := if_pos h

theorem returnAddress_of_le {m : Machine} (h : 256 ≤ (m.pc + 2).toNat) :
    m.returnAddress = .error (.addressOutOfRange (m.pc + 2)) := if_neg (Nat.not_lt.mpr h)

end Machine

/-- Work on a machine and the port it prints to. -/
abbrev Handler (σ α : Type) : Type := EStateM Fault (Machine × σ) α

namespace Handler

variable {σ : Type}

/-! ### Accesses -/

/-- The machine as it is now. -/
def machine : Handler σ Machine := return (← get).1

/-- Makes the machine `f` of what it was. -/
def update (f : Machine → Machine) : Handler σ Unit := modify fun w => (f w.1, w.2)

/-- The byte at `address`. -/
def read (address : UInt16) : Handler σ UInt8 := do
  ofExcept ((← machine).memory.read address)

/-- Puts `v` at `address`. -/
def write (address : UInt16) (v : UInt8) : Handler σ Unit := do
  let memory ← ofExcept ((← machine).memory.write address v)
  update ({ · with memory })

/-- The byte `offset` places after the program counter. -/
def operand (offset : UInt16) : Handler σ UInt8 := do
  read ((← machine).pc + offset)

/-- The register that the byte `offset` places after the program counter names. -/
def registerOperand (offset : UInt16) : Handler σ Register := do
  ofExcept (Register.ofOperand (← operand offset))

/-- The value of `r`. -/
def value (r : Register) : Handler σ UInt8 := return (← machine).registers.get r

/-- Puts `v` into `r`. -/
def setRegister (r : Register) (v : UInt8) : Handler σ Unit := update (·.setRegister r v)

/-- Lowers the stack pointer and puts `v` where it points. -/
def pushByte (v : UInt8) : Handler σ Unit := do
  let sp := (← value .sp) - 1
  write sp.toUInt16 v
  setRegister .sp sp

/-- Takes the byte that the stack pointer points to and raises it. -/
def popByte : Handler σ UInt8 := do
  let sp ← value .sp
  let v ← read sp.toUInt16
  setRegister .sp (sp + 1)
  return v

/-- Goes on at `address`. -/
def goTo (address : UInt8) : Handler σ Unit := update (·.setPc address.toUInt16)

/-- Goes on behind an instruction of opcode `o`. -/
def advance (o : Opcode) : Handler σ Unit := update (·.advance o)

/-! ### Handlers -/

/-- Puts a byte into a register. -/
def ldi : Handler σ Unit := do
  let r ← registerOperand 1
  setRegister r (← operand 2)

/-- Lets the arithmetic unit work on the registers `a` and `b`. -/
def calculate (op : AluOp) (a b : Register) : Handler σ Unit := do
  let x ← value a
  let y ← value b
  match ← ofExcept (op.result x y) with
  | some v => setRegister a v
  | none => update ({ · with flags := .ofComparison x y })

/-- Carries out the operation that the opcode is the code of. -/
def alu : Handler σ Unit := do
  let op ← ofExcept (AluOp.ofCode (← operand 0))
  let a ← registerOperand 1
  let b ← registerOperand 2
  calculate op a b

/-- Puts a register on the stack. -/
def push : Handler σ Unit := do
  let r ← registerOperand 1
  let sp := (← value .sp) - 1
  setRegister .sp sp
  -- Read after the stack pointer is lowered: PUSH R7 stores the lowered one.
  write sp.toUInt16 (← value r)

/-- Takes a register from the stack. -/
def pop : Handler σ Unit := do
  let r ← registerOperand 1
  setRegister r (← read (← value .sp).toUInt16)
  -- Whatever R7 holds now is raised: POP R7 ends one above the byte it took.
  setRegister .sp ((← value .sp) + 1)

/-- Goes on at the address in a register. -/
def jmp : Handler σ Unit := do
  goTo (← value (← registerOperand 1))

/-- Goes on at the address in a register if `taken`, otherwise behind an instruction of opcode `o`.
The register has to be one in any case. -/
def jumpIf (taken : Bool) (o : Opcode) : Handler σ Unit := do
  let target ← value (← registerOperand 1)
  if taken then goTo target else advance o

/-- Jumps after a comparison that found equality. -/
def jeq : Handler σ Unit := do
  jumpIf (← machine).flags.equal .jeq

/-- Jumps unless the last comparison found equality. -/
def jne : Handler σ Unit := do
  jumpIf (!(← machine).flags.equal) .jne

/-- Goes on at the address in a register and leaves the address behind on the stack. -/
def call : Handler σ Unit := do
  let r ← registerOperand 1
  let back ← ofExcept (← machine).returnAddress
  pushByte back
  -- Read after the push: CALL R7 goes to the lowered stack pointer.
  goTo (← value r)

/-- Goes on at the address on top of the stack. -/
def ret : Handler σ Unit := do
  goTo (← popByte)

variable [OutputPort σ]

/-- Prints a register. -/
def prn : Handler σ Unit := do
  let v ← value (← registerOperand 1)
  let (m, port) ← get
  let (taken, port) := OutputPort.print port v
  set (m, port)
  unless taken do throw .outputFailed

/-! ### The dispatch table -/

/-- The handlers and the opcodes that they carry out. -/
def table : List (Opcode × Handler σ Unit) :=
  [(.ldi, ldi), (.prn, prn), (.mul, alu), (.push, push), (.pop, pop), (.cmp, alu), (.jmp, jmp),
    (.jeq, jeq), (.jne, jne)]

/-- The handler for an opcode with byte `b`. -/
def handlerFor (b : UInt8) : Option (Handler σ Unit) :=
  (table.find? (·.1.byte == b)).map (·.2)

theorem isSome_handlerFor_byte_iff {o : Opcode} :
    (handlerFor o.byte : Option (Handler σ Unit)).isSome ↔ o ≠ .hlt ∧ o ≠ .call ∧ o ≠ .ret := by
  cases o <;> simp [handlerFor, table, Opcode.byte]

/-- How execution goes on after an instruction. -/
inductive Flow where
  /-- With the next instruction. -/
  | proceed
  /-- Not at all. -/
  | halt
deriving DecidableEq

/-- Carries out the instruction at the program counter. -/
def executeOne : Handler σ Flow := do
  let m ← machine
  let b ← read m.pc
  let unknown := Fault.unknownOpcode b m.pc
  let some o := Opcode.ofByte? b | throw unknown
  match o with
  | .hlt => return .halt
  | .call => call
  | .ret => ret
  | _ =>
    let some handler := handlerFor b | throw unknown
    handler
    unless o.setsPc do advance o
  return .proceed

end Handler

end LS8
