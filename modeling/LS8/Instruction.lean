import LS8.Memory
import LS8.Opcode
import LS8.Register

/-! # Instructions

An instruction is an opcode with its operands checked: a register operand is a register, not a
byte. `Instruction.fetch` reads one from memory: it looks at the opcode first, then at the operands
from left to right, and reports the first thing that is wrong. -/

namespace LS8

/-- The instructions with their operands. -/
inductive Instruction where
  /-- Stop. -/
  | hlt
  /-- Go on at the address on top of the stack. -/
  | ret
  /-- Put a register on the stack. -/
  | push (r : Register)
  /-- Take a register from the stack. -/
  | pop (r : Register)
  /-- Print a register in decimal. -/
  | prn (r : Register)
  /-- Go on at the address in a register and leave the address behind on the stack. -/
  | call (r : Register)
  /-- Go on at the address in a register. -/
  | jmp (r : Register)
  /-- Go on at the address in a register if the last comparison found equality. -/
  | jeq (r : Register)
  /-- Go on at the address in a register unless the last comparison found equality. -/
  | jne (r : Register)
  /-- Put a byte into a register. -/
  | ldi (r : Register) (v : UInt8)
  /-- Multiply the first register by the second. -/
  | mul (a b : Register)
  /-- Compare two registers. -/
  | cmp (a b : Register)
deriving DecidableEq

namespace Instruction

/-- The opcode of an instruction. -/
def opcode : Instruction → Opcode
  | hlt => .hlt
  | ret => .ret
  | push _ => .push
  | pop _ => .pop
  | prn _ => .prn
  | call _ => .call
  | jmp _ => .jmp
  | jeq _ => .jeq
  | jne _ => .jne
  | ldi _ _ => .ldi
  | mul _ _ => .mul
  | cmp _ _ => .cmp

/-! ### Fetching -/

/-- The register that the operand byte `offset` places after `pc` names. -/
def registerOperand (m : Memory) (pc offset : UInt16) : Except Fault Register := do
  Register.ofOperand (← m.read (pc + offset))

/-- The instruction of opcode `o` whose operands follow it at `pc`. -/
def operands (m : Memory) (pc : UInt16) (o : Opcode) : Except Fault Instruction :=
  match o with
  | .hlt => return .hlt
  | .ret => return .ret
  | .push => return .push (← registerOperand m pc 1)
  | .pop => return .pop (← registerOperand m pc 1)
  | .prn => return .prn (← registerOperand m pc 1)
  | .call => return .call (← registerOperand m pc 1)
  | .jmp => return .jmp (← registerOperand m pc 1)
  | .jeq => return .jeq (← registerOperand m pc 1)
  | .jne => return .jne (← registerOperand m pc 1)
  | .ldi => do
    let r ← registerOperand m pc 1
    return .ldi r (← m.read (pc + 2))
  | .mul => do
    let a ← registerOperand m pc 1
    return .mul a (← registerOperand m pc 2)
  | .cmp => do
    let a ← registerOperand m pc 1
    return .cmp a (← registerOperand m pc 2)

/-- The instruction at `pc`, or the first thing that is wrong with it. -/
def fetch (m : Memory) (pc : UInt16) : Except Fault Instruction := do
  let b ← m.read pc
  match Opcode.ofByte? b with
  | none => throw (.unknownOpcode b pc)
  | some o => operands m pc o

theorem opcode_of_operands {m : Memory} {pc : UInt16} {o : Opcode} {i : Instruction}
    (h : operands m pc o = .ok i) : i.opcode = o := by
  cases o <;> simp only [operands, bind, Except.bind, pure, Except.pure] at h <;>
    (repeat' split at h) <;> cases h <;> rfl

theorem fetch_of_le (m : Memory) {pc : UInt16} (h : 256 ≤ pc.toNat) :
    fetch m pc = .error (.addressOutOfRange pc) := by
  rw [fetch, Memory.read_of_le m h]; rfl

theorem fetch_of_lt (m : Memory) {pc : UInt16} (h : pc.toNat < 256) :
    fetch m pc =
      match Opcode.ofByte? (m.get pc.toUInt8) with
      | none => .error (.unknownOpcode (m.get pc.toUInt8) pc)
      | some o => operands m pc o := by
  rw [fetch, Memory.read_of_lt m h]; rfl

end Instruction

end LS8
