/-! # Opcodes

Twelve bytes begin an instruction. Their upper bits describe it: the top two count the operand
bytes, the next marks arithmetic, and the one after marks the instructions that decide themselves
where execution goes on. -/

namespace LS8

/-- The first bytes of the instructions. -/
inductive Opcode where
  | hlt
  | ret
  | push
  | pop
  | prn
  | call
  | jmp
  | jeq
  | jne
  | ldi
  | mul
  | cmp
deriving DecidableEq

namespace Opcode

/-- The opcodes in the order of their bytes. -/
def all : List Opcode := [hlt, ret, push, pop, prn, call, jmp, jeq, jne, ldi, mul, cmp]

/-- The byte of an opcode. -/
def byte : Opcode → UInt8
  | hlt => 0x01
  | ret => 0x11
  | push => 0x45
  | pop => 0x46
  | prn => 0x47
  | call => 0x50
  | jmp => 0x54
  | jeq => 0x55
  | jne => 0x56
  | ldi => 0x82
  | mul => 0xA2
  | cmp => 0xA7

/-- The opcode with the given byte. -/
def ofByte? (b : UInt8) : Option Opcode := all.find? (·.byte == b)

@[simp] theorem mem_all (o : Opcode) : o ∈ all := by cases o <;> decide

@[simp] theorem ofByte?_byte (o : Opcode) : ofByte? o.byte = some o := by cases o <;> rfl

theorem byte_of_ofByte? {b : UInt8} {o : Opcode} (h : ofByte? b = some o) : o.byte = b := by
  simpa using List.find?_some h

/-! ### What the bits say -/

/-- The number of operand bytes, from the two top bits. -/
def operandCount (o : Opcode) : Nat := (o.byte >>> 6).toNat

/-- The number of bytes of an instruction. -/
def length (o : Opcode) : Nat := o.operandCount + 1

/-- Whether the arithmetic unit carries the instruction out. -/
def isAlu (o : Opcode) : Bool := o.byte &&& 0x20 != 0

/-- Whether the instruction decides itself where execution goes on. -/
def setsPc (o : Opcode) : Bool := o.byte &&& 0x10 != 0

theorem length_eq (o : Opcode) :
    o.length =
      match o with
      | hlt | ret => 1
      | push | pop | prn | call | jmp | jeq | jne => 2
      | ldi | mul | cmp => 3 := by
  cases o <;> decide

theorem isAlu_eq (o : Opcode) :
    o.isAlu =
      match o with
      | mul | cmp => true
      | _ => false := by
  cases o <;> decide

theorem setsPc_eq (o : Opcode) :
    o.setsPc =
      match o with
      | ret | call | jmp | jeq | jne => true
      | _ => false := by
  cases o <;> decide

theorem one_le_length (o : Opcode) : 1 ≤ o.length := by cases o <;> decide

theorem length_le_three (o : Opcode) : o.length ≤ 3 := by cases o <;> decide

/-! ### Names -/

/-- The name of an opcode in listings. -/
def mnemonic : Opcode → List Char
  | hlt => "HLT".toList
  | ret => "RET".toList
  | push => "PUSH".toList
  | pop => "POP".toList
  | prn => "PRN".toList
  | call => "CALL".toList
  | jmp => "JMP".toList
  | jeq => "JEQ".toList
  | jne => "JNE".toList
  | ldi => "LDI".toList
  | mul => "MUL".toList
  | cmp => "CMP".toList

end Opcode

end LS8
