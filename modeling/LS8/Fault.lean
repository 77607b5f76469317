import LS8.Text.Numeral

/-! # Faults

A fault ends a run. It names its cause and carries the address, the register index or the byte that
the cause is about; the wording shown to a reader is the business of `Fault.message` alone. -/

namespace LS8

open LS8.Text.Numeral

/-- The ways in which execution can fail. -/
inductive Fault where
  /-- An address outside the 256 cells of memory. -/
  | addressOutOfRange (address : UInt16)
  /-- A register operand above the index of the last register. -/
  | registerOutOfRange (index : UInt8)
  /-- A byte fetched at `pc` that begins no instruction. -/
  | unknownOpcode (opcode : UInt8) (pc : UInt16)
  /-- A division whose divisor is zero. -/
  | divisionByZero
  /-- A code that asks the arithmetic unit for an operation it does not have. -/
  | unsupportedAluOperation (code : UInt8)
  /-- A line of output that the output port refused. -/
  | outputFailed
deriving DecidableEq

/-- The kinds of failure that the faults fall into. -/
inductive FaultClass where
  | address
  | decode
  | math
  | unsupportedOperation
  | output
deriving DecidableEq

namespace Fault

/-- The kind of failure that a fault is. -/
def faultClass : Fault → FaultClass
  | addressOutOfRange _ => .address
  | registerOutOfRange _ => .address
  | unknownOpcode _ _ => .decode
  | divisionByZero => .math
  | unsupportedAluOperation _ => .unsupportedOperation
  | outputFailed => .output

/-- A hexadecimal numeral of at least `width` digits behind its `0x`. -/
def hexText (width n : Nat) : List Char := "0x".toList ++ hexSmall width n

/-- The sentence that reports a fault. -/
def message : Fault → List Char
  | addressOutOfRange address =>
    "memory address ".toList ++ hexText 4 address.toNat ++
      " is outside the 256-byte address space".toList
  | registerOutOfRange index =>
    "register index ".toList ++ decimal index.toNat ++ " is outside R0..R7".toList
  | unknownOpcode opcode pc =>
    "unknown opcode ".toList ++ hexText 2 opcode.toNat ++ " at pc ".toList ++ hexText 2 pc.toNat
  | divisionByZero => "division by zero".toList
  | unsupportedAluOperation code => "unsupported ALU operation ".toList ++ hexText 2 code.toNat
  | outputFailed => "output write failed".toList

end Fault

end LS8
