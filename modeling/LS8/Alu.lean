import LS8.Flags
import LS8.Register

/-! # Arithmetic

The arithmetic unit works on two registers. Sum, difference, product and quotient go to the first
and are taken modulo 256; a comparison leaves the registers alone and sets the flags. Of these
operations only the division can fail, and then it changes nothing. -/

namespace LS8

/-- The operations of the arithmetic unit. -/
inductive AluOp where
  | add
  | sub
  | mul
  | div
  | cmp
deriving DecidableEq

/-- What the arithmetic unit reads and writes. -/
@[ext]
structure AluState where
  registers : RegisterFile
  flags : Flags
deriving DecidableEq

namespace AluOp

/-- The operations in the order of their codes. -/
def all : List AluOp := [add, sub, mul, div, cmp]

/-- The code of an operation. -/
def code : AluOp → UInt8
  | add => 0xA0
  | sub => 0xA1
  | mul => 0xA2
  | div => 0xA3
  | cmp => 0xA7

/-- The operation with the given code. -/
def ofCode (c : UInt8) : Except Fault AluOp :=
  match all.find? (·.code == c) with
  | some op => .ok op
  | none => .error (.unsupportedAluOperation c)

@[simp] theorem ofCode_code (op : AluOp) : ofCode op.code = .ok op := by
  cases op <;> rfl

/-- What an operation on `x` and `y` leaves in the first register; nothing for a comparison. -/
def result (x y : UInt8) : AluOp → Except Fault (Option UInt8)
  | add => .ok (some (x + y))
  | sub => .ok (some (x - y))
  | mul => .ok (some (x * y))
  | div => if y = 0 then .error .divisionByZero else .ok (some (x / y))
  | cmp => .ok none

/-- The state after an operation on the registers `a` and `b`. -/
def apply (op : AluOp) (a b : Register) (s : AluState) : Except Fault AluState :=
  let x := s.registers.get a
  let y := s.registers.get b
  match op.result x y with
  | .error c => .error c
  | .ok (some v) => .ok { s with registers := s.registers.set a v }
  | .ok none => .ok { s with flags := .ofComparison x y }

/-- **Only division fails**, and only by zero. -/
theorem apply_eq_error_iff {op : AluOp} {a b : Register} {s : AluState} {c : Fault} :
    op.apply a b s = .error c ↔ op = div ∧ s.registers.get b = 0 ∧ c = .divisionByZero := by
  cases op
  case div =>
    by_cases h : s.registers.get b = 0 <;> simp [apply, result, h, eq_comm]
  all_goals simp [apply, result]

end AluOp

end LS8
