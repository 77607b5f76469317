import LS8.Instruction
import LS8.Machine.Handler

/-! # The machine: effects of instructions

The effect of an instruction says in one piece what its handler does access by access: the
instruction halts, or it leaves a next machine, or it asks for a value to be printed and leaves a
next machine once that is done. An effect has no room for half an instruction; that the handlers
leave none behind and come to these effects is a theorem about them (`Handler.run_executeOne`).

* `Instruction.effect_eq_error_iff`: an instruction that could be fetched has an effect, unless it
  is a CALL whose return address is no byte. -/

namespace LS8

/-- What carrying out an instruction comes to. -/
inductive Effect where
  /-- The machine stops. -/
  | halt
  /-- The machine becomes `next`. -/
  | retire (next : Machine)
  /-- The machine becomes `next` when `value` has been printed. -/
  | print (value : UInt8) (next : Machine)
deriving DecidableEq

namespace Machine

/-! ### Moving on -/

/-- The machine at the address in register `r`. -/
def jump (m : Machine) (r : Register) : Machine :=
  { m with pc := (m.registers.get r).toUInt16 }

/-! ### The stack -/

/-- The machine with `r` on the stack. The stack pointer is lowered first, so PUSH R7 stores the
lowered one. -/
def push (m : Machine) (r : Register) : Machine :=
  let lowered := m.registers.lowerSp
  { m with registers := lowered, memory := m.memory.set lowered.sp (lowered.get r) }

/-- The machine with the top of the stack in `r`. The stack pointer is raised last, so POP R7 ends
one above the byte it took. -/
def pop (m : Machine) (r : Register) : Machine :=
  { m with registers := (m.registers.set r (m.memory.get m.registers.sp)).raiseSp }

/-- The machine at the address in `r` with `back` on the stack. The stack pointer is lowered first,
so CALL R7 goes to the lowered one. -/
def call (m : Machine) (r : Register) (back : UInt8) : Machine :=
  let lowered := m.registers.lowerSp
  { m with
    registers := lowered
    memory := m.memory.set lowered.sp back
    pc := (lowered.get r).toUInt16 }

/-- The machine at the address on top of the stack. -/
def ret (m : Machine) : Machine :=
  { m with registers := m.registers.raiseSp, pc := (m.memory.get m.registers.sp).toUInt16 }

/-! ### Arithmetic -/

/-- The machine after the arithmetic unit has worked on the registers `a` and `b`. -/
def compute (m : Machine) (op : AluOp) (a b : Register) : Except Fault Machine :=
  (op.apply a b ⟨m.registers, m.flags⟩).map fun s =>
    { m with registers := s.registers, flags := s.flags }

theorem compute_mul (m : Machine) (a b : Register) :
    m.compute .mul a b = .ok (m.setRegister a (m.registers.get a * m.registers.get b)) := rfl

theorem compute_cmp (m : Machine) (a b : Register) :
    m.compute .cmp a b =
      .ok { m with flags := .ofComparison (m.registers.get a) (m.registers.get b) } := rfl

end Machine

/-! ### Effects -/

/-- The effect of an instruction on a machine. -/
def Instruction.effect (m : Machine) (i : Instruction) : Except Fault Effect :=
  match i with
  | .hlt => return .halt
  | .ret => return .retire m.ret
  | .push r => return .retire ((m.push r).advance .push)
  | .pop r => return .retire ((m.pop r).advance .pop)
  | .prn r => return .print (m.registers.get r) (m.advance .prn)
  | .call r => return .retire (m.call r (← m.returnAddress))
  | .jmp r => return .retire (m.jump r)
  | .jeq r => return .retire (if m.flags.equal then m.jump r else m.advance .jeq)
  | .jne r => return .retire (if m.flags.equal then m.advance .jne else m.jump r)
  | .ldi r v => return .retire ((m.setRegister r v).advance .ldi)
  | .mul a b => return .retire ((← m.compute .mul a b).advance .mul)
  | .cmp a b => return .retire ((← m.compute .cmp a b).advance .cmp)

/-- **Once fetched, only CALL faults**, namely where the address to return to is no byte. -/
theorem Instruction.effect_eq_error_iff {m : Machine} {i : Instruction} {c : Fault} :
    i.effect m = .error c ↔
      (∃ r, i = .call r) ∧ 256 ≤ (m.pc + 2).toNat ∧ c = .addressOutOfRange (m.pc + 2) := by
  cases i
  case call r =>
    rcases Nat.lt_or_ge (m.pc + 2).toNat 256 with h | h
    · simp only [effect, Machine.returnAddress_of_lt h]
      constructor
      · intro h'; cases h'
      · rintro ⟨-, h', -⟩; omega
    · simp only [effect, Machine.returnAddress_of_le h]
      constructor
      · intro h'; cases h'; exact ⟨⟨r, rfl⟩, h, rfl⟩
      · rintro ⟨-, -, rfl⟩; rfl
  all_goals
    constructor
    · intro h; cases h
    · rintro ⟨⟨_, h⟩, -⟩; cases h

/-- The effect of the instruction at the program counter. -/
def Machine.effect (m : Machine) : Except Fault Effect := do
  (← Instruction.fetch m.memory m.pc).effect m

theorem Machine.effect_of_fetch {m : Machine} {i : Instruction}
    (h : Instruction.fetch m.memory m.pc = .ok i) : m.effect = i.effect m := by
  rw [Machine.effect, h]; rfl

theorem Machine.effect_of_fetch_eq_error {m : Machine} {c : Fault}
    (h : Instruction.fetch m.memory m.pc = .error c) : m.effect = .error c := by
  rw [Machine.effect, h]; rfl

end LS8
