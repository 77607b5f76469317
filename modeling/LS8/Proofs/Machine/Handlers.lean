import LS8.Machine.Effect

/-! # The machine: what handlers come to

A handler that faults leaves the machine as its accesses have made it so far, so a fault in the
middle would leave half an instruction behind. There is none, since every handler checks before it
writes. A check only looks at the machine (`Looks`), and if it fails, machine and port are still
what they were (`afterCheck`). Behind the checks nothing can fail any more: the stack pointer is a
byte and a byte is always an address (`run_read_byte`, `run_write_byte`), so it makes no difference
that PUSH lowers it before the write; and the arithmetic unit knows the opcodes that lead to it
(`run_alu_of_code`).

* `run_executeOne`: what a machine does at its program counter is the effect of the instruction
  there. The dispatch table has a handler for every opcode that needs one.
* `unchanged_of_run_executeOne_eq_error`: a fault leaves machine and port as they were. -/

namespace LS8.Handler

open LS8.Instruction (operands)

variable {σ α β : Type} {m : Machine} {p : σ} {k : UInt16} {r : Register}

/-! ### Checks -/

/-- What is left of work that checks `e` before it writes anything, and behind that goes on as
`next` says. -/
def afterCheck (m : Machine) (p : σ) (e : Except Fault α)
    (next : α → EStateM.Result Fault (Machine × σ) β) : EStateM.Result Fault (Machine × σ) β :=
  match e with
  | .ok a => next a
  | .error c => .error c (m, p)

/-- Work that finds `e` at machine `m` and writes nothing. -/
def Looks (x : Handler σ α) (m : Machine) (e : Except Fault α) : Prop :=
  ∀ p, x.run (m, p) = afterCheck m p e fun a => .ok a (m, p)

/-- A check in front of other checks. -/
theorem Looks.run_bind {γ : Type} {x : Handler σ α} {e : Except Fault α} {f : α → Handler σ β}
    {g : α → Except Fault γ} {next : γ → EStateM.Result Fault (Machine × σ) β} (hx : Looks x m e)
    (hf : ∀ a, (f a).run (m, p) = afterCheck m p (g a) next) :
    (x >>= f).run (m, p) = afterCheck m p (e >>= g) next := by
  rw [EStateM.run_bind, hx p]
  cases e with
  | ok a => exact hf a
  | error c => rfl

theorem Looks.bind {x : Handler σ α} {e : Except Fault α} {f : α → Handler σ β}
    {g : α → Except Fault β} (hx : Looks x m e) (hf : ∀ a, Looks (f a) m (g a)) :
    Looks (x >>= f) m (e >>= g) := fun p => hx.run_bind fun a => hf a p

theorem looks_ofExcept (e : Except Fault α) : Looks (ofExcept e : Handler σ α) m e := fun p => by
  cases e <;> rfl

theorem run_machine_bind (f : Machine → Handler σ α) :
    (machine >>= f).run (m, p) = (f m).run (m, p) := rfl

theorem looks_read (address : UInt16) :
    Looks (read address : Handler σ UInt8) m (m.memory.read address) := fun p =>
  (run_machine_bind _).trans (looks_ofExcept (m.memory.read address) p)

theorem looks_operand : Looks (operand k : Handler σ UInt8) m (m.memory.read (m.pc + k)) := fun p =>
  (run_machine_bind _).trans (looks_read (m.pc + k) p)

theorem looks_registerOperand :
    Looks (registerOperand k : Handler σ Register) m
      (Instruction.registerOperand m.memory m.pc k) :=
  looks_operand.bind (g := Register.ofOperand) fun b => looks_ofExcept (Register.ofOperand b)

/-! ### Accesses to the machine -/

theorem run_value : (value r : Handler σ UInt8).run (m, p) = .ok (m.registers.get r) (m, p) := rfl

theorem run_setRegister (v : UInt8) :
    (setRegister r v : Handler σ Unit).run (m, p) = .ok () (m.setRegister r v, p) := rfl

theorem run_goTo (a : UInt8) :
    (goTo a : Handler σ Unit).run (m, p) = .ok () (m.setPc a.toUInt16, p) := rfl

theorem run_read_byte (a : UInt8) :
    (read a.toUInt16 : Handler σ UInt8).run (m, p) = .ok (m.memory.get a) (m, p) := by
  rw [looks_read, Memory.read_toUInt16]
  rfl

theorem run_write_byte (a v : UInt8) :
    (write a.toUInt16 v : Handler σ Unit).run (m, p) =
      .ok () ({ m with memory := m.memory.set a v }, p) := by
  rw [write, run_machine_bind, EStateM.run_bind, looks_ofExcept, Memory.write_toUInt16]
  rfl

/-! ### Handlers -/

/-- The end of work that leaves the machine `next`. -/
def leave (p : σ) (next : Machine) : EStateM.Result Fault (Machine × σ) Unit := .ok () (next, p)

theorem run_ldi : (ldi : Handler σ Unit).run (m, p) =
    afterCheck m p (do
      let r ← Instruction.registerOperand m.memory m.pc 1
      return m.setRegister r (← m.memory.read (m.pc + 2))) (leave p) :=
  looks_registerOperand.run_bind fun _ => looks_operand.run_bind fun _ => rfl

/-- The unit finds out whether it can calculate before it writes the result. -/
theorem run_calculate (op : AluOp) (a b : Register) :
    (calculate op a b : Handler σ Unit).run (m, p) =
      afterCheck m p (m.compute op a b) (leave p) := by
  simp only [calculate, EStateM.run_bind, run_value, looks_ofExcept _ p, Machine.compute,
    AluOp.apply]
  rcases op.result (m.registers.get a) (m.registers.get b) with c | _ | v <;> rfl

theorem run_alu : (alu : Handler σ Unit).run (m, p) =
    afterCheck m p (do
      let op ← AluOp.ofCode (← m.memory.read (m.pc + 0))
      let a ← Instruction.registerOperand m.memory m.pc 1
      let b ← Instruction.registerOperand m.memory m.pc 2
      m.compute op a b) (leave p) :=
  looks_operand.run_bind fun _ => (looks_ofExcept _).run_bind fun op =>
    looks_registerOperand.run_bind fun a => looks_registerOperand.run_bind fun b =>
      run_calculate op a b

/-- The unit knows the opcode that brought the instruction to it. -/
theorem run_alu_of_code (op : AluOp) (h : m.memory.read m.pc = .ok op.code) :
    (alu : Handler σ Unit).run (m, p) =
      afterCheck m p (do
        let a ← Instruction.registerOperand m.memory m.pc 1
        let b ← Instruction.registerOperand m.memory m.pc 2
        m.compute op a b) (leave p) := by
  rw [run_alu, UInt16.add_zero, h]
  refine congrArg (afterCheck m p · _) ?_
  change (AluOp.ofCode op.code >>= fun op => _) = _
  rw [AluOp.ofCode_code]
  rfl

theorem run_push : (push : Handler σ Unit).run (m, p) =
    afterCheck m p (m.push <$> Instruction.registerOperand m.memory m.pc 1) (leave p) := by
  refine looks_registerOperand.run_bind fun r => ?_
  have hsp : m.registers.lowerSp.sp = m.registers.get .sp - 1 := m.registers.sp_lowerSp
  -- the stack pointer is lowered by now, but the write to a byte address always succeeds
  simp only [EStateM.run_bind, run_value, run_setRegister, run_write_byte]
  simp only [afterCheck, leave, Machine.push, hsp]
  rfl

theorem run_pop : (pop : Handler σ Unit).run (m, p) =
    afterCheck m p (m.pop <$> Instruction.registerOperand m.memory m.pc 1) (leave p) := by
  refine looks_registerOperand.run_bind fun r => ?_
  simp only [EStateM.run_bind, run_value, run_setRegister, run_read_byte]
  rfl

theorem run_call : (call : Handler σ Unit).run (m, p) =
    afterCheck m p (do
      let r ← Instruction.registerOperand m.memory m.pc 1
      return m.call r (← m.returnAddress)) (leave p) := by
  refine looks_registerOperand.run_bind fun r => (run_machine_bind _).trans ?_
  refine (looks_ofExcept m.returnAddress).run_bind fun back => ?_
  have hsp : m.registers.lowerSp.sp = m.registers.get .sp - 1 := m.registers.sp_lowerSp
  simp only [pushByte, EStateM.run_bind, run_value, run_setRegister, run_write_byte, run_goTo]
  simp only [afterCheck, leave, Machine.call, hsp]
  rfl

theorem run_ret : (ret : Handler σ Unit).run (m, p) = leave p m.ret := by
  simp only [ret, popByte, EStateM.run_bind, run_value, run_setRegister, run_read_byte,
    EStateM.run_pure, run_goTo]
  rfl

theorem run_jumpIf (taken : Bool) (o : Opcode) : (jumpIf taken o : Handler σ Unit).run (m, p) =
    afterCheck m p (do
      let r ← Instruction.registerOperand m.memory m.pc 1
      return if taken then m.jump r else m.advance o) (leave p) :=
  looks_registerOperand.run_bind fun r => by cases taken <;> rfl

theorem run_jmp : (jmp : Handler σ Unit).run (m, p) =
    afterCheck m p (m.jump <$> Instruction.registerOperand m.memory m.pc 1) (leave p) :=
  looks_registerOperand.run_bind fun _ => rfl

variable [OutputPort σ]

/-- What is left of machine `m` and port `p` by work that prints `v` and then makes the machine
`next`. -/
def afterPrint (m next : Machine) (p : σ) (v : UInt8) (a : α) :
    EStateM.Result Fault (Machine × σ) α :=
  match OutputPort.print p v with
  | (true, port) => .ok a (next, port)
  | (false, port) => .error .outputFailed (m, port)

theorem run_prn : (prn : Handler σ Unit).run (m, p) =
    afterCheck m p (m.registers.get <$> Instruction.registerOperand m.memory m.pc 1) fun v =>
      afterPrint m m p v () := by
  refine looks_registerOperand.run_bind fun r => ?_
  simp only [EStateM.run_bind, run_value, EStateM.run_get]
  simp only [afterCheck, afterPrint]
  cases OutputPort.print p (m.registers.get r) with
  | mk taken port => cases taken <;> rfl

/-! ### One instruction -/

/-- What is left of machine `m` and port `p` by an effect. -/
def carry (m : Machine) (p : σ) : Effect → EStateM.Result Fault (Machine × σ) Flow
  | .halt => .ok .halt (m, p)
  | .retire next => .ok .proceed (next, p)
  | .print v next => afterPrint m next p v .proceed

theorem run_proceed {x : Handler σ Unit} {e : Except Fault Machine} {f : Except Fault Effect}
    (hx : x.run (m, p) = afterCheck m p e (leave p)) (hf : Effect.retire <$> e = f) :
    (do x; return .proceed : Handler σ Flow).run (m, p) = afterCheck m p f (carry m p) := by
  rw [EStateM.run_bind, hx, ← hf]
  cases e <;> rfl

theorem run_advance_proceed {x : Handler σ Unit} {e : Except Fault Machine} {o : Opcode}
    {f : Except Fault Effect} (hx : x.run (m, p) = afterCheck m p e (leave p))
    (hf : (fun next => .retire (next.advance o)) <$> e = f) :
    (do x; advance o; return .proceed : Handler σ Flow).run (m, p) =
      afterCheck m p f (carry m p) := by
  rw [EStateM.run_bind, hx, ← hf]
  cases e <;> rfl

theorem run_prn_proceed :
    (do prn; advance .prn; return .proceed : Handler σ Flow).run (m, p) =
      afterCheck m p ((fun r => .print (m.registers.get r) (m.advance .prn)) <$>
        Instruction.registerOperand m.memory m.pc 1) (carry m p) := by
  rw [EStateM.run_bind, run_prn]
  cases Instruction.registerOperand m.memory m.pc 1 with
  | error c => rfl
  | ok r =>
    simp only [Functor.map, Except.map, afterCheck, afterPrint, carry]
    cases OutputPort.print p (m.registers.get r) with
    | mk taken port => cases taken <;> rfl

theorem run_executeOne_of_opcode {o : Opcode} (hb : m.memory.read m.pc = .ok o.byte) :
    (executeOne : Handler σ Flow).run (m, p) =
      afterCheck m p (do (← operands m.memory m.pc o).effect m) (carry m p) := by
  rw [executeOne, run_machine_bind, EStateM.run_bind, looks_read, hb, afterCheck]
  simp only [Opcode.ofByte?_byte]
  cases o with
  | hlt => rfl
  | ret => exact run_proceed (e := .ok m.ret) run_ret rfl
  | call => exact run_proceed run_call (by simp [operands, Instruction.effect])
  | push => exact run_advance_proceed run_push (by simp [operands, Instruction.effect])
  | pop => exact run_advance_proceed run_pop (by simp [operands, Instruction.effect])
  | prn =>
    refine run_prn_proceed.trans (congrArg (afterCheck m p · _) ?_)
    simp [operands, Instruction.effect]
  | jmp => exact run_proceed run_jmp (by simp [operands, Instruction.effect])
  | jeq =>
    exact run_proceed (run_jumpIf m.flags.equal .jeq) (by simp [operands, Instruction.effect])
  | jne =>
    refine run_proceed (run_jumpIf (!m.flags.equal) .jne) ?_
    cases h : m.flags.equal <;> simp [operands, Instruction.effect, h]
  | ldi => exact run_advance_proceed run_ldi (by simp [operands, Instruction.effect])
  | mul =>
    exact run_advance_proceed (run_alu_of_code .mul hb) (by simp [operands, Instruction.effect])
  | cmp =>
    exact run_advance_proceed (run_alu_of_code .cmp hb) (by simp [operands, Instruction.effect])

theorem run_executeOne :
    (executeOne : Handler σ Flow).run (m, p) = afterCheck m p m.effect (carry m p) := by
  rcases Nat.lt_or_ge m.pc.toNat 256 with hpc | hpc
  · have hb := m.memory.read_of_lt hpc
    have hfetch := Instruction.fetch_of_lt m.memory hpc
    cases ho : Opcode.ofByte? (m.memory.get m.pc.toUInt8) with
    | none =>
      rw [ho] at hfetch
      rw [Machine.effect_of_fetch_eq_error hfetch, executeOne, run_machine_bind, EStateM.run_bind,
        looks_read, hb, afterCheck]
      simp only [ho]
      rfl
    | some o =>
      rw [ho] at hfetch
      rw [← Opcode.byte_of_ofByte? ho] at hb
      rw [run_executeOne_of_opcode hb, Machine.effect, hfetch]
  · have hfetch := Instruction.fetch_of_le m.memory hpc
    rw [Machine.effect_of_fetch_eq_error hfetch, executeOne, run_machine_bind, EStateM.run_bind,
      looks_read, m.memory.read_of_le hpc]
    rfl

/-- **A fault leaves nothing behind**, unless it is that of a port that has refused a value. -/
theorem unchanged_of_run_executeOne_eq_error {c : Fault} {left : Machine × σ}
    (h : executeOne.run (m, p) = .error c left) :
    left.1 = m ∧ (c ≠ .outputFailed → left.2 = p) := by
  rw [run_executeOne] at h
  cases he : m.effect with
  | error d =>
    rw [he] at h
    cases h
    exact ⟨rfl, fun _ => rfl⟩
  | ok e =>
    rw [he] at h
    cases e with
    | halt => cases h
    | retire next => cases h
    | print v next =>
      simp only [afterCheck, carry, afterPrint] at h
      split at h
      · cases h
      · cases h
        exact ⟨rfl, fun hc => absurd rfl hc⟩

end LS8.Handler
