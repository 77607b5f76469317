import LS8.Proofs.Session.Stack

/-! # The machine: which cells are read

A computation that reads memory is written as the questions that it asks (`Reading`): it asks for
the byte at one address, and how it goes on depends on the answer. It sees memory in no other way,
so the cells that it asks for are all that its result can depend on (`run_congr`), and how many it
asks for depends on what it finds.

* `Instruction.run_reading`: fetching an instruction, as the questions it asks. An operand is only
  looked at if the ones before it are in order.
* `Instruction.answers_reading`: what is found in the cells asked for are the bytes of the
  instruction.
* `Machine.fetched`: the cells of the next instruction, as far as they are looked at.
* `Machine.reads`: the cells that the next instruction reads, those of its bytes and the top of the
  stack for POP and RET.
* `Machine.fetch_eq_of_agree`: memories that agree on them give the same instruction and the same
  byte from the stack. -/

namespace LS8

/-! ### Questions to memory -/

/-- A computation that asks memory for one byte after the other. -/
inductive Reading (α : Type) where
  | done (result : Except Fault α)
  | ask (address : UInt8) (go : UInt8 → Reading α)

namespace Reading

variable {α β : Type}

/-- The result, if `m` answers. -/
def run (m : Memory) : Reading α → Except Fault α
  | done result => result
  | ask a go => (go (m.get a)).run m

/-- The addresses asked for, in order, if `m` answers. -/
def cells (m : Memory) : Reading α → List UInt8
  | done _ => []
  | ask a go => a :: (go (m.get a)).cells m

def bind : Reading α → (α → Reading β) → Reading β
  | done (.error c), _ => done (.error c)
  | done (.ok a), f => f a
  | ask a go, f => ask a fun b => (go b).bind f

instance : Monad Reading where
  pure a := done (.ok a)
  bind := bind

@[simp] theorem run_pure (m : Memory) (a : α) : (pure a : Reading α).run m = pure a := rfl

@[simp] theorem run_bind (m : Memory) (x : Reading α) (f : α → Reading β) :
    (x >>= f).run m = x.run m >>= fun a => (f a).run m := by
  change (x.bind f).run m = _
  induction x with
  | done result => cases result <;> rfl
  | ask a go ih => exact ih (m.get a)

/-- **A result depends on nothing but the answers.** -/
theorem run_congr {m n : Memory} {x : Reading α} (h : ∀ a ∈ x.cells m, n.get a = m.get a) :
    x.run n = x.run m := by
  induction x with
  | done result => rfl
  | ask a go ih =>
    have hfirst : n.get a = m.get a := h a List.mem_cons_self
    simp only [run, hfirst]
    exact ih _ fun b hb => h b (List.mem_cons_of_mem a hb)

/-- Asking for the byte at a 16-bit address. Beyond memory there is no cell to ask for. -/
def byteAt (address : UInt16) : Reading UInt8 :=
  if address.toNat < 256 then ask address.toUInt8 fun b => done (.ok b)
  else done (.error (.addressOutOfRange address))

@[simp] theorem run_byteAt (m : Memory) (address : UInt16) :
    (byteAt address).run m = m.read address := by
  unfold byteAt
  by_cases h : address.toNat < 256
  · rw [if_pos h, Memory.read_of_lt m h]
    rfl
  · rw [if_neg h, Memory.read_of_le m (Nat.not_lt.mp h)]
    rfl

/-- The answers that `m` gives, in order. -/
def answers (m : Memory) (x : Reading α) : List UInt8 := (x.cells m).map m.get

theorem answers_bind_of_ok {m : Memory} {x : Reading α} {a : α} (f : α → Reading β)
    (h : x.run m = .ok a) : (x >>= f).answers m = x.answers m ++ (f a).answers m := by
  change (x.bind f).answers m = _
  unfold answers
  induction x with
  | done result =>
    cases h
    rfl
  | ask b go ih => exact congrArg (m.get b :: ·) (ih (m.get b) h)

theorem answers_byteAt {m : Memory} {address : UInt16} {b : UInt8} (h : m.read address = .ok b) :
    (byteAt address).answers m = [b] := by
  unfold byteAt
  by_cases hlt : address.toNat < 256
  · rw [Memory.read_of_lt m hlt] at h
    rw [if_pos hlt, ← Except.ok.inj h]
    rfl
  · rw [Memory.read_of_le m (Nat.not_lt.mp hlt)] at h
    cases h

end Reading

/-! ### Instructions -/

namespace Instruction

/-- Asking for a register operand. -/
def registerReading (address : UInt16) : Reading Register := do
  .done (Register.ofOperand (← .byteAt address))

/-- Asking for the operands of an instruction of opcode `o` at `pc`. -/
def operandsReading (pc : UInt16) : Opcode → Reading Instruction
  | .hlt => return .hlt
  | .ret => return .ret
  | .push => return .push (← registerReading (pc + 1))
  | .pop => return .pop (← registerReading (pc + 1))
  | .prn => return .prn (← registerReading (pc + 1))
  | .call => return .call (← registerReading (pc + 1))
  | .jmp => return .jmp (← registerReading (pc + 1))
  | .jeq => return .jeq (← registerReading (pc + 1))
  | .jne => return .jne (← registerReading (pc + 1))
  | .ldi => do
    let r ← registerReading (pc + 1)
    return .ldi r (← .byteAt (pc + 2))
  | .mul => do
    let a ← registerReading (pc + 1)
    return .mul a (← registerReading (pc + 2))
  | .cmp => do
    let a ← registerReading (pc + 1)
    return .cmp a (← registerReading (pc + 2))

/-- Asking for the instruction at `pc`. -/
def reading (pc : UInt16) : Reading Instruction := do
  let b ← .byteAt pc
  match Opcode.ofByte? b with
  | none => .done (.error (.unknownOpcode b pc))
  | some o => operandsReading pc o

theorem run_registerReading (m : Memory) (pc k : UInt16) :
    (registerReading (pc + k)).run m = registerOperand m pc k := by
  rw [registerReading, Reading.run_bind, Reading.run_byteAt]
  rfl

theorem run_operandsReading (m : Memory) (pc : UInt16) (o : Opcode) :
    (operandsReading pc o).run m = operands m pc o := by
  cases o <;> simp [operandsReading, operands, run_registerReading]

theorem run_reading (m : Memory) (pc : UInt16) : (reading pc).run m = fetch m pc := by
  rw [reading, fetch, Reading.run_bind, Reading.run_byteAt]
  refine bind_congr fun b => ?_
  cases Opcode.ofByte? b with
  | none => rfl
  | some o => exact run_operandsReading m pc o

/-! ### The bytes of an instruction -/

variable {m : Memory} {pc : UInt16} {i : Instruction}

theorem answers_registerReading {k : UInt16} {r : Register} (h : registerOperand m pc k = .ok r) :
    (registerReading (pc + k)).answers m = [r.byte] := by
  have hread := registerOperand_eq_ok_iff.mp h
  rw [registerReading, Reading.answers_bind_of_ok _ ((Reading.run_byteAt m _).trans hread),
    Reading.answers_byteAt hread]
  rfl

theorem answers_operandsReading {o : Opcode} (h : operands m pc o = .ok i) :
    (operandsReading pc o).answers m = i.operandBytes := by
  have hrun : ∀ {k : UInt16} {r : Register}, registerOperand m pc k = .ok r →
      (registerReading (pc + k)).run m = .ok r := fun hr => (run_registerReading m pc _).trans hr
  cases o with
  | hlt | ret =>
    obtain rfl := Except.ok.inj h
    rfl
  | push | pop | prn | call | jmp | jeq | jne =>
    obtain ⟨r, hr, hi⟩ := bind_eq_ok_iff.mp h
    obtain rfl := Except.ok.inj hi
    rw [operandsReading, Reading.answers_bind_of_ok _ (hrun hr), answers_registerReading hr]
    rfl
  | ldi =>
    obtain ⟨r, hr, hi⟩ := bind_eq_ok_iff.mp h
    obtain ⟨v, hv, hi⟩ := bind_eq_ok_iff.mp hi
    obtain rfl := Except.ok.inj hi
    rw [operandsReading, Reading.answers_bind_of_ok _ (hrun hr), answers_registerReading hr,
      Reading.answers_bind_of_ok _ ((Reading.run_byteAt m _).trans hv), Reading.answers_byteAt hv]
    rfl
  | mul | cmp =>
    obtain ⟨a, ha, hi⟩ := bind_eq_ok_iff.mp h
    obtain ⟨b, hb, hi⟩ := bind_eq_ok_iff.mp hi
    obtain rfl := Except.ok.inj hi
    rw [operandsReading, Reading.answers_bind_of_ok _ (hrun ha), answers_registerReading ha,
      Reading.answers_bind_of_ok _ (hrun hb), answers_registerReading hb]
    rfl

/-- **What fetching reads are the bytes of the instruction.** -/
theorem answers_reading (h : fetch m pc = .ok i) : (reading pc).answers m = i.bytes := by
  obtain ⟨b, hb, hi⟩ := bind_eq_ok_iff.mp h
  rw [reading, Reading.answers_bind_of_ok _ ((Reading.run_byteAt m _).trans hb),
    Reading.answers_byteAt hb]
  cases ho : Opcode.ofByte? b with
  | none =>
    rw [ho] at hi
    cases hi
  | some o =>
    rw [ho] at hi
    simp only
    rw [answers_operandsReading hi, bytes, opcode_of_operands hi, Opcode.byte_of_ofByte? ho]
    rfl

end Instruction

namespace Machine

/-! ### The next instruction -/

/-- The cells that the next instruction reads as its opcode and operands, in order. -/
def fetched (m : Machine) : List UInt8 := (Instruction.reading m.pc).cells m.memory

theorem map_get_fetched {m : Machine} {i : Instruction}
    (h : Instruction.fetch m.memory m.pc = .ok i) : m.fetched.map m.memory.get = i.bytes :=
  Instruction.answers_reading h

theorem fetch_eq_of_agree_fetched {m : Machine} {n : Memory}
    (h : ∀ a ∈ m.fetched, n.get a = m.memory.get a) :
    Instruction.fetch n m.pc = Instruction.fetch m.memory m.pc := by
  rw [← Instruction.run_reading, ← Instruction.run_reading]
  exact Reading.run_congr h

/-- Asking for the next instruction, and for the top of the stack if that is a POP or a RET. -/
def reading (m : Machine) : Reading (Instruction × Option UInt8) := do
  let i ← Instruction.reading m.pc
  match i with
  | .pop _ | .ret => .ask m.registers.sp fun b => pure (i, some b)
  | _ => pure (i, none)

/-- The cells that the next instruction reads, in order. -/
def reads (m : Machine) : List UInt8 := m.reading.cells m.memory

theorem run_reading (m : Machine) :
    m.reading.run m.memory =
      (Instruction.fetch m.memory m.pc).map fun i => (i, i.takenByte? m.view) := by
  rw [reading, Reading.run_bind, Instruction.run_reading]
  cases Instruction.fetch m.memory m.pc with
  | error c => rfl
  | ok i => cases i <;> rfl

/-- **Only the cells that are read matter:** machines that differ in other cells at most fetch the
same instruction and take the same byte from the stack. -/
theorem fetch_eq_of_agree {m n : Machine} (hpc : n.pc = m.pc) (hregisters : n.registers = m.registers)
    (h : ∀ a ∈ m.reads, n.memory.get a = m.memory.get a) :
    Instruction.fetch n.memory n.pc = Instruction.fetch m.memory m.pc ∧
      ∀ i, Instruction.fetch m.memory m.pc = .ok i → i.takenByte? n.view = i.takenByte? m.view := by
  have hreading : n.reading = m.reading := by rw [reading, reading, hpc, hregisters]
  have hrun : n.reading.run n.memory = m.reading.run m.memory := by
    rw [hreading]
    exact Reading.run_congr h
  rw [run_reading, run_reading] at hrun
  have hfst : ∀ (f : Instruction → Option UInt8) (x : Except Fault Instruction),
      (x.map fun i => (i, f i)).map Prod.fst = x := fun f x => by cases x <;> rfl
  have hfetch := congrArg (Except.map Prod.fst) hrun
  rw [hfst, hfst] at hfetch
  refine ⟨hfetch, fun i hi => ?_⟩
  rw [hfetch, hi] at hrun
  exact (Prod.mk.inj (Except.ok.inj hrun)).2

end Machine

end LS8
