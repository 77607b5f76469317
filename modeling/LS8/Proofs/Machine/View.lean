import LS8.Machine.Effect
import LS8.Proofs.Instruction.Encoding
import Mathlib.Logic.Function.Basic

/-! # The machine: the programmer's view

A programmer sees registers and memory as functions and the program counter as a number that never
wraps around. On this view `Instruction.next` says what each instruction does, one line each: what a
line does not name stays as it was.

* `view_injective`: the view shows all there is to a machine.
* `view_of_effect`: an instruction that was fetched leaves what `Instruction.next` says and prints
  what `Instruction.printed` says. Everything proved about single instructions is read off this
  statement.
* `add_two_lt_of_effect_call`: the address that CALL leaves behind is a byte. -/

namespace LS8

open Function (update)

/-- What a programmer sees of a machine. -/
@[ext]
structure View where
  config : Config
  registers : Register → UInt8
  cells : UInt8 → UInt8
  flags : Flags
  pc : Nat
  runState : RunState

/-- The stack pointer. -/
def View.sp (x : View) : UInt8 := x.registers .sp

/-- The register `r` while the stack pointer is already lowered. -/
def View.lowered (x : View) (r : Register) : UInt8 := if r = .sp then x.sp - 1 else x.registers r

namespace Machine

def view (m : Machine) : View where
  config := m.config
  registers := m.registers.get
  cells := m.memory.get
  flags := m.flags
  pc := m.pc.toNat
  runState := m.runState

theorem view_injective : Function.Injective view := by
  intro m n h
  obtain ⟨hc, hr, hm, hf, hp, hs⟩ := View.ext_iff.mp h
  exact Machine.ext hc (Memory.ext_get (congrFun hm)) (RegisterFile.ext_get (congrFun hr)) hf
    (UInt16.toNat_inj.mp hp) hs

end Machine

namespace Instruction

/-- **What each instruction does.** -/
def next (x : View) : Instruction → View
  | hlt => { x with runState := .halted }
  | ret => { x with registers := update x.registers .sp (x.sp + 1), pc := (x.cells x.sp).toNat }
  | push r =>
    { x with
      registers := update x.registers .sp (x.sp - 1)
      cells := update x.cells (x.sp - 1) (x.lowered r)
      pc := x.pc + 2 }
  | pop r =>
    { x with
      registers :=
        if r = .sp then update x.registers .sp (x.cells x.sp + 1)
        else update (update x.registers r (x.cells x.sp)) .sp (x.sp + 1)
      pc := x.pc + 2 }
  | prn _ => { x with pc := x.pc + 2 }
  | call r =>
    { x with
      registers := update x.registers .sp (x.sp - 1)
      cells := update x.cells (x.sp - 1) (UInt8.ofNat (x.pc + 2))
      pc := (x.lowered r).toNat }
  | jmp r => { x with pc := (x.registers r).toNat }
  | jeq r => { x with pc := if x.flags.equal then (x.registers r).toNat else x.pc + 2 }
  | jne r => { x with pc := if x.flags.equal then x.pc + 2 else (x.registers r).toNat }
  | ldi r v => { x with registers := update x.registers r v, pc := x.pc + 3 }
  | mul a b =>
    { x with registers := update x.registers a (x.registers a * x.registers b), pc := x.pc + 3 }
  | cmp a b =>
    { x with
      flags :=
        { less := x.registers a < x.registers b
          greater := x.registers b < x.registers a
          equal := x.registers a = x.registers b }
      pc := x.pc + 3 }

/-- The value that an instruction prints. -/
def printed (x : View) : Instruction → Option UInt8
  | prn r => some (x.registers r)
  | _ => none

@[simp] theorem config_next (x : View) (i : Instruction) : (i.next x).config = x.config := by
  cases i <;> rfl

theorem runState_next (x : View) {i : Instruction} (h : i ≠ hlt) :
    (i.next x).runState = x.runState := by
  cases i with
  | hlt => exact absurd rfl h
  | _ => rfl

/-- What does not decide itself where execution goes on, goes on behind its own bytes. -/
theorem pc_next (x : View) {i : Instruction} (h : i.opcode.setsPc = false) (hi : i ≠ hlt) :
    (i.next x).pc = x.pc + i.bytes.length := by
  rw [Opcode.setsPc_eq] at h
  cases i with
  | hlt => exact absurd rfl hi
  | push r | pop r | prn r | ldi r v | mul a b | cmp a b => rfl
  | ret | call r | jmp r | jeq r | jne r => cases h

theorem printed_eq_some_iff {x : View} {i : Instruction} {v : UInt8} :
    i.printed x = some v ↔ ∃ r, i = prn r ∧ x.registers r = v := by
  cases i <;> simp [printed]

end Instruction

/-! ### Registers and memory as functions -/

theorem RegisterFile.get_set_eq_update (f : RegisterFile) (r : Register) (v : UInt8) :
    (f.set r v).get = update f.get r v := by
  funext s
  simp only [RegisterFile.get_set, Function.update_apply, eq_comm]

theorem Memory.get_set_eq_update (m : Memory) (a v : UInt8) :
    (m.set a v).get = update m.get a v := by
  funext b
  simp only [Memory.get_set, Function.update_apply, eq_comm]

namespace RegisterFile

theorem get_lowerSp (f : RegisterFile) : f.lowerSp.get = update f.get .sp (f.sp - 1) :=
  get_set_eq_update f .sp _

theorem get_raiseSp (f : RegisterFile) : f.raiseSp.get = update f.get .sp (f.sp + 1) :=
  get_set_eq_update f .sp _

end RegisterFile

theorem Flags.ofComparison_eq (x y : UInt8) :
    ofComparison x y = { less := x < y, greater := y < x, equal := x = y } := by
  have hcmp : compare x y = if x < y then .lt else if x = y then .eq else .gt := rfl
  rw [ofComparison, hcmp]
  by_cases hlt : x < y
  · have hne : x ≠ y := by rintro rfl; exact absurd hlt (UInt8.lt_irrefl x)
    have hgt : ¬ y < x := UInt8.lt_asymm hlt
    simp [ofOrdering, hlt, hne, hgt]
  · by_cases heq : x = y
    · simp [ofOrdering, heq]
    · have hgt : y < x := by
        rw [UInt8.lt_iff_toNat_lt] at hlt ⊢
        rw [← UInt8.toNat_inj] at heq
        omega
      simp [ofOrdering, hlt, heq, hgt]

/-! ### Effects -/

namespace Machine

variable {m : Machine} {r : Register}

theorem view_advance (m : Machine) (o : Opcode) (h : m.pc.toNat + o.length ≤ 256) :
    (m.advance o).view = { m.view with pc := m.view.pc + o.length } := by
  have ho := o.length_le_three
  have hk : (UInt16.ofNat o.length).toNat = o.length :=
    UInt16.toNat_ofNat_of_lt' (by change o.length < 65536; omega)
  have hpos := o.one_le_length
  have hpc : (m.pc + UInt16.ofNat o.length).toNat = m.pc.toNat + o.length := by
    rw [Instruction.toNat_add_of_lt (by omega) (by omega), hk]
  simp only [view, advance, hpc]

theorem view_jump : (m.jump r).view = { m.view with pc := (m.registers.get r).toNat } := by
  simp only [view, jump, UInt8.toNat_toUInt16]

theorem get_lowerSp_eq_lowered : m.registers.lowerSp.get r = m.view.lowered r := by
  rw [RegisterFile.get_lowerSp, Function.update_apply]
  rfl

theorem view_push :
    (m.push r).view =
      { m.view with
        registers := update m.view.registers .sp (m.view.sp - 1)
        cells := update m.view.cells (m.view.sp - 1) (m.view.lowered r) } := by
  simp only [view, push, RegisterFile.sp_lowerSp, Memory.get_set_eq_update,
    get_lowerSp_eq_lowered]
  rw [RegisterFile.get_lowerSp]
  rfl

theorem view_pop :
    (m.pop r).view =
      { m.view with
        registers :=
          if r = .sp then update m.view.registers .sp (m.view.cells m.view.sp + 1)
          else update (update m.view.registers r (m.view.cells m.view.sp)) .sp (m.view.sp + 1) } := by
  simp only [view, pop, RegisterFile.get_raiseSp, RegisterFile.get_set_eq_update,
    RegisterFile.sp_set]
  by_cases h : r = .sp
  · subst h
    simp only [if_true, Function.update_idem]
    rfl
  · simp only [if_neg h]
    rfl

theorem view_call (back : UInt8) :
    (m.call r back).view =
      { m.view with
        registers := update m.view.registers .sp (m.view.sp - 1)
        cells := update m.view.cells (m.view.sp - 1) back
        pc := (m.view.lowered r).toNat } := by
  simp only [view, call, RegisterFile.sp_lowerSp, Memory.get_set_eq_update,
    get_lowerSp_eq_lowered, UInt8.toNat_toUInt16]
  rw [RegisterFile.get_lowerSp]
  rfl

theorem view_ret :
    m.ret.view =
      { m.view with
        registers := update m.view.registers .sp (m.view.sp + 1)
        pc := (m.view.cells m.view.sp).toNat } := by
  simp only [view, ret, RegisterFile.get_raiseSp, UInt8.toNat_toUInt16]
  rfl

theorem view_setRegister (v : UInt8) :
    (m.setRegister r v).view = { m.view with registers := update m.view.registers r v } := by
  simp only [view, setRegister, RegisterFile.get_set_eq_update]

theorem returnAddress_eq_ok_iff (h : m.pc.toNat < 256) {back : UInt8} :
    m.returnAddress = .ok back ↔ m.pc.toNat + 2 < 256 ∧ back = UInt8.ofNat (m.pc.toNat + 2) := by
  have hpc : (m.pc + 2).toNat = m.pc.toNat + 2 := Instruction.toNat_add_of_lt h (by decide)
  rcases Nat.lt_or_ge (m.pc.toNat + 2) 256 with hlt | hle
  · have hback : (m.pc + 2).toUInt8 = UInt8.ofNat (m.pc.toNat + 2) := by
      rw [← hpc]
      rfl
    rw [returnAddress_of_lt (by omega), hback, Except.ok.injEq]
    exact ⟨fun h => ⟨hlt, h.symm⟩, fun h => h.2.symm⟩
  · rw [returnAddress_of_le (by omega)]
    constructor
    · intro h; cases h
    · rintro ⟨hlt, -⟩; omega

end Machine

/-- The machine that an effect leaves, if the port takes what it prints. -/
def Effect.machine (m : Machine) : Effect → Machine
  | halt => m.halt
  | retire next => next
  | print _ next => next

/-- The value that an effect prints. -/
def Effect.value? : Effect → Option UInt8
  | print v _ => some v
  | _ => none

/-- What the world around a machine gets to see of an effect. -/
inductive Effect.Kind where
  | halt
  | retire
  | print (value : UInt8)

def Effect.kind : Effect → Effect.Kind
  | halt => .halt
  | retire _ => .retire
  | print v _ => .print v

namespace Instruction

variable {m : Machine} {i : Instruction} {e : Effect}

/-- An instruction that ends inside memory has the effect that the table says. -/
theorem view_of_effect (hlen : m.pc.toNat + i.opcode.length ≤ 256) (h : i.effect m = .ok e) :
    (e.machine m).view = i.next m.view ∧ e.value? = i.printed m.view := by
  have hpc : m.pc.toNat < 256 := by have := i.opcode.one_le_length; omega
  cases i with
  | hlt =>
    obtain rfl := Except.ok.inj h
    exact ⟨rfl, rfl⟩
  | ret =>
    obtain rfl := Except.ok.inj h
    exact ⟨Machine.view_ret, rfl⟩
  | push r =>
    obtain rfl := Except.ok.inj h
    refine ⟨(Machine.view_advance (m.push r) .push hlen).trans ?_, rfl⟩
    rw [Machine.view_push, Opcode.length_eq]
    rfl
  | pop r =>
    obtain rfl := Except.ok.inj h
    refine ⟨(Machine.view_advance (m.pop r) .pop hlen).trans ?_, rfl⟩
    rw [Machine.view_pop, Opcode.length_eq]
    rfl
  | prn r =>
    obtain rfl := Except.ok.inj h
    refine ⟨(Machine.view_advance m .prn hlen).trans ?_, rfl⟩
    rw [Opcode.length_eq]
    rfl
  | call r =>
    obtain ⟨back, hback, he⟩ := bind_eq_ok_iff.mp h
    obtain rfl := Except.ok.inj he
    obtain ⟨-, rfl⟩ := (Machine.returnAddress_eq_ok_iff hpc).mp hback
    exact ⟨Machine.view_call _, rfl⟩
  | jmp r =>
    obtain rfl := Except.ok.inj h
    exact ⟨Machine.view_jump, rfl⟩
  | jeq r =>
    obtain rfl := Except.ok.inj h
    refine ⟨?_, rfl⟩
    change (if m.flags.equal then m.jump r else m.advance .jeq).view =
      { m.view with pc := if m.flags.equal then (m.registers.get r).toNat else m.view.pc + 2 }
    split
    · exact Machine.view_jump
    · rw [Machine.view_advance m .jeq hlen, Opcode.length_eq]
  | jne r =>
    obtain rfl := Except.ok.inj h
    refine ⟨?_, rfl⟩
    change (if m.flags.equal then m.advance .jne else m.jump r).view =
      { m.view with pc := if m.flags.equal then m.view.pc + 2 else (m.registers.get r).toNat }
    split
    · rw [Machine.view_advance m .jne hlen, Opcode.length_eq]
    · exact Machine.view_jump
  | ldi r v =>
    obtain rfl := Except.ok.inj h
    refine ⟨(Machine.view_advance (m.setRegister r v) .ldi hlen).trans ?_, rfl⟩
    rw [Machine.view_setRegister, Opcode.length_eq]
    rfl
  | mul a b =>
    rw [effect, Machine.compute_mul] at h
    obtain rfl := Except.ok.inj h
    refine ⟨(Machine.view_advance (m.setRegister a _) .mul hlen).trans ?_, rfl⟩
    rw [Machine.view_setRegister, Opcode.length_eq]
    rfl
  | cmp a b =>
    rw [effect, Machine.compute_cmp] at h
    obtain rfl := Except.ok.inj h
    have hadv := Machine.view_advance
      { m with flags := .ofComparison (m.registers.get a) (m.registers.get b) } .cmp hlen
    refine ⟨hadv.trans ?_, rfl⟩
    rw [Opcode.length_eq, Flags.ofComparison_eq]
    rfl

theorem effect_eq_halt_iff : i.effect m = .ok .halt ↔ i = hlt := by
  constructor
  · intro h
    cases i with
    | hlt => rfl
    | call r =>
      obtain ⟨back, -, he⟩ := bind_eq_ok_iff.mp h
      cases Except.ok.inj he
    | mul a b => rw [effect, Machine.compute_mul] at h; cases Except.ok.inj h
    | cmp a b => rw [effect, Machine.compute_cmp] at h; cases Except.ok.inj h
    | _ => cases Except.ok.inj h
  · rintro rfl
    rfl

theorem add_two_lt_of_effect_call {r : Register} (hpc : m.pc.toNat < 256)
    (h : (call r).effect m = .ok e) : m.pc.toNat + 2 < 256 := by
  obtain ⟨back, hback, -⟩ := bind_eq_ok_iff.mp h
  exact ((Machine.returnAddress_eq_ok_iff hpc).mp hback).1

end Instruction

theorem Machine.effect_eq_ok_iff {m : Machine} {e : Effect} :
    m.effect = .ok e ↔ ∃ i, Instruction.fetch m.memory m.pc = .ok i ∧ i.effect m = .ok e :=
  Instruction.bind_eq_ok_iff

/-- What the world sees of an instruction depends on the program counter and the registers only. -/
theorem Instruction.map_kind_effect_congr {m n : Machine} (i : Instruction) (hpc : n.pc = m.pc)
    (hregisters : n.registers = m.registers) :
    (i.effect n).map Effect.kind = (i.effect m).map Effect.kind := by
  cases i with
  | call r =>
    have hback : n.returnAddress = m.returnAddress := by
      unfold Machine.returnAddress
      rw [hpc]
    simp only [effect, hback]
    cases m.returnAddress <;> rfl
  | prn r =>
    simp only [effect, hregisters]
    rfl
  | _ => rfl

theorem Machine.map_kind_effect_congr {m n : Machine} (hpc : n.pc = m.pc)
    (hregisters : n.registers = m.registers)
    (hfetch : Instruction.fetch n.memory n.pc = Instruction.fetch m.memory m.pc) :
    n.effect.map Effect.kind = m.effect.map Effect.kind := by
  cases hi : Instruction.fetch m.memory m.pc with
  | error c => rw [effect_of_fetch_eq_error hi, effect_of_fetch_eq_error (hfetch.trans hi)]
  | ok i =>
    rw [effect_of_fetch hi, effect_of_fetch (hfetch.trans hi)]
    exact i.map_kind_effect_congr hpc hregisters

theorem Machine.exists_prn_of_effect {m next : Machine} {v : UInt8}
    (h : m.effect = .ok (.print v next)) :
    ∃ r, Instruction.fetch m.memory m.pc = .ok (.prn r) ∧ m.registers.get r = v := by
  obtain ⟨i, hi, he⟩ := Machine.effect_eq_ok_iff.mp h
  have hvalue := (Instruction.view_of_effect (Instruction.pc_add_length_le hi) he).2
  obtain ⟨r, rfl, hv⟩ := Instruction.printed_eq_some_iff.mp hvalue.symm
  exact ⟨r, hi, hv⟩

end LS8
