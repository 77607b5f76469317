import LS8.Proofs.Machine.View

/-! # Instructions: what is wrong with them

Where no instruction can be fetched, the reason is the first of these: there is no cell at the
address, the byte there is no opcode, or one of the operand bytes is wrong. Operand bytes are looked
at from left to right; `operandFault?` says what is wrong with one of them by itself.

* `operands_eq_error_iff`: the operands fail with the fault of the first wrong operand byte.
* `fetch_eq_error_iff`: the three reasons, each with the fault that it raises.
* `Machine.effect_eq_error_iff`: an instruction that was fetched fails only as a CALL at 254. -/

namespace LS8

/-! ### Reading -/

theorem Memory.read_eq_error_iff {m : Memory} {a : UInt16} {c : Fault} :
    m.read a = .error c ↔ 256 ≤ a.toNat ∧ c = .addressOutOfRange a := by
  rcases Nat.lt_or_ge a.toNat 256 with h | h
  · rw [read_of_lt m h]
    constructor
    · intro h'; cases h'
    · rintro ⟨h', -⟩; omega
  · rw [read_of_le m h, Except.error.injEq]
    exact ⟨fun h' => ⟨h, h'.symm⟩, fun h' => h'.2.symm⟩

namespace Instruction

theorem bind_eq_error_iff {α β : Type} {x : Except Fault α} {f : α → Except Fault β} {c : Fault} :
    (x >>= f) = .error c ↔ x = .error c ∨ ∃ a, x = .ok a ∧ f a = .error c := by
  cases x with
  | error d => simp [bind, Except.bind]
  | ok a => simp [bind, Except.bind]

/-! ### Operand bytes -/

/-- What is wrong with the operand byte `k` places after `pc`, if the opcode is `o`: it lies beyond
memory, or it has to name a register and names none. Only the second operand of LDI is any byte. -/
def operandFault? (m : Memory) (pc : UInt16) (o : Opcode) (k : ℕ) : Option Fault :=
  match m.toList[pc.toNat + k]? with
  | none => some (.addressOutOfRange 256)
  | some b => if (k = 1 ∨ o.isAlu) ∧ 8 ≤ b.toNat then some (.registerOutOfRange b) else none

variable {m : Memory} {pc k : UInt16} {o : Opcode} {c : Fault}

theorem operandFault?_eq_some_iff {n : ℕ} :
    operandFault? m pc o n = some c ↔
      m.toList[pc.toNat + n]? = none ∧ c = .addressOutOfRange 256 ∨
      ∃ b, m.toList[pc.toNat + n]? = some b ∧ (n = 1 ∨ o.isAlu) ∧ 8 ≤ b.toNat ∧
        c = .registerOutOfRange b := by
  rw [operandFault?]
  cases m.toList[pc.toNat + n]? with
  | none =>
    simp only [Option.some.injEq, true_and, reduceCtorEq, false_and, exists_false, or_false]
    exact eq_comm
  | some b => simp [@eq_comm _ c, and_assoc]

/-- If the byte before an operand lies in memory, the operand can only miss memory by one. -/
theorem read_operand_eq_error_iff (hpc : pc.toNat < 256) (hk : k.toNat ≤ 3)
    (h : pc.toNat + k.toNat ≤ 256) :
    m.read (pc + k) = .error c ↔
      m.toList[pc.toNat + k.toNat]? = none ∧ c = .addressOutOfRange 256 := by
  have hadd : (pc + k).toNat = pc.toNat + k.toNat := toNat_add_of_lt hpc hk
  rw [Memory.read_eq_error_iff, hadd, List.getElem?_eq_none_iff, Memory.length_toList]
  refine and_congr_right fun hle => ?_
  have heq : pc + k = 256 := by
    rw [← UInt16.toNat_inj, hadd]
    change pc.toNat + k.toNat = 256
    omega
  rw [heq]

theorem registerOperand_eq_error_iff (hpc : pc.toNat < 256) (hk : k.toNat ≤ 3)
    (h : pc.toNat + k.toNat ≤ 256) (ho : k.toNat = 1 ∨ o.isAlu) :
    registerOperand m pc k = .error c ↔ operandFault? m pc o k.toNat = some c := by
  have hadd : (pc + k).toNat = pc.toNat + k.toNat := toNat_add_of_lt hpc hk
  rw [registerOperand, bind_eq_error_iff, read_operand_eq_error_iff hpc hk h, operandFault?]
  simp only [Memory.read_eq_ok_iff, hadd, Register.ofOperand_eq_error_iff]
  cases m.toList[pc.toNat + k.toNat]? with
  | none => simp only [true_and, reduceCtorEq, false_and, exists_const, or_false, Option.some.injEq,
      eq_comm]
  | some b => simp [ho, @eq_comm _ c]

theorem operandFault?_one_eq_none_iff (hpc : pc.toNat < 256) :
    operandFault? m pc o 1 = none ↔ ∃ r, registerOperand m pc 1 = .ok r := by
  have herror : ∀ c, registerOperand m pc 1 = .error c ↔ operandFault? m pc o 1 = some c :=
    fun c => registerOperand_eq_error_iff hpc (by decide) hpc (.inl rfl)
  cases hr : registerOperand m pc 1 with
  | ok r =>
    refine iff_of_true (Option.eq_none_iff_forall_ne_some.mpr fun c hc => ?_) ⟨r, rfl⟩
    rw [(herror c).mpr hc] at hr
    cases hr
  | error d => simp [(herror d).mp hr]

theorem add_two_le_of_registerOperand {r : Register} (hpc : pc.toNat < 256)
    (h : registerOperand m pc 1 = .ok r) : pc.toNat + 2 ≤ 256 := by
  have hadd : (pc + 1).toNat = pc.toNat + 1 := toNat_add_of_lt hpc (by decide)
  have hread := Memory.read_eq_ok_iff.mp (registerOperand_eq_ok_iff.mp h)
  have hlt := (List.getElem?_eq_some_iff.mp hread).1
  rw [hadd, Memory.length_toList] at hlt
  omega

theorem findSome?_pair_eq_some_iff {f : ℕ → Option Fault} :
    [1, 2].findSome? f = some c ↔ f 1 = some c ∨ f 1 = none ∧ f 2 = some c := by
  cases h : f 1 with
  | none => cases h2 : f 2 <;> simp [h, h2]
  | some d => simp [h]

theorem operandFault?_ldi_two :
    operandFault? m pc .ldi 2 = some c ↔
      m.toList[pc.toNat + 2]? = none ∧ c = .addressOutOfRange 256 := by
  rw [operandFault?]
  cases m.toList[pc.toNat + 2]? with
  | none => simp [eq_comm]
  | some b => simp [Opcode.isAlu_eq]

/-- **The first wrong operand byte decides.** -/
theorem operands_eq_error_iff (hpc : pc.toNat < 256) :
    operands m pc o = .error c ↔
      (List.range' 1 o.operandCount).findSome? (operandFault? m pc o) = some c := by
  have hfirst : registerOperand m pc 1 = .error c ↔ operandFault? m pc o 1 = some c :=
    registerOperand_eq_error_iff hpc (by decide) hpc (.inl rfl)
  have hnone : operandFault? m pc o 1 = none ↔ ∃ r, registerOperand m pc 1 = .ok r :=
    operandFault?_one_eq_none_iff hpc
  have hsecond : ∀ r, registerOperand m pc 1 = .ok r → o.isAlu →
      (registerOperand m pc 2 = .error c ↔ operandFault? m pc o 2 = some c) := fun r hr halu =>
    registerOperand_eq_error_iff hpc (by decide) (add_two_le_of_registerOperand hpc hr) (.inr halu)
  cases o with
  | hlt | ret => simp [operands, pure, Except.pure, Opcode.operandCount, Opcode.byte]
  | push | pop | prn | call | jmp | jeq | jne =>
    change _ ↔ [1].findSome? (operandFault? m pc _) = some c
    rw [List.findSome?_singleton, ← hfirst, operands, bind_eq_error_iff]
    exact or_iff_left (by rintro ⟨r, -, hr⟩; cases hr)
  | ldi =>
    change _ ↔ [1, 2].findSome? (operandFault? m pc _) = some c
    rw [findSome?_pair_eq_some_iff, ← hfirst, hnone, operands, bind_eq_error_iff]
    refine or_congr_right ?_
    rw [← exists_and_right]
    refine exists_congr fun r => and_congr_right fun hr => ?_
    have hread := read_operand_eq_error_iff (m := m) (k := 2) (c := c) hpc (by decide)
      (add_two_le_of_registerOperand hpc hr)
    rw [bind_eq_error_iff, hread, operandFault?_ldi_two]
    exact or_iff_left (by rintro ⟨v, -, hv⟩; cases hv)
  | mul | cmp =>
    change _ ↔ [1, 2].findSome? (operandFault? m pc _) = some c
    rw [findSome?_pair_eq_some_iff, ← hfirst, hnone, operands, bind_eq_error_iff]
    refine or_congr_right ?_
    rw [← exists_and_right]
    refine exists_congr fun r => and_congr_right fun hr => ?_
    rw [bind_eq_error_iff, hsecond r hr rfl]
    exact or_iff_left (by rintro ⟨r, -, hr⟩; cases hr)

theorem fetch_eq_error_iff :
    fetch m pc = .error c ↔
      256 ≤ pc.toNat ∧ c = .addressOutOfRange pc ∨
      ∃ b, m.toList[pc.toNat]? = some b ∧
        (Opcode.ofByte? b = none ∧ c = .unknownOpcode b pc ∨
          ∃ o, Opcode.ofByte? b = some o ∧
            (List.range' 1 o.operandCount).findSome? (operandFault? m pc o) = some c) := by
  rw [fetch, bind_eq_error_iff, Memory.read_eq_error_iff]
  refine or_congr_right (exists_congr fun b => ?_)
  rw [Memory.read_eq_ok_iff]
  refine and_congr_right fun hb => ?_
  have hpc : pc.toNat < 256 := by
    have hlt := (List.getElem?_eq_some_iff.mp hb).1
    rwa [Memory.length_toList] at hlt
  cases Opcode.ofByte? b with
  | none =>
    simp only [reduceCtorEq, false_and, exists_false, or_false, true_and]
    exact ⟨fun h => (Except.error.inj h).symm, fun h => congrArg Except.error h.symm⟩
  | some o => simp [operands_eq_error_iff hpc]

end Instruction

/-- **What keeps an instruction from being carried out:** it cannot be fetched, or it is a CALL whose
return address would be 256. -/
theorem Machine.effect_eq_error_iff {m : Machine} {c : Fault} :
    m.effect = .error c ↔
      Instruction.fetch m.memory m.pc = .error c ∨
      (∃ r, Instruction.fetch m.memory m.pc = .ok (.call r)) ∧ m.pc.toNat = 254 ∧
        c = .addressOutOfRange 256 := by
  rw [effect, Instruction.bind_eq_error_iff]
  refine or_congr_right ?_
  constructor
  · rintro ⟨i, hi, he⟩
    obtain ⟨⟨r, rfl⟩, hback, rfl⟩ := Instruction.effect_eq_error_iff.mp he
    have hlen := Instruction.pc_add_length_le hi
    rw [Opcode.length_eq] at hlen
    change m.pc.toNat + 2 ≤ 256 at hlen
    have hadd : (m.pc + 2).toNat = m.pc.toNat + 2 :=
      Instruction.toNat_add_of_lt (by omega) (by decide)
    have hpc : m.pc + 2 = 256 := UInt16.toNat_inj.mp (hadd.trans (by change _ = 256; omega))
    exact ⟨⟨r, hi⟩, by omega, by rw [hpc]⟩
  · rintro ⟨⟨r, hi⟩, hpc, rfl⟩
    have hadd : (m.pc + 2).toNat = 256 := by
      rw [Instruction.toNat_add_of_lt (by omega) (by decide), hpc]
      rfl
    have hback : m.pc + 2 = 256 := UInt16.toNat_inj.mp hadd
    exact ⟨_, hi, Instruction.effect_eq_error_iff.mpr ⟨⟨r, rfl⟩, Nat.le_of_eq hadd.symm, by rw [hback]⟩⟩

end LS8
