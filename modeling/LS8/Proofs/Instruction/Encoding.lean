import LS8.Instruction
import Mathlib.Data.List.Basic

/-! # Instructions: encoding

An instruction is written as the byte of its opcode followed by its operand bytes (`bytes`), and
memory holds it at an address if these bytes stand there (`Memory.HoldsAt`, which asks nothing about
the cells behind them). Fetching is the inverse of writing:

* `fetch_eq_ok_iff`: `fetch` gives an instruction exactly where memory holds its bytes.
* `pc_add_length_le`: a fetched instruction ends inside memory, so no address on the way to the next
  one wraps around. -/

namespace LS8

/-! ### Bytes in memory -/

namespace Memory

/-- The bytes `bs` stand in memory from address `n` on. -/
def HoldsAt (m : Memory) (n : Nat) (bs : List UInt8) : Prop := bs <+: m.toList.drop n

theorem holdsAt_nil (m : Memory) (n : Nat) : m.HoldsAt n [] := List.nil_prefix

theorem getElem?_toList (m : Memory) (n : Nat) : m.toList[n]? = m.cells[n]? := by
  simp [toList]

theorem holdsAt_cons_iff {m : Memory} {n : Nat} {b : UInt8} {bs : List UInt8} :
    m.HoldsAt n (b :: bs) ↔ m.toList[n]? = some b ∧ m.HoldsAt (n + 1) bs := by
  unfold HoldsAt
  by_cases h : n < m.toList.length
  · rw [List.drop_eq_getElem_cons h, List.cons_prefix_cons, List.getElem?_eq_getElem h]
    simp [eq_comm]
  · rw [List.drop_eq_nil_of_le (by omega), List.getElem?_eq_none (by omega)]
    simp

theorem HoldsAt.add_length_le {m : Memory} {n : Nat} {bs : List UInt8} (h : m.HoldsAt n bs)
    (hbs : bs ≠ []) : n + bs.length ≤ 256 := by
  have hle : bs.length ≤ (m.toList.drop n).length := List.IsPrefix.length_le h
  have hpos : 0 < bs.length := List.length_pos_iff.mpr hbs
  rw [List.length_drop, length_toList] at hle
  omega

theorem read_eq_ok_iff {m : Memory} {a : UInt16} {b : UInt8} :
    m.read a = .ok b ↔ m.toList[a.toNat]? = some b := by
  rw [getElem?_toList, read]
  by_cases h : a.toNat < 256
  · simp [h]
  · simp [h]

end Memory

/-! ### Instructions as bytes -/

/-- The operand byte that names a register. -/
def Register.byte (r : Register) : UInt8 := UInt8.ofNat r.val

theorem Register.ofOperand_eq_ok_iff_byte {b : UInt8} {r : Register} :
    ofOperand b = .ok r ↔ b = r.byte := by
  have hr : r.val < 256 := by omega
  rw [ofOperand_eq_ok_iff, ← UInt8.toNat_inj, byte, UInt8.toNat_ofNat', Nat.mod_eq_of_lt hr]

namespace Instruction

def operandBytes : Instruction → List UInt8
  | hlt | ret => []
  | push r | pop r | prn r | call r | jmp r | jeq r | jne r => [r.byte]
  | ldi r v => [r.byte, v]
  | mul a b | cmp a b => [a.byte, b.byte]

/-- **An instruction as bytes.** -/
def bytes (i : Instruction) : List UInt8 := i.opcode.byte :: i.operandBytes

theorem bytes_ne_nil (i : Instruction) : i.bytes ≠ [] := List.cons_ne_nil _ _

theorem length_bytes (i : Instruction) : i.bytes.length = i.opcode.length := by
  rw [Opcode.length_eq]
  cases i <;> rfl

/-! ### Fetching -/

variable {m : Memory} {pc : UInt16} {i : Instruction}

theorem bind_eq_ok_iff {α β : Type} {x : Except Fault α} {f : α → Except Fault β} {b : β} :
    (x >>= f) = .ok b ↔ ∃ a, x = .ok a ∧ f a = .ok b := by
  cases x with
  | error c => simp [bind, Except.bind]
  | ok a => simp [bind, Except.bind]

theorem registerOperand_eq_ok_iff {k : UInt16} {r : Register} :
    registerOperand m pc k = .ok r ↔ m.read (pc + k) = .ok r.byte := by
  rw [registerOperand, bind_eq_ok_iff]
  constructor
  · rintro ⟨b, hb, hr⟩
    rw [hb, Register.ofOperand_eq_ok_iff_byte.mp hr]
  · intro h
    exact ⟨r.byte, h, Register.ofOperand_eq_ok_iff_byte.mpr rfl⟩

theorem toNat_add_of_lt {k : UInt16} (h : pc.toNat < 256) (hk : k.toNat ≤ 3) :
    (pc + k).toNat = pc.toNat + k.toNat := by
  rw [UInt16.toNat_add]
  exact Nat.mod_eq_of_lt (by omega)

theorem holdsAt_one_iff (h : pc.toNat < 256) {b : UInt8} :
    m.HoldsAt (pc.toNat + 1) [b] ↔ m.read (pc + 1) = .ok b := by
  have h1 : (pc + 1).toNat = pc.toNat + 1 := toNat_add_of_lt h (by decide)
  rw [Memory.holdsAt_cons_iff, Memory.read_eq_ok_iff, h1]
  exact and_iff_left (m.holdsAt_nil _)

theorem holdsAt_two_iff (h : pc.toNat < 256) {b c : UInt8} :
    m.HoldsAt (pc.toNat + 1) [b, c] ↔ m.read (pc + 1) = .ok b ∧ m.read (pc + 2) = .ok c := by
  have h1 : (pc + 1).toNat = pc.toNat + 1 := toNat_add_of_lt h (by decide)
  have h2 : (pc + 2).toNat = pc.toNat + 2 := toNat_add_of_lt h (by decide)
  rw [Memory.holdsAt_cons_iff, Memory.holdsAt_cons_iff, Memory.read_eq_ok_iff,
    Memory.read_eq_ok_iff, h1, h2]
  exact and_congr_right fun _ => and_iff_left (m.holdsAt_nil _)

theorem holdsAt_of_operands (h : pc.toNat < 256) {o : Opcode} (hi : operands m pc o = .ok i) :
    m.HoldsAt (pc.toNat + 1) i.operandBytes := by
  simp only [operands] at hi
  cases o with
  | hlt | ret =>
    obtain rfl := Except.ok.inj hi
    exact Memory.holdsAt_nil _ _
  | push | pop | prn | call | jmp | jeq | jne =>
    obtain ⟨r, hr, hi⟩ := bind_eq_ok_iff.mp hi
    obtain rfl := Except.ok.inj hi
    exact (holdsAt_one_iff h).mpr (registerOperand_eq_ok_iff.mp hr)
  | ldi =>
    obtain ⟨r, hr, hi⟩ := bind_eq_ok_iff.mp hi
    obtain ⟨v, hv, hi⟩ := bind_eq_ok_iff.mp hi
    obtain rfl := Except.ok.inj hi
    exact (holdsAt_two_iff h).mpr ⟨registerOperand_eq_ok_iff.mp hr, hv⟩
  | mul | cmp =>
    obtain ⟨a, ha, hi⟩ := bind_eq_ok_iff.mp hi
    obtain ⟨b, hb, hi⟩ := bind_eq_ok_iff.mp hi
    obtain rfl := Except.ok.inj hi
    exact (holdsAt_two_iff h).mpr
      ⟨registerOperand_eq_ok_iff.mp ha, registerOperand_eq_ok_iff.mp hb⟩

theorem operands_of_holdsAt (h : pc.toNat < 256)
    (hi : m.HoldsAt (pc.toNat + 1) i.operandBytes) : operands m pc i.opcode = .ok i := by
  cases i with
  | hlt | ret => rfl
  | push r | pop r | prn r | call r | jmp r | jeq r | jne r =>
    have hr := registerOperand_eq_ok_iff.mpr ((holdsAt_one_iff h).mp hi)
    exact bind_eq_ok_iff.mpr ⟨r, hr, rfl⟩
  | ldi r v =>
    obtain ⟨hr, hv⟩ := (holdsAt_two_iff h).mp hi
    exact bind_eq_ok_iff.mpr
      ⟨r, registerOperand_eq_ok_iff.mpr hr, bind_eq_ok_iff.mpr ⟨v, hv, rfl⟩⟩
  | mul a b | cmp a b =>
    obtain ⟨ha, hb⟩ := (holdsAt_two_iff h).mp hi
    exact bind_eq_ok_iff.mpr ⟨a, registerOperand_eq_ok_iff.mpr ha,
      bind_eq_ok_iff.mpr ⟨b, registerOperand_eq_ok_iff.mpr hb, rfl⟩⟩

/-- **An instruction is fetched exactly where its bytes stand.** -/
theorem fetch_eq_ok_iff : fetch m pc = .ok i ↔ m.HoldsAt pc.toNat i.bytes := by
  unfold bytes
  rw [Memory.holdsAt_cons_iff, ← Memory.read_eq_ok_iff, fetch, bind_eq_ok_iff]
  constructor
  · rintro ⟨b, hb, hi⟩
    have hpc : pc.toNat < 256 := by
      by_contra hle
      rw [Memory.read_of_le m (by omega)] at hb
      cases hb
    cases ho : Opcode.ofByte? b with
    | none => rw [ho] at hi; cases hi
    | some o =>
      rw [ho] at hi
      rw [opcode_of_operands hi, Opcode.byte_of_ofByte? ho]
      exact ⟨hb, holdsAt_of_operands hpc hi⟩
  · rintro ⟨hb, hi⟩
    have hpc : pc.toNat < 256 := by
      by_contra hle
      rw [Memory.read_of_le m (by omega)] at hb
      cases hb
    refine ⟨i.opcode.byte, hb, ?_⟩
    rw [Opcode.ofByte?_byte]
    exact operands_of_holdsAt hpc hi

theorem pc_add_length_le (h : fetch m pc = .ok i) : pc.toNat + i.opcode.length ≤ 256 := by
  rw [← length_bytes]
  exact (fetch_eq_ok_iff.mp h).add_length_le i.bytes_ne_nil

end Instruction

end LS8
