import LS8.Listing
import LS8.Proofs.Instruction.Encoding

/-! # Listings: rows

A row is read from bytes in one of three ways (`Row.Reads`): the first byte begins no instruction, or
the bytes end too early for the instruction that it begins, or the instruction is there in full.

A row shows its bytes once over: the opcode and the operands give them back (`bytes_of_ofBytes?`). An
instruction in memory, which has checked operands, is shown as the row `Instruction.row`
(`at?_of_fetch`).

* `flatMap_bytes_sweep`: the rows of bytes that end by address 65536 show all of them. -/

namespace LS8

/-! ### How a row is read -/

namespace Row

/-- **The ways in which a row is read** from the head of some bytes. -/
inductive Reads (address : UInt16) : List UInt8 → Row → Prop
  | unknown {b : UInt8} (rest : List UInt8) (h : Opcode.ofByte? b = none) :
    Reads address (b :: rest) (.data address b)
  | cut {o : Opcode} {rest : List UInt8} (h : rest.length < o.operandCount) :
    Reads address (o.byte :: rest) (.data address o.byte)
  | whole {o : Opcode} {operands : List UInt8} (rest : List UInt8)
    (h : operands.length = o.operandCount) :
    Reads address (o.byte :: (operands ++ rest))
      ⟨address, o.byte :: operands, some o, operandsOf o operands⟩

theorem reads_of_ofBytes? {address : UInt16} {bytes : List UInt8} {r : Row}
    (h : ofBytes? address bytes = some r) : Reads address bytes r := by
  cases bytes with
  | nil => cases h
  | cons b rest =>
    cases ho : Opcode.ofByte? b with
    | none =>
      rw [ofBytes?, ho] at h
      obtain rfl := Option.some.inj h
      exact .unknown rest ho
    | some o =>
      obtain rfl := Opcode.byte_of_ofByte? ho
      rw [ofBytes?, ho] at h
      by_cases hlen : (rest.take o.operandCount).length = o.operandCount
      · obtain rfl := Option.some.inj ((if_pos hlen).symm.trans h)
        have hread : Reads address
            (o.byte :: (rest.take o.operandCount ++ rest.drop o.operandCount)) _ :=
          .whole (rest.drop o.operandCount) hlen
        rwa [List.take_append_drop] at hread
      · obtain rfl := Option.some.inj ((if_neg hlen).symm.trans h)
        rw [List.length_take] at hlen
        exact .cut (by omega)

theorem ofBytes?_of_reads {address : UInt16} {bytes : List UInt8} {r : Row}
    (h : Reads address bytes r) : ofBytes? address bytes = some r := by
  cases h with
  | unknown rest h => rw [ofBytes?, h]
  | @cut o rest h =>
    have hlen : (rest.take o.operandCount).length ≠ o.operandCount := by
      rw [List.length_take]
      omega
    rw [ofBytes?, Opcode.ofByte?_byte]
    exact if_neg hlen
  | @whole o operands rest h =>
    have htake : (operands ++ rest).take o.operandCount = operands := by
      rw [← h]
      exact List.take_left
    rw [ofBytes?, Opcode.ofByte?_byte]
    simp only [htake, h, if_true]

theorem ofBytes?_eq_none_iff {address : UInt16} {bytes : List UInt8} :
    ofBytes? address bytes = none ↔ bytes = [] := by
  cases bytes with
  | nil => simp [ofBytes?]
  | cons b rest =>
    simp only [ofBytes?, reduceCtorEq, iff_false]
    split
    · simp
    · split <;> simp

end Row

/-! ### The bytes of a row -/

/-- The byte that an operand shows. -/
def Operand.byte : Operand → UInt8
  | register index => index
  | immediate value => value
  | raw value => value

theorem Row.map_byte_operandsOf (o : Opcode) {operands : List UInt8} (h : operands.length ≤ 2) :
    (operandsOf o operands).map Operand.byte = operands := by
  match operands, h with
  | [], _ => rfl
  | [a], _ => rfl
  | [a, b], _ =>
    have hsecond : Operand.byte (if o.isAlu then .register b else .immediate b) = b := by
      cases o.isAlu <;> rfl
    exact congrArg (a :: [·]) hsecond

theorem Opcode.operandCount_le_two (o : Opcode) : o.operandCount ≤ 2 :=
  Nat.le_of_succ_le_succ o.length_le_three

theorem Row.bytes_of_ofBytes? {address : UInt16} {bytes : List UInt8} {r : Row}
    (h : ofBytes? address bytes = some r) :
    r.bytes = (r.opcode.map Opcode.byte).toList ++ r.operands.map Operand.byte := by
  cases reads_of_ofBytes? h with
  | unknown _ _ => rfl
  | cut _ => rfl
  | @whole o operands _ hlen =>
    have hle := o.operandCount_le_two
    change o.byte :: operands = o.byte :: (operandsOf o operands).map Operand.byte
    rw [map_byte_operandsOf o (by omega)]

/-! ### What a row depends on -/

namespace Row

variable {address : UInt16} {bytes : List UInt8} {r : Row}

theorem Reads.at (h : Reads address bytes r) (other : UInt16) :
    Reads other bytes { r with address := other } := by
  cases h with
  | unknown rest h => exact .unknown rest h
  | cut h => exact .cut h
  | whole rest h => exact .whole rest h

/-- **No row depends on more than three bytes.** -/
theorem Reads.take (h : Reads address bytes r) : Reads address (bytes.take 3) r := by
  cases h with
  | unknown rest h => exact .unknown (rest.take 2) h
  | @cut o rest h =>
    have hle := o.operandCount_le_two
    have hrest : rest.take 2 = rest := List.take_of_length_le (by omega)
    rw [List.take_succ_cons, hrest]
    exact .cut h
  | @whole o operands rest h =>
    have hle := o.operandCount_le_two
    have hoperands : operands.take 2 = operands := List.take_of_length_le (by omega)
    rw [List.take_succ_cons, List.take_append, hoperands]
    exact .whole _ h

end Row

/-! ### Instructions as rows -/

namespace Instruction

/-- The operands of an instruction as a row shows them. -/
def shown : Instruction → List Operand
  | hlt | ret => []
  | push r | pop r | prn r | call r | jmp r | jeq r | jne r => [.register r.byte]
  | ldi r v => [.register r.byte, .immediate v]
  | mul a b | cmp a b => [.register a.byte, .register b.byte]

/-- The row that shows an instruction at `address`. -/
def row (address : UInt16) (i : Instruction) : Row := ⟨address, i.bytes, some i.opcode, i.shown⟩

theorem operandsOf_operandBytes (i : Instruction) :
    Row.operandsOf i.opcode i.operandBytes = i.shown := by
  cases i with
  | ldi r v | mul a b | cmp a b =>
    simp [Row.operandsOf, Opcode.isAlu_eq, operandBytes, shown, opcode]
  | _ => rfl

theorem length_operandBytes (i : Instruction) : i.operandBytes.length = i.opcode.operandCount :=
  Nat.succ.inj i.length_bytes

theorem ofBytes?_bytes_append (address : UInt16) (i : Instruction) (rest : List UInt8) :
    Row.ofBytes? address (i.bytes ++ rest) = some (i.row address) := by
  have htake : (i.operandBytes ++ rest).take i.opcode.operandCount = i.operandBytes := by
    rw [← length_operandBytes]
    exact List.take_left
  rw [bytes, List.cons_append, Row.ofBytes?, Opcode.ofByte?_byte]
  simp only [htake, length_operandBytes, operandsOf_operandBytes, if_true]
  rfl

/-- **An instruction that can be fetched is shown in full.** -/
theorem at?_of_fetch {m : Memory} {pc : UInt16} {i : Instruction} (h : fetch m pc = .ok i) :
    Row.at? m.toList pc = some (i.row pc) := by
  obtain ⟨rest, hrest⟩ := fetch_eq_ok_iff.mp h
  rw [Row.at?, ← hrest, ofBytes?_bytes_append]

end Instruction

/-! ### Rows of a sweep -/

theorem exists_ofBytes?_of_mem_sweep {address : ℕ} {bytes : List UInt8} {r : Row}
    (h : r ∈ sweep address bytes) : ∃ a bs, Row.ofBytes? a bs = some r := by
  fun_induction sweep address bytes with
  | case1 address bytes hle => cases h
  | case2 address bytes hlt hnone => cases h
  | case3 address bytes hlt row hrow ih =>
    rcases List.mem_cons.mp h with rfl | h
    · exact ⟨_, _, hrow⟩
    · exact ih h

theorem sweep_of_at? {image : List UInt8} {address : UInt16} {r : Row}
    (h : Row.at? image address = some r) :
    sweep address.toNat (image.drop address.toNat) =
      r :: sweep (address.toNat + r.bytes.length) (image.drop (address.toNat + r.bytes.length)) := by
  have hrow : Row.ofBytes? (UInt16.ofNat address.toNat) (image.drop address.toNat) = some r := by
    rw [UInt16.ofNat_toNat]
    exact h
  rw [sweep_of_ofBytes? address.toNat_lt hrow, List.drop_drop]

/-- **A sweep shows every byte** whose address has 16 bits. -/
theorem flatMap_bytes_sweep {address : ℕ} {bytes : List UInt8}
    (h : address + bytes.length ≤ 65536) : (sweep address bytes).flatMap Row.bytes = bytes := by
  fun_induction sweep address bytes with
  | case1 address bytes hle =>
    have hlen : bytes.length = 0 := by omega
    exact (List.eq_nil_of_length_eq_zero hlen).symm
  | case2 address bytes hlt hnone => exact (Row.ofBytes?_eq_none_iff.mp hnone).symm
  | case3 address bytes hlt r hr ih =>
    obtain ⟨-, -, happend⟩ := Row.exists_append_of_ofBytes? hr
    have hlen := congrArg List.length happend
    rw [List.length_append] at hlen
    rw [List.flatMap_cons, ih (by omega)]
    exact happend.symm

end LS8
