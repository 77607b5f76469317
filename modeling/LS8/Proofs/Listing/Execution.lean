import LS8.Proofs.Instruction.Faults
import LS8.Proofs.Listing.Rows
import LS8.Proofs.Session.Conformance

/-! # Listings: rows and steps

A listing looks at memory without the machine, and a step fetches without the listing. At the program
counter both see the same: where the listing shows an instruction, the step carries out this one or
faults over one of the registers shown, and where the listing shows a `.byte` row, the step faults.

* `fetch_of_data`, `exists_register_of_fetch_eq_error`: what the row at an address says about
  fetching there; with `Instruction.at?_of_fetch` these are all cases.
* `row_agrees_with_step`: the two side by side, for every row and every outcome of the step. -/

namespace LS8

/-! ### The registers of an instruction -/

namespace Instruction

/-- The registers that an instruction works on, in the order of its operands. -/
def registers : Instruction → List Register
  | hlt | ret => []
  | push r | pop r | prn r | call r | jmp r | jeq r | jne r | ldi r _ => [r]
  | mul a b | cmp a b => [a, b]

theorem register_mem_shown_iff {i : Instruction} {k : UInt8} :
    .register k ∈ i.shown ↔ ∃ r ∈ i.registers, k = r.byte := by
  cases i <;> simp [shown, registers]

end Instruction

theorem Operand.text_register_byte (r : Register) :
    (register r.byte).text = ['R', Nat.digitChar r.val] := by
  have hr : r.byte.toNat = r.val := by
    rw [Register.byte, UInt8.toNat_ofNat']
    omega
  rw [text, hr, Text.Numeral.decimal, Text.Numeral.digits_of_lt (by omega)]
  rfl

/-! ### Rows in memory -/

namespace Row

open Instruction (fetch operandFault?)

variable {m : Memory} {pc : UInt16} {row : Row} {b : UInt8} {c : Fault}

theorem at?_eq_none_iff : at? m.toList pc = none ↔ 256 ≤ pc.toNat := by
  rw [at?, ofBytes?_eq_none_iff, List.drop_eq_nil_iff, Memory.length_toList]

theorem cells_of_drop {n : ℕ} {rest : List UInt8} (h : b :: rest = m.toList.drop n) :
    m.toList[n]? = some b ∧ n + 1 + rest.length = 256 ∧
      ∀ j, m.toList[n + 1 + j]? = rest[j]? := by
  have hcell : ∀ j, m.toList[n + j]? = (b :: rest)[j]? := fun j => by rw [h, List.getElem?_drop]
  have hlen := congrArg List.length h
  rw [List.length_cons, List.length_drop, Memory.length_toList] at hlen
  refine ⟨hcell 0, by omega, fun j => ?_⟩
  rw [Nat.add_assoc, Nat.add_comm 1 j, hcell, List.getElem?_cons_succ]

/-- **Behind a `.byte` row there is nothing to fetch:** the byte is no opcode, or memory ends before
the operands do, or a register operand before that names none. -/
theorem fetch_of_data (hrow : at? m.toList pc = some row) (hdata : row.opcode = none) :
    ∃ b, m.toList[pc.toNat]? = some b ∧ row = .data pc b ∧
      (Opcode.ofByte? b = none ∧ fetch m pc = .error (.unknownOpcode b pc) ∨
        ∃ o c, Opcode.ofByte? b = some o ∧ 256 < pc.toNat + o.length ∧ fetch m pc = .error c ∧
          (c = .addressOutOfRange 256 ∨ ∃ k, c = .registerOutOfRange k)) := by
  have hreads := reads_of_ofBytes? hrow
  generalize hbytes : m.toList.drop pc.toNat = bytes at hreads
  cases hreads with
  | @unknown b rest hb =>
    obtain ⟨hcell, -, -⟩ := cells_of_drop hbytes.symm
    exact ⟨b, hcell, rfl, .inl ⟨hb, Instruction.fetch_eq_error_iff.mpr
      (.inr ⟨b, hcell, .inl ⟨hb, rfl⟩⟩)⟩⟩
  | @cut o rest hcut =>
    obtain ⟨hcell, hlen, -⟩ := cells_of_drop hbytes.symm
    have hend : 256 < pc.toNat + o.length := by unfold Opcode.length; omega
    refine ⟨o.byte, hcell, rfl, .inr ?_⟩
    cases hfetch : fetch m pc with
    | ok i =>
      -- a fetched instruction ends inside memory and would be shown in full
      rw [Instruction.at?_of_fetch hfetch] at hrow
      cases congrArg Row.opcode (Option.some.inj hrow)
    | error c =>
      refine ⟨o, c, Opcode.ofByte?_byte o, hend, rfl, ?_⟩
      rcases Instruction.fetch_eq_error_iff.mp hfetch with ⟨hle, -⟩ | ⟨b, hb, hcause⟩
      · omega
      obtain rfl := Option.some.inj (hcell.symm.trans hb)
      rcases hcause with ⟨hnone, -⟩ | ⟨o', -, hfault⟩
      · rw [Opcode.ofByte?_byte] at hnone
        cases hnone
      obtain ⟨k, -, hk⟩ := List.exists_of_findSome?_eq_some hfault
      rcases Instruction.operandFault?_eq_some_iff.mp hk with ⟨-, hc⟩ | ⟨k, -, -, -, hc⟩
      · exact .inl hc
      · exact .inr ⟨k, hc⟩
  | whole _ _ => cases hdata

theorem register_mem_operandsOf {o : Opcode} {operands : List UInt8} {j : ℕ}
    (h : operands[j]? = some b) (hj : j = 0 ∨ j = 1 ∧ o.isAlu) :
    .register b ∈ operandsOf o operands := by
  match operands, h with
  | [a], h =>
    obtain ⟨hlt, rfl⟩ := List.getElem?_eq_some_iff.mp h
    obtain rfl : j = 0 := Nat.lt_one_iff.mp hlt
    exact List.mem_singleton.mpr rfl
  | a :: a' :: rest, h =>
    rcases hj with rfl | ⟨rfl, halu⟩
    · obtain rfl := Option.some.inj h
      exact List.mem_cons_self
    · obtain rfl := Option.some.inj h
      simp [operandsOf, halu]

/-- **Where an instruction is shown, only its registers can be wrong.** -/
theorem exists_register_of_fetch_eq_error (hrow : at? m.toList pc = some row)
    (hopcode : row.opcode ≠ none) (hfetch : fetch m pc = .error c) :
    ∃ k, .register k ∈ row.operands ∧ 8 ≤ k.toNat ∧ c = .registerOutOfRange k := by
  have hreads := reads_of_ofBytes? hrow
  generalize hbytes : m.toList.drop pc.toNat = bytes at hreads
  cases hreads with
  | unknown _ _ => exact absurd rfl hopcode
  | cut _ => exact absurd rfl hopcode
  | @whole o operands rest hlen =>
    obtain ⟨hcell, hend, hcells⟩ := cells_of_drop hbytes.symm
    rcases Instruction.fetch_eq_error_iff.mp hfetch with ⟨hle, -⟩ | ⟨b, hb, hcause⟩
    · omega
    obtain rfl := Option.some.inj (hcell.symm.trans hb)
    rw [Opcode.ofByte?_byte] at hcause
    rcases hcause with ⟨hnone, -⟩ | ⟨o', ho, hfault⟩
    · cases hnone
    obtain rfl := Option.some.inj ho
    obtain ⟨k, hk, hwrong⟩ := List.exists_of_findSome?_eq_some hfault
    obtain ⟨hk1, hk2⟩ := List.mem_range'_1.mp hk
    obtain ⟨j, rfl⟩ := Nat.exists_eq_add_of_le hk1
    -- operand `1 + j` is byte `j` of the operands that the row shows
    have hoperand : m.toList[pc.toNat + (1 + j)]? = operands[j]? := by
      rw [← Nat.add_assoc, hcells, List.getElem?_append_left (by omega)]
    rcases Instruction.operandFault?_eq_some_iff.mp hwrong with ⟨hnone, -⟩ | ⟨b, hb, hj, h8, hc⟩
    · rw [hoperand, List.getElem?_eq_none_iff] at hnone
      omega
    · have hle := o.operandCount_le_two
      refine ⟨b, register_mem_operandsOf (hoperand.symm.trans hb) ?_, h8, hc⟩
      rcases hj with hj | halu
      · exact .inl (by omega)
      · rcases Nat.eq_zero_or_pos j with hj | hj
        · exact .inl hj
        · exact .inr ⟨by omega, halu⟩

end Row

/-! ### Rows at the program counter -/

namespace Session

variable {σ τ : Type} [TraceSink τ] [OutputPort σ] {s : Session σ τ} {c : Fault}

theorem fault_of_fetch_eq_error (hs : s.machine.runState = .running)
    (h : Instruction.fetch s.machine.memory s.machine.pc = .error c) : s.step.1 = .fault c := by
  rw [(Step.fault (Machine.effect_of_fetch_eq_error h)).eq hs]

/-- **Why a step faults:** nothing can be fetched, or a CALL would have to return to 256, or the
port refuses the value of a PRN. -/
theorem cause_of_fault (hs : s.machine.runState = .running) (h : s.step.1 = .fault c) :
    Instruction.fetch s.machine.memory s.machine.pc = .error c ∨
    (∃ r, Instruction.fetch s.machine.memory s.machine.pc = .ok (.call r)) ∧
      s.machine.pc.toNat = 254 ∧ c = .addressOutOfRange 256 ∨
    (∃ r, Instruction.fetch s.machine.memory s.machine.pc = .ok (.prn r)) ∧ c = .outputFailed := by
  have hstep := step_of_running_machine hs
  rw [h] at hstep
  generalize s.step.2 = next at hstep
  cases hstep with
  | fault he =>
    rcases Machine.effect_eq_error_iff.mp he with hfetch | hcall
    · exact .inl hfetch
    · exact .inr (.inl hcall)
  | refuse he hp =>
    obtain ⟨r, hi, -⟩ := Machine.exists_prn_of_effect he
    exact .inr (.inr ⟨⟨r, hi⟩, rfl⟩)

theorem exists_fetch_of_retired_or_halted (hs : s.machine.runState = .running)
    (h : s.step.1 = .retired ∨ s.step.1 = .halted) :
    ∃ i, Instruction.fetch s.machine.memory s.machine.pc = .ok i ∧
      (s.step.1 = .retired → s.Becomes s.step.2 i) ∧
      (s.step.1 = .halted → i = .hlt ∧ s.step.2.machine = s.machine.halt) := by
  rcases h with h | h
  · obtain ⟨i, hi⟩ := exists_retired? h
    refine ⟨i, (retired?_eq_some_iff.mp hi).2, fun _ => becomes_of_retired? hi, fun h' => ?_⟩
    rw [h] at h'
    cases h'
  · obtain ⟨hi, hmachine, -⟩ := fetch_eq_hlt_of_halted hs h
    refine ⟨.hlt, hi, fun h' => ?_, fun _ => ⟨rfl, hmachine⟩⟩
    rw [h] at h'
    cases h'

/-- **The row at the program counter and the next step agree.** There is no row exactly beyond
memory, where the step faults. A `.byte` row comes with a fault of decoding. If the step retires or
halts, the row shows the instruction that it carries out, and the instruction behind it comes next
unless the program counter is set. Where the row shows an instruction, the step can only fault over a
register shown, over the return address of a CALL at 254 or over the port. -/
theorem row_agrees_with_step (s : Session σ τ) (hs : s.machine.runState = .running) :
    (Row.at? s.machine.memory.toList s.machine.pc = none ↔ 256 ≤ s.machine.pc.toNat) ∧
    (256 ≤ s.machine.pc.toNat → s.step.1 = .fault (.addressOutOfRange s.machine.pc)) ∧
    ∀ row, Row.at? s.machine.memory.toList s.machine.pc = some row →
      (row.opcode = none →
        ∃ b, s.machine.memory.toList[s.machine.pc.toNat]? = some b ∧
          row = .data s.machine.pc b ∧
          (Opcode.ofByte? b = none ∧ s.step.1 = .fault (.unknownOpcode b s.machine.pc) ∨
            ∃ o c, Opcode.ofByte? b = some o ∧ 256 < s.machine.pc.toNat + o.length ∧
              s.step.1 = .fault c ∧
              (c = .addressOutOfRange 256 ∨ ∃ k, c = .registerOutOfRange k))) ∧
      (s.step.1 = .retired ∨ s.step.1 = .halted →
        ∃ i : Instruction,
          (s.step.1 = .retired → s.Becomes s.step.2 i) ∧
          (s.step.1 = .halted → i = .hlt ∧ s.step.2.machine = s.machine.halt) ∧
          row = i.row s.machine.pc ∧ row.mnemonic = i.opcode.mnemonic ∧
          row.bytes =
            (s.machine.memory.toList.drop s.machine.pc.toNat).take i.opcode.length ∧
          row.bytes.length = i.opcode.length ∧
          (∀ k, .register k ∈ row.operands →
            ∃ r ∈ i.registers, k = r.byte ∧
              (Operand.register k).text = ['R', Nat.digitChar r.val]) ∧
          (i.opcode.setsPc = false → i ≠ .hlt →
            s.step.2.machine.pc.toNat = s.machine.pc.toNat + row.bytes.length)) ∧
      (row.opcode ≠ none → ∀ c, s.step.1 = .fault c →
        (∃ k, .register k ∈ row.operands ∧ 8 ≤ k.toNat ∧ c = .registerOutOfRange k) ∨
        row.opcode = some .call ∧ s.machine.pc.toNat = 254 ∧ c = .addressOutOfRange 256 ∨
        row.opcode = some .prn ∧ c = .outputFailed) := by
  refine ⟨Row.at?_eq_none_iff, fun hpc => fault_of_fetch_eq_error hs (Instruction.fetch_of_le _ hpc),
    fun row hrow => ⟨fun hdata => ?_, fun ho => ?_, fun hopcode c hc => ?_⟩⟩
  · obtain ⟨b, hb, hrow, hcause⟩ := Row.fetch_of_data hrow hdata
    refine ⟨b, hb, hrow, ?_⟩
    rcases hcause with ⟨hnone, hfetch⟩ | ⟨o, c, hsome, hend, hfetch, hc⟩
    · exact .inl ⟨hnone, fault_of_fetch_eq_error hs hfetch⟩
    · exact .inr ⟨o, c, hsome, hend, fault_of_fetch_eq_error hs hfetch, hc⟩
  · obtain ⟨i, hi, hretired, hhalted⟩ := exists_fetch_of_retired_or_halted hs ho
    obtain rfl := Option.some.inj (hrow.symm.trans (Instruction.at?_of_fetch hi))
    have hprefix : i.bytes <+: s.machine.memory.toList.drop s.machine.pc.toNat :=
      Instruction.fetch_eq_ok_iff.mp hi
    refine ⟨i, hretired, hhalted, rfl, rfl, ?_, i.length_bytes, fun k hk => ?_,
      fun hset hne => ?_⟩
    · rw [← i.length_bytes]
      exact List.prefix_iff_eq_take.mp hprefix
    · obtain ⟨r, hr, rfl⟩ := Instruction.register_mem_shown_iff.mp hk
      exact ⟨r, hr, rfl, Operand.text_register_byte r⟩
    · rcases ho with ho | ho
      · have hview := congrArg View.pc (hretired ho).view
        rw [Instruction.pc_next _ hset hne] at hview
        exact hview
      · exact absurd (hhalted ho).1 hne
  · rcases cause_of_fault hs hc with hfetch | ⟨⟨r, hi⟩, hpc, hc⟩ | ⟨⟨r, hi⟩, hc⟩
    · exact .inl (Row.exists_register_of_fetch_eq_error hrow hopcode hfetch)
    · obtain rfl := Option.some.inj (hrow.symm.trans (Instruction.at?_of_fetch hi))
      exact .inr (.inl ⟨rfl, hpc, hc⟩)
    · obtain rfl := Option.some.inj (hrow.symm.trans (Instruction.at?_of_fetch hi))
      exact .inr (.inr ⟨rfl, hc⟩)

/-- A session about to carry out `PRN R3` in the last two cells of memory. -/
def lastPrint : Session Writer NoTrace where
  machine := { Machine.new with memory := (Memory.zero.set 254 0x47).set 255 3, pc := 254 }
  port := {}
  sink := {}

/-- The PRN is shown and retires; behind it there is neither a row nor an instruction. -/
theorem row_agrees_with_step_lastPrint :
    lastPrint.machine.runState = .running ∧ lastPrint.step.1 = .retired ∧
      (∃ row i, Row.at? lastPrint.machine.memory.toList lastPrint.machine.pc = some row ∧
        lastPrint.Becomes lastPrint.step.2 i ∧ row = i.row 254) ∧
      Row.at? lastPrint.step.2.machine.memory.toList lastPrint.step.2.machine.pc = none ∧
      lastPrint.step.2.step.1 = .fault (.addressOutOfRange 256) := by
  have hs : lastPrint.machine.runState = .running := by decide +kernel
  have h : lastPrint.step.1 = .retired := by decide +kernel
  have hrow : Row.at? lastPrint.machine.memory.toList lastPrint.machine.pc =
      some ((Instruction.prn 3).row 254) := by decide +kernel
  have hs2 : lastPrint.step.2.machine.runState = .running := running_step_of_retired h
  have hpc : lastPrint.step.2.machine.pc = 256 := by decide +kernel
  have hle : 256 ≤ lastPrint.step.2.machine.pc.toNat := by rw [hpc]; decide
  obtain ⟨i, hi, -, hrowi, -⟩ := ((row_agrees_with_step lastPrint hs).2.2 _ hrow).2.1 (.inl h)
  obtain ⟨hnone, hfault, -⟩ := row_agrees_with_step lastPrint.step.2 hs2
  have hcause := hfault hle
  rw [hpc] at hcause
  exact ⟨hs, h, ⟨_, i, hrow, hi h, hrowi⟩, hnone.mpr hle, hcause⟩

end Session

end LS8
