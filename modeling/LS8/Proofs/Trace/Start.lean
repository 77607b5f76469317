import LS8.Proofs.Listing.Assembly
import LS8.Proofs.Listing.Execution
import LS8.Proofs.Session.Events
import LS8.Trace.Text
import Mathlib.Data.List.DropRight

/-! # Traces: the event before a step

The event before a step shows three bytes, and its line ends with the instruction that these bytes
begin with. Both come from a window on memory that is wider than memory in two ways: addresses count
on from 65535 to 0, and beyond the last cell there are zeros.

* `Memory.getElem_window`: which cells the window shows. It shows what stands at the three addresses
  unless they run over 65535 and come back to cells that are not zero (`heard_bytes`).
* `lastField_text_startEvent`: the line ends with what a listing would show if two zeros stood
  behind memory. A listing of memory shows the same unless memory ends within the instruction: there
  it has a `.byte` row, and the line has the instruction with zeros for what is missing
  (`heard_text`). -/

namespace LS8

open LS8.Text.Numeral

/-! ### Bytes -/

namespace Memory

/-- The byte in cell `n`, and zero if there is no such cell. -/
def byteAt (m : Memory) (n : ℕ) : UInt8 := if h : n < 256 then m.cells[n] else 0

theorem getD_peek (m : Memory) (address : UInt16) :
    (m.peek address).getD 0 = m.byteAt address.toNat := by
  unfold peek byteAt
  split
  · next h => simp [h]
  · next h => simp [Nat.le_of_not_lt h]

theorem getElem?_append_zeros (m : Memory) {n : ℕ} (h : n < 258) :
    (m.toList ++ [0, 0])[n]? = some (m.byteAt n) := by
  unfold byteAt
  split
  · next hn => simp [List.getElem?_append, hn, toList]
  · next hn =>
    obtain rfl | rfl : n = 256 ∨ n = 257 := by omega
    · simp
    · simp

/-- **The window shows three cells**, and cell 0 comes after address 65535. -/
theorem getElem_window (m : Memory) (address : UInt16) (i : Fin 3) :
    (m.window address)[i] = m.byteAt ((address.toNat + i) % 65536) := by
  have hlt := address.toNat_lt
  match i with
  | 0 =>
    change (m.peek address).getD 0 = _
    rw [getD_peek, Fin.val_zero, Nat.add_zero, Nat.mod_eq_of_lt hlt]
  | 1 =>
    change (m.peek (address + 1)).getD 0 = _
    rw [getD_peek, UInt16.toNat_add]
    rfl
  | 2 =>
    change (m.peek (address + 2)).getD 0 = _
    rw [getD_peek, UInt16.toNat_add]
    rfl

theorem getElem_window_of_lt (m : Memory) {address : UInt16} {i : Fin 3}
    (h : address.toNat + i < 65536) : (m.window address)[i] = m.byteAt (address.toNat + i) := by
  rw [getElem_window, Nat.mod_eq_of_lt h]

theorem getElem_window_eq_byteAt_iff (m : Memory) (address : UInt16) (i : Fin 3) :
    (m.window address)[i] = m.byteAt (address.toNat + i) ↔
      (65536 ≤ address.toNat + i → m.byteAt (address.toNat + i - 65536) = 0) := by
  have hlt := address.toNat_lt
  rcases Nat.lt_or_ge (address.toNat + i) 65536 with h | h
  · exact iff_of_true (m.getElem_window_of_lt h) fun hle => absurd h (Nat.not_lt.mpr hle)
  · have hmod : (address.toNat + i) % 65536 = address.toNat + i - 65536 := by omega
    have hzero : m.byteAt (address.toNat + i) = 0 := dif_neg (by omega)
    rw [getElem_window, hmod, hzero]
    exact ⟨fun hbyte _ => hbyte, fun hbyte => hbyte h⟩

/-- In memory the window is the next three bytes, with two zeros behind the last cell. -/
theorem toList_window (m : Memory) {address : UInt16} (h : address.toNat < 256) :
    (m.window address).toList = ((m.toList ++ [0, 0]).drop address.toNat).take 3 := by
  refine List.ext_getElem? fun i => ?_
  rcases Nat.lt_or_ge i 3 with hi | hi
  · have hwindow : (m.window address)[(⟨i, hi⟩ : Fin 3)] = m.byteAt (address.toNat + i) :=
      m.getElem_window_of_lt (Nat.lt_trans (Nat.add_lt_add h hi) (by decide))
    rw [List.getElem?_take_of_lt hi, List.getElem?_drop,
      m.getElem?_append_zeros (Nat.add_lt_add_of_lt_of_le h (Nat.le_of_lt_succ hi)), ← hwindow]
    simp [hi]
  · rw [List.getElem?_eq_none (by simpa using hi), List.getElem?_eq_none]
    exact Nat.le_trans (List.length_take_le _ _) hi

end Memory

namespace Session

variable {σ τ : Type} [TraceSink τ] [OutputPort σ]

theorem heard_of_running {s : Session σ τ} (hs : s.machine.runState = .running) :
    ∃ ends, Call.step.heard s = s.machine.startEvent :: ends :=
  ⟨endEvents s.machine.pc s.step.1, (Call.heard_step s).trans (events_of_running hs)⟩

/-- **The bytes that a step is reported with.** They are those of three cells, where cell 0 comes
after address 65535. So they are what stands at the three addresses, with zeros beyond memory, for
any program counter up to 65533, and after that unless a cell shown instead holds no zero. -/
theorem heard_bytes (s : Session σ τ) (hs : s.machine.runState = .running) :
    ∃ (bytes : Vector UInt8 3) (ends : List TraceEvent),
      Call.step.heard s = .start s.machine.pc bytes s.machine.registers :: ends ∧
      (∀ i : Fin 3, bytes[i] = s.machine.memory.byteAt ((s.machine.pc.toNat + i) % 65536)) ∧
      (s.machine.pc.toNat ≤ 65533 →
        ∀ i : Fin 3, bytes[i] = s.machine.memory.byteAt (s.machine.pc.toNat + i)) ∧
      ((∀ i : Fin 3, bytes[i] = s.machine.memory.byteAt (s.machine.pc.toNat + i)) ↔
        ∀ i : Fin 3, 65536 ≤ s.machine.pc.toNat + i →
          s.machine.memory.byteAt (s.machine.pc.toNat + i - 65536) = 0) := by
  obtain ⟨ends, hends⟩ := heard_of_running hs
  refine ⟨_, ends, hends, s.machine.memory.getElem_window s.machine.pc, fun hpc i => ?_,
    forall_congr' (s.machine.memory.getElem_window_eq_byteAt_iff s.machine.pc)⟩
  exact s.machine.memory.getElem_window_of_lt (by omega)

/-- A session at an LDI in the last cell of memory. -/
def lastLoad : Session Writer NoTrace where
  machine := { Machine.new with memory := Memory.zero.set 255 0x82, pc := 255 }
  port := {}
  sink := {}

/-- One byte of memory, and two zeros beyond it. -/
theorem heard_bytes_lastLoad :
    lastLoad.machine.runState = .running ∧
      ∃ (bytes : Vector UInt8 3) (ends : List TraceEvent),
        Call.step.heard lastLoad = .start 255 bytes lastLoad.machine.registers :: ends ∧
        bytes[0] = 0x82 ∧ bytes[1] = 0 ∧ bytes[2] = 0 := by
  have hs : lastLoad.machine.runState = .running := rfl
  obtain ⟨bytes, ends, hheard, -, hbytes, -⟩ := heard_bytes lastLoad hs
  have hbyte := hbytes (by decide)
  exact ⟨hs, bytes, ends, hheard, (hbyte 0).trans (by decide +kernel),
    (hbyte 1).trans (by decide +kernel), (hbyte 2).trans (by decide +kernel)⟩

/-- A session at the last address of all, with a HLT in cell 0. -/
def lastAddress : Session Writer NoTrace where
  machine := { Machine.new with memory := Memory.zero.set 0 0x01, pc := 65535 }
  port := {}
  sink := {}

/-- **At the last address the bytes are not those behind it**: there is no cell 65536, and the HLT
of cell 0 is shown in its place. -/
theorem heard_bytes_lastAddress :
    lastAddress.machine.runState = .running ∧
      Call.step.heard lastAddress =
        [.start 65535 #v[0, 0x01, 0] lastAddress.machine.registers,
          .faulted (.addressOutOfRange 65535) 65535] ∧
      lastAddress.machine.memory.byteAt (65535 + 1) = 0 := by
  decide +kernel

end Session

/-! ### The end of the line -/

/-- What follows the last bar of a line and the blank behind the bar. -/
def lastField (line : List Char) : List Char := (line.rtakeWhile (· ≠ '|')).drop 1

theorem lastField_append (front : List Char) {field : List Char} (h : '|' ∉ field) :
    lastField (front ++ " | ".toList ++ field) = field := by
  have hbar : ∀ c ∈ field.reverse, decide (c ≠ '|') = true := fun c hc =>
    decide_eq_true (ne_of_mem_of_not_mem (List.mem_reverse.mp hc) h)
  have hreverse : (front ++ " | ".toList ++ field).reverse =
      field.reverse ++ ' ' :: '|' :: ' ' :: front.reverse := by
    simp
  rw [lastField, List.rtakeWhile, hreverse, List.takeWhile_append_of_pos hbar]
  simp

theorem Row.bar_notMem_text (r : Row) : '|' ∉ r.text := fun h =>
  absurd (r.isAlphanum_or_mem_of_mem_text h) (by decide)

/-- **The line of a step ends as a listing would show memory with two zeros behind it.** -/
theorem lastField_text_startEvent {m : Machine} (hpc : m.pc.toNat < 256) {shown : Row}
    (h : Row.at? (m.memory.toList ++ [0, 0]) m.pc = some shown) :
    lastField m.startEvent.text = shown.text := by
  have hwindow : Row.ofBytes? 0 (m.memory.window m.pc).toList =
      some { shown with address := 0 } := by
    rw [m.memory.toList_window hpc]
    exact Row.ofBytes?_of_reads ((Row.reads_of_ofBytes? h).take.at 0)
  have hline : m.startEvent.text =
      "TRACE: ".toList ++ hexCapital 2 m.pc.toNat ++ " | ".toList ++
        (byteNumerals (m.memory.window m.pc).toList ++ " | ".toList ++
          byteNumerals m.registers.toList ++ " | ".toList ++
          ((Row.ofBytes? 0 (m.memory.window m.pc).toList).map Row.text).getD []) := rfl
  -- the two bars before the row are brought together with what is before them
  rw [hline, hwindow, Option.map_some, Option.getD_some, ← List.append_assoc, ← List.append_assoc]
  exact lastField_append _ shown.bar_notMem_text

/-! ### Instructions at the end of memory -/

/-- An instruction begins at `pc` and memory ends within it. -/
def Memory.CutOff (m : Memory) (pc : UInt16) : Prop :=
  ∃ b o, m.toList[pc.toNat]? = some b ∧ Opcode.ofByte? b = some o ∧ 256 < pc.toNat + o.length

theorem Memory.cutOff_iff {m : Memory} {pc : UInt16} {o : Opcode}
    (h : m.toList[pc.toNat]? = some o.byte) : m.CutOff pc ↔ 256 < pc.toNat + o.length := by
  constructor
  · rintro ⟨b, o', hb, ho, hcut⟩
    obtain rfl := Option.some.inj (h.symm.trans hb)
    rw [Opcode.ofByte?_byte] at ho
    rwa [Option.some.inj ho]
  · exact fun hcut => ⟨o.byte, o, h, Opcode.ofByte?_byte o, hcut⟩

theorem Memory.not_cutOff_of_unknown {m : Memory} {pc : UInt16} {b : UInt8}
    (h : m.toList[pc.toNat]? = some b) (hb : Opcode.ofByte? b = none) : ¬ m.CutOff pc := by
  rintro ⟨b', o, hb', ho, -⟩
  obtain rfl := Option.some.inj (h.symm.trans hb')
  rw [hb] at ho
  cases ho

/-- **Two zeros behind memory matter only where it ends within an instruction.** There they make an
instruction of a `.byte` row. -/
theorem Row.at?_append_zeros {m : Memory} {pc : UInt16} {row : Row}
    (h : at? m.toList pc = some row) :
    at? (m.toList ++ [0, 0]) pc = some row ∧ ¬ m.CutOff pc ∨
      ∃ o shown, at? (m.toList ++ [0, 0]) pc = some shown ∧ m.CutOff pc ∧
        row = .data pc o.byte ∧ shown.opcode = some o ∧
        row.bytes.length < shown.bytes.length := by
  have hpc : pc.toNat < 256 := by
    by_contra hle
    rw [at?_eq_none_iff.mpr (Nat.le_of_not_lt hle)] at h
    cases h
  have hdrop : (m.toList ++ [0, 0]).drop pc.toNat = m.toList.drop pc.toNat ++ [0, 0] :=
    List.drop_append_of_le_length (by rw [Memory.length_toList]; exact Nat.le_of_lt hpc)
  have hreads := reads_of_ofBytes? h
  simp only [at?, hdrop]
  generalize hbytes : m.toList.drop pc.toNat = bytes at hreads ⊢
  cases hreads with
  | @unknown b rest hb =>
    obtain ⟨hcell, -, -⟩ := cells_of_drop hbytes.symm
    exact .inl ⟨ofBytes?_of_reads (.unknown (rest ++ [0, 0]) hb),
      Memory.not_cutOff_of_unknown hcell hb⟩
  | @whole o operands rest hlen =>
    obtain ⟨hcell, hend, -⟩ := cells_of_drop hbytes.symm
    refine .inl ⟨?_, ?_⟩
    · rw [List.cons_append, List.append_assoc]
      exact ofBytes?_of_reads (.whole (rest ++ [0, 0]) hlen)
    · rw [Memory.cutOff_iff hcell, Opcode.length]
      rw [List.length_append] at hend
      omega
  | @cut o rest hlen =>
    -- memory ends here, and with the two zeros there are operands enough
    obtain ⟨hcell, hend, -⟩ := cells_of_drop hbytes.symm
    have hle := o.operandCount_le_two
    have hoperands : ((rest ++ [0, 0]).take o.operandCount).length = o.operandCount := by
      rw [List.length_take_of_le]
      rw [List.length_append, List.length_cons, List.length_singleton]
      omega
    have hread : Reads pc (o.byte :: ((rest ++ [0, 0]).take o.operandCount ++
        (rest ++ [0, 0]).drop o.operandCount)) _ := .whole _ hoperands
    rw [List.take_append_drop] at hread
    refine .inr ⟨o, _, ofBytes?_of_reads hread, (Memory.cutOff_iff hcell).mpr ?_, rfl, rfl, ?_⟩
    · unfold Opcode.length
      omega
    · change 1 < ((rest ++ [0, 0]).take o.operandCount).length + 1
      omega

namespace Session

variable {σ τ : Type} [TraceSink τ] [OutputPort σ]

/-- **The instruction that a step is reported with.** The line of the event before a step ends with
the instruction that a listing would show if two zeros stood behind memory. A listing of memory
shows the same unless memory ends within the instruction; then it has a `.byte` row there, and the
texts differ. -/
theorem heard_text (s : Session σ τ) (hs : s.machine.runState = .running)
    (hpc : s.machine.pc.toNat < 256) :
    ∃ (row shown : Row) (ends : List TraceEvent),
      Call.step.heard s = s.machine.startEvent :: ends ∧
      Row.at? s.machine.memory.toList s.machine.pc = some row ∧
      Row.at? (s.machine.memory.toList ++ [0, 0]) s.machine.pc = some shown ∧
      lastField s.machine.startEvent.text = shown.text ∧
      (lastField s.machine.startEvent.text = row.text ↔
        ¬ s.machine.memory.CutOff s.machine.pc) ∧
      (s.machine.memory.CutOff s.machine.pc → row.opcode = none ∧ shown.opcode ≠ none) := by
  obtain ⟨ends, hends⟩ := heard_of_running hs
  cases hrow : Row.at? s.machine.memory.toList s.machine.pc with
  | none => exact absurd hpc (Nat.not_lt.mpr (Row.at?_eq_none_iff.mp hrow))
  | some row =>
    rcases Row.at?_append_zeros hrow with ⟨hshown, hwhole⟩ |
      ⟨o, shown, hshown, hcut, hdata, ho, hlength⟩
    · have htext := lastField_text_startEvent hpc hshown
      exact ⟨row, row, ends, hends, rfl, hshown, htext, iff_of_true htext hwhole,
        fun hcut => absurd hcut hwhole⟩
    · have htext := lastField_text_startEvent hpc hshown
      have hne : shown.text ≠ row.text := by
        -- texts of rows are assembled into their bytes, and here one row has more of them
        intro heq
        have hbytes : row.bytes = shown.bytes := by
          rw [← Row.assemble_text_of_ofBytes? hrow, ← heq, Row.assemble_text_of_ofBytes? hshown]
        rw [hbytes] at hlength
        exact Nat.lt_irrefl _ hlength
      refine ⟨row, shown, ends, hends, rfl, hshown, htext, ?_, fun _ => ⟨by rw [hdata]; rfl, ?_⟩⟩
      · rw [htext]
        exact iff_of_false hne (not_not_intro hcut)
      · rw [ho]
        exact Option.some_ne_none o

/-- An instruction that ends with memory is named as a listing names it. -/
theorem heard_text_lastPrint :
    lastPrint.machine.runState = .running ∧ lastPrint.machine.pc.toNat < 256 ∧
      ¬ lastPrint.machine.memory.CutOff lastPrint.machine.pc ∧
      ∃ row, Row.at? lastPrint.machine.memory.toList lastPrint.machine.pc = some row ∧
        row.text = "PRN R3".toList ∧ lastField lastPrint.machine.startEvent.text = row.text := by
  have hs : lastPrint.machine.runState = .running := rfl
  have hpc : lastPrint.machine.pc.toNat < 256 := by decide
  have hwhole : ¬ lastPrint.machine.memory.CutOff lastPrint.machine.pc := by
    have hcell : lastPrint.machine.memory.toList[lastPrint.machine.pc.toNat]? =
        some Opcode.prn.byte := by decide +kernel
    rw [Memory.cutOff_iff hcell]
    decide
  have hprn : Row.at? lastPrint.machine.memory.toList lastPrint.machine.pc =
      some ((Instruction.prn 3).row 254) := by decide +kernel
  obtain ⟨row, -, -, -, hrow, -, -, htext, -⟩ := heard_text lastPrint hs hpc
  obtain rfl := Option.some.inj (hprn.symm.trans hrow)
  exact ⟨hs, hpc, hwhole, _, hrow, by decide +kernel, htext.mpr hwhole⟩

/-- **An instruction cut off by the end of memory is named though it is not there**: the line ends
as if the operands were zero, where a listing of memory shows a byte. -/
theorem heard_text_lastLoad :
    lastLoad.machine.runState = .running ∧ lastLoad.machine.pc.toNat < 256 ∧
      Call.step.heard lastLoad =
        [lastLoad.machine.startEvent, .faulted (.addressOutOfRange 256) 255] ∧
      lastField lastLoad.machine.startEvent.text = "LDI R0,0".toList ∧
      (Row.at? lastLoad.machine.memory.toList lastLoad.machine.pc).map Row.text =
        some ".byte 0x82".toList := by
  decide +kernel

end Session

end LS8
