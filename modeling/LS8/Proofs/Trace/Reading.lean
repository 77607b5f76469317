import LS8.Proofs.Listing.Assembly
import LS8.Trace.Text

/-! # Traces: reading

A trace that was written as text can be read again. A line is read by its words: the second is the
address, and the fourth tells what kind of event it is, `halted`, `fault:` or the first byte of an
instruction. Behind `fault:` the first word of the message names the fault, and what it is about
stands at a fixed place. Of an instruction three bytes and eight registers are read, each at its
place; the row at the end of the line is not needed.

* `Fault.ofWords_message`: a message gives the fault back.
* `TraceEvent.ofWords_text`, `TraceEvent.newline_notMem_text`: a line gives the event back, and it
  is one line.
* `readTrace_traceText`: a trace gives its events back, so no two traces are the same text. -/

namespace LS8

open LS8.Text LS8.Text.Numeral

/-! ### Words -/

/-- The words of a text. -/
def words (t : List Char) : List (List Char) := t.splitOn ' '

theorem words_append (s t : List Char) : words (s ++ ' ' :: t) = words s ++ words t :=
  List.splitOnP_append_cons s t (by decide)

theorem words_of_notMem {t : List Char} (h : ' ' ∉ t) : words t = [t] := List.splitOn_eq_singleton h

variable {front back s t w : List Char}

theorem words_append_of_eq (hs : s = front ++ [' ']) (t : List Char) :
    words (s ++ t) = words front ++ words t := by
  rw [hs, List.append_assoc, List.singleton_append, words_append]

theorem words_between (hs : s = front ++ [' ']) (hw : ' ' ∉ w) (ht : t = ' ' :: back) :
    words (s ++ w ++ t) = words front ++ w :: words back := by
  rw [List.append_assoc, words_append_of_eq hs, ht, words_append, words_of_notMem hw,
    List.singleton_append]

theorem words_bar (s t : List Char) :
    words (s ++ " | ".toList ++ t) = words s ++ "|".toList :: words t := by
  have hbar : words ("| ".toList ++ t) = words "|".toList ++ words t :=
    words_append_of_eq (by decide) t
  rw [List.append_assoc]
  change words (s ++ ' ' :: ("| ".toList ++ t)) = _
  rw [words_append, hbar]
  rfl

theorem notMem_of_isAlphanum {x : Char} (hx : x.isAlphanum = false)
    (h : ∀ c ∈ t, c.isAlphanum) : x ∉ t := by
  intro hmem
  have hx' := h x hmem
  rw [hx] at hx'
  cases hx'

theorem blank_notMem_of_isAlphanum (h : ∀ c ∈ t, c.isAlphanum) : ' ' ∉ t :=
  notMem_of_isAlphanum (by decide) h

theorem newline_notMem_of_isAlphanum (h : ∀ c ∈ t, c.isAlphanum) : '\n' ∉ t :=
  notMem_of_isAlphanum (by decide) h

/-- The numerals of bytes. -/
def numerals (bs : List UInt8) : List (List Char) := bs.map fun b => hexCapital 2 b.toNat

theorem words_byteNumerals {bs : List UInt8} (h : bs ≠ []) :
    words (byteNumerals bs) = numerals bs := by
  refine List.splitOn_intercalate ' ' (fun t ht => ?_) (by simpa using h)
  obtain ⟨b, -, rfl⟩ := List.mem_map.mp ht
  exact blank_notMem_of_isAlphanum fun c hc => isAlphanum_of_mem_hexCapital hc

/-! ### Faults -/

namespace Fault

theorem isAlphanum_of_mem_hexText {w n : ℕ} {c : Char} (h : c ∈ hexText w n) : c.isAlphanum := by
  have hfront : "0x".toList.all Char.isAlphanum := by decide
  rcases List.mem_append.mp h with h | h
  · exact List.all_eq_true.mp hfront c h
  · exact isAlphanum_of_mem_hexSmall h

theorem blank_notMem_hexText (w n : ℕ) : ' ' ∉ hexText w n :=
  blank_notMem_of_isAlphanum fun _ h => isAlphanum_of_mem_hexText h

/-- The number behind `0x`. -/
def hexNumber (word : List Char) : ℕ := number 16 (word.drop 2)

theorem hexNumber_hexText (w n : ℕ) : hexNumber (hexText w n) = n := number_hexSmall w n

/-- The fault that the words of a message report. -/
def ofWords (ws : List (List Char)) : Fault :=
  let word (k : ℕ) := ws.getD k []
  if word 0 = "memory".toList then .addressOutOfRange (UInt16.ofNat (hexNumber (word 2)))
  else if word 0 = "register".toList then
    .registerOutOfRange (UInt8.ofNat (number 10 (word 2)))
  else if word 0 = "unknown".toList then
    .unknownOpcode (UInt8.ofNat (hexNumber (word 2))) (UInt16.ofNat (hexNumber (word 5)))
  else if word 0 = "division".toList then .divisionByZero
  else if word 0 = "unsupported".toList then
    .unsupportedAluOperation (UInt8.ofNat (hexNumber (word 3)))
  else .outputFailed

theorem ofWords_message (c : Fault) : ofWords (words c.message) = c := by
  cases c with
  | addressOutOfRange address =>
    have hwords : words (addressOutOfRange address).message =
        words "memory address".toList ++ hexText 4 address.toNat ::
          words "is outside the 256-byte address space".toList :=
      words_between (by decide) (blank_notMem_hexText _ _) (by decide)
    rw [hwords]
    change addressOutOfRange (UInt16.ofNat (hexNumber (hexText 4 address.toNat))) = _
    rw [hexNumber_hexText, UInt16.ofNat_toNat]
  | registerOutOfRange index =>
    have hblank : ' ' ∉ decimal index.toNat :=
      blank_notMem_of_isAlphanum fun _ h => isAlphanum_of_mem_decimal h
    have hwords : words (registerOutOfRange index).message =
        words "register index".toList ++ decimal index.toNat ::
          words "is outside R0..R7".toList :=
      words_between (by decide) hblank (by decide)
    rw [hwords]
    change registerOutOfRange (UInt8.ofNat (number 10 (decimal index.toNat))) = _
    rw [number_decimal, UInt8.ofNat_toNat]
  | unknownOpcode opcode pc =>
    have hmessage : (unknownOpcode opcode pc).message = "unknown opcode ".toList ++
        hexText 2 opcode.toNat ++ (" at pc ".toList ++ hexText 2 pc.toNat) :=
      List.append_assoc _ _ _
    have hback : words ("at pc ".toList ++ hexText 2 pc.toNat) =
        words "at pc".toList ++ [hexText 2 pc.toNat] := by
      rw [← words_of_notMem (blank_notMem_hexText 2 pc.toNat)]
      exact words_append_of_eq (by decide) _
    have hwords : words (unknownOpcode opcode pc).message =
        words "unknown opcode".toList ++ hexText 2 opcode.toNat ::
          (words "at pc".toList ++ [hexText 2 pc.toNat]) := by
      rw [hmessage, ← hback]
      exact words_between (by decide) (blank_notMem_hexText _ _) rfl
    rw [hwords]
    change unknownOpcode (UInt8.ofNat (hexNumber (hexText 2 opcode.toNat)))
      (UInt16.ofNat (hexNumber (hexText 2 pc.toNat))) = _
    rw [hexNumber_hexText, hexNumber_hexText, UInt8.ofNat_toNat, UInt16.ofNat_toNat]
  | divisionByZero => decide
  | unsupportedAluOperation code =>
    have hwords : words (unsupportedAluOperation code).message =
        words "unsupported ALU operation".toList ++ [hexText 2 code.toNat] := by
      rw [← words_of_notMem (blank_notMem_hexText 2 code.toNat)]
      exact words_append_of_eq (by decide) _
    rw [hwords]
    change unsupportedAluOperation (UInt8.ofNat (hexNumber (hexText 2 code.toNat))) = _
    rw [hexNumber_hexText, UInt8.ofNat_toNat]
  | outputFailed => decide

theorem newline_notMem_message (c : Fault) : '\n' ∉ c.message := by
  have hhex (w n : ℕ) : '\n' ∉ hexText w n :=
    newline_notMem_of_isAlphanum fun _ h => isAlphanum_of_mem_hexText h
  cases c with
  | addressOutOfRange address =>
    exact List.not_mem_append (List.not_mem_append (by decide) (hhex _ _)) (by decide)
  | registerOutOfRange index =>
    have hdecimal : '\n' ∉ decimal index.toNat :=
      newline_notMem_of_isAlphanum fun _ h => isAlphanum_of_mem_decimal h
    exact List.not_mem_append (List.not_mem_append (by decide) hdecimal) (by decide)
  | unknownOpcode opcode pc =>
    exact List.not_mem_append (List.not_mem_append (List.not_mem_append (by decide) (hhex _ _))
      (by decide)) (hhex _ _)
  | divisionByZero => decide
  | unsupportedAluOperation code => exact List.not_mem_append (by decide) (hhex _ _)
  | outputFailed => decide

end Fault

/-! ### Events -/

namespace TraceEvent

/-- The byte that a hexadecimal numeral stands for. -/
def hexByte (word : List Char) : UInt8 := UInt8.ofNat (number 16 word)

theorem hexByte_hexCapital (w : ℕ) (b : UInt8) : hexByte (hexCapital w b.toNat) = b := by
  rw [hexByte, number_hexCapital, UInt8.ofNat_toNat]

/-- The bytes that the first words of a list stand for. -/
def readBytes (n : ℕ) (ws : List (List Char)) : Vector UInt8 n :=
  Vector.ofFn fun i => hexByte (ws.getD i [])

theorem readBytes_append {n : ℕ} (v : Vector UInt8 n) (back : List (List Char)) :
    readBytes n (numerals v.toList ++ back) = v := by
  refine Vector.ext fun i hi => ?_
  have hword : (numerals v.toList ++ back).getD i [] = hexCapital 2 v[i].toNat := by
    simp [numerals, List.getElem?_append, hi]
  rw [readBytes, Vector.getElem_ofFn, hword, hexByte_hexCapital]

/-- The event that the words of a line report. -/
def ofWords (ws : List (List Char)) : TraceEvent :=
  let word (k : ℕ) := ws.getD k []
  let pc := UInt16.ofNat (number 16 (word 1))
  if word 3 = "halted".toList then .halted pc
  else if word 3 = "fault:".toList then .faulted (Fault.ofWords (ws.drop 4)) pc
  else .start pc (readBytes 3 (ws.drop 3)) ⟨readBytes 8 (ws.drop 7)⟩

theorem ofWords_of_ne {ws : List (List Char)} (hhalted : ws.getD 3 [] ≠ "halted".toList)
    (hfault : ws.getD 3 [] ≠ "fault:".toList) :
    ofWords ws = .start (UInt16.ofNat (number 16 (ws.getD 1 []))) (readBytes 3 (ws.drop 3))
      ⟨readBytes 8 (ws.drop 7)⟩ := by
  rw [ofWords]
  exact (if_neg hhalted).trans (if_neg hfault)

/-- A word that does not stand for a byte is not the first numeral. -/
theorem getD_numerals_ne {n : ℕ} (v : Vector UInt8 (n + 1)) (back : List (List Char))
    {word : List Char} (h : 256 ≤ number 16 word) :
    (numerals v.toList ++ back).getD 0 [] ≠ word := by
  obtain ⟨b, bs, hb⟩ := List.exists_cons_of_length_eq_add_one v.length_toList
  rw [hb]
  rintro rfl
  have hnumber : number 16 (hexCapital 2 b.toNat) = b.toNat := number_hexCapital 2 b.toNat
  exact absurd (hnumber ▸ h) (Nat.not_le.mpr b.toNat_lt)

/-- **The words of an instruction give its event back.** -/
theorem ofWords_start (tag bar : List Char) (pc : UInt16) (bytes : Vector UInt8 3)
    (registers : RegisterFile) (row : List (List Char)) :
    ofWords ([tag, hexCapital 2 pc.toNat, bar] ++ (numerals bytes.toList ++ [bar] ++
      (numerals registers.toList ++ row))) = start pc bytes registers := by
  have hpc : UInt16.ofNat (number 16 (hexCapital 2 pc.toNat)) = pc := by
    rw [number_hexCapital, UInt16.ofNat_toNat]
  have hbytes := readBytes_append bytes ([bar] ++ (numerals registers.toList ++ row))
  have hregisters : readBytes 8 (numerals registers.toList ++ row) = registers.values :=
    readBytes_append registers.values row
  have hseven : ([tag, hexCapital 2 pc.toNat, bar] ++ (numerals bytes.toList ++ [bar])).length =
      7 := by
    simp [numerals]
  have hdrop : ∀ back, ([tag, hexCapital 2 pc.toNat, bar] ++ (numerals bytes.toList ++ [bar]) ++
      back).drop 7 = back := fun back => List.drop_left' hseven
  rw [List.append_assoc (numerals bytes.toList)]
  -- the fourth word is a byte, and neither `halted` nor `fault:` stands for a number that small
  rw [ofWords_of_ne (getD_numerals_ne bytes _ (by decide)) (getD_numerals_ne bytes _ (by decide))]
  refine congr (congrArg₂ start hpc hbytes) (congrArg RegisterFile.mk ?_)
  rw [← List.append_assoc (numerals bytes.toList), ← List.append_assoc, hdrop, hregisters]

theorem words_text (e : TraceEvent) :
    words e.text = ["TRACE:".toList, hexCapital 2 e.pc.toNat, "|".toList] ++
      words e.description := by
  have hblank : ' ' ∉ hexCapital 2 e.pc.toNat :=
    blank_notMem_of_isAlphanum fun _ hc => isAlphanum_of_mem_hexCapital hc
  have hfront : words ("TRACE: ".toList ++ hexCapital 2 e.pc.toNat) =
      words "TRACE:".toList ++ words (hexCapital 2 e.pc.toNat) :=
    words_append_of_eq (by decide) _
  have hbar : words e.text = words ("TRACE: ".toList ++ hexCapital 2 e.pc.toNat) ++
      "|".toList :: words e.description := words_bar _ _
  rw [hbar, hfront, words_of_notMem hblank]
  rfl

theorem exists_words_description_start (pc : UInt16) (bytes : Vector UInt8 3)
    (registers : RegisterFile) :
    ∃ row, words (start pc bytes registers).description =
      numerals bytes.toList ++ ["|".toList] ++
        (numerals registers.toList ++ "|".toList :: row) := by
  have hbytes : bytes.toList ≠ [] := List.ne_nil_of_length_eq_add_one bytes.length_toList
  have hregisters : registers.toList ≠ [] :=
    List.ne_nil_of_length_eq_add_one registers.length_toList
  have hfront := words_bar (byteNumerals bytes.toList) (byteNumerals registers.toList)
  have hrow : words (start pc bytes registers).description = _ := words_bar _ _
  rw [words_byteNumerals hbytes, words_byteNumerals hregisters] at hfront
  rw [hrow, hfront]
  refine ⟨words ((Option.map Row.text (Row.ofBytes? 0 bytes.toList)).getD []), ?_⟩
  rw [List.append_assoc, List.append_assoc]
  rfl

/-- **The words of a line give the event back.** -/
theorem ofWords_text (e : TraceEvent) : ofWords (words e.text) = e := by
  rw [words_text]
  have hpc : UInt16.ofNat (number 16 (hexCapital 2 e.pc.toNat)) = e.pc := by
    rw [number_hexCapital, UInt16.ofNat_toNat]
  cases e with
  | halted pc => exact congrArg halted hpc
  | faulted cause pc =>
    have hwords : words (faulted cause pc).description =
        words "fault:".toList ++ words cause.message := words_append_of_eq (by decide) _
    rw [hwords]
    exact congrArg₂ faulted cause.ofWords_message hpc
  | start pc bytes registers =>
    obtain ⟨row, hwords⟩ := exists_words_description_start pc bytes registers
    rw [hwords]
    exact ofWords_start _ _ pc bytes registers _

theorem newline_notMem_byteNumerals (bs : List UInt8) : '\n' ∉ byteNumerals bs := by
  intro h
  rcases mem_of_mem_intercalate h with h | ⟨part, hpart, h⟩
  · exact absurd h (by decide)
  · obtain ⟨b, -, rfl⟩ := List.mem_map.mp hpart
    exact newline_notMem_of_isAlphanum (fun _ hc => isAlphanum_of_mem_hexCapital hc) h

theorem newline_notMem_text (e : TraceEvent) : '\n' ∉ e.text := by
  have hbar : '\n' ∉ " | ".toList := by decide
  have hpc : '\n' ∉ hexCapital 2 e.pc.toNat :=
    newline_notMem_of_isAlphanum fun _ h => isAlphanum_of_mem_hexCapital h
  have hdescription : '\n' ∉ e.description := by
    cases e with
    | halted pc => exact (by decide : '\n' ∉ "halted".toList)
    | faulted cause pc => exact List.not_mem_append (by decide) cause.newline_notMem_message
    | start pc bytes registers =>
      have hrow : '\n' ∉ ((Row.ofBytes? 0 bytes.toList).map Row.text).getD [] := by
        cases Row.ofBytes? 0 bytes.toList with
        | none => exact List.not_mem_nil
        | some r => exact fun h => absurd (r.isAlphanum_or_mem_of_mem_text h) (by decide)
      have hbytes := newline_notMem_byteNumerals bytes.toList
      have hregisters := newline_notMem_byteNumerals registers.toList
      exact List.not_mem_append (List.not_mem_append (List.not_mem_append
        (List.not_mem_append hbytes hbar) hregisters) hbar) hrow
  exact List.not_mem_append (List.not_mem_append (List.not_mem_append (by decide) hpc) hbar)
    hdescription

end TraceEvent

/-! ### Traces -/

/-- The text of a trace: a line for every event. -/
def traceText (es : List TraceEvent) : List Char := es.flatMap fun e => e.text ++ ['\n']

/-- The events that the lines of a text report. -/
def readTrace (t : List Char) : List TraceEvent :=
  (t.splitOn '\n').dropLast.map fun line => TraceEvent.ofWords (words line)

theorem splitOn_traceText (es : List TraceEvent) :
    (traceText es).splitOn '\n' = es.map TraceEvent.text ++ [[]] := by
  induction es with
  | nil => rfl
  | cons e es ih =>
    have hline : e.text.splitOn '\n' = [e.text] :=
      List.splitOn_eq_singleton e.newline_notMem_text
    have htext : traceText (e :: es) = e.text ++ '\n' :: traceText es := by
      rw [traceText, List.flatMap_cons, List.append_assoc]
      rfl
    have hsplit : (traceText (e :: es)).splitOn '\n' =
        e.text.splitOn '\n' ++ (traceText es).splitOn '\n' := by
      rw [htext]
      exact List.splitOnP_append_cons _ _ (by decide)
    rw [hsplit, hline, ih]
    rfl

theorem leftInverse_readTrace : Function.LeftInverse readTrace traceText := by
  intro es
  rw [readTrace, splitOn_traceText, List.dropLast_concat, List.map_map]
  exact (List.map_congr_left fun e _ => e.ofWords_text).trans (List.map_id es)

/-! ### Traces written as text -/

namespace Writer

theorem append_append (written : Array UInt8) (bs cs : List UInt8) :
    written ++ (bs ++ cs) = written ++ bs ++ cs :=
  Array.ext' (by simp)

theorem write_nil (w : Writer) : w.write [] = (true, w) := by
  obtain ⟨written, room, recovers, flushFails⟩ := w
  cases room with
  | none => rfl
  | some room => rfl

/-- **Two pieces one after the other**, the second if the first is taken whole, are written as one
piece would be. -/
theorem write_append (w : Writer) (bs cs : List UInt8) :
    w.write (bs ++ cs) = if (w.write bs).1 then (w.write bs).2.write cs else w.write bs := by
  cases hroom : w.room with
  | none =>
    have hnext : { w with written := w.written ++ bs }.room = none := hroom
    rw [write_of_unlimited hroom, write_of_unlimited hroom, if_pos rfl,
      write_of_unlimited hnext, append_append]
  | some room =>
    by_cases hbs : bs.length ≤ room
    · by_cases hcs : bs.length + cs.length ≤ room
      · have hrest : cs.length ≤ room - bs.length := by omega
        simp [write, hroom, hbs, hcs, hrest, append_append, Nat.sub_sub]
      · have hrest : ¬ cs.length ≤ room - bs.length := by omega
        simp [write, hroom, hbs, hcs, hrest, append_append, List.take_append,
          List.take_of_length_le hbs]
    · have hall : ¬ bs.length + cs.length ≤ room := by omega
      have htake : (bs ++ cs).take room = bs.take room := List.take_append_of_le_length (by omega)
      simp [write, hroom, hbs, hall, htake]

end Writer

namespace TextTrace

variable {t : TextTrace}

theorem foldl_record_of_failed (h : t.failed = true) (es : List TraceEvent) :
    es.foldl TraceSink.record t = t := by
  induction es with
  | nil => rfl
  | cons e es ih =>
    have hrecord : TraceSink.record t e = t := if_pos h
    rw [List.foldl_cons, hrecord, ih]

theorem record_of_not_failed (h : t.failed = false) (e : TraceEvent) :
    TraceSink.record t e =
      { writer := (t.writer.write (Utf8.encode (e.text ++ ['\n']))).2
        failed := !(t.writer.write (Utf8.encode (e.text ++ ['\n']))).1 } := by
  change TextTrace.record t e = _
  rw [TextTrace.record, h]
  rfl

/-- **A trace is written as one piece**, as far as it fits. -/
theorem foldl_record (h : t.failed = false) (es : List TraceEvent) :
    es.foldl TraceSink.record t =
      { writer := (t.writer.write (Utf8.encode (traceText es))).2
        failed := !(t.writer.write (Utf8.encode (traceText es))).1 } := by
  induction es generalizing t with
  | nil =>
    have hnil : t.writer.write (Utf8.encode (traceText [])) = (true, t.writer) :=
      Writer.write_nil t.writer
    rw [hnil, List.foldl_nil, Bool.not_true, ← h]
  | cons e es ih =>
    have htext : Utf8.encode (traceText (e :: es)) =
        Utf8.encode (e.text ++ ['\n']) ++ Utf8.encode (traceText es) := by
      rw [← Utf8.encode_append]
      rfl
    rw [List.foldl_cons, htext, Writer.write_append, record_of_not_failed h]
    cases hline : (t.writer.write (Utf8.encode (e.text ++ ['\n']))).1 with
    | true => rw [ih rfl, if_pos rfl]
    | false => rw [foldl_record_of_failed rfl, if_neg Bool.false_ne_true, hline]

/-- Every line has fitted, and so will any other. -/
structure Unlimited (t : TextTrace) : Prop where
  failed : t.failed = false
  room : t.writer.room = none

theorem unlimited_empty : Unlimited { writer := {} } := ⟨rfl, rfl⟩

theorem Unlimited.bytes_foldl_record (h : t.Unlimited) (es : List TraceEvent) :
    (es.foldl TraceSink.record t).writer.bytes =
      t.writer.bytes ++ Utf8.encode (traceText es) := by
  rw [foldl_record h.failed, Writer.write_of_unlimited h.room]
  simp [Writer.bytes]

end TextTrace

/-- **Traces can be read.** From the text of a trace its events are read back, so no two traces have
the same text and no two events the same line; every event is one line. The bytes that a text trace
writes are the text of its events and are read back likewise. -/
theorem readTrace_traceText :
    Function.LeftInverse readTrace traceText ∧ Function.Injective traceText ∧
      Function.Injective TraceEvent.text ∧ (∀ e : TraceEvent, '\n' ∉ e.text) ∧
      ∀ es : List TraceEvent,
        let bytes := (es.foldl TraceSink.record ({ writer := {} } : TextTrace)).writer.bytes
        Utf8.decode? bytes = some (traceText es) ∧
          (Utf8.decode? bytes).map readTrace = some es := by
  refine ⟨leftInverse_readTrace, leftInverse_readTrace.injective, fun e e' h => ?_,
    TraceEvent.newline_notMem_text, fun es => ?_⟩
  · rw [← e.ofWords_text, h, e'.ofWords_text]
  · have hbytes := TextTrace.unlimited_empty.bytes_foldl_record es
    have hdecode : Utf8.decode? _ = some (traceText es) := Utf8.decode?_encode (traceText es)
    intro bytes
    rw [show bytes = Utf8.encode (traceText es) from hbytes, hdecode]
    exact ⟨rfl, congrArg some (leftInverse_readTrace es)⟩

example : readTrace
    "TRACE: 03 | 99 00 00 | 08 00 00 00 00 00 00 F4 | .byte 0x99\nTRACE: 100 | halted\n".toList =
    [.start 3 #v[0x99, 0, 0] ⟨#v[8, 0, 0, 0, 0, 0, 0, 0xF4]⟩, .halted 256] := by
  decide +kernel

end LS8
