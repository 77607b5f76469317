import LS8.Listing
import LS8.Trace.Event
import LS8.Writer

/-! # Traces: text

A trace can be read as text, one line to an event. The line of an instruction shows the address, the
three bytes, the eight registers and the instruction as a listing would show it. A text trace stops
at the first line that its writer does not take whole, and remembers that it did. -/

namespace LS8

open LS8.Text.Numeral

/-! ### Events as text -/

namespace TraceEvent

/-- The address that an event is about. -/
def pc : TraceEvent → UInt16
  | start pc _ _ => pc
  | halted pc => pc
  | faulted _ pc => pc

/-- What an event says about its address. -/
def description : TraceEvent → List Char
  | start _ bytes registers =>
    byteNumerals bytes.toList ++ " | ".toList ++ byteNumerals registers.toList ++ " | ".toList ++
      ((Row.ofBytes? 0 bytes.toList).map Row.text).getD []
  | halted _ => "halted".toList
  | faulted cause _ => "fault: ".toList ++ cause.message

/-- The line of an event, without its newline. -/
def text (e : TraceEvent) : List Char :=
  "TRACE: ".toList ++ hexCapital 2 e.pc.toNat ++ " | ".toList ++ e.description

end TraceEvent

/-! ### Traces written as text -/

/-- A sink that writes a line for every event. -/
structure TextTrace where
  writer : Writer
  /-- Whether a line did not fit. -/
  failed : Bool := false

/-- Why a text trace is not complete. -/
inductive TraceError where
  /-- A line did not fit. -/
  | write
  /-- All lines were written, but flushing failed. -/
  | flush
deriving DecidableEq

namespace TextTrace

/-- The trace with one more line, unless a line before it did not fit. -/
def record (t : TextTrace) (e : TraceEvent) : TextTrace :=
  if t.failed then t
  else
    let (whole, writer) := t.writer.write (Text.Utf8.encode (e.text ++ ['\n']))
    { writer, failed := !whole }

instance : TraceSink TextTrace := ⟨record⟩

/-- The end of the trace; a line that did not fit weighs more than a failing flush. -/
def finish (t : TextTrace) : Except TraceError Unit :=
  if t.failed then .error .write else if t.writer.flushFails then .error .flush else .ok ()

end TextTrace

end LS8
