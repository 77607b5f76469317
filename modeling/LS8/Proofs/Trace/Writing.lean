import LS8.Proofs.Trace.Reading

/-! # Traces: a writer that runs out of room

A text trace is fed any number of events, and its writer keeps so many bytes only. The first line
that does not fit may be cut anywhere; no later line reaches the writer, also when it has room
again. The end of the trace reports that a line did not fit before it reports that flushing failed.

* `Writer.bytes_write`, `Writer.fits_write_iff`: one write to a writer with a limit.
* `TextTrace.finish_eq_write_iff`, `TextTrace.finish_of_not_failed`: which of two failures the end
  reports.
* `TextTrace.feed_of_room`: what a trace of any length leaves in the writer, and how it ends. -/

namespace LS8

open LS8.Text

/-! ### One write -/

namespace Writer

variable {w : Writer} {room : ℕ}

theorem bytes_write (h : w.room = some room) (bs : List UInt8) :
    (w.write bs).2.bytes = w.bytes ++ bs.take room := by
  by_cases hbs : bs.length ≤ room
  · rw [bytes_write_of_le h hbs, List.take_of_length_le hbs]
  · exact bytes_write_of_lt h (Nat.lt_of_not_le hbs)

theorem fits_write_iff (h : w.room = some room) (bs : List UInt8) :
    (w.write bs).1 = true ↔ bs.length ≤ room := by
  by_cases hbs : bs.length ≤ room
  · simp [write, h, hbs]
  · simp [write, h, hbs]

theorem flushFails_write (w : Writer) (bs : List UInt8) :
    (w.write bs).2.flushFails = w.flushFails := by
  unfold write
  split
  · rfl
  · split
    · rfl
    · rfl

end Writer

/-! ### A trace of any length -/

namespace TextTrace

variable {t : TextTrace}

theorem finish_eq_write_iff : t.finish = .error .write ↔ t.failed = true := by
  unfold finish
  split_ifs with hfailed hflush
  · simp [hfailed]
  · simp [hfailed]
  · simp [hfailed]

theorem finish_of_not_failed (h : t.failed = false) :
    t.finish = if t.writer.flushFails then .error .flush else .ok () :=
  if_neg (Bool.not_eq_true _ ▸ h)

/-- The trace of `es` that is written to `w`. -/
def feed (w : Writer) (es : List TraceEvent) : TextTrace :=
  es.foldl TraceSink.record { writer := w }

/-- The bytes of the lines of `es`. -/
def allBytes (es : List TraceEvent) : List UInt8 := Utf8.encode (traceText es)

theorem feed_append (w : Writer) (before after : List TraceEvent) :
    feed w (before ++ after) = after.foldl TraceSink.record (feed w before) :=
  List.foldl_append

variable {w : Writer} {room : ℕ}

theorem feed_eq (w : Writer) (es : List TraceEvent) :
    feed w es = { writer := (w.write (allBytes es)).2, failed := !(w.write (allBytes es)).1 } :=
  foldl_record rfl es

theorem failed_feed_iff (h : w.room = some room) (es : List TraceEvent) :
    (feed w es).failed = true ↔ room < (allBytes es).length := by
  rw [feed_eq, Bool.not_eq_true', ← Nat.not_le, ← Writer.fits_write_iff h, Bool.not_eq_true]

/-- **A text trace keeps what fits, and the first failure.** The writer has room for `room` bytes
more, and has room again after a failed write or not. Any events leave in it exactly the first
`room` bytes of their lines. The end of the trace reports a line that did not fit if and only if the
lines are longer than that, whatever flushing does, and else whether flushing failed. After the
event whose line did not fit no other event changes the trace or its writer. -/
theorem feed_of_room (h : w.room = some room) (es : List TraceEvent) :
    (feed w es).writer.bytes = w.bytes ++ (allBytes es).take room ∧
      ((feed w es).finish = .error .write ↔ room < (allBytes es).length) ∧
      ((allBytes es).length ≤ room →
        (feed w es).finish = if w.flushFails then .error .flush else .ok ()) ∧
      ∀ before after, es = before ++ after → room < (allBytes before).length →
        feed w es = feed w before := by
  refine ⟨?_, ?_, fun hfits => ?_, ?_⟩
  · rw [feed_eq]
    exact Writer.bytes_write h _
  · rw [finish_eq_write_iff, failed_feed_iff h]
  · have hfailed : (feed w es).failed = false :=
      Bool.eq_false_iff.mpr fun hfailed => Nat.not_lt.mpr hfits ((failed_feed_iff h es).mp hfailed)
    have hflush : (feed w es).writer.flushFails = w.flushFails := by
      rw [feed_eq]
      exact Writer.flushFails_write w _
    rw [finish_of_not_failed hfailed, hflush]
  · rintro before after rfl hroom
    -- the line that did not fit is among those of `before`, so `after` finds a failed trace
    rw [feed_append, foldl_record_of_failed ((failed_feed_iff h before).mpr hroom)]

/-- A writer that keeps 18 bytes, refuses the next once, and whose flushing fails. -/
def eighteen : Writer := { room := some 18, recovers := true, flushFails := true }

/-- The first line fits but for its newline. -/
theorem feed_of_room_eighteen :
    eighteen.room = some 18 ∧
      (feed eighteen [.halted 2, .halted 3]).writer.bytes =
        Utf8.encode "TRACE: 02 | halted".toList ∧
      (feed eighteen [.halted 2, .halted 3]).writer.room = none ∧
      (feed eighteen [.halted 2, .halted 3]).finish = .error .write ∧
      feed eighteen [.halted 2, .halted 3] = feed eighteen [.halted 2] ∧
      (feed eighteen []).finish = .error .flush := by
  have hroom : eighteen.room = some 18 := rfl
  obtain ⟨hbytes, hfinish, -, hafter⟩ := feed_of_room hroom [.halted 2, .halted 3]
  obtain ⟨-, -, hfits, -⟩ := feed_of_room hroom []
  refine ⟨hroom, hbytes.trans ?_, ?_, hfinish.mpr ?_, hafter [.halted 2] [.halted 3] rfl ?_,
    hfits ?_⟩
  all_goals decide +kernel

end TextTrace

end LS8
