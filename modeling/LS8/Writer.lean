import LS8.Output
import LS8.Text.Utf8

/-! # Writers

A writer keeps the bytes it is given and may have room for so many only. A write that does not fit
fails, but what fits of it is kept. A writer that recovers has room without limit after its first
failed write. -/

namespace LS8

/-- A sink for bytes. -/
structure Writer where
  /-- The bytes kept, in order. -/
  written : Array UInt8 := #[]
  /-- How many more bytes fit; without limit if nothing is said. -/
  room : Option Nat := none
  /-- Whether a failed write lifts the limit. -/
  recovers : Bool := false
  /-- Whether flushing fails. -/
  flushFails : Bool := false

namespace Writer

/-- The bytes that a writer holds. -/
def bytes (w : Writer) : List UInt8 := w.written.toList

/-- Whether all of `bs` fits, and the writer with what fits of it. -/
def write (w : Writer) (bs : List UInt8) : Bool × Writer :=
  match w.room with
  | none => (true, { w with written := w.written ++ bs })
  | some room =>
    if bs.length ≤ room then
      (true, { w with written := w.written ++ bs, room := some (room - bs.length) })
    else
      (false, { w with
        written := w.written ++ bs.take room
        room := if w.recovers then none else some 0 })

theorem write_of_unlimited {w : Writer} (h : w.room = none) (bs : List UInt8) :
    w.write bs = (true, { w with written := w.written ++ bs }) := by
  simp [write, h]

theorem bytes_write_of_le {w : Writer} {room : Nat} (h : w.room = some room) {bs : List UInt8}
    (hbs : bs.length ≤ room) : (w.write bs).2.bytes = w.bytes ++ bs := by
  simp [write, h, hbs, bytes]

theorem bytes_write_of_lt {w : Writer} {room : Nat} (h : w.room = some room) {bs : List UInt8}
    (hbs : room < bs.length) : (w.write bs).2.bytes = w.bytes ++ bs.take room := by
  simp [write, h, Nat.not_le.mpr hbs, bytes]

/-- A printed value is one line. -/
instance : OutputPort Writer := ⟨fun w v => w.write (Text.Utf8.encode (valueLine v))⟩

end Writer

end LS8
