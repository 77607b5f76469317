/-! # Flags

The flags remember the last comparison: less, greater or equal. Before the first comparison none is
up, and `Flags.ofOrdering` raises exactly one. -/

namespace LS8

/-- What the last comparison found. -/
@[ext]
structure Flags where
  /-- The first operand was the smaller. -/
  less : Bool := false
  /-- The first operand was the greater. -/
  greater : Bool := false
  /-- The operands were equal. -/
  equal : Bool := false
deriving DecidableEq

namespace Flags

/-- The bit of `less`. -/
def lessBit : UInt8 := 4

/-- The bit of `greater`. -/
def greaterBit : UInt8 := 2

/-- The bit of `equal`. -/
def equalBit : UInt8 := 1

/-- The flags before any comparison. -/
def clear : Flags := {}

instance : Inhabited Flags := ⟨clear⟩

/-- The flags after a comparison that came out as `o`. -/
def ofOrdering (o : Ordering) : Flags where
  less := o == .lt
  greater := o == .gt
  equal := o == .eq

/-- The flags after comparing `x` with `y` as unsigned bytes. -/
def ofComparison (x y : UInt8) : Flags := ofOrdering (compare x y)

/-- The flags packed into one byte. -/
def bits (f : Flags) : UInt8 :=
  (if f.less then lessBit else 0) ||| (if f.greater then greaterBit else 0) |||
    (if f.equal then equalBit else 0)

end Flags

end LS8
