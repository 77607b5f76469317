import LS8.Text.Numeral

/-! # Output ports

PRN hands its value to an output port of the host. A port may refuse a value, and a port that
refuses may still have changed: part of a line may be out already. -/

namespace LS8

/-- States of type `σ` work as an output port. -/
class OutputPort (σ : Type) where
  /-- Whether the port takes the value, and the port afterwards. -/
  print : σ → UInt8 → Bool × σ

/-- The line that shows a value: its decimal numeral and a newline. -/
def valueLine (v : UInt8) : List Char := Text.Numeral.decimal v.toNat ++ ['\n']

end LS8
