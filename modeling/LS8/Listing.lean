import LS8.Opcode
import LS8.Text.Numeral

/-! # Listings

A listing shows a sequence of bytes as rows, one row to an instruction. A byte that begins no
instruction, or whose instruction the end cuts off, is a `.byte` row of its own. A row shows
whatever bytes it finds, so it may name registers that do not exist.

* `Row.exists_append_of_ofBytes?`: a row shows at least one byte, and the bytes it shows are those
  it was read from.
* `exists_append_sweep`: the bytes of the rows, one row after the other, are the first of the bytes
  listed. -/

namespace LS8

open LS8.Text.Numeral

/-! ### Rows -/

/-- An operand as a row shows it. -/
inductive Operand where
  /-- The register with the given index, which may be none of the machine's. -/
  | register (index : UInt8)
  /-- A byte as a number. -/
  | immediate (value : UInt8)
  /-- A byte that is no part of an instruction. -/
  | raw (value : UInt8)
deriving DecidableEq

/-- The text of an operand. -/
def Operand.text : Operand → List Char
  | register index => 'R' :: decimal index.toNat
  | immediate value => decimal value.toNat
  | raw value => "0x".toList ++ hexCapital 2 value.toNat

/-- A row of a listing. -/
@[ext]
structure Row where
  /-- The address of the first byte. -/
  address : UInt16
  /-- The bytes that the row shows. -/
  bytes : List UInt8
  /-- The opcode of the instruction; none for a `.byte` row. -/
  opcode : Option Opcode
  /-- The operands in order. -/
  operands : List Operand
deriving DecidableEq

namespace Row

/-- The name of the instruction, or `.byte`. -/
def mnemonic (r : Row) : List Char := (r.opcode.map Opcode.mnemonic).getD ".byte".toList

/-- The operands, separated by commas. -/
def operandText (r : Row) : List Char := [','].intercalate (r.operands.map Operand.text)

/-- The text of a row: the name, and after a space the operands if there are any. -/
def text (r : Row) : List Char :=
  if r.operands.isEmpty then r.mnemonic else r.mnemonic ++ ' ' :: r.operandText

/-- The row that shows `b` as data. -/
def data (address : UInt16) (b : UInt8) : Row := ⟨address, [b], none, [.raw b]⟩

/-- The operands of an instruction: first a register, then a register for arithmetic and a number
otherwise. -/
def operandsOf (o : Opcode) : List UInt8 → List Operand
  | [] => []
  | [a] => [.register a]
  | a :: b :: _ => [.register a, if o.isAlu then .register b else .immediate b]

/-- The row at the head of the bytes from `address` on. -/
def ofBytes? (address : UInt16) : List UInt8 → Option Row
  | [] => none
  | b :: rest =>
    match Opcode.ofByte? b with
    | none => some (data address b)
    | some o =>
      let operands := rest.take o.operandCount
      if operands.length = o.operandCount then
        some ⟨address, b :: operands, some o, operandsOf o operands⟩
      else some (data address b)

/-- The row at `address` of an image that begins at address 0. -/
def at? (image : List UInt8) (address : UInt16) : Option Row :=
  ofBytes? address (image.drop address.toNat)

theorem exists_append_of_ofBytes? {address : UInt16} {bytes : List UInt8} {r : Row}
    (h : ofBytes? address bytes = some r) :
    r.address = address ∧ r.bytes ≠ [] ∧ bytes = r.bytes ++ bytes.drop r.bytes.length := by
  cases bytes with
  | nil => simp [ofBytes?] at h
  | cons b rest =>
    simp only [ofBytes?] at h
    split at h
    · obtain rfl := Option.some.inj h
      simp [data]
    · split at h
      · obtain rfl := Option.some.inj h
        rename_i o _ hlen
        simp only [List.length_cons, List.drop_succ_cons, List.cons_append, ne_eq, reduceCtorEq,
          not_false_eq_true, List.cons.injEq, true_and]
        rw [hlen, List.take_append_drop]
      · obtain rfl := Option.some.inj h
        simp [data]

end Row

/-! ### Sweeping an image -/

/-- The rows of the bytes from `address` on. A row that would begin beyond the last 16-bit address
is left out, and so is all that follows. -/
def sweep (address : Nat) (bytes : List UInt8) : List Row :=
  if 65536 ≤ address then []
  else
    match _h : Row.ofBytes? (UInt16.ofNat address) bytes with
    | none => []
    | some r => r :: sweep (address + r.bytes.length) (bytes.drop r.bytes.length)
termination_by bytes.length
decreasing_by
  obtain ⟨-, hne, happ⟩ := Row.exists_append_of_ofBytes? _h
  have hpos := List.length_pos_iff.mpr hne
  have hlen := congrArg List.length happ
  simp only [List.length_append, List.length_drop] at hlen
  rw [List.length_drop]
  omega

/-- The rows of an image, from address 0 on. -/
def listing (image : List UInt8) : List Row := sweep 0 image

@[simp] theorem sweep_nil (address : Nat) : sweep address [] = [] := by
  rw [sweep]; split <;> simp [Row.ofBytes?]

theorem sweep_of_ofBytes? {address : Nat} (h : address < 65536) {bytes : List UInt8} {r : Row}
    (hr : Row.ofBytes? (UInt16.ofNat address) bytes = some r) :
    sweep address bytes =
      r :: sweep (address + r.bytes.length) (bytes.drop r.bytes.length) := by
  rw [sweep, if_neg (by omega)]
  split <;> simp_all

/-- **A sweep changes no byte**: the bytes of the rows are the first of the bytes swept. -/
theorem exists_append_sweep (address : Nat) (bytes : List UInt8) :
    ∃ rest, bytes = (sweep address bytes).flatMap Row.bytes ++ rest := by
  fun_induction sweep address bytes with
  | case1 address bytes h => exact ⟨bytes, rfl⟩
  | case2 address bytes h h' => exact ⟨bytes, rfl⟩
  | case3 address bytes h r h' ih =>
    obtain ⟨rest, hrest⟩ := ih
    refine ⟨rest, ?_⟩
    rw [List.flatMap_cons, List.append_assoc, ← hrest]
    exact (Row.exists_append_of_ofBytes? h').2.2

/-! ### Printed listings -/

/-- A row with its address and its bytes in front; the bytes fill a column of nine characters. -/
def Row.line (r : Row) : List Char :=
  hexCapital 2 r.address.toNat ++ ": ".toList ++ (byteNumerals r.bytes).rightpad 9 ' ' ++
    ' ' :: r.text

end LS8
