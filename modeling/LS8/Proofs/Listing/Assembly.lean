import LS8.Proofs.Listing.Rows
import LS8.Proofs.Text.Reading
import Mathlib.Data.List.TakeWhile

/-! # Listings: assembly

A listing can be assembled again. The text of a row names an opcode, or `.byte`, and gives the
operands with commas between them; an operand is a register behind `R`, a hexadecimal number behind
`0x` or else a decimal number, and each of them stands for one byte.

* `byteOf_text`: an operand's text stands for its byte.
* `assemble_text`: so does the text of any row for the opcode and the operands of the row, even if
  it names registers that no machine has.
* `assemble_listing`: the texts of a listing give the image back, so an image of at most 65536 bytes
  is determined by them. -/

namespace LS8

open LS8.Text.Numeral

/-! ### Operands -/

namespace Operand

/-- The byte that the text of an operand stands for. -/
def byteOf : List Char → UInt8
  | 'R' :: index => UInt8.ofNat (number 10 index)
  | '0' :: 'x' :: value => UInt8.ofNat (number 16 value)
  | value => UInt8.ofNat (number 10 value)

theorem byteOf_of_isDigit {value : List Char} (h : ∀ c ∈ value, c.isDigit) :
    byteOf value = UInt8.ofNat (number 10 value) := by
  unfold byteOf
  split
  · have hR := h 'R' List.mem_cons_self
    exact absurd hR (by decide)
  · have hx := h 'x' (List.mem_cons_of_mem _ List.mem_cons_self)
    exact absurd hx (by decide)
  · rfl

/-- **The text of an operand stands for its byte.** -/
theorem byteOf_text (x : Operand) : byteOf x.text = x.byte := by
  cases x with
  | register index =>
    change UInt8.ofNat (number 10 (decimal index.toNat)) = index
    rw [number_decimal, UInt8.ofNat_toNat]
  | immediate value =>
    change byteOf (decimal value.toNat) = value
    rw [byteOf_of_isDigit fun c hc => isDigit_of_mem_decimal hc, number_decimal,
      UInt8.ofNat_toNat]
  | raw value =>
    change UInt8.ofNat (number 16 (hexCapital 2 value.toNat)) = value
    rw [number_hexCapital, UInt8.ofNat_toNat]

theorem isAlphanum_of_mem_text {x : Operand} {c : Char} (h : c ∈ x.text) : c.isAlphanum := by
  cases x with
  | register index =>
    rcases List.mem_cons.mp h with rfl | h
    · decide
    · exact isAlphanum_of_mem_decimal h
  | immediate value => exact isAlphanum_of_mem_decimal h
  | raw value =>
    rcases List.mem_append.mp h with h | h
    · have hall : "0x".toList.all Char.isAlphanum := by decide
      exact List.all_eq_true.mp hall c h
    · exact isAlphanum_of_mem_hexCapital h

theorem comma_notMem_text (x : Operand) : ',' ∉ x.text := fun h =>
  absurd (isAlphanum_of_mem_text h) (by decide)

end Operand

/-! ### Rows -/

theorem mem_of_mem_intercalate {α : Type} {sep : List α} {x : α} {parts : List (List α)}
    (h : x ∈ sep.intercalate parts) : x ∈ sep ∨ ∃ part ∈ parts, x ∈ part := by
  induction parts with
  | nil => exact absurd h List.not_mem_nil
  | cons part rest ih =>
    cases rest with
    | nil => exact .inr ⟨part, List.mem_cons_self, by rwa [List.intercalate_singleton] at h⟩
    | cons other rest =>
      rw [List.intercalate_cons_cons, List.mem_append, List.mem_append] at h
      rcases h with (h | h) | h
      · exact .inr ⟨part, List.mem_cons_self, h⟩
      · exact .inl h
      · rcases ih h with h | ⟨p, hp, h⟩
        · exact .inl h
        · exact .inr ⟨p, List.mem_cons_of_mem _ hp, h⟩

namespace Row

/-- The bytes that the text of a row stands for. -/
def assemble (text : List Char) : List UInt8 :=
  let name := text.takeWhile (· ≠ ' ')
  let operands :=
    match text.dropWhile (· ≠ ' ') with
    | [] => []
    | _ :: operands => operands.splitOn ','
  ((Opcode.all.find? (·.mnemonic = name)).map Opcode.byte).toList ++ operands.map Operand.byteOf

theorem blank_notMem_mnemonic (r : Row) : ' ' ∉ r.mnemonic := by
  have hdata : ' ' ∉ ".byte".toList := by decide
  have hopcode : ∀ o ∈ Opcode.all, ' ' ∉ o.mnemonic := by decide
  unfold mnemonic
  cases r.opcode with
  | none => exact hdata
  | some o => exact hopcode o o.mem_all

theorem find?_mnemonic (r : Row) :
    Opcode.all.find? (fun o => o.mnemonic = r.mnemonic) = r.opcode := by
  have hopcode : ∀ o ∈ Opcode.all,
    Opcode.all.find? (fun o' => o'.mnemonic = o.mnemonic) = some o := by decide
  unfold mnemonic
  cases r.opcode with
  | none => decide
  | some o => exact hopcode o o.mem_all

/-- **The text of a row is assembled into its opcode and its operands.** -/
theorem assemble_text (r : Row) :
    assemble r.text = (r.opcode.map Opcode.byte).toList ++ r.operands.map Operand.byte := by
  have hname : ∀ c ∈ r.mnemonic, decide (c ≠ ' ') = true := fun c hc =>
    decide_eq_true (ne_of_mem_of_not_mem hc r.blank_notMem_mnemonic)
  have hbytes : ∀ operands : List Operand,
      (operands.map Operand.text).map Operand.byteOf = operands.map Operand.byte := fun operands => by
    rw [List.map_map]
    exact List.map_congr_left fun x _ => x.byteOf_text
  unfold assemble text
  cases hop : r.operands with
  | nil =>
    simp only [List.isEmpty_nil, if_true, List.takeWhile_eq_self_iff.mpr hname,
      List.dropWhile_eq_nil_iff.mpr hname, r.find?_mnemonic, List.map_nil]
  | cons x xs =>
    have hsplit : r.operandText.splitOn ',' = r.operands.map Operand.text := by
      refine List.splitOn_intercalate ',' (fun t ht => ?_) (by simp [hop])
      obtain ⟨y, -, rfl⟩ := List.mem_map.mp ht
      exact y.comma_notMem_text
    have hblank : decide (' ' ≠ ' ') = false := by decide
    simp only [List.isEmpty_cons, Bool.false_eq_true, if_false,
      List.takeWhile_append_of_pos hname, List.dropWhile_append_of_pos hname,
      List.takeWhile_cons, List.dropWhile_cons, hblank, List.append_nil, r.find?_mnemonic]
    rw [hsplit, hbytes, hop]

theorem isAlphanum_or_mem_of_mem_text (r : Row) {c : Char} (h : c ∈ r.text) :
    c.isAlphanum ∨ c ∈ [' ', ',', '.'] := by
  have hdata : ".byte".toList.all fun c => c.isAlphanum ∨ c ∈ [' ', ',', '.'] := by decide
  have hopcode : Opcode.all.all fun o => o.mnemonic.all Char.isAlphanum := by decide
  have hname : ∀ c ∈ r.mnemonic, c.isAlphanum ∨ c ∈ [' ', ',', '.'] := by
    unfold mnemonic
    cases r.opcode with
    | none => exact fun c hc => of_decide_eq_true (List.all_eq_true.mp hdata c hc)
    | some o =>
      have hmnemonic := List.all_eq_true.mp hopcode o o.mem_all
      exact fun c hc => .inl (List.all_eq_true.mp hmnemonic c hc)
  have hoperands : ∀ c ∈ r.operandText, c.isAlphanum ∨ c ∈ [' ', ',', '.'] := by
    intro c hc
    rcases mem_of_mem_intercalate hc with hc | ⟨part, hpart, hc⟩
    · rw [List.mem_singleton.mp hc]
      decide
    · obtain ⟨x, -, rfl⟩ := List.mem_map.mp hpart
      exact .inl (Operand.isAlphanum_of_mem_text hc)
  unfold text at h
  split at h
  · exact hname c h
  · rcases List.mem_append.mp h with h | h
    · exact hname c h
    · rcases List.mem_cons.mp h with rfl | h
      · decide
      · exact hoperands c h

theorem assemble_text_of_ofBytes? {address : UInt16} {bytes : List UInt8} {r : Row}
    (h : ofBytes? address bytes = some r) : assemble r.text = r.bytes := by
  rw [assemble_text, bytes_of_ofBytes? h]

end Row

/-! ### Listings -/

theorem assemble_text_of_mem_listing {image : List UInt8} {r : Row} (h : r ∈ listing image) :
    Row.assemble r.text = r.bytes := by
  obtain ⟨address, bytes, hread⟩ := exists_ofBytes?_of_mem_sweep h
  exact Row.assemble_text_of_ofBytes? hread

theorem flatMap_assemble_map_text {image : List UInt8} (h : image.length ≤ 65536) :
    ((listing image).map Row.text).flatMap Row.assemble = image := by
  rw [List.flatMap_map]
  calc (listing image).flatMap (fun r => Row.assemble r.text)
      = (listing image).flatMap Row.bytes :=
        List.flatMap_congr fun r hr => assemble_text_of_mem_listing hr
    _ = image := flatMap_bytes_sweep (by omega)

/-- **A listing loses nothing.** The texts of its rows are assembled into the image, one after the
other; so images with the same texts are equal, and rows with the same text show the same bytes,
whichever listings they are from. -/
theorem assemble_listing (image : List UInt8) (h : image.length ≤ 65536) :
    (listing image).flatMap (fun r => Row.assemble r.text) = image ∧
    (∀ other : List UInt8, other.length ≤ 65536 →
      (listing image).map Row.text = (listing other).map Row.text → image = other) ∧
    ∀ (other : List UInt8) (r r' : Row), r ∈ listing image → r' ∈ listing other →
      r.text = r'.text → r.bytes = r'.bytes := by
  have himage := flatMap_assemble_map_text h
  refine ⟨?_, fun other hother htext => ?_, fun other r r' hr hr' htext => ?_⟩
  · rwa [List.flatMap_map] at himage
  · rw [← himage, htext, flatMap_assemble_map_text hother]
  · rw [← assemble_text_of_mem_listing hr, htext, assemble_text_of_mem_listing hr']

/-- A register that no machine has, a number, data and an instruction cut off by the end. -/
theorem assemble_listing_mixed :
    [0x82, 200, 5, 0xFF, 0xA7, 7, 8, 0x47].length ≤ 65536 ∧
      (listing [0x82, 200, 5, 0xFF, 0xA7, 7, 8, 0x47]).map Row.text =
        ["LDI R200,5".toList, ".byte 0xFF".toList, "CMP R7,R8".toList, ".byte 0x47".toList] ∧
      (listing [0x82, 200, 5, 0xFF, 0xA7, 7, 8, 0x47]).flatMap (fun r => Row.assemble r.text) =
        [0x82, 200, 5, 0xFF, 0xA7, 7, 8, 0x47] :=
  ⟨by decide, by decide +kernel, (assemble_listing _ (by decide)).1⟩

end LS8
