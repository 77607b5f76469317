import LS8.Memory
import LS8.Text.Blank
import LS8.Text.Numeral

/-! # Images

An image is a program written as text, one byte to a line as a binary literal of up to eight digits.
A `#` begins a comment, blanks around the literal do not count, and a line without a literal is
skipped. The first bad line is reported with its number; only when every line is good does it matter
whether the bytes fit into memory.

* `lines_append`: a text is read line by line, so a newline between two texts keeps them apart.
* `length_le_of_parse`: an image fits into memory. -/

namespace LS8.Image

open LS8.Text

/-! ### Lines -/

/-- The greatest number of digits in a literal. -/
def maxLiteralDigits : Nat := 8

/-- What a line of an image holds. -/
inductive Line where
  /-- Blanks or a comment only. -/
  | filler
  /-- A byte. -/
  | literal (value : UInt8)
  /-- Something else. -/
  | malformed (code : List Char)
deriving DecidableEq

/-- The part of a line that counts: what stands before the comment, without the blanks around it. -/
def code (line : List Char) : List Char := Blank.trim (line.takeWhile (· ≠ '#'))

/-- The byte that a binary literal stands for. -/
def literal? (code : List Char) : Option UInt8 :=
  if 0 < code.length ∧ code.length ≤ maxLiteralDigits ∧ code.all (fun c => c = '0' || c = '1') then
    some (UInt8.ofNat (Numeral.ofDigits 2 (code.map fun c => if c = '1' then 1 else 0)))
  else none

/-- A line as it is read. -/
def Line.read (line : List Char) : Line :=
  if code line = [] then filler
  else
    match literal? (code line) with
    | some value => literal value
    | none => malformed (code line)

/-- The byte on a line. -/
def Line.value? : Line → Option UInt8
  | literal value => some value
  | _ => none

/-- The text on a bad line. -/
def Line.malformed? : Line → Option (List Char)
  | malformed code => some code
  | _ => none

/-! ### Texts -/

/-- Why a text is no image. -/
inductive Error where
  /-- Line number `line`, counted from 1, holds neither a literal nor nothing. -/
  | malformed (line : Nat) (code : List Char)
  /-- The lines hold `length` bytes, more than fit into memory. -/
  | tooLarge (length : Nat)
deriving DecidableEq

/-- The lines of a text as they are read; a text with `n` newlines has `n + 1` lines. -/
def lines (text : List Char) : List Line := (text.splitOn '\n').map Line.read

theorem lines_append (s t : List Char) : lines (s ++ '\n' :: t) = lines s ++ lines t := by
  simp [lines, List.splitOn, List.splitOnP_append_cons]

/-- The number and the text of the first bad line. -/
def firstMalformed? (ls : List Line) : Option (Nat × List Char) :=
  (ls.zipIdx 1).findSome? fun l => l.1.malformed?.map fun code => (l.2, code)

theorem firstMalformed?_eq_none_iff {ls : List Line} :
    firstMalformed? ls = none ↔ ∀ l ∈ ls, l.malformed? = none := by
  rw [firstMalformed?, List.findSome?_eq_none_iff]
  constructor
  · intro h l hl
    rw [← List.zipIdx_map_fst 1 ls] at hl
    obtain ⟨p, hp, rfl⟩ := List.mem_map.mp hl
    exact Option.map_eq_none_iff.mp (h p hp)
  · intro h p hp
    have hmem : p.1 ∈ (ls.zipIdx 1).map Prod.fst := List.mem_map_of_mem hp
    rw [List.zipIdx_map_fst] at hmem
    exact Option.map_eq_none_iff.mpr (h p.1 hmem)

/-- The bytes that a text stands for. -/
def parse (text : List Char) : Except Error (List UInt8) :=
  match firstMalformed? (lines text) with
  | some (line, code) => .error (.malformed line code)
  | none =>
    let bytes := (lines text).filterMap Line.value?
    if bytes.length ≤ Memory.size then .ok bytes else .error (.tooLarge bytes.length)

/-- The sentence that reports an error. -/
def Error.message : Error → List Char
  | malformed line code =>
    "line ".toList ++ Numeral.decimal line ++ ": expected a binary byte literal, found `".toList ++
      code ++ "`".toList
  | tooLarge length =>
    "program is ".toList ++ Numeral.decimal length ++ " bytes but memory holds ".toList ++
      Numeral.decimal Memory.size ++ " bytes".toList

theorem length_le_of_parse {text : List Char} {bytes : List UInt8} (h : parse text = .ok bytes) :
    bytes.length ≤ Memory.size := by
  simp only [parse] at h
  split at h
  · simp at h
  · split at h
    · obtain rfl := Except.ok.inj h; assumption
    · simp at h

end LS8.Image
