/-! # Text: UTF-8

`encode` writes characters as bytes. `decode` reads any bytes: where they are not UTF-8, the longest
part that could have begun a character counts as one broken piece.

* `decode?` refuses broken pieces, `lossy` shows each as the replacement character.
* `decode_encode`: what has been written is read back, with no broken piece. So `decode?` and
  `lossy` give a written text back (`decode?_encode`, `lossy_encode`). -/

namespace LS8

/-- Bytes in a row: a name, a path or the content of a file. -/
abbrev ByteString := List UInt8

namespace Text.Utf8

/-! ### Writing -/

/-- The bytes of a text. -/
def encode (t : List Char) : List UInt8 := t.flatMap String.utf8EncodeChar

@[simp] theorem encode_nil : encode [] = [] := rfl

theorem encode_cons (c : Char) (t : List Char) :
    encode (c :: t) = String.utf8EncodeChar c ++ encode t := List.flatMap_cons

@[simp] theorem encode_append (s t : List Char) : encode (s ++ t) = encode s ++ encode t :=
  List.flatMap_append

/-! ### Reading -/

/-- The beginning of a character: how many bytes it still lacks, the range that the next of them
must lie in, and the bits read so far. -/
structure Pending where
  owed : Nat
  low : Nat
  high : Nat
  bits : Nat

/-- What the first byte of a longer character promises. The range of the second byte leaves out what
a shorter form can write, the surrogates and what lies beyond U+10FFFF. -/
def Pending.ofLead? (n : Nat) : Option Pending :=
  if n < 0xC2 then none
  else if n < 0xE0 then some ⟨1, 0x80, 0xBF, n - 0xC0⟩
  else if n < 0xF0 then
    some ⟨2, if n = 0xE0 then 0xA0 else 0x80, if n = 0xED then 0x9F else 0xBF, n - 0xE0⟩
  else if n < 0xF5 then
    some ⟨3, if n = 0xF0 then 0x90 else 0x80, if n = 0xF4 then 0x8F else 0xBF, n - 0xF0⟩
  else none

theorem Pending.ofLead?_two {k : Nat} (hk : 2 ≤ k) (hk' : k < 0x20) :
    ofLead? (k + 0xC0) = some ⟨1, 0x80, 0xBF, k⟩ := by
  rw [ofLead?, if_neg (by omega), if_pos (by omega), Nat.add_sub_cancel]

theorem Pending.ofLead?_three {k : Nat} (hk : k < 0x10) :
    ofLead? (k + 0xE0) =
      some ⟨2, if k = 0 then 0xA0 else 0x80, if k = 0xD then 0x9F else 0xBF, k⟩ := by
  rw [ofLead?, if_neg (by omega), if_neg (by omega), if_pos (by omega), Nat.add_sub_cancel]
  simp only [Nat.add_eq_right, show k + 0xE0 = 0xED ↔ k = 0xD by omega]

theorem Pending.ofLead?_four {k : Nat} (hk : k < 5) :
    ofLead? (k + 0xF0) =
      some ⟨3, if k = 0 then 0x90 else 0x80, if k = 4 then 0x8F else 0xBF, k⟩ := by
  rw [ofLead?, if_neg (by omega), if_neg (by omega), if_neg (by omega), if_pos (by omega),
    Nat.add_sub_cancel]
  simp only [Nat.add_eq_right, show k + 0xF0 = 0xF4 ↔ k = 4 by omega]

/-- The pieces read so far, a broken one being `none`, and the character begun after them. -/
@[ext]
structure Scan where
  pieces : Array (Option Char) := #[]
  pending : Option Pending := none

namespace Scan

/-- A byte between two characters. -/
def lead (s : Scan) (n : Nat) : Scan :=
  if n < 0x80 then ⟨s.pieces.push (some (Char.ofNat n)), none⟩
  else
    match Pending.ofLead? n with
    | some p => ⟨s.pieces, some p⟩
    | none => ⟨s.pieces.push none, none⟩

/-- A byte after the beginning of a character. -/
def follow (s : Scan) (p : Pending) (n : Nat) : Scan :=
  if p.low ≤ n ∧ n ≤ p.high then
    let bits := p.bits * 64 + (n - 0x80)
    if p.owed ≤ 1 then ⟨s.pieces.push (some (Char.ofNat bits)), none⟩
    else ⟨s.pieces, some ⟨p.owed - 1, 0x80, 0xBF, bits⟩⟩
  else lead ⟨s.pieces.push none, none⟩ n

/-- The next byte, wherever it stands. -/
def next (s : Scan) (b : UInt8) : Scan :=
  match s.pending with
  | none => s.lead b.toNat
  | some p => s.follow p b.toNat

/-- The pieces when no byte is left: a character begun stays broken. -/
def finish (s : Scan) : List (Option Char) :=
  (if s.pending.isSome then s.pieces.push none else s.pieces).toList

end Scan

/-- The characters that the bytes spell, and `none` for every broken piece. -/
def decode (bytes : List UInt8) : List (Option Char) := (bytes.foldl Scan.next {}).finish

/-- The text that the bytes spell, if nothing in them is broken. -/
def decode? (bytes : List UInt8) : Option (List Char) :=
  let pieces := decode bytes
  if pieces.all Option.isSome then some (pieces.filterMap id) else none

/-- The text that the bytes spell, with U+FFFD for every broken piece. -/
def lossy (bytes : List UInt8) : List Char := (decode bytes).map (·.getD '\uFFFD')

/-! ### Reading what has been written -/

namespace Scan

theorem follow_of_lt {s : Scan} {p : Pending} {n : Nat} (hlow : p.low ≤ n) (hhigh : n ≤ p.high)
    (howed : 1 < p.owed) :
    s.follow p n = ⟨s.pieces, some ⟨p.owed - 1, 0x80, 0xBF, p.bits * 64 + (n - 0x80)⟩⟩ := by
  rw [follow, if_pos ⟨hlow, hhigh⟩, if_neg (by omega)]

theorem follow_of_le {s : Scan} {p : Pending} {n : Nat} (hlow : p.low ≤ n) (hhigh : n ≤ p.high)
    (howed : p.owed ≤ 1) :
    s.follow p n = ⟨s.pieces.push (some (Char.ofNat (p.bits * 64 + (n - 0x80)))), none⟩ := by
  rw [follow, if_pos ⟨hlow, hhigh⟩, if_pos howed]

theorem lead_of_ofLead? {s : Scan} {n : Nat} {p : Pending} (h : Pending.ofLead? n = some p) :
    s.lead n = ⟨s.pieces, some p⟩ := by
  have hn : ¬ n < 0x80 := fun hn => by
    rw [Pending.ofLead?, if_pos (by omega)] at h
    simp at h
  rw [lead, if_neg hn, h]

/-- The bytes of a character are read as that character. -/
theorem foldl_next_utf8EncodeChar (pieces : Array (Option Char)) (c : Char) :
    (String.utf8EncodeChar c).foldl next ⟨pieces, none⟩ = ⟨pieces.push (some c), none⟩ := by
  have hc : Char.ofNat c.val.toNat = c := Char.ofNat_toNat c
  have hv : c.val.toNat < 0xD800 ∨ 0xDFFF < c.val.toNat ∧ c.val.toNat < 0x110000 := c.valid
  rw [String.utf8EncodeChar]
  generalize c.val.toNat = v at hc hv ⊢
  -- a byte of the encoding as a number
  have byte : ∀ n, n < 256 → (UInt8.ofNat n).toNat = n := fun n hn => by
    rw [UInt8.toNat_ofNat', Nat.mod_eq_of_lt hn]
  split
  · simp only [List.foldl_cons, List.foldl_nil, next]
    rw [byte _ (by omega), lead, if_pos (by omega), hc]
  split
  · simp only [List.foldl_cons, List.foldl_nil, next]
    rw [byte _ (by omega), byte _ (by omega),
      lead_of_ofLead? (Pending.ofLead?_two (by omega) (by omega))]
    dsimp only
    rw [follow_of_le (by dsimp only; omega) (by dsimp only; omega) (by dsimp only; omega)]
    rw [show v / 64 % 32 * 64 + (v % 64 + 128 - 0x80) = v by omega, hc]
  split
  · simp only [List.foldl_cons, List.foldl_nil, next]
    rw [byte _ (by omega), byte _ (by omega), byte _ (by omega),
      lead_of_ofLead? (Pending.ofLead?_three (by omega))]
    dsimp only
    rw [follow_of_lt (by dsimp only; split <;> omega) (by dsimp only; split <;> omega)
      (by dsimp only; omega)]
    dsimp only
    rw [follow_of_le (by dsimp only; omega) (by dsimp only; omega) (by dsimp only; omega)]
    dsimp only
    rw [show (v / 4096 % 16 * 64 + (v / 64 % 64 + 128 - 0x80)) * 64 + (v % 64 + 128 - 0x80) = v by
      omega, hc]
  · simp only [List.foldl_cons, List.foldl_nil, next]
    rw [byte _ (by omega), byte _ (by omega), byte _ (by omega), byte _ (by omega),
      lead_of_ofLead? (Pending.ofLead?_four (by omega))]
    dsimp only
    rw [follow_of_lt (by dsimp only; split <;> omega) (by dsimp only; split <;> omega)
      (by dsimp only; omega)]
    dsimp only
    rw [follow_of_lt (by dsimp only; omega) (by dsimp only; omega) (by dsimp only; omega)]
    dsimp only
    rw [follow_of_le (by dsimp only; omega) (by dsimp only; omega) (by dsimp only; omega)]
    dsimp only
    rw [show ((v / 262144 % 8 * 64 + (v / 4096 % 64 + 128 - 0x80)) * 64 +
      (v / 64 % 64 + 128 - 0x80)) * 64 + (v % 64 + 128 - 0x80) = v by omega, hc]

theorem foldl_next_encode (pieces : Array (Option Char)) (t : List Char) :
    (encode t).foldl next ⟨pieces, none⟩ = ⟨pieces ++ t.map some, none⟩ := by
  induction t generalizing pieces with
  | nil => simp
  | cons c t ih =>
    rw [encode_cons, List.foldl_append, foldl_next_utf8EncodeChar, ih]
    simp

end Scan

/-- **What has been written is read back.** -/
@[simp] theorem decode_encode (t : List Char) : decode (encode t) = t.map some := by
  rw [decode, Scan.foldl_next_encode]
  simp [Scan.finish]

@[simp] theorem decode?_encode (t : List Char) : decode? (encode t) = some t := by
  simp [decode?, List.filterMap_map]

@[simp] theorem lossy_encode (t : List Char) : lossy (encode t) = t := by
  simp [lossy, Function.comp_def]

end Text.Utf8

end LS8
