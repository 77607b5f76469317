/-! # Text: numerals

A number is written by its digits, the most significant first and without leading zeros; a
hexadecimal numeral may be padded with zeros to a least width.

* `ofDigits` reads digits back: `ofDigits_digits` takes the digits of a number to the number, in any
  base. -/

namespace LS8.Text.Numeral

/-! ### Digits in a base -/

/-- The digits of `n` in base `b`, the most significant first; there is always at least one. -/
def digits (b n : Nat) : List Nat :=
  if 2 ≤ b ∧ b ≤ n then digits b (n / b) ++ [n % b] else [n]
termination_by n
decreasing_by exact Nat.div_lt_self (by omega) (by omega)

/-- The number that the digits `ds` stand for in base `b`. -/
def ofDigits (b : Nat) (ds : List Nat) : Nat := ds.foldl (fun v d => v * b + d) 0

theorem digits_of_lt {b n : Nat} (h : n < b) : digits b n = [n] := by
  rw [digits, if_neg (by omega)]

theorem digits_of_le {b n : Nat} (hb : 2 ≤ b) (h : b ≤ n) :
    digits b n = digits b (n / b) ++ [n % b] := by
  rw [digits, if_pos ⟨hb, h⟩]

theorem digits_ne_nil (b n : Nat) : digits b n ≠ [] := by
  rw [digits]; split <;> simp

theorem lt_of_mem_digits {b n d : Nat} (hb : 2 ≤ b) (hd : d ∈ digits b n) : d < b := by
  fun_induction digits b n with
  | case1 n h ih =>
    rcases List.mem_append.mp hd with hd | hd
    · exact ih hd
    · rw [List.mem_singleton.mp hd]; exact Nat.mod_lt _ (by omega)
  | case2 n h => rw [List.mem_singleton.mp hd]; omega

theorem ofDigits_concat (b : Nat) (ds : List Nat) (d : Nat) :
    ofDigits b (ds ++ [d]) = ofDigits b ds * b + d := by
  simp [ofDigits]

/-- **Reading the digits of a number gives the number.** -/
theorem ofDigits_digits (b n : Nat) : ofDigits b (digits b n) = n := by
  fun_induction digits b n with
  | case1 n h ih => rw [ofDigits_concat, ih, Nat.mul_comm]; exact Nat.div_add_mod n b
  | case2 n h => simp [ofDigits]

theorem ofDigits_replicate_append (b k : Nat) (ds : List Nat) :
    ofDigits b (List.replicate k 0 ++ ds) = ofDigits b ds := by
  induction k with
  | zero => rfl
  | succ k ih =>
    rw [List.replicate_succ, List.cons_append, ofDigits, List.foldl_cons, Nat.zero_mul]
    exact ih

/-! ### Numerals as text -/

/-- The decimal numeral of `n`. -/
def decimal (n : Nat) : List Char := (digits 10 n).map Nat.digitChar

/-- The hexadecimal numeral of `n` with small letters, padded with zeros to `width` digits. -/
def hexSmall (width n : Nat) : List Char :=
  ((digits 16 n).map Nat.digitChar).leftpad width '0'

/-- The hexadecimal numeral of `n` with capital letters, padded with zeros to `width` digits. -/
def hexCapital (width n : Nat) : List Char :=
  ((digits 16 n).map fun d => (Nat.digitChar d).toUpper).leftpad width '0'

/-- Bytes as hexadecimal numerals of two digits with a space between them. -/
def byteNumerals (bs : List UInt8) : List Char :=
  [' '].intercalate (bs.map fun b => hexCapital 2 b.toNat)

end LS8.Text.Numeral
