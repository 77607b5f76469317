import LS8.Text.Numeral
import Mathlib.Data.Nat.Notation

/-! # Text: numerals read back

A numeral is read by its characters: each stands for a digit (`digitValue`), and the digits for a
number (`number`). Capital and small letters stand for the same digits.

* `number_decimal`, `number_hexCapital`, `number_hexSmall`: a written number is read back, zeros in
  front or not. -/

namespace LS8.Text.Numeral

/-- The digit that a character stands for, in a base up to 36. -/
def digitValue (c : Char) : ℕ := if c.isDigit then c.toNat - 48 else c.toUpper.toNat - 55

/-- The number that a text stands for in base `b`. -/
def number (b : ℕ) (text : List Char) : ℕ := ofDigits b (text.map digitValue)

theorem digitValue_digitChar {d : ℕ} (h : d < 16) : digitValue (Nat.digitChar d) = d := by
  have hall : ∀ d < 16, digitValue (Nat.digitChar d) = d := by decide
  exact hall d h

theorem digitValue_toUpper_digitChar {d : ℕ} (h : d < 16) :
    digitValue (Nat.digitChar d).toUpper = d := by
  have hall : ∀ d < 16, digitValue (Nat.digitChar d).toUpper = d := by decide
  exact hall d h

theorem number_map {b : ℕ} (hb : 2 ≤ b) {write : ℕ → Char}
    (h : ∀ d < b, digitValue (write d) = d) (n : ℕ) : number b ((digits b n).map write) = n := by
  have hread : ((digits b n).map write).map digitValue = digits b n := by
    rw [List.map_map]
    exact (List.map_congr_left fun d hd => h d (lt_of_mem_digits hb hd)).trans (List.map_id _)
  rw [number, hread, ofDigits_digits]

theorem number_decimal (n : ℕ) : number 10 (decimal n) = n :=
  number_map (by decide) (fun d hd => digitValue_digitChar (by omega)) n

theorem number_leftpad (b w : ℕ) (text : List Char) :
    number b (text.leftpad w '0') = number b text := by
  have hzero : digitValue '0' = 0 := by decide
  rw [number, List.leftpad, List.map_append, List.map_replicate, hzero, ofDigits_replicate_append,
    number]

theorem number_hexCapital (w n : ℕ) : number 16 (hexCapital w n) = n := by
  rw [hexCapital, number_leftpad]
  exact number_map (by decide) (fun d hd => digitValue_toUpper_digitChar hd) n

theorem number_hexSmall (w n : ℕ) : number 16 (hexSmall w n) = n := by
  rw [hexSmall, number_leftpad]
  exact number_map (by decide) (fun d hd => digitValue_digitChar hd) n

/-! ### Characters of numerals -/

theorem isDigit_of_mem_decimal {n : ℕ} {c : Char} (h : c ∈ decimal n) : c.isDigit := by
  obtain ⟨d, hd, rfl⟩ := List.mem_map.mp h
  have hall : ∀ d < 10, (Nat.digitChar d).isDigit := by decide
  exact hall d (lt_of_mem_digits (by decide) hd)

theorem isAlphanum_of_mem_decimal {n : ℕ} {c : Char} (h : c ∈ decimal n) : c.isAlphanum := by
  simp [Char.isAlphanum, isDigit_of_mem_decimal h]

theorem isAlphanum_of_mem_leftpad {write : ℕ → Char} (h : ∀ d < 16, (write d).isAlphanum)
    {w n : ℕ} {c : Char} (hc : c ∈ ((digits 16 n).map write).leftpad w '0') : c.isAlphanum := by
  rcases List.mem_append.mp hc with hc | hc
  · rw [List.eq_of_mem_replicate hc]
    decide
  · obtain ⟨d, hd, rfl⟩ := List.mem_map.mp hc
    exact h d (lt_of_mem_digits (by decide) hd)

theorem isAlphanum_of_mem_hexCapital {w n : ℕ} {c : Char} (h : c ∈ hexCapital w n) :
    c.isAlphanum :=
  isAlphanum_of_mem_leftpad (by decide) h

theorem isAlphanum_of_mem_hexSmall {w n : ℕ} {c : Char} (h : c ∈ hexSmall w n) : c.isAlphanum :=
  isAlphanum_of_mem_leftpad (by decide) h

end LS8.Text.Numeral
