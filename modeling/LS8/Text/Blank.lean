/-! # Text: blanks

The blanks are the characters with the Unicode property White_Space. `trim` takes them off both ends
of a text. -/

namespace LS8.Text.Blank

/-! ### The property -/

/-- The code points with the property White_Space, as ranges with both ends included. -/
def ranges : List (Nat × Nat) :=
  [(0x0009, 0x000D), (0x0020, 0x0020), (0x0085, 0x0085), (0x00A0, 0x00A0), (0x1680, 0x1680),
    (0x2000, 0x200A), (0x2028, 0x2029), (0x202F, 0x202F), (0x205F, 0x205F), (0x3000, 0x3000)]

/-- Whether a character is a blank. -/
def isBlank (c : Char) : Bool := ranges.any fun r => r.1 ≤ c.toNat && c.toNat ≤ r.2

/-- There are 25 blanks. -/
example : (ranges.map fun r => r.2 + 1 - r.1).sum = 25 := rfl

/-! ### Trimming -/

/-- A text without the blanks at its end. -/
def trimEnd (t : List Char) : List Char := (t.reverse.dropWhile isBlank).reverse

/-- A text without the blanks at its ends. -/
def trim (t : List Char) : List Char := trimEnd (t.dropWhile isBlank)

theorem exists_trimEnd (t : List Char) :
    ∃ b, t = trimEnd t ++ b ∧ ∀ c ∈ b, isBlank c = true := by
  refine ⟨(t.reverse.takeWhile isBlank).reverse, ?_, fun c hc => ?_⟩
  · rw [trimEnd, ← List.reverse_append, List.takeWhile_append_dropWhile, List.reverse_reverse]
  · have := List.all_takeWhile (p := isBlank) (l := t.reverse)
    exact List.all_eq_true.mp this c (List.mem_reverse.mp hc)

theorem exists_trim (t : List Char) :
    ∃ a b, t = a ++ trim t ++ b ∧ (∀ c ∈ a, isBlank c = true) ∧ ∀ c ∈ b, isBlank c = true := by
  obtain ⟨b, hb, hblank⟩ := exists_trimEnd (t.dropWhile isBlank)
  refine ⟨t.takeWhile isBlank, b, ?_, fun c hc => ?_, hblank⟩
  · rw [List.append_assoc, trim, ← hb, List.takeWhile_append_dropWhile]
  · exact List.all_eq_true.mp List.all_takeWhile c hc

theorem dropWhile_isBlank_of_blank {a t : List Char} (ha : ∀ c ∈ a, isBlank c = true)
    (ht : ∀ c, t.head? = some c → isBlank c = false) : (a ++ t).dropWhile isBlank = t := by
  rw [List.dropWhile_append_of_pos ha]
  cases t with
  | nil => rfl
  | cons c t => rw [List.dropWhile_cons_of_neg (by simp [ht c rfl])]

/-- Blanks around a text without blanks do not count. -/
theorem trim_append {a t b : List Char} (ha : ∀ c ∈ a, isBlank c = true)
    (ht : ∀ c ∈ t, isBlank c = false) (hb : ∀ c ∈ b, isBlank c = true) :
    trim (a ++ t ++ b) = t := by
  cases ht' : t with
  | nil =>
    have hall : ∀ c ∈ a ++ b, isBlank c = true := List.forall_mem_append.mpr ⟨ha, hb⟩
    have hdrop := dropWhile_isBlank_of_blank hall (by simp : ∀ c, [].head? = some c → _)
    rw [List.append_nil] at hdrop ⊢
    rw [trim, hdrop]
    rfl
  | cons c t' =>
    subst ht'
    have hhead : ∀ d, ((c :: t') ++ b).head? = some d → isBlank d = false := by
      intro d hd
      obtain rfl := Option.some.inj hd
      exact ht c (by simp)
    have hlast : ∀ d, (c :: t').reverse.head? = some d → isBlank d = false := by
      intro d hd
      exact ht d (List.mem_reverse.mp (List.mem_of_mem_head? hd))
    rw [trim, List.append_assoc, dropWhile_isBlank_of_blank ha hhead, trimEnd, List.reverse_append,
      dropWhile_isBlank_of_blank (by simpa using hb) hlast, List.reverse_reverse]

end LS8.Text.Blank
