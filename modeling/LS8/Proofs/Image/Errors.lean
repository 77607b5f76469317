import LS8.Proofs.Image.Grammar
import Mathlib.Data.List.TakeWhile

/-! # Images: errors

A text that is no image is refused for its first bad line, or, if no line is bad, for its size. The
number of a line counts every line before it, also those that are skipped, and a bad line is
reported however many bytes stand before it.

So two texts with a newline between them are refused for what the first is refused for, or for the
first bad line of the second, further down by the lines of the first; otherwise their bytes come
together, and only then does it matter whether they fit.

* `parse_eq_malformed_iff_first`, `parse_eq_tooLarge_iff`: when each of the two errors is reported.
* `stripped_of_parse`: what is reported of a bad line.
* `parse_append_newline`: two texts with a newline between them. -/

namespace LS8.Image

open LS8.Text

/-! ### The first bad line -/

theorem firstMalformed?_append (ls ls' : List Line) :
    firstMalformed? (ls ++ ls') =
      (firstMalformed? ls).or ((firstMalformed? ls').map fun p => (p.1 + ls.length, p.2)) := by
  have hshift : ls'.zipIdx (1 + ls.length) =
      (ls'.zipIdx 1).map fun p => (p.1, p.2 + ls.length) := by
    rw [List.zipIdx_eq_map_add, List.zipIdx_eq_map_add (i := 1), List.map_map]
    exact List.map_congr_left fun p _ => Prod.ext rfl (Nat.add_right_comm 1 ls.length p.2)
  rw [firstMalformed?, List.zipIdx_append, List.findSome?_append, hshift, List.findSome?_map,
    firstMalformed?, firstMalformed?, List.map_findSome?]
  congr 2
  funext p
  rw [Function.comp_apply, Function.comp_apply, Option.map_map]
  rfl

theorem firstMalformed?_cons (l : Line) (ls : List Line) :
    firstMalformed? (l :: ls) =
      (l.malformed?.map ((1, ·))).or ((firstMalformed? ls).map fun p => (p.1 + 1, p.2)) := by
  have hone : firstMalformed? [l] = l.malformed?.map ((1, ·)) := by
    rw [firstMalformed?, List.zipIdx_singleton, List.findSome?_singleton]
  have happend := firstMalformed?_append [l] ls
  rwa [hone] at happend

/-- **The first bad line** is behind good lines only, and its number is one more than theirs. -/
theorem firstMalformed?_eq_some_iff {ls : List Line} {n : ℕ} {t : List Char} :
    firstMalformed? ls = some (n, t) ↔
      ∃ before after, ls = before ++ .malformed t :: after ∧ n = before.length + 1 ∧
        ∀ l ∈ before, l.malformed? = none := by
  constructor
  · intro h
    induction ls generalizing n with
    | nil => cases h
    | cons l ls ih =>
      rw [firstMalformed?_cons] at h
      cases l with
      | malformed code =>
        obtain ⟨rfl, rfl⟩ := Prod.mk.inj (Option.some.inj h)
        exact ⟨[], ls, rfl, rfl, List.forall_mem_nil _⟩
      | filler | literal v =>
        obtain ⟨⟨k, t'⟩, hk, hp⟩ := Option.map_eq_some_iff.mp h
        obtain ⟨rfl, rfl⟩ := Prod.mk.inj hp
        obtain ⟨before, after, rfl, rfl, hgood⟩ := ih hk
        exact ⟨_ :: before, after, rfl, rfl, List.forall_mem_cons.mpr ⟨rfl, hgood⟩⟩
  · rintro ⟨before, after, rfl, rfl, hgood⟩
    rw [firstMalformed?_append, firstMalformed?_eq_none_iff.mpr hgood, firstMalformed?_cons]
    exact congrArg (fun k => some (k, t)) (Nat.add_comm 1 before.length)

/-! ### Lines of a text -/

theorem length_splitOn (c : Char) (text : List Char) :
    (text.splitOn c).length = text.count c + 1 := by
  induction text with
  | nil => rfl
  | cons d text ih =>
    rw [List.splitOn_cons_eq_if_modifyHead, List.count_cons]
    split_ifs with h
    · rw [List.length_cons, ih]
    · rw [List.length_modifyHead, ih]

theorem notMem_of_mem_splitOn {c : Char} {text line : List Char} (h : line ∈ text.splitOn c) :
    c ∉ line := by
  induction text generalizing line with
  | nil =>
    rw [List.mem_singleton.mp h]
    exact List.not_mem_nil
  | cons d text ih =>
    rw [List.splitOn_cons_eq_if_modifyHead] at h
    split_ifs at h with hd
    · rcases List.mem_cons.mp h with rfl | h
      · exact List.not_mem_nil
      · exact ih h
    · obtain ⟨first, rest, hsplit⟩ := List.exists_cons_of_ne_nil (List.splitOn_ne_nil c text)
      rw [hsplit, List.modifyHead_cons] at h
      rcases List.mem_cons.mp h with rfl | h
      · rw [List.mem_cons, not_or]
        refine ⟨fun hc => hd (by simp [hc]), ih (by rw [hsplit]; exact List.mem_cons_self)⟩
      · exact ih (by rw [hsplit]; exact List.mem_cons_of_mem _ h)

theorem length_lines (text : List Char) : (lines text).length = text.count '\n' + 1 := by
  rw [lines, List.length_map, length_splitOn]

/-! ### Source lines and bad lines -/

variable {line text a b : List Char} {l n : ℕ} {t : List Char}

/-- A line that can be read as filler or as a literal. -/
def IsSourceLine (line : List Char) : Prop := ∃ s : SourceLine, s.text = line

theorem malformed?_read_eq_none_iff (h : '\n' ∉ line) :
    (Line.read line).malformed? = none ↔ IsSourceLine line := by
  refine ⟨exists_sourceLine h, ?_⟩
  rintro ⟨s, rfl⟩
  rw [read_text, s.malformed?_line]

theorem eq_code_of_read (h : Line.read line = .malformed t) : t = code line ∧ t ≠ [] := by
  unfold Line.read at h
  split_ifs at h with hempty
  split at h
  · cases h
  · cases h
    exact ⟨rfl, hempty⟩

theorem read_eq_malformed_iff (h : '\n' ∉ line) :
    Line.read line = .malformed t ↔ ¬ IsSourceLine line ∧ t = code line := by
  rw [← malformed?_read_eq_none_iff h]
  constructor
  · intro hread
    refine ⟨?_, (eq_code_of_read hread).1⟩
    rw [hread]
    exact Option.some_ne_none t
  · rintro ⟨hbad, rfl⟩
    cases hread : Line.read line with
    | malformed t => rw [(eq_code_of_read hread).1]
    | filler | literal v =>
      rw [hread] at hbad
      exact absurd rfl hbad

/-! ### Stripped texts -/

/-- A text that stands by itself on a line: there is something, without a comment, a newline or
blanks at the ends. -/
structure Stripped (t : List Char) : Prop where
  ne_nil : t ≠ []
  hash : '#' ∉ t
  newline : '\n' ∉ t
  head : ∀ c, t.head? = some c → Blank.isBlank c = false
  last : ∀ c, t.getLast? = some c → Blank.isBlank c = false

theorem isBlank_of_getLast?_trimEnd {c : Char} (h : (Blank.trimEnd t).getLast? = some c) :
    Blank.isBlank c = false := by
  rw [Blank.trimEnd, List.getLast?_reverse] at h
  have hnot := List.head?_dropWhile_not Blank.isBlank t.reverse
  rwa [h] at hnot

theorem isBlank_of_head?_trim {c : Char} (h : (Blank.trim t).head? = some c) :
    Blank.isBlank c = false := by
  obtain ⟨b, hb, -⟩ := Blank.exists_trimEnd (t.dropWhile Blank.isBlank)
  have hnot := List.head?_dropWhile_not Blank.isBlank t
  -- the trimmed text begins as the text without the blanks in front
  rw [hb, List.head?_append, show (Blank.trimEnd _).head? = some c from h] at hnot
  exact hnot

theorem stripped_code (h : '\n' ∉ line) (hcode : code line ≠ []) : Stripped (code line) := by
  obtain ⟨x, y, hline, -, -⟩ := Blank.exists_trim (line.takeWhile (· ≠ '#'))
  have hmem : ∀ c ∈ code line, c ∈ line.takeWhile (· ≠ '#') := fun c hc => by
    rw [hline]
    exact List.mem_append_left _ (List.mem_append_right _ hc)
  refine ⟨hcode, fun hhash => ?_, fun hnewline => ?_, fun c hc => isBlank_of_head?_trim hc,
    fun c hc => isBlank_of_getLast?_trimEnd hc⟩
  · simpa using List.mem_takeWhile_imp (hmem '#' hhash)
  · exact h ((List.takeWhile_prefix _).subset (hmem '\n' hnewline))

/-! ### What parsing comes to -/

/-- The bytes on the lines that hold one. -/
def literals (text : List Char) : List UInt8 := (lines text).filterMap Line.value?

/-- The number of bytes of a text that is parsed without a bad line, whether they fit or not. -/
def length? : Except Error (List UInt8) → Option ℕ
  | .ok bytes => some bytes.length
  | .error (.tooLarge length) => some length
  | .error (.malformed _ _) => none

theorem parse_eq_malformed_iff :
    parse text = .error (.malformed l t) ↔ firstMalformed? (lines text) = some (l, t) := by
  unfold parse
  cases h : firstMalformed? (lines text) with
  | some p => simp [Prod.ext_iff]
  | none =>
    simp only [reduceCtorEq, iff_false]
    split_ifs <;> simp

theorem parse_of_firstMalformed?_eq_none (h : firstMalformed? (lines text) = none) :
    parse text =
      if (literals text).length ≤ Memory.size then .ok (literals text)
      else .error (.tooLarge (literals text).length) := by
  rw [parse, h]
  rfl

theorem length?_parse_eq_some_iff :
    length? (parse text) = some n ↔
      firstMalformed? (lines text) = none ∧ (literals text).length = n := by
  cases h : firstMalformed? (lines text) with
  | some p =>
    rw [parse_eq_malformed_iff.mpr h]
    simp [length?]
  | none =>
    rw [parse_of_firstMalformed?_eq_none h]
    split_ifs <;> simp [length?]

/-! ### Two texts -/

theorem lines_append_newline_firstMalformed? (a b : List Char) :
    firstMalformed? (lines (a ++ '\n' :: b)) =
      (firstMalformed? (lines a)).or
        ((firstMalformed? (lines b)).map fun p => (p.1 + 1 + a.count '\n', p.2)) := by
  rw [lines_append, firstMalformed?_append, length_lines]
  congr 2
  funext p
  rw [Nat.add_assoc, Nat.add_comm 1]

theorem literals_append_newline (a b : List Char) :
    literals (a ++ '\n' :: b) = literals a ++ literals b := by
  rw [literals, lines_append, List.filterMap_append]
  rfl

theorem parse_append_of_malformed (h : parse a = .error (.malformed l t)) :
    parse (a ++ '\n' :: b) = .error (.malformed l t) := by
  rw [parse_eq_malformed_iff] at h ⊢
  rw [lines_append_newline_firstMalformed?, h]
  rfl

theorem parse_append_of_length? {m : ℕ} (ha : length? (parse a) = some m)
    (hb : parse b = .error (.malformed l t)) :
    parse (a ++ '\n' :: b) = .error (.malformed (l + 1 + a.count '\n') t) := by
  rw [parse_eq_malformed_iff] at hb ⊢
  rw [lines_append_newline_firstMalformed?, (length?_parse_eq_some_iff.mp ha).1, hb]
  rfl

theorem parse_append_of_length?_of_length? {m : ℕ} (ha : length? (parse a) = some m)
    (hb : length? (parse b) = some n) :
    (m + n ≤ Memory.size → ∃ bs cs, parse a = .ok bs ∧ parse b = .ok cs ∧
      parse (a ++ '\n' :: b) = .ok (bs ++ cs)) ∧
    (Memory.size < m + n → parse (a ++ '\n' :: b) = .error (.tooLarge (m + n))) := by
  obtain ⟨hgood, rfl⟩ := length?_parse_eq_some_iff.mp ha
  obtain ⟨hgood', rfl⟩ := length?_parse_eq_some_iff.mp hb
  have hnone : firstMalformed? (lines (a ++ '\n' :: b)) = none := by
    rw [lines_append_newline_firstMalformed?, hgood, hgood']
    rfl
  rw [parse_of_firstMalformed?_eq_none hgood, parse_of_firstMalformed?_eq_none hgood',
    parse_of_firstMalformed?_eq_none hnone, literals_append_newline, List.length_append]
  constructor
  · intro hfits
    rw [if_pos hfits, if_pos (by omega), if_pos (by omega)]
    exact ⟨_, _, rfl, rfl, rfl⟩
  · intro hlarge
    rw [if_neg (by omega)]

theorem parse_eq_malformed_iff_first :
    parse text = .error (.malformed l t) ↔
      ∃ before line after, text.splitOn '\n' = before ++ line :: after ∧ l = before.length + 1 ∧
        (∀ x ∈ before, IsSourceLine x) ∧ ¬ IsSourceLine line ∧ t = code line := by
  rw [parse_eq_malformed_iff, firstMalformed?_eq_some_iff]
  constructor
  · rintro ⟨before, after, hlines, rfl, hgood⟩
    obtain ⟨xs, ys, hsplit, rfl, hys⟩ := List.map_eq_append_iff.mp hlines
    obtain ⟨line, zs, rfl, hread, rfl⟩ := List.map_eq_cons_iff.mp hys
    have hmem : ∀ x ∈ xs ++ line :: zs, '\n' ∉ x := fun x hx =>
      notMem_of_mem_splitOn (by rwa [hsplit])
    obtain ⟨hbad, hcode⟩ := (read_eq_malformed_iff (hmem line (by simp))).mp hread
    refine ⟨xs, line, zs, hsplit, by rw [List.length_map], fun x hx => ?_, hbad, hcode⟩
    exact (malformed?_read_eq_none_iff (hmem x (List.mem_append_left _ hx))).mp
      (hgood _ (List.mem_map_of_mem hx))
  · rintro ⟨before, line, after, hsplit, rfl, hgood, hbad, hcode⟩
    have hmem : ∀ x ∈ before ++ line :: after, '\n' ∉ x := fun x hx =>
      notMem_of_mem_splitOn (by rwa [hsplit])
    have hread := (read_eq_malformed_iff (hmem line (by simp))).mpr ⟨hbad, hcode⟩
    refine ⟨before.map Line.read, after.map Line.read, ?_, by rw [List.length_map], fun x hx => ?_⟩
    · rw [lines, hsplit, List.map_append, List.map_cons, hread]
    · obtain ⟨y, hy, rfl⟩ := List.mem_map.mp hx
      exact (malformed?_read_eq_none_iff (hmem y (List.mem_append_left _ hy))).mpr (hgood y hy)

theorem parse_eq_tooLarge_iff :
    parse text = .error (.tooLarge n) ↔
      ∃ s : Source, s.text = text ∧ s.bytes.length = n ∧ Memory.size < n := by
  constructor
  · intro h
    have hgood : ∀ l ∈ lines text, l.malformed? = none := by
      rw [← firstMalformed?_eq_none_iff]
      exact (length?_parse_eq_some_iff.mp (by rw [h]; rfl)).1
    obtain ⟨s, rfl⟩ := exists_source hgood
    rw [parse_text] at h
    split_ifs at h with hfits
    cases h
    exact ⟨s, rfl, rfl, Nat.lt_of_not_le hfits⟩
  · rintro ⟨s, rfl, rfl, hlarge⟩
    rw [parse_text, if_neg (Nat.not_le.mpr hlarge)]

theorem stripped_of_parse (h : parse text = .error (.malformed l t)) : Stripped t := by
  obtain ⟨before, line, after, hsplit, -, -, hbad, rfl⟩ := parse_eq_malformed_iff_first.mp h
  have hmem : line ∈ text.splitOn '\n' := by
    rw [hsplit]
    exact List.mem_append_right _ List.mem_cons_self
  have hnewline : '\n' ∉ line := notMem_of_mem_splitOn hmem
  have hread : Line.read line = .malformed (code line) :=
    (read_eq_malformed_iff hnewline).mpr ⟨hbad, rfl⟩
  exact stripped_code hnewline (eq_code_of_read hread).2

/-- **Two texts with a newline between them.** If the first has a bad line, this is what is
reported; otherwise a bad line of the second is, with the lines of the first counted in; otherwise
the bytes of the one and of the other are there, and are refused if they are too many together. In
every text the bad line that is reported is the first, behind source lines only; that there are too
many bytes is reported, with their number, if all lines are source lines; and what is reported of a
bad line is not empty and has no comment, no newline and no blanks around it. -/
theorem parse_append_newline :
    (∀ a b l t, parse a = .error (.malformed l t) →
      parse (a ++ '\n' :: b) = .error (.malformed l t)) ∧
    (∀ a b l t m, length? (parse a) = some m → parse b = .error (.malformed l t) →
      parse (a ++ '\n' :: b) = .error (.malformed (l + 1 + a.count '\n') t)) ∧
    (∀ a b m n, length? (parse a) = some m → length? (parse b) = some n →
      (m + n ≤ Memory.size → ∃ bs cs, parse a = .ok bs ∧ parse b = .ok cs ∧
        parse (a ++ '\n' :: b) = .ok (bs ++ cs)) ∧
      (Memory.size < m + n → parse (a ++ '\n' :: b) = .error (.tooLarge (m + n)))) ∧
    ∀ text,
      (∀ l t, parse text = .error (.malformed l t) ↔
        ∃ before line after, text.splitOn '\n' = before ++ line :: after ∧
          l = before.length + 1 ∧ (∀ x ∈ before, IsSourceLine x) ∧ ¬ IsSourceLine line ∧
          t = code line) ∧
      (∀ n, parse text = .error (.tooLarge n) ↔
        ∃ s : Source, s.text = text ∧ s.bytes.length = n ∧ Memory.size < n) ∧
      ∀ l t, parse text = .error (.malformed l t) → Stripped t := by
  refine ⟨fun a b l t ha => parse_append_of_malformed ha,
    fun a b l t m ha hb => parse_append_of_length? ha hb,
    fun a b m n ha hb => parse_append_of_length?_of_length? ha hb, fun text => ⟨?_, ?_, ?_⟩⟩
  · exact fun l t => parse_eq_malformed_iff_first
  · exact fun n => parse_eq_tooLarge_iff
  · exact fun l t h => stripped_of_parse h

/-- A text of 257 bytes, one more than fit. -/
def overfull : List Char := (List.replicate 257 ['1', '\n']).flatten

/-- A bad line is reported even behind too many bytes, and without it their number is. -/
theorem parse_append_newline_overfull :
    parse " #\n12\t# no".toList = .error (.malformed 2 "12".toList) ∧
      parse (overfull ++ '\n' :: " #\n12\t# no".toList) = .error (.malformed 260 "12".toList) ∧
      parse (overfull ++ '\n' :: "101\r".toList) = .error (.tooLarge 258) ∧
      parse ("101\r".toList ++ '\n' :: "11".toList) = .ok [5, 3] ∧ Stripped "12".toList := by
  have hfull : length? (parse overfull) = some 257 := by decide +kernel
  have hbad : parse " #\n12\t# no".toList = .error (.malformed 2 "12".toList) := by decide +kernel
  have hfive : parse "101\r".toList = .ok [5] := by decide +kernel
  have hthree : parse "11".toList = .ok [3] := by decide +kernel
  have hfive' : length? (parse "101\r".toList) = some 1 := by rw [hfive]; rfl
  have hthree' : length? (parse "11".toList) = some 1 := by rw [hthree]; rfl
  have hcount : overfull.count '\n' = 257 := by decide +kernel
  obtain ⟨-, hsecond, hbytes, htext⟩ := parse_append_newline
  have hreport := hsecond overfull _ 2 _ 257 hfull hbad
  rw [hcount] at hreport
  obtain ⟨bs, cs, hbs, hcs, hall⟩ := (hbytes _ _ 1 1 hfive' hthree').1 (by decide)
  obtain rfl := Except.ok.inj (hfive.symm.trans hbs)
  obtain rfl := Except.ok.inj (hthree.symm.trans hcs)
  exact ⟨hbad, hreport, (hbytes overfull _ 257 1 hfull hfive').2 (by decide), hall,
    (htext _).2.2 2 _ hbad⟩

end LS8.Image
