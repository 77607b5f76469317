import LS8.Image
import Mathlib.Data.List.Induction
import Mathlib.Data.Nat.Digits.Defs
import Mathlib.Tactic.Ring

/-! # Images: the grammar

The texts that are images, as a grammar that knows nothing of how they are read. A line of a source
(`SourceLine`) is filler or a literal of one to eight binary digits, with blanks around and a
comment behind as one likes; a source (`Source`) is lines, each with LF or CRLF behind it, and
perhaps a last line with nothing behind it. A source has a text and the bytes it stands for.

* `read_text`: a source line is read as what it is.
* `exists_sourceLine`: every line that is read without complaint is a source line.
* `parse_eq_ok_iff_source`: the texts that are images are those of sources with at most 256 bytes, and the
  image is the bytes of the source.
* `exists_literal_iff`: the literals of a byte are its binary numerals with any padding. -/

namespace LS8.Image

open LS8.Text

/-! ### Lines -/

/-- Blanks within a line. -/
structure Blanks where
  text : List Char
  blank : ∀ c ∈ text, Blank.isBlank c = true
  inLine : '\n' ∉ text

def Blanks.append (v w : Blanks) : Blanks where
  text := v.text ++ w.text
  blank := List.forall_mem_append.mpr ⟨v.blank, w.blank⟩
  inLine := by
    rw [List.mem_append, not_or]
    exact ⟨v.inLine, w.inLine⟩

def Blanks.cr : Blanks := ⟨['\r'], List.forall_mem_singleton.mpr rfl, by decide⟩

/-- The end of a line: nothing, or a `#` with anything behind it. -/
structure Comment where
  text : List Char
  start : ∀ c, text.head? = some c → c = '#'
  inLine : '\n' ∉ text

/-- **One to eight binary digits.** -/
structure Literal where
  digits : List Bool
  pos : 1 ≤ digits.length
  le : digits.length ≤ 8

def bitChar (d : Bool) : Char := if d then '1' else '0'

namespace Literal

def text (l : Literal) : List Char := l.digits.map bitChar

/-- The base-2 value, the first digit being the most significant. -/
def value (l : Literal) : UInt8 := UInt8.ofNat (Nat.ofDigits 2 (l.digits.map Bool.toNat).reverse)

end Literal

/-- **A line of a source.** -/
inductive SourceLine where
  | filler (blanks : Blanks) (comment : Comment)
  | literal (before : Blanks) (digits : Literal) (after : Blanks) (comment : Comment)

namespace SourceLine

def text : SourceLine → List Char
  | filler blanks comment => blanks.text ++ comment.text
  | literal before digits after comment =>
    before.text ++ digits.text ++ after.text ++ comment.text

def value? : SourceLine → Option UInt8
  | filler _ _ => none
  | literal _ digits _ _ => some digits.value

end SourceLine

/-! ### Texts -/

/-- What stands behind a line. -/
inductive LineEnd where
  | lf
  | crlf

def LineEnd.text : LineEnd → List Char
  | lf => ['\n']
  | crlf => ['\r', '\n']

/-- **The source of an image.** -/
structure Source where
  lines : List (SourceLine × LineEnd)
  last : Option SourceLine

namespace Source

def text (s : Source) : List Char :=
  (s.lines.flatMap fun l => l.1.text ++ l.2.text) ++ s.last.elim [] SourceLine.text

/-- The bytes on the lines, in order. -/
def bytes (s : Source) : List UInt8 :=
  (s.lines.map Prod.fst ++ s.last.toList).filterMap SourceLine.value?

end Source

/-! ### A line is read as what it is -/

theorem ne_hash_of_isBlank {c : Char} (h : Blank.isBlank c = true) : c ≠ '#' := by
  rintro rfl
  exact absurd h (by decide)

theorem Literal.text_ne_nil (l : Literal) : l.text ≠ [] := by
  have h := l.pos
  intro hnil
  rw [text, List.map_eq_nil_iff] at hnil
  rw [hnil] at h
  exact absurd h (by decide)

theorem Literal.of_mem_text (l : Literal) :
    ∀ c ∈ l.text, Blank.isBlank c = false ∧ c ≠ '#' := by
  intro c hc
  obtain ⟨d, -, rfl⟩ := List.mem_map.mp hc
  cases d <;> decide

theorem takeWhile_comment (comment : Comment) :
    comment.text.takeWhile (· ≠ '#') = [] := by
  cases h : comment.text with
  | nil => rfl
  | cons c t =>
    have hc : c = '#' := comment.start c (by rw [h]; rfl)
    rw [List.takeWhile_cons_of_neg (by simp [hc])]

/-- What counts of a line is what stands before its comment, without the blanks around it. -/
theorem code_append {a t b : List Char} (ha : ∀ c ∈ a, Blank.isBlank c = true)
    (ht : ∀ c ∈ t, Blank.isBlank c = false ∧ c ≠ '#') (hb : ∀ c ∈ b, Blank.isBlank c = true)
    (comment : Comment) : code (a ++ t ++ b ++ comment.text) = t := by
  have hhash : ∀ c ∈ a ++ t ++ b, decide (c ≠ '#') = true := by
    intro c hc
    simp only [List.mem_append] at hc
    rcases hc with (hc | hc) | hc
    · exact decide_eq_true (ne_hash_of_isBlank (ha c hc))
    · exact decide_eq_true (ht c hc).2
    · exact decide_eq_true (ne_hash_of_isBlank (hb c hc))
  rw [code, List.takeWhile_append_of_pos hhash, takeWhile_comment, List.append_nil,
    Blank.trim_append ha (fun c hc => (ht c hc).1) hb]

theorem ofDigits_eq_ofDigits_reverse (b : Nat) (ds : List Nat) :
    Numeral.ofDigits b ds = Nat.ofDigits b ds.reverse := by
  induction ds using List.reverseRecOn with
  | nil => rfl
  | append_singleton ds d ih =>
    rw [Numeral.ofDigits_concat, List.reverse_append, List.reverse_singleton, List.singleton_append,
      Nat.ofDigits_cons, ih]
    ring

theorem literal?_text (l : Literal) : literal? l.text = some l.value := by
  have hpos := l.pos
  have hle := l.le
  have hall : l.text.all (fun c => c = '0' || c = '1') = true := by
    rw [List.all_eq_true]
    intro c hc
    obtain ⟨d, -, rfl⟩ := List.mem_map.mp hc
    cases d <;> rfl
  have hdigits : (l.text.map fun c => if c = '1' then 1 else 0) = l.digits.map Bool.toNat := by
    rw [Literal.text, List.map_map]
    refine List.map_congr_left fun d _ => ?_
    cases d <;> rfl
  have hlen : 0 < l.text.length ∧ l.text.length ≤ maxLiteralDigits := by
    rw [Literal.text, List.length_map]
    exact ⟨hpos, hle⟩
  rw [literal?, if_pos ⟨hlen.1, hlen.2, hall⟩, hdigits, ofDigits_eq_ofDigits_reverse]
  rfl

/-- What a source line is read as. -/
def SourceLine.line (l : SourceLine) : Line := l.value?.elim .filler .literal

theorem read_text (l : SourceLine) : Line.read l.text = l.line := by
  cases l with
  | filler blanks comment =>
    have hcode : code (blanks.text ++ comment.text) = [] := by
      have h := code_append blanks.blank (t := []) (b := []) (by simp) (by simp) comment
      simpa using h
    rw [Line.read, SourceLine.text, if_pos hcode]
    rfl
  | literal before digits after comment =>
    have hcode : code (before.text ++ digits.text ++ after.text ++ comment.text) = digits.text :=
      code_append before.blank digits.of_mem_text after.blank comment
    rw [Line.read, SourceLine.text, hcode, if_neg digits.text_ne_nil, literal?_text]
    rfl

/-! ### Every good line is a source line -/

theorem exists_literal_of_literal? {t : List Char} {v : UInt8} (h : literal? t = some v) :
    ∃ l : Literal, l.text = t := by
  unfold literal? at h
  split at h
  · next hlit =>
    obtain ⟨hpos, hle, hall⟩ := hlit
    have htext : (t.map fun c => decide (c = '1')).map bitChar = t := by
      rw [List.map_map]
      refine (List.map_congr_left fun c hc => ?_).trans (List.map_id t)
      have hc := List.all_eq_true.mp hall c hc
      simp only [Bool.or_eq_true, decide_eq_true_eq] at hc
      rcases hc with rfl | rfl <;> rfl
    exact ⟨⟨t.map fun c => decide (c = '1'), by rw [List.length_map]; exact hpos,
      by rw [List.length_map]; exact hle⟩, htext⟩
  · cases h

theorem exists_comment {line : List Char} (h : '\n' ∉ line) :
    ∃ comment : Comment, line = line.takeWhile (· ≠ '#') ++ comment.text := by
  have hsplit : line = line.takeWhile (· ≠ '#') ++ line.dropWhile (· ≠ '#') :=
    List.takeWhile_append_dropWhile.symm
  refine ⟨⟨line.dropWhile (· ≠ '#'), fun c hc => ?_, fun hmem => ?_⟩, hsplit⟩
  · have hnot := List.head?_dropWhile_not (· ≠ '#') line
    rw [hc] at hnot
    simpa using hnot
  · exact h ((List.dropWhile_suffix _).subset hmem)

theorem exists_sourceLine {line : List Char} (h : '\n' ∉ line)
    (hread : (Line.read line).malformed? = none) : ∃ l : SourceLine, l.text = line := by
  obtain ⟨comment, hline⟩ := exists_comment h
  obtain ⟨a, b, hcode, ha, hb⟩ := Blank.exists_trim (line.takeWhile (· ≠ '#'))
  change line.takeWhile (· ≠ '#') = a ++ code line ++ b at hcode
  have hmem : '\n' ∉ a ++ code line ++ b := by
    rw [← hcode]
    exact fun hc => h ((List.takeWhile_prefix _).subset hc)
  simp only [List.mem_append, not_or] at hmem
  obtain ⟨⟨hna, -⟩, hnb⟩ := hmem
  rw [hcode] at hline
  unfold Line.read at hread
  by_cases hempty : code line = []
  · -- nothing but blanks before the comment
    rw [hempty, List.append_nil] at hline
    exact ⟨.filler (.append ⟨a, ha, hna⟩ ⟨b, hb, hnb⟩) comment, hline.symm⟩
  · rw [if_neg hempty] at hread
    cases hlit : literal? (code line) with
    | none => rw [hlit] at hread; cases hread
    | some v =>
      obtain ⟨l, hl⟩ := exists_literal_of_literal? hlit
      rw [← hl] at hline
      exact ⟨.literal ⟨a, ha, hna⟩ l ⟨b, hb, hnb⟩ comment, hline.symm⟩

/-! ### Sources are images -/

theorem SourceLine.newline_notMem_text (l : SourceLine) : '\n' ∉ l.text := by
  cases l with
  | filler blanks comment =>
    rw [text, List.mem_append, not_or]
    exact ⟨blanks.inLine, comment.inLine⟩
  | literal before digits after comment =>
    have hdigits : '\n' ∉ digits.text := by
      intro h
      exact absurd (digits.of_mem_text _ h).1 (by decide)
    simp only [text, List.mem_append, not_or]
    exact ⟨⟨⟨before.inLine, hdigits⟩, after.inLine⟩, comment.inLine⟩

theorem Comment.exists_return (w : Comment) (h : w.text ≠ []) :
    ∃ w' : Comment, w'.text = w.text ++ ['\r'] := by
  refine ⟨⟨w.text ++ ['\r'], fun c hc => ?_, ?_⟩, rfl⟩
  · obtain ⟨d, t, hw⟩ := List.exists_cons_of_ne_nil h
    refine w.start c ?_
    rw [hw] at hc ⊢
    exact hc
  · rw [List.mem_append, not_or]
    exact ⟨w.inLine, by decide⟩

/-- A carriage return at the end of a line is one more blank, or part of the comment. -/
theorem SourceLine.exists_return (l : SourceLine) :
    ∃ l' : SourceLine, l'.text = l.text ++ ['\r'] ∧ l'.value? = l.value? := by
  cases l with
  | filler blanks comment =>
    by_cases h : comment.text = []
    · exact ⟨.filler (blanks.append .cr) comment,
        by simp [text, Blanks.append, Blanks.cr, h], rfl⟩
    · obtain ⟨w, hw⟩ := comment.exists_return h
      exact ⟨.filler blanks w, by simp [text, hw], rfl⟩
  | literal before digits after comment =>
    by_cases h : comment.text = []
    · exact ⟨.literal before digits (after.append .cr) comment,
        by simp [text, Blanks.append, Blanks.cr, h], rfl⟩
    · obtain ⟨w, hw⟩ := comment.exists_return h
      exact ⟨.literal before digits after w, by simp [text, hw], rfl⟩

theorem lines_of_notMem {line : List Char} (h : '\n' ∉ line) : lines line = [Line.read line] := by
  rw [lines, List.splitOn_eq_singleton h]
  rfl

theorem lines_text (l : SourceLine) : lines l.text = [l.line] := by
  rw [lines_of_notMem l.newline_notMem_text, read_text]

theorem lines_text_append (l : SourceLine) (e : LineEnd) (rest : List Char) :
    lines (l.text ++ e.text ++ rest) = l.line :: lines rest := by
  cases e with
  | lf =>
    have h := lines_append l.text rest
    rw [lines_text] at h
    simpa [LineEnd.text] using h
  | crlf =>
    obtain ⟨l', htext, hvalue⟩ := l.exists_return
    have h := lines_append l'.text rest
    rw [lines_text, SourceLine.line, hvalue, htext] at h
    simpa [LineEnd.text, SourceLine.line] using h

theorem lines_source (ls : List (SourceLine × LineEnd)) (last : Option SourceLine) :
    lines (Source.text ⟨ls, last⟩) =
      ls.map (fun l => l.1.line) ++ [last.elim .filler SourceLine.line] := by
  induction ls with
  | nil =>
    cases last with
    | none => rfl
    | some l => exact lines_text l
  | cons l ls ih =>
    have htext : Source.text ⟨l :: ls, last⟩ = l.1.text ++ l.2.text ++ Source.text ⟨ls, last⟩ := by
      simp [Source.text]
    rw [htext, lines_text_append, ih]
    rfl

@[simp] theorem SourceLine.malformed?_line (l : SourceLine) : l.line.malformed? = none := by
  cases l <;> rfl

@[simp] theorem SourceLine.value?_line (l : SourceLine) : l.line.value? = l.value? := by
  cases l <;> rfl

/-- **A source is the image of its bytes when they fit.** -/
theorem parse_text (s : Source) :
    parse s.text =
      if s.bytes.length ≤ Memory.size then .ok s.bytes else .error (.tooLarge s.bytes.length) := by
  have hlines : lines s.text =
      s.lines.map (fun l => l.1.line) ++ [s.last.elim .filler SourceLine.line] :=
    lines_source s.lines s.last
  have hgood : firstMalformed? (lines s.text) = none := by
    rw [firstMalformed?_eq_none_iff, hlines]
    intro l hl
    rcases List.mem_append.mp hl with hl | hl
    · obtain ⟨k, -, rfl⟩ := List.mem_map.mp hl
      exact k.1.malformed?_line
    · rw [List.mem_singleton.mp hl]
      cases s.last with
      | none => rfl
      | some k => exact k.malformed?_line
  have hbytes : (lines s.text).filterMap Line.value? = s.bytes := by
    rw [hlines, Source.bytes, List.filterMap_append, List.filterMap_append]
    congr 1
    · rw [List.filterMap_map, List.filterMap_map]
      congr 1
      funext l
      exact l.1.value?_line
    · cases s.last with
      | none => rfl
      | some k => cases k <;> rfl
  rw [parse, hgood]
  simp only [hbytes]

/-! ### Images are sources -/

/-- Every text without a bad line is a source. -/
theorem exists_source {text : List Char} (h : ∀ l ∈ lines text, l.malformed? = none) :
    ∃ s : Source, s.text = text := by
  -- the induction cuts the text behind its first newline
  induction hn : text.length using Nat.strong_induction_on generalizing text with
  | _ n ih =>
    by_cases hnewline : '\n' ∈ text
    · obtain ⟨line, rest, rfl, hline⟩ := List.eq_append_cons_of_mem hnewline
      rw [lines_append] at h
      have hfirst : (Line.read line).malformed? = none := by
        refine h _ (List.mem_append_left _ ?_)
        rw [lines_of_notMem hline]
        exact List.mem_singleton_self _
      obtain ⟨l, hl⟩ := exists_sourceLine hline hfirst
      have hlt : rest.length < n := by
        rw [← hn, List.length_append, List.length_cons]
        omega
      obtain ⟨s, hs⟩ := ih _ hlt (fun l hl => h l (List.mem_append_right _ hl)) rfl
      refine ⟨⟨(l, .lf) :: s.lines, s.last⟩, ?_⟩
      rw [← hs, ← hl]
      simp [Source.text, LineEnd.text]
    · have hread : (Line.read text).malformed? = none := by
        refine h _ ?_
        rw [lines_of_notMem hnewline]
        exact List.mem_singleton_self _
      obtain ⟨l, hl⟩ := exists_sourceLine hnewline hread
      exact ⟨⟨[], some l⟩, hl⟩

theorem malformed?_of_parse {text : List Char} {bs : List UInt8} (h : parse text = .ok bs) :
    ∀ l ∈ lines text, l.malformed? = none := by
  rw [← firstMalformed?_eq_none_iff]
  unfold parse at h
  split at h
  · cases h
  · assumption

/-! ### The literals of a byte -/

theorem bitChar_eq_digitChar (d : Bool) : bitChar d = d.toNat.digitChar := by cases d <;> rfl

theorem exists_bits {ds : List Nat} (h : ∀ d ∈ ds, d < 2) :
    ∃ bits : List Bool, bits.map Bool.toNat = ds := by
  refine ⟨ds.map fun d => decide (d = 1), ?_⟩
  rw [List.map_map]
  refine (List.map_congr_left fun d hd => ?_).trans (List.map_id ds)
  rcases Nat.lt_succ_iff_lt_or_eq.mp (h d hd) with h | rfl
  · rw [Nat.lt_one_iff.mp h]
    rfl
  · rfl

theorem length_digits_le {b k n : Nat} (hb : 2 ≤ b) (hk : 1 ≤ k) (h : n < b ^ k) :
    (Numeral.digits b n).length ≤ k := by
  induction k generalizing n with
  | zero => omega
  | succ k ih =>
    rcases Nat.lt_or_ge n b with hlt | hle
    · rw [Numeral.digits_of_lt hlt]
      exact hk
    · have hpos : 1 ≤ k := by
        rcases Nat.eq_zero_or_pos k with rfl | hpos
        · rw [Nat.zero_add, Nat.pow_one] at h
          omega
        · exact hpos
      have hdiv : n / b < b ^ k := by
        rw [Nat.div_lt_iff_lt_mul (by omega), ← Nat.pow_succ]
        exact h
      rw [Numeral.digits_of_le hb hle, List.length_append]
      exact Nat.succ_le_succ (ih hpos hdiv)

/-- The binary numeral of a byte, padded with zeros to `width` digits. -/
def binary (width : Nat) (b : UInt8) : List Char :=
  ((Numeral.digits 2 b.toNat).map Nat.digitChar).leftpad width '0'

theorem length_digits_byte_le (b : UInt8) : (Numeral.digits 2 b.toNat).length ≤ 8 :=
  length_digits_le (by decide) (by decide) b.toNat_lt

theorem exists_literal (b : UInt8) {width : Nat} (hwidth : width ≤ 8) :
    ∃ l : Literal, l.text = binary width b ∧ l.value = b := by
  have hle := length_digits_byte_le b
  have hpos := List.length_pos_iff.mpr (Numeral.digits_ne_nil 2 b.toNat)
  have hlen : ((Numeral.digits 2 b.toNat).leftpad width 0).length =
      max width (Numeral.digits 2 b.toNat).length := List.length_leftpad
  have hds : ∀ d ∈ (Numeral.digits 2 b.toNat).leftpad width 0, d < 2 := by
    intro d hd
    rcases List.mem_append.mp hd with hd | hd
    · rw [List.eq_of_mem_replicate hd]
      decide
    · exact Numeral.lt_of_mem_digits (by decide) hd
  obtain ⟨bits, hbits⟩ := exists_bits hds
  rw [← hbits, List.length_map] at hlen
  refine ⟨⟨bits, by omega, by omega⟩, ?_, ?_⟩
  · calc bits.map bitChar
        = (bits.map Bool.toNat).map Nat.digitChar := by
          rw [List.map_map]
          exact List.map_congr_left fun d _ => bitChar_eq_digitChar d
      _ = binary width b := by
          rw [hbits]
          simp [binary, List.leftpad, Nat.digitChar]
  · have hvalue : Numeral.ofDigits 2 (bits.map Bool.toNat) = b.toNat := by
      rw [hbits]
      exact (Numeral.ofDigits_replicate_append ..).trans (Numeral.ofDigits_digits ..)
    rw [Literal.value, ← ofDigits_eq_ofDigits_reverse, hvalue, UInt8.ofNat_toNat]

theorem Literal.lt_two (l : Literal) : ∀ d ∈ (l.digits.map Bool.toNat).reverse, d < 2 := by
  intro d hd
  obtain ⟨k, -, rfl⟩ := List.mem_map.mp (List.mem_reverse.mp hd)
  exact k.toNat_lt

theorem Literal.toNat_value (l : Literal) :
    l.value.toNat = Nat.ofDigits 2 (l.digits.map Bool.toNat).reverse ∧
      l.value.toNat < 2 ^ l.digits.length := by
  have hlt : Nat.ofDigits 2 (l.digits.map Bool.toNat).reverse < 2 ^ l.digits.length := by
    have h := Nat.ofDigits_lt_base_pow_length (by decide) l.lt_two
    rwa [List.length_reverse, List.length_map] at h
  have hbyte : (2 : Nat) ^ l.digits.length ≤ 2 ^ 8 := Nat.pow_le_pow_right (by decide) l.le
  have hval : l.value.toNat = Nat.ofDigits 2 (l.digits.map Bool.toNat).reverse := by
    rw [value, UInt8.toNat_ofNat', Nat.mod_eq_of_lt (by omega)]
  exact ⟨hval, hval ▸ hlt⟩

theorem Literal.digits_eq {l l' : Literal} (hlen : l.digits.length = l'.digits.length)
    (hvalue : l.value = l'.value) : l.digits = l'.digits := by
  have hnat : Nat.ofDigits 2 (l.digits.map Bool.toNat).reverse =
      Nat.ofDigits 2 (l'.digits.map Bool.toNat).reverse := by
    rw [← l.toNat_value.1, ← l'.toNat_value.1, hvalue]
  have hlists := Nat.ofDigits_inj_of_len_eq (by decide) (by simp [hlen]) l.lt_two l'.lt_two hnat
  refine (List.map_inj_right fun a b hab => ?_).mp (List.reverse_inj.mp hlists)
  cases a <;> cases b <;> first | rfl | cases hab

/-- **The literals of a byte** are its binary numerals with any padding up to eight digits. -/
theorem exists_literal_iff (b : UInt8) (t : List Char) :
    (∃ l : Literal, l.text = t ∧ l.value = b) ↔ ∃ width ≤ 8, t = binary width b := by
  constructor
  · rintro ⟨l, rfl, rfl⟩
    refine ⟨l.digits.length, l.le, ?_⟩
    obtain ⟨l', htext, hvalue⟩ := exists_literal l.value l.le
    have hdigits := length_digits_le (by decide) l.pos l.toNat_value.2
    have hlen : l'.digits.length = l.digits.length := by
      have h := congrArg List.length htext
      rw [Literal.text, List.length_map, binary, List.length_leftpad, List.length_map] at h
      omega
    rw [← htext, Literal.text, Literal.text, Literal.digits_eq hlen hvalue]
  · rintro ⟨width, hwidth, rfl⟩
    exact exists_literal b hwidth

/-! ### The grammar -/

/-- **The texts that are images are the sources whose bytes fit into memory**, and the image is the
bytes. So a source is the image of its bytes whatever stands around its literals, and a literal is
the binary numeral of its byte with any padding. -/
theorem parse_eq_ok_iff_source :
    (∀ (text : List Char) (bs : List UInt8), parse text = .ok bs ↔
      ∃ s : Source, s.text = text ∧ s.bytes = bs ∧ bs.length ≤ Memory.size) ∧
    (∀ s : Source, s.bytes.length ≤ Memory.size → parse s.text = .ok s.bytes) ∧
    ∀ (b : UInt8) (t : List Char),
      (∃ l : Literal, l.text = t ∧ l.value = b) ↔ ∃ width ≤ 8, t = binary width b := by
  have hsource : ∀ s : Source, s.bytes.length ≤ Memory.size → parse s.text = .ok s.bytes := by
    intro s hs
    rw [parse_text, if_pos hs]
  refine ⟨fun text bs => ⟨fun h => ?_, ?_⟩, hsource, exists_literal_iff⟩
  · obtain ⟨s, rfl⟩ := exists_source (malformed?_of_parse h)
    have hfits := length_le_of_parse h
    -- what the bytes are is settled by reading the source back
    rw [parse_text] at h
    split at h
    · exact ⟨s, rfl, Except.ok.inj h, hfits⟩
    · cases h
  · rintro ⟨s, rfl, rfl, hs⟩
    exact hsource s hs

/-- A heading, a literal without padding between blanks, and one with all eight digits. -/
def paddedSource : Source where
  lines :=
    [(.filler ⟨[], List.forall_mem_nil _, by decide⟩ ⟨['#', '1'], by simp, by decide⟩, .crlf),
      (.literal ⟨['\u3000'], List.forall_mem_singleton.mpr rfl, by decide⟩
        ⟨[true, false, true], by decide, by decide⟩
        ⟨['\t'], List.forall_mem_singleton.mpr rfl, by decide⟩
        ⟨['#', '0', '#'], by simp, by decide⟩, .crlf),
      (.filler ⟨[' '], List.forall_mem_singleton.mpr rfl, by decide⟩ ⟨[], by simp, by decide⟩, .lf)]
  last := some (.literal ⟨[], List.forall_mem_nil _, by decide⟩
    ⟨[false, false, false, false, false, false, true, true], by decide, by decide⟩
    ⟨[' '], List.forall_mem_singleton.mpr rfl, by decide⟩ ⟨[], by simp, by decide⟩)

theorem parse_paddedSource :
    paddedSource.text = "#1\r\n\u3000101\t#0#\r\n \n00000011 ".toList ∧
      paddedSource.bytes.length ≤ Memory.size ∧ parse paddedSource.text = .ok [5, 3] :=
  ⟨by decide, by decide, parse_eq_ok_iff_source.2.1 paddedSource (by decide)⟩

end LS8.Image
