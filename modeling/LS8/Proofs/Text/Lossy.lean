import LS8.Text.Utf8
import Mathlib.Data.Nat.Notation
import Mathlib.Tactic.SplitIfs

/-! # Text: plain characters in lossy text

A byte below 0x80 between two characters is a character of its own, whatever comes before or after
it, and the character that longer sequences of bytes make is beyond these. So where lossy text shows
a plain character, the byte of that character stands.

* `lossy_cons_of_lt`: a byte below 0x80 at the front.
* `exists_head?_lossy`: any other byte at the front.
* `lossy_eq_iff_of_plain`: only one sequence of bytes is shown as a given plain text. -/

namespace LS8.Text.Utf8

/-! ### Pieces in front -/

namespace Scan

variable {s : Scan} {ps : Array (Option Char)}

/-- A scan with more pieces in front of those read so far. -/
def behind (ps : Array (Option Char)) (s : Scan) : Scan := ⟨ps ++ s.pieces, s.pending⟩

theorem lead_behind (n : ℕ) : (s.behind ps).lead n = (s.lead n).behind ps := by
  unfold lead
  split
  · simp [behind]
  · cases Pending.ofLead? n with
    | some p => rfl
    | none => simp [behind]

theorem follow_behind (p : Pending) (n : ℕ) :
    (s.behind ps).follow p n = (s.follow p n).behind ps := by
  unfold follow
  split
  · simp only
    split
    · simp [behind]
    · rfl
  · rw [← lead_behind]
    simp [behind]

theorem next_behind (b : UInt8) : (s.behind ps).next b = (s.next b).behind ps := by
  obtain ⟨pieces, pending⟩ := s
  cases pending with
  | none => exact lead_behind b.toNat
  | some p => exact follow_behind p b.toNat

theorem foldl_next_behind (bytes : List UInt8) :
    bytes.foldl next (s.behind ps) = (bytes.foldl next s).behind ps := by
  induction bytes generalizing s with
  | nil => rfl
  | cons b bytes ih => rw [List.foldl_cons, List.foldl_cons, next_behind, ih]

theorem finish_behind : (s.behind ps).finish = ps.toList ++ s.finish := by
  unfold finish behind
  dsimp only
  split <;> simp

theorem finish_foldl_next (bytes : List UInt8) :
    (bytes.foldl next ⟨ps, none⟩).finish = ps.toList ++ decode bytes := by
  have hbehind : (⟨ps, none⟩ : Scan) = behind ps {} := by simp [behind]
  rw [hbehind, foldl_next_behind, finish_behind, decode]

end Scan

/-! ### Plain characters -/

/-- A character that one byte below 0x80 makes, other than zero, as which every number is read that
is no character. -/
def IsPlain (c : Char) : Prop := 0 < c.toNat ∧ c.toNat < 0x80

instance : DecidablePred IsPlain := fun c => inferInstanceAs (Decidable (0 < c.toNat ∧ _))

theorem toNat_ofNat_of_lt {n : ℕ} (h : n < 0x80) : (Char.ofNat n).toNat = n := by
  rw [Char.ofNat, dif_pos (Or.inl (by omega))]
  rfl

theorem not_isPlain_ofNat {n : ℕ} (h : 0x80 ≤ n) : ¬ IsPlain (Char.ofNat n) := by
  rintro ⟨hpos, hlt⟩
  by_cases hvalid : n.isValidChar
  · rw [Char.ofNat, dif_pos hvalid] at hlt
    exact Nat.not_lt.mpr h hlt
  · rw [Char.ofNat, dif_neg hvalid] at hpos
    exact Nat.lt_irrefl 0 hpos

theorem lossy_cons_of_lt {b : UInt8} (h : b.toNat < 0x80) (bytes : List UInt8) :
    lossy (b :: bytes) = Char.ofNat b.toNat :: lossy bytes := by
  have hread : Scan.next {} b = ⟨#[some (Char.ofNat b.toNat)], none⟩ := if_pos h
  rw [lossy, decode, List.foldl_cons, hread, Scan.finish_foldl_next]
  rfl

/-- The character that has begun is none below 0x80. -/
def Pending.IsLong (p : Pending) : Prop :=
  0x80 ≤ p.low ∧ (2 ≤ p.bits ∨ 2 ≤ p.owed ∧ 0x82 ≤ p.bits * 64 + p.low)

theorem Pending.isLong_of_ofLead? {n : ℕ} {p : Pending} (h : ofLead? n = some p) : p.IsLong := by
  unfold ofLead? at h
  split_ifs at h
  all_goals
    obtain rfl := Option.some.inj h
    unfold IsLong
    dsimp only
    omega

theorem not_isPlain_replacement : ¬ IsPlain '\uFFFD' := fun h => absurd h.2 (by decide)

/-- What a longer sequence of bytes is read as is broken or no plain character. -/
theorem exists_head?_finish {p : Pending} (hp : p.IsLong) (bytes : List UInt8) :
    ∃ piece, (bytes.foldl Scan.next ⟨#[], some p⟩).finish.head? = some piece ∧
      ¬ IsPlain (piece.getD '\uFFFD') := by
  induction bytes generalizing p with
  | nil => exact ⟨none, rfl, not_isPlain_replacement⟩
  | cons b bytes ih =>
    obtain ⟨hlow, hbits⟩ := hp
    have hnext : Scan.next ⟨#[], some p⟩ b = Scan.follow ⟨#[], some p⟩ p b.toNat := rfl
    rw [List.foldl_cons, hnext]
    by_cases hin : p.low ≤ b.toNat ∧ b.toNat ≤ p.high
    · rcases Nat.lt_or_ge 1 p.owed with howed | howed
      · rw [Scan.follow_of_lt hin.1 hin.2 howed]
        exact ih ⟨Nat.le_refl _, .inl (by dsimp only; omega)⟩
      · rw [Scan.follow_of_le hin.1 hin.2 howed, Scan.finish_foldl_next]
        refine ⟨some (Char.ofNat (p.bits * 64 + (b.toNat - 0x80))), rfl, ?_⟩
        rw [Option.getD_some]
        exact not_isPlain_ofNat (by omega)
    · -- the character is broken off, and the broken piece comes first
      have hbroken :
          Scan.follow ⟨#[], some p⟩ p b.toNat = (Scan.lead {} b.toNat).behind #[none] := by
        rw [Scan.follow, if_neg hin, ← Scan.lead_behind]
        rfl
      rw [hbroken, Scan.foldl_next_behind, Scan.finish_behind]
      exact ⟨none, rfl, not_isPlain_replacement⟩

theorem exists_head?_lossy {b : UInt8} (h : 0x80 ≤ b.toNat) (bytes : List UInt8) :
    ∃ c, (lossy (b :: bytes)).head? = some c ∧ ¬ IsPlain c := by
  have hread : Scan.next {} b = Scan.lead {} b.toNat := rfl
  rw [lossy, List.head?_map, decode, List.foldl_cons, hread, Scan.lead, if_neg (Nat.not_lt.mpr h)]
  cases hlead : Pending.ofLead? b.toNat with
  | some p =>
    obtain ⟨piece, hpiece, hplain⟩ :=
      exists_head?_finish (Pending.isLong_of_ofLead? hlead) bytes
    exact ⟨_, congrArg (Option.map _) hpiece, hplain⟩
  | none =>
    dsimp only
    rw [Scan.finish_foldl_next]
    exact ⟨_, rfl, not_isPlain_replacement⟩

/-! ### Plain text -/

theorem utf8EncodeChar_of_isPlain {c : Char} (h : IsPlain c) :
    String.utf8EncodeChar c = [UInt8.ofNat c.toNat] :=
  if_pos (Nat.le_of_lt_succ h.2)

/-- **Lossy text begins with a plain character** exactly if the bytes do. -/
theorem head?_lossy_eq_some_iff {c : Char} (h : IsPlain c) (bytes : List UInt8) :
    (lossy bytes).head? = some c ↔ bytes.head? = some (UInt8.ofNat c.toNat) := by
  cases bytes with
  | nil => simp [lossy, decode, Scan.finish]
  | cons b bytes =>
    rw [List.head?_cons, Option.some.injEq]
    rcases Nat.lt_or_ge b.toNat 0x80 with hlt | hle
    · rw [lossy_cons_of_lt hlt, List.head?_cons, Option.some.injEq]
      constructor
      · rintro rfl
        rw [toNat_ofNat_of_lt hlt, UInt8.ofNat_toNat]
      · rintro rfl
        rw [UInt8.toNat_ofNat_of_lt' (Nat.lt_trans h.2 (by decide)), Char.ofNat_toNat]
    · obtain ⟨d, hd, hplain⟩ := exists_head?_lossy hle bytes
      rw [hd, Option.some.injEq]
      refine iff_of_false (fun hdc => hplain (hdc ▸ h)) ?_
      rintro rfl
      rw [UInt8.toNat_ofNat_of_lt' (Nat.lt_trans h.2 (by decide))] at hle
      exact Nat.not_le.mpr h.2 hle

theorem lossy_eq_iff_of_plain {t : List Char} (h : ∀ c ∈ t, IsPlain c) (bytes : List UInt8) :
    lossy bytes = t ↔ bytes = encode t := by
  refine ⟨fun hshown => ?_, fun hbytes => by rw [hbytes, lossy_encode]⟩
  induction bytes generalizing t with
  | nil => rw [← hshown]; rfl
  | cons b bytes ih =>
    have hhead : ∀ c, (lossy (b :: bytes)).head? = some c → IsPlain c := fun c hc =>
      h c (List.mem_of_mem_head? (hshown ▸ hc))
    rcases Nat.lt_or_ge b.toNat 0x80 with hlt | hle
    · rw [lossy_cons_of_lt hlt] at hshown hhead
      subst hshown
      have hplain := hhead _ rfl
      rw [encode_cons, utf8EncodeChar_of_isPlain hplain, toNat_ofNat_of_lt hlt, UInt8.ofNat_toNat,
        List.singleton_append]
      exact congrArg _ (ih (fun c hc => h c (List.mem_cons_of_mem _ hc)) rfl)
    · obtain ⟨c, hc, hplain⟩ := exists_head?_lossy hle bytes
      exact absurd (hhead c hc) hplain

end LS8.Text.Utf8
