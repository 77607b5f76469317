import LS8.Proofs.Instruction.Faults
import Mathlib.Data.Int.ModEq

/-! # Arithmetic: sequences of requests

A request to the arithmetic unit is three bytes, a code and two operands. It is read in this order,
and then carried out if nothing is wrong with it; a request that fails changes nothing and does not
keep the next from being carried out.

The bytes that a sequence of requests leaves are compared with unbounded integers, on which the
same sums, differences and products are computed without any reduction. The invariant is that every
register is congruent to its integer modulo 256. One calculation keeps it, whichever two registers
it is about (`Calculation.Yields.modEq_onIntegers`), and a division does not, so only sequences
without one are compared.

* `answer_eq_error_iff`: a request fails with the first thing that is wrong with it.
* `Calculation.yields_of_apply`: what a calculation changes.
* `after_modEq_integers`: any sequence of requests, on any registers and flags. -/

namespace LS8

open Function (update)

/-! ### Operations -/

namespace AluOp

theorem ofCode_eq_ok_iff {c : UInt8} {op : AluOp} : ofCode c = .ok op ↔ op.code = c := by
  constructor
  · intro h
    unfold ofCode at h
    split at h
    · next found hfound =>
      obtain rfl := Except.ok.inj h
      simpa using List.find?_some hfound
    · cases h
  · rintro rfl
    exact ofCode_code op

theorem ofCode_eq_error_iff {c : UInt8} {f : Fault} :
    ofCode c = .error f ↔ c ∉ all.map code ∧ f = .unsupportedAluOperation c := by
  have hmem : c ∈ all.map code ↔ ∃ op, ofCode c = .ok op := by
    rw [List.mem_map]
    constructor
    · rintro ⟨op, -, rfl⟩
      exact ⟨op, ofCode_code op⟩
    · rintro ⟨op, hop⟩
      exact ⟨op, by cases op <;> decide, ofCode_eq_ok_iff.mp hop⟩
  rw [hmem]
  unfold ofCode
  split
  · simp
  · simp [eq_comm]

/-- What an operation on `x` and `y` puts into the first register, as a number; nothing for a
comparison. -/
def value? (x y : ℕ) : AluOp → Option ℕ
  | add => some ((x + y) % 256)
  | sub => some ((x + 256 - y) % 256)
  | mul => some (x * y % 256)
  | div => some (x / y)
  | cmp => none

theorem value?_eq_none_iff {op : AluOp} {x y : ℕ} : op.value? x y = none ↔ op = cmp := by
  cases op <;> simp [value?]

/-- The sum, difference or product of `x` and `y`. -/
def integer? (x y : ℤ) : AluOp → Option ℤ
  | add => some (x + y)
  | sub => some (x - y)
  | mul => some (x * y)
  | div | cmp => none

theorem value?_of_result {op : AluOp} {x y : UInt8} {v : Option UInt8}
    (h : op.result x y = .ok v) : op.value? x.toNat y.toNat = v.map UInt8.toNat := by
  unfold result at h
  cases op with
  | add | mul =>
    cases h
    simp [value?]
  | sub =>
    have hy := y.toNat_lt
    have hsub : (x - y).toNat = (x.toNat + 256 - y.toNat) % 256 := by
      rw [UInt8.toNat_sub]
      omega
    cases h
    rw [Option.map_some, hsub, value?]
  | div =>
    split_ifs at h
    cases h
    simp [value?]
  | cmp =>
    cases h
    rfl

theorem modEq_integer? {op : AluOp} {x y : ℕ} {X Y : ℤ} (hy : y < 256)
    (hX : (x : ℤ) ≡ X [ZMOD 256]) (hY : (y : ℤ) ≡ Y [ZMOD 256]) (hop : op ≠ div) :
    Option.Rel (fun (v : ℕ) V => (v : ℤ) ≡ V [ZMOD 256]) (op.value? x y) (op.integer? X Y) := by
  cases op with
  | add =>
    refine .some ?_
    rw [Int.natCast_mod, Nat.cast_add]
    exact (Int.mod_modEq _ _).trans (hX.add hY)
  | sub =>
    -- as `y` is a byte, the difference of the numbers is not cut off at zero
    have hcast : ((x + 256 - y : ℕ) : ℤ) = x - y + 256 := by omega
    refine .some ?_
    rw [Int.natCast_mod, hcast]
    exact (Int.mod_modEq _ _).trans (Int.add_modEq_right.trans (hX.sub hY))
  | mul =>
    refine .some ?_
    rw [Int.natCast_mod, Nat.cast_mul]
    exact (Int.mod_modEq _ _).trans (hX.mul hY)
  | div => exact absurd rfl hop
  | cmp => exact .none

end AluOp

/-! ### Calculations -/

/-- An operation on two registers, which may be the same. -/
structure Calculation where
  op : AluOp
  a : Register
  b : Register
deriving DecidableEq

namespace Calculation

variable {c : Calculation} {s t : AluState}

/-- The state after a calculation. -/
def apply (c : Calculation) (s : AluState) : Except Fault AluState := c.op.apply c.a c.b s

/-- The calculation on integers in place of bytes. Sums, differences and products are not reduced;
the rest changes nothing. -/
def onIntegers (x : Register → ℤ) (c : Calculation) : Register → ℤ :=
  (c.op.integer? (x c.a) (x c.b)).elim x (update x c.a)

theorem apply_eq_ok_iff :
    c.apply s = .ok t ↔ ∃ v, c.op.result (s.registers.get c.a) (s.registers.get c.b) = .ok v ∧
      t.registers = v.elim s.registers (s.registers.set c.a) ∧
      t.flags = if v = none then .ofComparison (s.registers.get c.a) (s.registers.get c.b)
        else s.flags := by
  unfold apply AluOp.apply
  cases hresult : c.op.result (s.registers.get c.a) (s.registers.get c.b) with
  | error f => simp [hresult]
  | ok v =>
    cases v with
    | none => simp [hresult, AluState.ext_iff, eq_comm]
    | some v => simp [hresult, AluState.ext_iff, eq_comm]

/-- What a calculation makes of the state `s`: the value goes into the first register, if there is
one, and else the flags are set. -/
structure Yields (c : Calculation) (s t : AluState) : Prop where
  registers : ∀ r, (t.registers.get r).toNat =
    if r = c.a then
      (c.op.value? (s.registers.get c.a).toNat (s.registers.get c.b).toNat).getD
        (s.registers.get c.a).toNat
    else (s.registers.get r).toNat
  flags : t.flags =
    if c.op = .cmp then .ofComparison (s.registers.get c.a) (s.registers.get c.b) else s.flags

theorem yields_of_apply (h : c.apply s = .ok t) : c.Yields s t := by
  obtain ⟨v, hv, hregisters, hflags⟩ := apply_eq_ok_iff.mp h
  have hvalue := AluOp.value?_of_result hv
  have hnone : v = none ↔ c.op = .cmp := by
    rw [← Option.map_eq_none_iff, ← hvalue, AluOp.value?_eq_none_iff]
  refine ⟨fun r => ?_, ?_⟩
  · rw [hvalue, hregisters]
    cases v with
    | none =>
      split_ifs with hr
      · rw [hr]
        rfl
      · rfl
    | some v =>
      change ((s.registers.set c.a v).get r).toNat = _
      rw [RegisterFile.get_set]
      by_cases hr : r = c.a
      · rw [if_pos hr, if_pos hr.symm]
        rfl
      · rw [if_neg hr, if_neg (Ne.symm hr)]
  · rw [hflags]
    simp only [hnone]

theorem Yields.flags_of_ne_cmp (h : c.Yields s t) (hop : c.op ≠ .cmp) : t.flags = s.flags := by
  rw [h.flags, if_neg hop]

theorem Yields.get_eq (h : c.Yields s t) {r : Register} (hr : c.op = .cmp ∨ c.a ≠ r) :
    t.registers.get r = s.registers.get r := by
  apply UInt8.toNat_inj.mp
  rw [h.registers]
  split_ifs with heq
  · obtain hop | hne := hr
    · rw [hop, heq]
      rfl
    · exact absurd heq.symm hne
  · rfl

/-- **One calculation keeps every register congruent to its integer**, unless it is a division. -/
theorem Yields.modEq_onIntegers {x : Register → ℤ} (h : c.Yields s t) (hop : c.op ≠ .div)
    (hx : ∀ r, ((s.registers.get r).toNat : ℤ) ≡ x r [ZMOD 256]) (r : Register) :
    ((t.registers.get r).toNat : ℤ) ≡ c.onIntegers x r [ZMOD 256] := by
  have hrel := AluOp.modEq_integer? (s.registers.get c.b).toNat_lt (hx c.a) (hx c.b) hop
  rw [h.registers r, onIntegers]
  -- the two values are related or both missing, and no more is needed of them
  revert hrel
  generalize c.op.value? _ _ = v
  generalize c.op.integer? _ _ = V
  intro hrel
  cases hrel with
  | none =>
    split_ifs with hr
    · rw [hr]
      exact hx c.a
    · exact hx r
  | some hv =>
    change _ ≡ update x c.a _ r [ZMOD 256]
    rw [Function.update_apply]
    split_ifs with hr
    · exact hv
    · exact hx r

end Calculation

/-! ### Requests -/

/-- A request to the arithmetic unit: the code of an operation and two operands. -/
structure AluRequest where
  code : UInt8
  a : UInt8
  b : UInt8
deriving DecidableEq

namespace AluRequest

variable {q : AluRequest} {s : AluState} {c : Calculation} {f : Fault}

/-- The calculation that is requested; the code is read first, and then the operands in order. -/
def calculation (q : AluRequest) : Except Fault Calculation := do
  let op ← AluOp.ofCode q.code
  let a ← Register.ofOperand q.a
  let b ← Register.ofOperand q.b
  return ⟨op, a, b⟩

/-- The state after a request, or why it fails. -/
def answer (s : AluState) (q : AluRequest) : Except Fault AluState := do
  let c ← q.calculation
  c.apply s

/-- The state after a request, whether it fails or not. -/
def next (s : AluState) (q : AluRequest) : AluState :=
  match q.answer s with
  | .ok t => t
  | .error _ => s

/-- The calculation that is carried out; none if the request fails. -/
def performed? (s : AluState) (q : AluRequest) : Option Calculation :=
  match q.answer s with
  | .ok _ => q.calculation.toOption
  | .error _ => none

theorem calculation_eq_ok_iff :
    q.calculation = .ok c ↔ c.op.code = q.code ∧ q.a.toNat = c.a ∧ q.b.toNat = c.b := by
  unfold calculation
  simp only [Instruction.bind_eq_ok_iff, AluOp.ofCode_eq_ok_iff, Register.ofOperand_eq_ok_iff]
  constructor
  · rintro ⟨op, hop, a, ha, b, hb, hc⟩
    obtain rfl := Except.ok.inj hc
    exact ⟨hop, ha, hb⟩
  · rintro ⟨hop, ha, hb⟩
    exact ⟨c.op, hop, c.a, ha, c.b, hb, rfl⟩

theorem performed?_eq_some_iff :
    q.performed? s = some c ↔ q.calculation = .ok c ∧ c.apply s = .ok (q.next s) := by
  unfold performed? next
  cases h : q.answer s with
  | error f =>
    simp only [reduceCtorEq, false_iff, not_and]
    intro hc happly
    have hok : q.answer s = .ok s := Instruction.bind_eq_ok_iff.mpr ⟨c, hc, happly⟩
    rw [h] at hok
    cases hok
  | ok t =>
    obtain ⟨d, hd, happly⟩ := Instruction.bind_eq_ok_iff.mp h
    rw [hd]
    simp only [Except.toOption, Option.some.injEq, Except.ok.injEq]
    exact ⟨fun h => ⟨h, h ▸ happly⟩, And.left⟩

theorem performed?_eq_none_iff : q.performed? s = none ↔ ∃ f, q.answer s = .error f := by
  unfold performed?
  cases h : q.answer s with
  | error f => simp
  | ok t =>
    obtain ⟨d, hd, -⟩ := Instruction.bind_eq_ok_iff.mp h
    simp [hd, Except.toOption]

theorem next_of_answer_eq_error (h : q.answer s = .error f) : q.next s = s := by
  rw [next, h]

/-! ### What is wrong with a request -/

/-- What is wrong with an operand. -/
def operandFaults (b : UInt8) : List Fault :=
  if b.toNat < 8 then [] else [.registerOutOfRange b]

/-- A division by a register that holds zero. -/
def DividesByZero (s : AluState) (q : AluRequest) : Prop :=
  q.code = AluOp.div.code ∧ ∃ r : Register, q.b.toNat = r ∧ s.registers.get r = 0

instance (s : AluState) (q : AluRequest) : Decidable (q.DividesByZero s) :=
  inferInstanceAs (Decidable (_ ∧ _))

theorem dividesByZero_iff {op : AluOp} {b : Register} (hop : AluOp.ofCode q.code = .ok op)
    (hb : Register.ofOperand q.b = .ok b) :
    q.DividesByZero s ↔ op = .div ∧ s.registers.get b = 0 := by
  have hdiv : q.code = AluOp.div.code ↔ op = .div := by
    rw [← AluOp.ofCode_eq_ok_iff.mp hop]
    cases op <;> decide
  have hget : (∃ r : Register, q.b.toNat = r ∧ s.registers.get r = 0) ↔
      s.registers.get b = 0 := by
    rw [Register.ofOperand_eq_ok_iff.mp hb]
    constructor
    · rintro ⟨r, hr, hzero⟩
      rwa [Fin.ext hr]
    · exact fun hzero => ⟨b, rfl, hzero⟩
  rw [DividesByZero, hdiv, hget]

/-- The faults of everything that is wrong with a request, in the order of the checks. -/
def faults (s : AluState) (q : AluRequest) : List Fault :=
  (if q.code ∈ AluOp.all.map AluOp.code then [] else [.unsupportedAluOperation q.code]) ++
    (operandFaults q.a ++
      (operandFaults q.b ++ if q.DividesByZero s then [.divisionByZero] else []))

/-- One check after another: the first fault is that of the first check that fails. -/
theorem bind_eq_error_iff_head? {α β : Type} {x : Except Fault α} {k : α → Except Fault β}
    {l m : List Fault} (hx : ∀ f, x = .error f ↔ l.head? = some f)
    (hk : ∀ a, x = .ok a → ∀ f, k a = .error f ↔ m.head? = some f) (f : Fault) :
    (x >>= k) = .error f ↔ (l ++ m).head? = some f := by
  rw [Instruction.bind_eq_error_iff, hx, List.head?_append, Option.or_eq_some_iff]
  refine or_congr_right ?_
  cases x with
  | error g =>
    have hg := (hx g).mp rfl
    simp [hg]
  | ok a =>
    have hnone : l.head? = none :=
      Option.eq_none_iff_forall_ne_some.mpr fun g hg => by cases (hx g).mpr hg
    simp [hnone, hk a rfl]

theorem ofOperand_eq_error_iff_head? (b : UInt8) (f : Fault) :
    Register.ofOperand b = .error f ↔ (operandFaults b).head? = some f := by
  rw [Register.ofOperand_eq_error_iff, operandFaults]
  split_ifs with hlt
  · simp [Nat.not_le.mpr hlt]
  · simp [Nat.not_lt.mp hlt, eq_comm]

/-- **A request fails with the first thing that is wrong with it.** -/
theorem answer_eq_error_iff : q.answer s = .error f ↔ (q.faults s).head? = some f := by
  have hanswer : q.answer s = (AluOp.ofCode q.code >>= fun op =>
      Register.ofOperand q.a >>= fun a => Register.ofOperand q.b >>= fun b => op.apply a b s) := by
    simp only [answer, calculation, bind_assoc, pure_bind]
    rfl
  rw [hanswer, faults]
  refine bind_eq_error_iff_head? (fun g => ?_) (fun op hop => ?_) f
  · rw [AluOp.ofCode_eq_error_iff]
    split_ifs with hcode
    · simp [hcode]
    · simp [hcode, eq_comm]
  refine bind_eq_error_iff_head? (ofOperand_eq_error_iff_head? q.a) fun a _ => ?_
  refine bind_eq_error_iff_head? (ofOperand_eq_error_iff_head? q.b) fun b hb g => ?_
  rw [AluOp.apply_eq_error_iff, ← and_assoc, ← dividesByZero_iff hop hb]
  split_ifs with h
  · simp [h, eq_comm]
  · simp [h]

theorem exists_performed?_iff : (∃ c, q.performed? s = some c) ↔ q.faults s = [] := by
  rw [← Option.ne_none_iff_exists', Ne, performed?_eq_none_iff, ← List.head?_eq_none_iff,
    Option.eq_none_iff_forall_ne_some, not_exists]
  exact forall_congr' fun f => not_congr answer_eq_error_iff

theorem next_of_faults_ne_nil (h : q.faults s ≠ []) : q.next s = s := by
  obtain ⟨f, fs, hf⟩ := List.exists_cons_of_ne_nil h
  exact next_of_answer_eq_error (answer_eq_error_iff.mpr (by rw [hf, List.head?_cons]))

end AluRequest

/-! ### Sequences -/

namespace AluState

variable {s : AluState} {qs : List AluRequest}

/-- The state after a sequence of requests. -/
def after (s : AluState) (qs : List AluRequest) : AluState :=
  qs.foldl (fun s q => q.next s) s

/-- The calculations that are carried out in the course of a sequence of requests. -/
def performed (s : AluState) : List AluRequest → List Calculation
  | [] => []
  | q :: qs => (q.performed? s).toList ++ performed (q.next s) qs

/-- **An induction for sequences.** What a state and a companion of it have in common at the start,
and still have after any one calculation that the sequence carries out, they have at the end. -/
theorem after_induction {α : Type} {f : α → Calculation → α} {P : AluState → α → Prop} {x : α}
    (hx : P s x)
    (hstep : ∀ c ∈ performed s qs, ∀ s t x, c.Yields s t → P s x → P t (f x c)) :
    P (s.after qs) ((performed s qs).foldl f x) := by
  induction qs generalizing s x with
  | nil => exact hx
  | cons q qs ih =>
    unfold performed at hstep ⊢
    change P ((q.next s).after qs) _
    cases hc : q.performed? s with
    | none =>
      -- neither the state nor its companion moves
      rw [hc] at hstep
      obtain ⟨cause, hcause⟩ := AluRequest.performed?_eq_none_iff.mp hc
      have hnext : P (q.next s) x := by
        rwa [AluRequest.next_of_answer_eq_error hcause]
      exact ih hnext hstep
    | some c =>
      rw [hc, Option.toList_some, List.singleton_append] at hstep
      have hyields := c.yields_of_apply (AluRequest.performed?_eq_some_iff.mp hc).2
      have hnext := hstep c List.mem_cons_self s _ x hyields hx
      exact ih hnext fun d hd => hstep d (List.mem_cons_of_mem c hd)

theorem after_frame {α : Type} (view : AluState → α)
    (h : ∀ c ∈ performed s qs, ∀ s t, c.Yields s t → view t = view s) :
    view (s.after qs) = view s :=
  after_induction (f := fun _ _ => ()) (P := fun t _ => view t = view s) (x := ()) rfl
    fun c hc t u _ hyields ht => (h c hc t u hyields).trans ht

/-- The registers as integers. -/
def integers (s : AluState) (r : Register) : ℤ := (s.registers.get r).toNat

/-- **A sequence of requests computes modulo 256.** If no division is carried out, every register is
at the end congruent to what the sums, differences and products that are carried out make of the
registers as unbounded integers. The flags are changed by comparisons only, and a register only by
what is carried out on it, comparisons apart. A request fails with the first thing that is wrong
with it, and then changes nothing; if nothing is wrong with it, the calculation that it asks for is
carried out. -/
theorem after_modEq_integers (s : AluState) (qs : List AluRequest) :
    ((∀ c ∈ performed s qs, c.op ≠ .div) → ∀ r, (s.after qs).integers r ≡
      (performed s qs).foldl Calculation.onIntegers s.integers r [ZMOD 256]) ∧
    ((∀ c ∈ performed s qs, c.op ≠ .cmp) → (s.after qs).flags = s.flags) ∧
    (∀ r, (∀ c ∈ performed s qs, c.op = .cmp ∨ c.a ≠ r) →
      (s.after qs).registers.get r = s.registers.get r) ∧
    ∀ q : AluRequest,
      (∀ f, q.answer s = .error f ↔ (q.faults s).head? = some f) ∧
      (q.faults s ≠ [] → q.next s = s) ∧
      (q.faults s = [] → ∃ c, q.performed? s = some c ∧ c.op.code = q.code ∧
        q.a.toNat = c.a ∧ q.b.toNat = c.b ∧ c.Yields s (q.next s)) := by
  refine ⟨fun hdiv => ?_, fun hcmp => ?_, fun r hr => ?_, fun q =>
    ⟨fun f => AluRequest.answer_eq_error_iff, AluRequest.next_of_faults_ne_nil, fun hq => ?_⟩⟩
  · exact after_induction (P := fun t (x : Register → ℤ) => ∀ r, t.integers r ≡ x r [ZMOD 256])
      (fun r => Int.ModEq.refl _)
      fun c hc t u x hyields hx => hyields.modEq_onIntegers (hdiv c hc) hx
  · exact after_frame AluState.flags fun c hc s t hyields => hyields.flags_of_ne_cmp (hcmp c hc)
  · exact after_frame (fun t => t.registers.get r) fun c hc s t hyields => hyields.get_eq (hr c hc)
  · obtain ⟨c, hc⟩ := AluRequest.exists_performed?_iff.mpr hq
    obtain ⟨hcalculation, happly⟩ := AluRequest.performed?_eq_some_iff.mp hc
    obtain ⟨hcode, ha, hb⟩ := AluRequest.calculation_eq_ok_iff.mp hcalculation
    exact ⟨c, hc, hcode, ha, hb, c.yields_of_apply happly⟩

/-- The values 3 and 5 in R0 and R1, and the stack pointer in R7. -/
def threeAndFive : AluState := ⟨⟨#v[3, 5, 0, 0, 0, 0, 0, 0xF4]⟩, .clear⟩

/-- `SUB R0,R1; DIV R0,R2; MUL R0,R0; ADD R7,R7; MUL R7,R0` with two requests among them that cannot
be read. The division is by zero. -/
def wrapping : List AluRequest :=
  [⟨0xA1, 0, 1⟩, ⟨0xA3, 0, 2⟩, ⟨0xA2, 0, 0⟩, ⟨0x65, 9, 9⟩, ⟨0xA0, 7, 7⟩, ⟨0xA2, 7, 8⟩, ⟨0xA2, 7, 0⟩]

/-- On integers R7 comes to 488 times 4, of which the byte 160 is left. -/
theorem after_modEq_integers_wrapping :
    (∀ c ∈ performed threeAndFive wrapping, c.op ≠ .div) ∧
      (threeAndFive.after wrapping).integers 7 ≡ 1952 [ZMOD 256] ∧
      (threeAndFive.after wrapping).registers.get 7 = 160 ∧
      (threeAndFive.after wrapping).flags = .clear ∧
      (threeAndFive.after wrapping).registers.get 1 = 5 ∧
      AluRequest.answer threeAndFive ⟨0x65, 9, 9⟩ = .error (.unsupportedAluOperation 0x65) ∧
      AluRequest.next threeAndFive ⟨0xA3, 0, 2⟩ = threeAndFive ∧
      ∃ c : Calculation, c.op = .div ∧
        c.Yields threeAndFive (AluRequest.next threeAndFive ⟨0xA3, 1, 0⟩) := by
  have hdiv : ∀ c ∈ performed threeAndFive wrapping, c.op ≠ .div := by decide +kernel
  have hinteger : (performed threeAndFive wrapping).foldl Calculation.onIntegers
      threeAndFive.integers 7 = 1952 := by decide +kernel
  obtain ⟨hmod, hflags, hregisters, hrequest⟩ := after_modEq_integers threeAndFive wrapping
  have hseven := hmod hdiv 7
  rw [hinteger] at hseven
  obtain ⟨c, -, hcode, -, -, hyields⟩ := (hrequest ⟨0xA3, 1, 0⟩).2.2 (by decide)
  have hop : c.op = .div :=
    Except.ok.inj ((AluOp.ofCode_eq_ok_iff.mpr hcode).symm.trans (AluOp.ofCode_code .div))
  exact ⟨hdiv, hseven, by decide +kernel, hflags (by decide +kernel),
    hregisters 1 (by decide +kernel), (hrequest ⟨0x65, 9, 9⟩).1 _ |>.mpr (by decide),
    (hrequest ⟨0xA3, 0, 2⟩).2.1 (by decide), c, hop, hyields⟩

end AluState

end LS8
