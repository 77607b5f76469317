import LS8.Proofs.Session.Histories

/-! # Sessions: comparisons

The flags are written by CMP and cleared by a reset, and by nothing else. So they describe the last
comparison since the machine was new or was last reset, with the values that were compared then,
whatever has become of the registers since.

What has been compared is written down beside the machine: `comparisons` for a number of steps, and
`Host.compared` for a history, which begins anew at each reset.

* `flags_after`: the flags after steps describe the last comparison among them.
* `flags_of_last_comparison`: the flags after a history. -/

namespace LS8

/-! ### The last of several comparisons -/

namespace Flags

/-- The flags after comparing the values of each pair, one pair after the other. -/
def last (f : Flags) (cs : List (UInt8 × UInt8)) : Flags :=
  cs.getLast?.elim f fun c => ofComparison c.1 c.2

theorem last_append (f : Flags) (cs ds : List (UInt8 × UInt8)) :
    f.last (cs ++ ds) = (f.last cs).last ds := by
  unfold last
  rw [List.getLast?_append]
  cases ds.getLast? with
  | none => rfl
  | some d => rfl

theorem bits_ofComparison (x y : UInt8) :
    (ofComparison x y).bits =
      if x.toNat < y.toNat then 4 else if y.toNat < x.toNat then 2 else 1 := by
  rw [ofComparison_eq]
  rcases Nat.lt_trichotomy x.toNat y.toNat with hlt | heq | hgt
  · have hle : ¬ y < x := fun h => Nat.lt_asymm hlt (UInt8.lt_iff_toNat_lt.mp h)
    have hne : x ≠ y := fun h => Nat.lt_irrefl _ (h ▸ hlt)
    simp [bits, UInt8.lt_iff_toNat_lt.mpr hlt, hle, hne, hlt, lessBit]
  · obtain rfl := UInt8.toNat_inj.mp heq
    simp [bits, UInt8.lt_irrefl, equalBit]
  · have hle : ¬ x < y := fun h => Nat.lt_asymm hgt (UInt8.lt_iff_toNat_lt.mp h)
    have hne : x ≠ y := fun h => Nat.lt_irrefl _ (h ▸ hgt)
    simp [bits, UInt8.lt_iff_toNat_lt.mpr hgt, hle, hne, hgt, Nat.lt_asymm hgt, greaterBit]

theorem count_ofComparison (x y : UInt8) :
    [(ofComparison x y).less, (ofComparison x y).greater, (ofComparison x y).equal].count true =
      1 := by
  rw [ofComparison]
  cases compare x y <;> rfl

theorem count_last_clear (cs : List (UInt8 × UInt8)) :
    [(clear.last cs).less, (clear.last cs).greater, (clear.last cs).equal].count true =
      if cs = [] then 0 else 1 := by
  unfold last
  cases hcs : cs.getLast? with
  | none => simp [List.getLast?_eq_none_iff.mp hcs, clear]
  | some c =>
    have hne : cs ≠ [] := by
      rintro rfl
      cases hcs
    rw [if_neg hne]
    exact count_ofComparison c.1 c.2

end Flags

namespace Instruction

/-- The values that an instruction compares. -/
def comparison? (x : View) : Instruction → Option (UInt8 × UInt8)
  | cmp a b => some (x.registers a, x.registers b)
  | _ => none

/-- **Only CMP touches the flags.** -/
theorem flags_next (x : View) (i : Instruction) :
    (i.next x).flags = x.flags.last (i.comparison? x).toList := by
  cases i with
  | cmp a b => exact (Flags.ofComparison_eq _ _).symm
  | _ => rfl

end Instruction

namespace Session

variable {σ τ : Type} [TraceSink τ] [OutputPort σ]

/-! ### Steps -/

/-- The values that the next step compares, if it carries out a CMP. -/
def comparison? (s : Session σ τ) : Option (UInt8 × UInt8) :=
  s.retired?.bind (·.comparison? s.machine.view)

theorem flags_step (s : Session σ τ) :
    s.step.2.machine.flags = s.machine.flags.last s.comparison?.toList := by
  obtain ⟨i, hi, hview⟩ | ⟨hnone, hmachine⟩ := s.machine_step
  · rw [comparison?, hi, Option.bind_some]
    exact (congrArg View.flags hview).trans (i.flags_next s.machine.view)
  · rw [hmachine, comparison?, hnone]
    rfl

theorem flags_step_of_ne_cmp {s : Session σ τ} (h : ∀ a b, s.retired? ≠ some (.cmp a b)) :
    s.step.2.machine.flags = s.machine.flags := by
  have hnone : s.comparison? = none := by
    rw [comparison?, Option.bind_eq_none_iff]
    intro i hi
    cases i with
    | cmp a b => exact absurd hi (h a b)
    | _ => rfl
  rw [flags_step, hnone]
  rfl

/-- The pairs of values that the next `n` steps compare. -/
def comparisons (s : Session σ τ) (n : ℕ) : List (UInt8 × UInt8) :=
  (List.range n).flatMap fun k => (s.after k).comparison?.toList

theorem comparisons_succ (s : Session σ τ) (n : ℕ) :
    s.comparisons (n + 1) = s.comparisons n ++ (s.after n).comparison?.toList := by
  rw [comparisons, List.range_succ, List.flatMap_append, List.flatMap_singleton, comparisons]

/-- **The flags describe the last comparison** among any number of steps. -/
theorem flags_after (s : Session σ τ) (n : ℕ) :
    (s.after n).machine.flags = s.machine.flags.last (s.comparisons n) := by
  induction n with
  | zero => rfl
  | succ n ih => rw [after_succ, flags_step, ih, comparisons_succ, Flags.last_append]

end Session

/-! ### Histories -/

namespace Host

variable {σ : Type} [OutputPort σ]

/-- The comparisons since the last reset, those in `before` and those of an operation. -/
def comparedBy (h : Host σ) (before : List (UInt8 × UInt8)) : Operation → List (UInt8 × UInt8)
  | .call c => before ++ (h.session c.sink).comparisons c.call.steps
  | .reset => []
  | .loadByte _ _ | .loadProgram _ | .setRegister _ _ | .setSp _ | .setPc _ => before

/-- The comparisons since the last reset, those in `before` and those of a history. -/
def compared (h : Host σ) (before : List (UInt8 × UInt8)) : List Operation → List (UInt8 × UInt8)
  | [] => before
  | op :: ops => (h.perform op).compared (h.comparedBy before op) ops

theorem flags_edit (h : Host σ) {op : Operation} (hcall : ∀ c, op ≠ .call c)
    (hreset : op ≠ .reset) : (h.perform op).machine.flags = h.machine.flags := by
  have hgo := h.performed op
  generalize h.perform op = next at hgo ⊢
  cases hgo with
  | edit memory registers _ _ _ => rfl
  | call c _ => exact absurd rfl (hcall c)
  | reset => exact absurd rfl hreset

theorem flags_perform {h : Host σ} {before : List (UInt8 × UInt8)}
    (hf : h.machine.flags = Flags.clear.last before) (op : Operation) :
    (h.perform op).machine.flags = Flags.clear.last (h.comparedBy before op) := by
  cases op with
  | call c =>
    have hafter := (h.session c.sink).flags_after c.call.steps
    rw [← c.call.perform_eq_after] at hafter
    rw [comparedBy, Flags.last_append, ← hf]
    exact hafter
  | reset => rfl
  | loadByte _ _ | loadProgram _ | setRegister _ _ | setSp _ | setPc _ =>
    exact (h.flags_edit (by simp) (by simp)).trans hf

theorem flags_history {h : Host σ} {before : List (UInt8 × UInt8)}
    (hf : h.machine.flags = Flags.clear.last before) (ops : List Operation) :
    (h.after ops).machine.flags = Flags.clear.last (h.compared before ops) := by
  induction ops generalizing h before with
  | nil => exact hf
  | cons op ops ih => exact ih (flags_perform hf op)

/-- **The flags describe the last comparison.** After any history of a new machine, their bits are
zero if no CMP has been carried out since the machine was new or was last reset, and otherwise the
one bit for the order of the two values at the last CMP; so no two flags are ever up, and one is up
from the first comparison on. Nothing else changes them: no operation of a host but calls and
resets, and no step but one that carries out a CMP. -/
theorem flags_of_last_comparison (config : Config) (port : σ) (ops : List Operation) :
    let h := (fresh config port).after ops
    let cs := (fresh config port).compared [] ops
    h.machine.flags.bits =
      (match cs.getLast? with
      | none => 0
      | some (x, y) => if x.toNat < y.toNat then 4 else if y.toNat < x.toNat then 2 else 1) ∧
    [h.machine.flags.less, h.machine.flags.greater, h.machine.flags.equal].count true =
      (if cs = [] then 0 else 1) ∧
    (∀ op, (∀ c, op ≠ .call c) → op ≠ .reset →
      (h.perform op).machine.flags = h.machine.flags) ∧
    ∀ {τ : Type} [TraceSink τ] (s : Session σ τ), (∀ a b, s.retired? ≠ some (.cmp a b)) →
      s.step.2.machine.flags = s.machine.flags := by
  intro h cs
  have hflags : h.machine.flags = Flags.clear.last cs := flags_history rfl ops
  refine ⟨?_, ?_, fun op => h.flags_edit, fun s => Session.flags_step_of_ne_cmp⟩
  · rw [hflags, Flags.last]
    cases cs.getLast? with
    | none => rfl
    | some c => exact Flags.bits_ofComparison c.1 c.2
  · rw [hflags]
    exact Flags.count_last_clear cs

/-- `LDI R0,5; CMP R0,R1` and a CMP of a register that does not exist. -/
def compareFive : List UInt8 := [0x82, 0, 5, 0xA7, 0, 1, 0xA7, 0, 9]

/-- Five is greater than zero, also after the second CMP has faulted and R0 is no longer five; after
a reset, nothing has been compared. -/
theorem flags_of_last_comparison_compareFive :
    let ops := [.loadProgram compareFive, .call ⟨.run 9, NoTrace.mk⟩, .setRegister 0 0]
    let h := (fresh {} ({} : Writer)).after ops
    h.machine.runState = .faulted (.registerOutOfRange 9) ∧
      (fresh {} ({} : Writer)).compared [] ops = [(5, 0)] ∧ h.machine.flags.bits = 2 ∧
      (∀ c, Operation.setPc 300 ≠ .call c) ∧ Operation.setPc 300 ≠ .reset ∧
      (h.perform (.setPc 300)).machine.flags = h.machine.flags ∧
      ((fresh {} ({} : Writer)).after (ops ++ [.reset])).machine.flags.bits = 0 := by
  intro ops h
  have hcompared : (fresh {} ({} : Writer)).compared [] ops = [(5, 0)] := by decide +kernel
  obtain ⟨hbits, -, hedit, -⟩ := flags_of_last_comparison {} ({} : Writer) ops
  obtain ⟨hreset, -⟩ := flags_of_last_comparison {} ({} : Writer) (ops ++ [.reset])
  have hcall : ∀ c, Operation.setPc 300 ≠ .call c := by simp
  rw [hcompared] at hbits
  exact ⟨by decide +kernel, hcompared, hbits, hcall, by simp, hedit _ hcall (by simp), hreset⟩

end Host

end LS8
