import LS8.Proofs.Session.Limit
import LS8.Proofs.Session.Runs

/-! # Sessions: who tries to print

Only PRN looks at the port. A step that tries to print nothing goes the same way on every port and
changes none, and so a session that halts without trying to print halts on every port.

* `step_withPort`, `after_withPort`: steps that do not print, over another port.
* `HaltsQuietly.withPort`: sessions that halt without printing. -/

namespace LS8.Session

variable {σ τ : Type} [TraceSink τ] [OutputPort σ]

/-! ### Steps -/

/-- The next step tries to print a value. -/
def Prints {σ τ : Type} (s : Session σ τ) : Prop :=
  s.machine.runState = .running ∧
    ∃ r, Instruction.fetch s.machine.memory s.machine.pc = .ok (.prn r)

omit [TraceSink τ] [OutputPort σ] in
theorem prints_iff {s : Session σ τ} (hs : s.machine.runState = .running) :
    s.Prints ↔ ∃ v next, s.machine.effect = .ok (.print v next) := by
  constructor
  · rintro ⟨-, r, hr⟩
    exact ⟨_, _, Machine.effect_of_fetch hr⟩
  · rintro ⟨v, next, he⟩
    obtain ⟨r, hr, -⟩ := Machine.exists_prn_of_effect he
    exact ⟨hs, r, hr⟩

/-- **A step that does not print does not look at the port.** -/
theorem step_withPort {ρ : Type} [OutputPort ρ] {s : Session σ τ} (h : ¬ s.Prints) (p : ρ) :
    (s.withPort p).step = (s.step.1, s.step.2.withPort p) := by
  cases hs : s.machine.runState with
  | halted => rw [step_of_halted hs, step_of_halted (s := s.withPort p) hs]
  | faulted c => rw [step_of_faulted hs, step_of_faulted (s := s.withPort p) hs]
  | running =>
    rw [prints_iff hs] at h
    have hstep := step_of_running_machine hs
    generalize s.step.1 = o at hstep ⊢
    generalize s.step.2 = next at hstep ⊢
    cases hstep with
    | fault he => exact Step.eq (s := s.withPort p) hs (.fault he)
    | halt he => exact Step.eq (s := s.withPort p) hs (.halt he)
    | retire he => exact Step.eq (s := s.withPort p) hs (.retire he)
    | print he _ => exact absurd ⟨_, _, he⟩ h
    | refuse he _ => exact absurd ⟨_, _, he⟩ h

theorem port_of_not_prints {s : Session σ τ} (h : ¬ s.Prints) :
    s.step.2.port = s.port ∧ s.line = [] := by
  constructor
  · exact congrArg (fun r => r.2.port) (step_withPort h s.port)
  · by_contra hline
    obtain ⟨r, hr⟩ := exists_prn_of_line_ne_nil hline
    obtain ⟨ho, hfetch⟩ := retired?_eq_some_iff.mp hr
    exact h ⟨running_of_retired ho, r, hfetch⟩

theorem after_withPort {ρ : Type} [OutputPort ρ] {s : Session σ τ} {n : ℕ}
    (h : ∀ k < n, ¬ (s.after k).Prints) (p : ρ) :
    (s.withPort p).after n = (s.after n).withPort p := by
  induction n with
  | zero => rfl
  | succ n ih =>
    have hbefore := ih fun k hk => h k (by omega)
    rw [after_succ, hbefore, step_withPort (h n (by omega)), after_succ]

/-! ### Sessions that halt -/

/-- The session halts, and up to then no step tries to print. -/
def HaltsQuietly (s : Session σ τ) : Prop :=
  ∃ n, s.StopsAt n ∧ (s.after n).step.1 = .halted ∧ ∀ k ≤ n, ¬ (s.after k).Prints

theorem HaltsQuietly.withPort {ρ : Type} [OutputPort ρ] {s : Session σ τ} (h : s.HaltsQuietly)
    (p : ρ) : (s.withPort p).HaltsQuietly := by
  obtain ⟨n, hn, ho, hquiet⟩ := h
  have hafter : ∀ k ≤ n, (s.withPort p).after k = (s.after k).withPort p := fun k hk =>
    after_withPort (fun l hl => hquiet l (by omega)) p
  have hout : ∀ k ≤ n, ((s.withPort p).after k).step.1 = (s.after k).step.1 := fun k hk => by
    rw [hafter k hk, step_withPort (hquiet k hk)]
  refine ⟨n, ⟨fun k hk => ?_, ?_⟩, ?_, fun k hk => ?_⟩
  · rw [hout k (by omega)]
    exact hn.retired k hk
  · rw [hout n (Nat.le_refl n)]
    exact hn.stops
  · rw [hout n (Nat.le_refl n), ho]
  · rw [hafter k hk]
    exact hquiet k hk

end LS8.Session
