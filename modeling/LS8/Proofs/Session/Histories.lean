import LS8.Proofs.Session.Operations

/-! # Sessions: histories

A history is what a host has done to a machine so far, one operation after the other. A call is a
known number of steps (`Call.perform_eq_after`), since steps of a machine that has stopped do not
matter; so the session at any moment of a run is also the session after a run of less fuel. What the
other operations may change is said once, by `Performed`.

* `performed`: every operation goes one of the ways of `Performed`.
* `invariant_after`: what steps, edits and resets keep is kept by a history. -/

namespace LS8

namespace Session

variable {σ τ : Type} [TraceSink τ] [OutputPort σ]

/-! ### Calls as steps -/

/-- How many steps a call takes, those of a machine that has stopped counted too. -/
def Call.steps : Call → ℕ
  | step => 1
  | run fuel => fuel

theorem runFrom_eq_after (s : Session σ τ) (steps fuel : ℕ) :
    (s.runFrom steps fuel).2 = s.after fuel := by
  induction fuel generalizing s steps with
  | zero => rw [runFrom_eq_self fun _ => rfl, after_zero]
  | succ fuel ih =>
    by_cases hs : s.machine.runState = .running
    case neg =>
      rw [runFrom_eq_self fun h => absurd h hs, (after_of_stopped hs _).1]
    case pos =>
      rw [after_succ']
      by_cases hfault : ∃ c, s.step.1 = .fault c
      · -- the run ends here, and the steps that are left change nothing
        obtain ⟨c, hc⟩ := hfault
        have hstopped : s.step.2.machine.runState ≠ .running := by
          rw [runState_step, hc]
          simp [stateAfter]
        rw [runFrom_succ_of_fault hs hc, (after_of_stopped hstopped fuel).1]
      · rw [runFrom_succ_of_ne_fault hs fun c hc => hfault ⟨c, hc⟩, ih]

theorem after_eq_of_run {s t : Session σ τ} {fuel : ℕ} {out : Option RunOutcome}
    (h : s.run fuel = (out, t)) : s.after fuel = t := by
  rw [← runFrom_eq_after s 0, ← Session.run, h]

theorem Call.perform_eq_after (s : Session σ τ) (c : Call) : c.perform s = s.after c.steps := by
  cases c with
  | step => rfl
  | run fuel => exact runFrom_eq_after s 0 fuel

/-- What every step keeps, any number of steps keeps. -/
theorem invariant_after {P : Machine → Prop}
    (hstep : ∀ s : Session σ τ, P s.machine → P s.step.2.machine) {s : Session σ τ}
    (hs : P s.machine) (n : ℕ) : P (s.after n).machine := by
  induction n with
  | zero => exact hs
  | succ n ih =>
    rw [after_succ]
    exact hstep _ ih

end Session

/-! ### Operations -/

namespace Host

open Session (TracedCall)

variable {σ : Type} [OutputPort σ]

/-- **The ways in which an operation can go.** An edit concerns memory, registers and the program
counter, and the last of these only if it is to be set. -/
inductive Performed (h : Host σ) : Operation → Host σ → Prop
  | edit {op : Operation} (memory : Memory) (registers : RegisterFile) {pc : UInt16}
      (hcall : ∀ c, op ≠ .call c) (hreset : op ≠ .reset) (hpc : pc = h.machine.pc ∨ op = .setPc pc) :
    Performed h op { h with machine := { h.machine with memory, registers, pc } }
  | call (c : TracedCall) {s : Session σ c.Sink} (hs : s = (h.session c.sink).after c.call.steps) :
    Performed h (.call c) ⟨s.machine, s.port⟩
  | reset : Performed h .reset { h with machine := h.machine.reset }

theorem performed (h : Host σ) (op : Operation) : h.Performed op (h.perform op) := by
  have hedit : ∀ memory registers, (∀ c, op ≠ .call c) → op ≠ .reset →
      h.Performed op { h with machine := { h.machine with memory, registers } } :=
    fun memory registers hcall hreset => .edit memory registers hcall hreset (.inl rfl)
  cases op with
  | loadByte address b =>
    rcases Nat.lt_or_ge address.toNat 256 with hlt | hle
    · simp only [perform, Machine.loadByte_of_lt h.machine hlt]
      exact hedit _ _ (by simp) (by simp)
    · simp only [perform, Machine.loadByte_of_le h.machine hle]
      exact hedit _ _ (by simp) (by simp)
  | loadProgram program =>
    obtain ⟨memory, hload⟩ := h.machine.exists_loadFrom_eq 0 program
    rw [perform, Machine.loadProgram, hload]
    exact hedit _ _ (by simp) (by simp)
  | setRegister r v => exact hedit _ _ (by simp) (by simp)
  | setSp v => exact hedit _ _ (by simp) (by simp)
  | setPc address => exact .edit _ _ (by simp) (by simp) (.inr rfl)
  | call c => exact .call c (c.call.perform_eq_after (h.session c.sink))
  | reset => exact .reset

/-! ### Histories -/

/-- A new machine. -/
def fresh {σ : Type} (config : Config) (port : σ) : Host σ := ⟨.ofConfig config, port⟩

theorem after_cons (h : Host σ) (op : Operation) (ops : List Operation) :
    h.after (op :: ops) = (h.perform op).after ops := rfl

/-- **What steps, edits and resets keep, a history keeps.** -/
theorem invariant_after {P : Machine → Prop} {ops : List Operation} {h : Host σ}
    (hstep : ∀ {τ : Type} [TraceSink τ] (s : Session σ τ), P s.machine → P s.step.2.machine)
    (hedit : ∀ m memory registers pc, pc = m.pc ∨ .setPc pc ∈ ops → P m →
      P { m with memory, registers, pc })
    (hreset : ∀ m, P m → P m.reset) (hP : P h.machine) : P (h.after ops).machine := by
  induction ops generalizing h with
  | nil => exact hP
  | cons op ops ih =>
    rw [after_cons]
    refine ih (fun m memory registers pc hpc => ?_) ?_
    · exact hedit m memory registers pc (hpc.imp_right (List.mem_cons_of_mem op))
    · have hgo := h.performed op
      generalize h.perform op = next at hgo ⊢
      cases hgo with
      | edit memory registers _ _ hpc =>
        refine hedit _ memory registers _ (hpc.imp_right fun hop => ?_) hP
        rw [hop]
        exact List.mem_cons_self
      | call c hs =>
        subst hs
        exact Session.invariant_after hstep hP c.call.steps
      | reset => exact hreset _ hP

end Host

end LS8
