import LS8.Proofs.Machine.Handlers
import LS8.Proofs.Machine.View
import LS8.Session
import Mathlib.Logic.Function.Iterate

/-! # Sessions: steps one after another

A step of a running machine goes one of five ways (`Session.Step`): the instruction faults, it halts
the machine, it retires without printing, its value is printed, or its value is refused. What steps
do is read off these five (`step_of_running_machine`).

`after n` is the session after `n` steps. A machine that has stopped never retires anything again,
so before a step that retires only retired steps lie (`retired_of_le`), and a run is the steps up to
the first one that does not retire:

* `machine_of_ne_retired`: a step that does not retire changes the run state only.
* `step_congr`: what two sessions have to share for their steps to come to the same.
* `exists_stop_of_runFrom`: what a run that stops is in terms of steps.
* `runFrom_congr`: sessions whose steps come to the same have runs that come to the same. -/

namespace LS8.Session

variable {σ τ : Type} [TraceSink τ] [OutputPort σ]

/-! ### One step -/

/-- **The ways in which a step can go** while the machine runs. -/
inductive Step (s : Session σ τ) : StepOutcome → Session σ τ → Prop
  | fault {c : Fault} (h : s.machine.effect = .error c) :
    Step s (.fault c) ((s.report s.machine.startEvent).fail s.machine.pc c).2
  | halt (h : s.machine.effect = .ok .halt) :
    Step s .halted ((s.report s.machine.startEvent).halt s.machine.pc).2
  | retire {next : Machine} (h : s.machine.effect = .ok (.retire next)) :
    Step s .retired { s.report s.machine.startEvent with machine := next }
  | print {v : UInt8} {next : Machine} {port : σ} (h : s.machine.effect = .ok (.print v next))
      (hp : OutputPort.print s.port v = (true, port)) :
    Step s .retired { s.report s.machine.startEvent with machine := next, port }
  | refuse {v : UInt8} {next : Machine} {port : σ} (h : s.machine.effect = .ok (.print v next))
      (hp : OutputPort.print s.port v = (false, port)) :
    Step s (.fault .outputFailed)
      (Session.fail { s.report s.machine.startEvent with port } s.machine.pc .outputFailed).2

theorem step_of_running_machine {s : Session σ τ} (hs : s.machine.runState = .running) :
    Step s s.step.1 s.step.2 := by
  rw [step_of_running hs, execute, Handler.run_executeOne]
  cases h : s.machine.effect with
  | error c => exact .fault h
  | ok e =>
    cases e with
    | halt => exact .halt h
    | retire next => exact .retire h
    | print v next =>
      simp only [Handler.afterCheck, Handler.carry, Handler.afterPrint]
      cases hp : OutputPort.print s.port v with
      | mk taken port =>
        cases taken with
        | false => exact .refuse h hp
        | true => exact .print h hp

theorem Step.eq {s next : Session σ τ} {o : StepOutcome} (hs : s.machine.runState = .running)
    (h : Step s o next) : s.step = (o, next) := by
  rw [step_of_running hs, execute, Handler.run_executeOne]
  cases h with
  | fault he => rw [he]; rfl
  | halt he => rw [he]; rfl
  | retire he => rw [he]; rfl
  | print he hp => simp only [he, Handler.afterCheck, Handler.carry, Handler.afterPrint, hp]
  | refuse he hp => simp only [he, Handler.afterCheck, Handler.carry, Handler.afterPrint, hp]; rfl

theorem running_of_retired {s : Session σ τ} (h : s.step.1 = .retired) :
    s.machine.runState = .running := by
  cases hs : s.machine.runState with
  | running => rfl
  | halted => rw [step_of_halted hs] at h; cases h
  | faulted c => rw [step_of_faulted hs] at h; cases h

theorem step_of_retired {s : Session σ τ} (h : s.step.1 = .retired) : Step s .retired s.step.2 := by
  have hstep := step_of_running_machine (running_of_retired h)
  rwa [h] at hstep

/-- The instruction that the next step carries out, if it retires. -/
def retired? (s : Session σ τ) : Option Instruction :=
  match s.step.1, Instruction.fetch s.machine.memory s.machine.pc with
  | .retired, .ok i => some i
  | _, _ => none

theorem retired?_eq_some_iff {s : Session σ τ} {i : Instruction} :
    s.retired? = some i ↔
      s.step.1 = .retired ∧ Instruction.fetch s.machine.memory s.machine.pc = .ok i := by
  unfold retired?
  split
  · next j ho hj => simp [ho, hj]
  · next hne =>
    constructor
    · intro h; cases h
    · rintro ⟨ho, hi⟩
      exact (hne i ho hi).elim

/-- A retired step has an effect other than halting, and the machine and the port after the step are
those of the effect. -/
theorem exists_effect_of_retired {s : Session σ τ} (h : s.step.1 = .retired) :
    ∃ e, s.machine.effect = .ok e ∧ e ≠ .halt ∧ s.step.2.machine = e.machine s.machine ∧
      (e.value? = none → s.step.2.port = s.port) ∧
      ∀ v, e.value? = some v → OutputPort.print s.port v = (true, s.step.2.port) := by
  have hstep := step_of_retired h
  generalize s.step.2 = next at hstep ⊢
  cases hstep with
  | retire he => exact ⟨_, he, by simp, rfl, fun _ => rfl, fun v hv => (by cases hv)⟩
  | print he hp =>
    refine ⟨_, he, by simp, rfl, fun hv => (by cases hv), fun v hv => ?_⟩
    obtain rfl := Option.some.inj hv
    exact hp

theorem exists_retired? {s : Session σ τ} (h : s.step.1 = .retired) :
    ∃ i, s.retired? = some i := by
  obtain ⟨e, he, -⟩ := exists_effect_of_retired h
  obtain ⟨i, hi, -⟩ := Machine.effect_eq_ok_iff.mp he
  exact ⟨i, retired?_eq_some_iff.mpr ⟨h, hi⟩⟩

theorem retired?_of_ne_retired {s : Session σ τ} (h : s.step.1 ≠ .retired) : s.retired? = none :=
  Option.eq_none_iff_forall_ne_some.mpr fun _ hi => h (retired?_eq_some_iff.mp hi).1

/-- **A retired step does what its instruction does.** -/
theorem view_of_retired? {s : Session σ τ} {i : Instruction} (h : s.retired? = some i) :
    s.step.2.machine.view = i.next s.machine.view := by
  obtain ⟨ho, hi⟩ := retired?_eq_some_iff.mp h
  obtain ⟨e, he, -, hm, -⟩ := exists_effect_of_retired ho
  rw [Machine.effect_of_fetch hi] at he
  rw [hm]
  exact (Instruction.view_of_effect (Instruction.pc_add_length_le hi) he).1

theorem ne_hlt_of_retired? {s : Session σ τ} {i : Instruction} (h : s.retired? = some i) :
    i ≠ .hlt := by
  rintro rfl
  obtain ⟨ho, hi⟩ := retired?_eq_some_iff.mp h
  obtain ⟨e, he, hne, -⟩ := exists_effect_of_retired ho
  rw [Machine.effect_of_fetch hi] at he
  exact hne (Except.ok.inj he).symm

theorem add_two_lt_of_retired?_call {s : Session σ τ} {r : Register}
    (h : s.retired? = some (.call r)) : s.machine.pc.toNat + 2 < 256 := by
  obtain ⟨ho, hi⟩ := retired?_eq_some_iff.mp h
  obtain ⟨e, he, -⟩ := exists_effect_of_retired ho
  rw [Machine.effect_of_fetch hi] at he
  have hlen := Instruction.pc_add_length_le hi
  have hpos := (Instruction.call r).opcode.one_le_length
  exact Instruction.add_two_lt_of_effect_call (by omega) he

theorem running_step_of_retired {s : Session σ τ} (h : s.step.1 = .retired) :
    s.step.2.machine.runState = .running := by
  obtain ⟨i, hi⟩ := exists_retired? h
  have hview := congrArg View.runState (view_of_retired? hi)
  rw [Instruction.runState_next _ (ne_hlt_of_retired? hi)] at hview
  exact hview.trans (running_of_retired h)

theorem fetch_eq_hlt_of_halted {s : Session σ τ} (hs : s.machine.runState = .running)
    (h : s.step.1 = .halted) :
    Instruction.fetch s.machine.memory s.machine.pc = .ok .hlt ∧
      s.step.2.machine = s.machine.halt ∧ s.step.2.port = s.port := by
  have hstep := step_of_running_machine hs
  rw [h] at hstep
  generalize s.step.2 = next at hstep ⊢
  cases hstep with
  | halt he =>
    obtain ⟨i, hi, hhalt⟩ := Machine.effect_eq_ok_iff.mp he
    obtain rfl := Instruction.effect_eq_halt_iff.mp hhalt
    exact ⟨hi, rfl, rfl⟩

theorem step_step_of_ne_retired {s : Session σ τ} (h : s.step.1 ≠ .retired) :
    s.step.2.step = s.step := by
  cases hs : s.machine.runState with
  | halted => rw [step_of_halted hs, step_of_halted hs]
  | faulted c => rw [step_of_faulted hs, step_of_faulted hs]
  | running =>
    have hstep := step_of_running_machine hs
    generalize ho : s.step.1 = o at hstep h
    generalize hn : s.step.2 = next at hstep
    rw [show s.step = (o, next) from Prod.ext ho hn]
    cases hstep with
    | fault _ => exact step_of_faulted rfl
    | halt _ => exact step_of_halted rfl
    | retire _ => exact absurd rfl h
    | print _ _ => exact absurd rfl h
    | refuse _ _ => exact step_of_faulted rfl

/-- The state that a step leaves, as its outcome tells. -/
def stateAfter : StepOutcome → RunState
  | .retired => .running
  | .halted => .halted
  | .fault cause => .faulted cause

/-- **A step that does not retire changes the run state only.** -/
theorem machine_of_ne_retired {s : Session σ τ} (h : s.step.1 ≠ .retired) :
    s.step.2.machine = { s.machine with runState := stateAfter s.step.1 } := by
  cases hs : s.machine.runState with
  | halted =>
    rw [step_of_halted hs, show stateAfter .halted = s.machine.runState from hs.symm]
  | faulted c =>
    rw [step_of_faulted hs, show stateAfter (.fault c) = s.machine.runState from hs.symm]
  | running =>
    have hstep := step_of_running_machine hs
    generalize s.step.1 = o at hstep h ⊢
    generalize s.step.2 = next at hstep ⊢
    cases hstep with
    | fault _ => rfl
    | halt _ => rfl
    | retire _ => exact absurd rfl h
    | print _ _ => exact absurd rfl h
    | refuse _ _ => rfl

/-- **What a step does to the machine:** it carries out an instruction, or it changes the run state
only. -/
theorem machine_step (s : Session σ τ) :
    (∃ i, s.retired? = some i ∧ s.step.2.machine.view = i.next s.machine.view) ∨
      s.retired? = none ∧
        s.step.2.machine = { s.machine with runState := stateAfter s.step.1 } := by
  by_cases h : s.step.1 = .retired
  · obtain ⟨i, hi⟩ := exists_retired? h
    exact .inl ⟨i, hi, view_of_retired? hi⟩
  · exact .inr ⟨retired?_of_ne_retired h, machine_of_ne_retired h⟩

theorem machine_of_retired?_eq_none {s : Session σ τ} (h : s.retired? = none) :
    s.step.2.machine = { s.machine with runState := stateAfter s.step.1 } := by
  obtain ⟨i, hi, -⟩ | ⟨-, hmachine⟩ := s.machine_step
  · rw [h] at hi
    cases hi
  · exact hmachine

theorem runState_step (s : Session σ τ) : s.step.2.machine.runState = stateAfter s.step.1 := by
  by_cases h : s.step.1 = .retired
  · rw [running_step_of_retired h, h]
    rfl
  · rw [machine_of_ne_retired h]

/-! ### Two sessions side by side -/

/-- What a step comes to and the port that it leaves, by what the world sees of the instruction. -/
def answer (p : σ) : Except Fault Effect.Kind → StepOutcome × σ
  | .error c => (.fault c, p)
  | .ok .halt => (.halted, p)
  | .ok .retire => (.retired, p)
  | .ok (.print v) =>
    match OutputPort.print p v with
    | (true, p') => (.retired, p')
    | (false, p') => (.fault .outputFailed, p')

theorem outcome_port_eq_answer {s : Session σ τ} (hs : s.machine.runState = .running) :
    (s.step.1, s.step.2.port) = answer s.port (s.machine.effect.map Effect.kind) := by
  have hstep := step_of_running_machine hs
  generalize s.step.1 = o at hstep ⊢
  generalize s.step.2 = next at hstep ⊢
  cases hstep with
  | fault he => rw [he]; rfl
  | halt he => rw [he]; rfl
  | retire he => rw [he]; rfl
  | print he hp => rw [he]; simp only [Except.map, Effect.kind, answer, hp]
  | refuse he hp => rw [he]; simp only [Except.map, Effect.kind, answer, hp]; rfl

/-- **Sessions that fetch the same go the same way**, if their registers and ports are the same,
whatever else is in their machines and whoever listens. -/
theorem step_congr {υ : Type} [TraceSink υ] {s : Session σ τ} {t : Session σ υ}
    (hstate : t.machine.runState = s.machine.runState) (hport : t.port = s.port)
    (hpc : t.machine.pc = s.machine.pc) (hregisters : t.machine.registers = s.machine.registers)
    (hfetch : s.machine.runState = .running →
      Instruction.fetch t.machine.memory t.machine.pc =
        Instruction.fetch s.machine.memory s.machine.pc) :
    t.step.1 = s.step.1 ∧ t.step.2.port = s.step.2.port ∧ t.retired? = s.retired? := by
  cases hs : s.machine.runState with
  | halted =>
    have ht := hstate.trans hs
    rw [retired?_of_ne_retired (s := s) (by rw [step_of_halted hs]; simp),
      retired?_of_ne_retired (s := t) (by rw [step_of_halted ht]; simp), step_of_halted hs,
      step_of_halted ht]
    exact ⟨rfl, hport, rfl⟩
  | faulted c =>
    have ht := hstate.trans hs
    rw [retired?_of_ne_retired (s := s) (by rw [step_of_faulted hs]; simp),
      retired?_of_ne_retired (s := t) (by rw [step_of_faulted ht]; simp), step_of_faulted hs,
      step_of_faulted ht]
    exact ⟨rfl, hport, rfl⟩
  | running =>
    have hsame : (t.step.1, t.step.2.port) = (s.step.1, s.step.2.port) := by
      rw [outcome_port_eq_answer hs, outcome_port_eq_answer (hstate.trans hs), hport,
        Machine.map_kind_effect_congr hpc hregisters (hfetch hs)]
    obtain ⟨ho, hp⟩ := Prod.mk.inj hsame
    refine ⟨ho, hp, ?_⟩
    rw [retired?, retired?, ho, hfetch hs]

/-! ### Many steps -/

/-- The session after `n` steps. -/
def after (s : Session σ τ) (n : Nat) : Session σ τ := (fun t => t.step.2)^[n] s

@[simp] theorem after_zero (s : Session σ τ) : s.after 0 = s := rfl

theorem after_succ (s : Session σ τ) (n : Nat) : s.after (n + 1) = (s.after n).step.2 :=
  Function.iterate_succ_apply' _ n s

theorem after_succ' (s : Session σ τ) (n : Nat) : s.after (n + 1) = s.step.2.after n :=
  Function.iterate_succ_apply _ n s

theorem after_add (s : Session σ τ) (k n : ℕ) : s.after (k + n) = (s.after k).after n := by
  rw [Nat.add_comm]
  exact Function.iterate_add_apply _ n k s

theorem step_after_of_ne_retired {s : Session σ τ} (h : s.step.1 ≠ .retired) (n : Nat) :
    (s.after n).step = s.step := by
  induction n generalizing s with
  | zero => rfl
  | succ n ih =>
    have hstep := step_step_of_ne_retired h
    rw [after_succ', ih (by rwa [hstep]), hstep]

/-- **Before a step that retires only retired steps lie.** -/
theorem retired_of_le {s : Session σ τ} {k n : Nat} (hk : k ≤ n)
    (hn : (s.after n).step.1 = .retired) : (s.after k).step.1 = .retired := by
  by_contra h
  obtain ⟨d, rfl⟩ := Nat.exists_eq_add_of_le hk
  rw [after_add, step_after_of_ne_retired h d] at hn
  exact h hn

/-- Whatever step does not retire repeats the first one that does not. -/
theorem exists_first_of_ne_retired {s : Session σ τ} {n : Nat}
    (h : (s.after n).step.1 ≠ .retired) :
    ∃ k ≤ n, (∀ l < k, (s.after l).step.1 = .retired) ∧ (s.after k).step = (s.after n).step := by
  induction n with
  | zero => exact ⟨0, Nat.le_refl 0, by simp, rfl⟩
  | succ n ih =>
    by_cases hn : (s.after n).step.1 = .retired
    · exact ⟨n + 1, Nat.le_refl _, fun l hl => retired_of_le (by omega) hn, rfl⟩
    · obtain ⟨k, hk, hretired, hstep⟩ := ih hn
      refine ⟨k, by omega, hretired, ?_⟩
      rw [after_succ, step_step_of_ne_retired hn, hstep]

theorem running_after {s : Session σ τ} {n : Nat} (hs : s.machine.runState = .running)
    (h : ∀ k < n, (s.after k).step.1 = .retired) : (s.after n).machine.runState = .running := by
  cases n with
  | zero => exact hs
  | succ n =>
    rw [after_succ]
    exact running_step_of_retired (h n (Nat.lt_succ_self n))

/-! ### Runs -/

/-- What a run that takes no step comes to, if `steps` have been taken before. -/
def outcomeAt (steps : ℕ) : RunState → Option RunOutcome
  | .running => none
  | .halted => some (.halted steps)
  | .faulted cause => some (.fault cause)

theorem runFrom_eq_self {s : Session σ τ} {fuel : ℕ}
    (h : s.machine.runState = .running → fuel = 0) (steps : ℕ) :
    s.runFrom steps fuel = (outcomeAt steps s.machine.runState, s) := by
  cases hs : s.machine.runState with
  | halted => exact runFrom_of_halted hs steps fuel
  | faulted c => exact runFrom_of_faulted hs steps fuel
  | running => rw [h hs, runFrom_zero hs]; rfl

theorem runFrom_succ_of_fault {s : Session σ τ} {c : Fault} (hs : s.machine.runState = .running)
    (h : s.step.1 = .fault c) (steps fuel : ℕ) :
    s.runFrom steps (fuel + 1) = (some (.fault c), s.step.2) := by
  have hstep : s.step = (.fault c, s.step.2) := Prod.ext h rfl
  rw [runFrom_succ hs, hstep]

theorem runFrom_succ_of_ne_fault {s : Session σ τ} (hs : s.machine.runState = .running)
    (h : ∀ c, s.step.1 ≠ .fault c) (steps fuel : ℕ) :
    s.runFrom steps (fuel + 1) = s.step.2.runFrom (steps + 1) fuel := by
  rw [runFrom_succ hs]
  split
  · next c stopped hstep => exact absurd (by rw [hstep]) (h c)
  · next o next _ hstep => rw [hstep]

theorem runFrom_add {s : Session σ τ} {n : ℕ} (h : ∀ k < n, (s.after k).step.1 = .retired)
    (steps fuel : ℕ) : s.runFrom steps (n + fuel) = (s.after n).runFrom (steps + n) fuel := by
  induction n generalizing s steps with
  | zero => rw [Nat.zero_add]; rfl
  | succ n ih =>
    have hfirst : s.step.1 = .retired := h 0 n.succ_pos
    have hrest : ∀ k < n, (s.step.2.after k).step.1 = .retired := fun k hk => by
      rw [← after_succ']
      exact h (k + 1) (by omega)
    have hfault : ∀ c, s.step.1 ≠ .fault c := by simp [hfirst]
    rw [show n + 1 + fuel = n + fuel + 1 by omega,
      runFrom_succ_of_ne_fault (running_of_retired hfirst) hfault, ih hrest, after_succ',
      Nat.add_assoc, Nat.add_comm 1 n]

/-- **Runs depend on the outcomes of steps only.** Two sessions, whatever their ports and sinks,
whose steps come to the same have runs of the same outcome and the same number of steps. -/
theorem runFrom_congr {ρ υ : Type} [TraceSink υ] [OutputPort ρ] {s : Session σ τ}
    {t : Session ρ υ} {fuel : ℕ} (hstate : t.machine.runState = s.machine.runState)
    (h : ∀ k < fuel, (t.after k).step.1 = (s.after k).step.1) (steps : ℕ) :
    (t.runFrom steps fuel).1 = (s.runFrom steps fuel).1 ∧
      ∃ n ≤ fuel, (s.runFrom steps fuel).2 = s.after n ∧ (t.runFrom steps fuel).2 = t.after n := by
  induction fuel generalizing s t steps with
  | zero =>
    rw [runFrom_eq_self (fun _ => rfl), runFrom_eq_self (fun _ => rfl), hstate]
    exact ⟨rfl, 0, Nat.le_refl 0, rfl, rfl⟩
  | succ fuel ih =>
    by_cases hs : s.machine.runState = .running
    case neg =>
      rw [runFrom_eq_self (fun h => absurd h hs),
        runFrom_eq_self (fun h => absurd (hstate.symm.trans h) hs), hstate]
      exact ⟨rfl, 0, Nat.zero_le _, rfl, rfl⟩
    case pos =>
      have hfirst : t.step.1 = s.step.1 := h 0 fuel.succ_pos
      by_cases hfault : ∃ c, s.step.1 = .fault c
      · obtain ⟨c, hc⟩ := hfault
        rw [runFrom_succ_of_fault hs hc, runFrom_succ_of_fault (hstate.trans hs) (hfirst.trans hc)]
        exact ⟨rfl, 1, by omega, rfl, rfl⟩
      · have hne : ∀ c, s.step.1 ≠ .fault c := fun c hc => hfault ⟨c, hc⟩
        have hnext : t.step.2.machine.runState = s.step.2.machine.runState := by
          rw [runState_step, runState_step, hfirst]
        have hrest : ∀ k < fuel, (t.step.2.after k).step.1 = (s.step.2.after k).step.1 :=
          fun k hk => by
            rw [← after_succ', ← after_succ']
            exact h (k + 1) (by omega)
        obtain ⟨hout, n, hn, hsn, htn⟩ := ih hnext hrest (steps + 1)
        rw [runFrom_succ_of_ne_fault hs hne,
          runFrom_succ_of_ne_fault (hstate.trans hs) (by rwa [hfirst])]
        exact ⟨hout, n + 1, by omega, hsn.trans (after_succ' s n).symm,
          htn.trans (after_succ' t n).symm⟩

/-- **A run is the steps up to the first that does not retire.** That one faults, or halts the
machine and is counted, or there is none since the machine had halted before. -/
theorem exists_stop_of_runFrom {s s' : Session σ τ} {steps fuel : Nat} {out : RunOutcome}
    (h : s.runFrom steps fuel = (some out, s')) :
    ∃ n, (∀ k < n, (s.after k).step.1 = .retired) ∧
      ((∃ c, out = .fault c ∧ (s.after n).step = (.fault c, s')) ∨
        (out = .halted (steps + n + 1) ∧ (s.after n).machine.runState = .running ∧
          (s.after n).step = (.halted, s')) ∨
        (out = .halted steps ∧ n = 0 ∧ s.machine.runState = .halted ∧ s' = s)) := by
  fun_induction runFrom steps fuel s with
  | case1 steps fuel s c hs =>
    cases h
    exact ⟨0, by simp, .inl ⟨c, rfl, step_of_faulted hs⟩⟩
  | case2 steps fuel s hs =>
    cases h
    exact ⟨0, by simp, .inr (.inr ⟨rfl, rfl, hs, rfl⟩)⟩
  | case3 steps s hs => cases h
  | case4 steps s hs fuel c stopped hstep =>
    cases h
    exact ⟨0, by simp, .inl ⟨c, rfl, hstep⟩⟩
  | case5 steps s hs fuel o next hne hstep ih =>
    have hnext : s.step.2 = next := by rw [hstep]
    cases o with
    | fault c => exact (hne c rfl).elim
    | halted =>
      -- HLT has been carried out, so the run ends here
      have hhalted : next.machine.runState = .halted := by
        have hgo := step_of_running_machine hs
        rw [hstep] at hgo
        cases hgo
        rfl
      rw [runFrom_of_halted hhalted] at h
      cases h
      exact ⟨0, by simp, .inr (.inl ⟨rfl, hs, hstep⟩)⟩
    | retired =>
      have hretired : s.step.1 = .retired := by rw [hstep]
      obtain ⟨n, hn, hstop⟩ := ih h
      refine ⟨n + 1, fun k hk => ?_, ?_⟩
      · cases k with
        | zero => exact hretired
        | succ k =>
          rw [after_succ', hnext]
          exact hn k (by omega)
      · rw [after_succ', hnext]
        rcases hstop with hfault | ⟨hout, hrest⟩ | ⟨-, -, hhalted, -⟩
        · exact .inl hfault
        · exact .inr (.inl ⟨by rw [hout]; congr 1; omega, hrest⟩)
        · have hrun := running_step_of_retired hretired
          rw [hnext, hhalted] at hrun
          cases hrun

end LS8.Session
