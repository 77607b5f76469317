import LS8.Proofs.Session.Events

/-! # Sessions: runs as steps

A run is given fuel, since a machine may go on for ever. What a run comes to does not depend on the
fuel as long as there is enough of it, so it can be said without: `RunsTo`.

`StopsAt n` says that step `n` is the first that does not retire. If there is such a step, a run
comes to what this step comes to and leaves what it leaves; if there is none, no run stops. A run
may also begin at any point before that step, with the same end.

* `runsTo_iff_of_running`, `runsTo_iff_of_stopped`: what a run comes to, while the machine runs and
  after it has stopped.
* `exists_runsTo_iff`: a run stops if and only if some step does not retire.
* `runsTo_iff_steps`: runs as steps, split anywhere. -/

namespace LS8

/-- What a run comes to after `steps` steps the last of which, coming to `o`, has not retired. -/
def RunOutcome.ofLast (steps : ℕ) : StepOutcome → RunOutcome
  | .fault cause => .fault cause
  | .retired | .halted => .halted steps

namespace Session

variable {σ τ : Type} [TraceSink τ] [OutputPort σ] {s t : Session σ τ} {out : RunOutcome}
  {k m n : ℕ}

/-! ### The step that stops a session -/

/-- Step `n` is the first that does not retire. -/
structure StopsAt (s : Session σ τ) (n : ℕ) : Prop where
  retired : ∀ k < n, (s.after k).step.1 = .retired
  stops : (s.after n).step.1 ≠ .retired

theorem StopsAt.eq (hm : s.StopsAt m) (hn : s.StopsAt n) : m = n := by
  rcases Nat.lt_trichotomy m n with h | h | h
  · exact absurd (hn.retired m h) hm.stops
  · exact h
  · exact absurd (hm.retired n h) hn.stops

theorem StopsAt.after (h : s.StopsAt n) (hk : k ≤ n) : (s.after k).StopsAt (n - k) where
  retired l hl := by
    rw [← after_add]
    exact h.retired (k + l) (by omega)
  stops := by
    rw [← after_add, Nat.add_sub_cancel' hk]
    exact h.stops

theorem stopsAt_zero_of_stopped (hs : s.machine.runState ≠ .running) : s.StopsAt 0 where
  retired k hk := absurd hk (Nat.not_lt_zero k)
  stops h := hs (running_of_retired h)

theorem stopsAt_withSink {υ : Type} [TraceSink υ] (x : υ) :
    (s.withSink x).StopsAt n ↔ s.StopsAt n := by
  have hout : ∀ k, ((s.withSink x).after k).step.1 = (s.after k).step.1 := fun k => by
    rw [after_withSink, step_withSink]
  constructor
  · intro h
    exact ⟨fun k hk => (hout k).symm.trans (h.retired k hk), fun ho => h.stops ((hout n).trans ho)⟩
  · intro h
    exact ⟨fun k hk => (hout k).trans (h.retired k hk), fun ho => h.stops ((hout n).symm.trans ho)⟩

/-! ### What a run comes to -/

/-- A run of `s`, given enough fuel, comes to `out` and leaves `t`. -/
def RunsTo (s : Session σ τ) (out : RunOutcome) (t : Session σ τ) : Prop :=
  ∃ fuel, s.run fuel = (some out, t)

theorem StopsAt.run (h : s.StopsAt n) (hs : s.machine.runState = .running) (fuel : ℕ) :
    s.run (n + (fuel + 1)) =
      (some (.ofLast (n + 1) (s.after n).step.1), s.after (n + 1)) := by
  have hrun := running_after hs h.retired
  rw [Session.run, runFrom_add h.retired, Nat.zero_add, after_succ]
  cases ho : (s.after n).step.1 with
  | retired => exact absurd ho h.stops
  | fault c =>
    rw [runFrom_succ_of_fault hrun ho]
    rfl
  | halted =>
    -- the loop comes back to a halted machine, and only there it stops
    have hhalted : (s.after n).step.2.machine.runState = .halted := by
      rw [runState_step, ho]
      rfl
    rw [runFrom_succ_of_ne_fault hrun (by simp [ho]), runFrom_of_halted hhalted]
    rfl

theorem exists_stopsAt_of_run {fuel : ℕ} (hs : s.machine.runState = .running)
    (h : s.run fuel = (some out, t)) :
    ∃ n, s.StopsAt n ∧ out = .ofLast (n + 1) (s.after n).step.1 ∧ t = s.after (n + 1) := by
  obtain ⟨n, hretired, -, ht, ⟨c, rfl, ho⟩ | ⟨rfl, ho⟩⟩ := exists_stop_of_run hs h
  · exact ⟨n, ⟨hretired, by simp [ho]⟩, by rw [ho]; rfl, ht⟩
  · exact ⟨n, ⟨hretired, by simp [ho]⟩, by rw [ho]; rfl, ht⟩

/-- **A run of a running machine is the steps up to the one that stops it.** -/
theorem runsTo_iff_of_running (hs : s.machine.runState = .running) (h : s.StopsAt n) :
    s.RunsTo out t ↔ out = .ofLast (n + 1) (s.after n).step.1 ∧ t = s.after (n + 1) := by
  constructor
  · rintro ⟨fuel, hrun⟩
    obtain ⟨m, hm, hout, ht⟩ := exists_stopsAt_of_run hs hrun
    rw [h.eq hm]
    exact ⟨hout, ht⟩
  · rintro ⟨rfl, rfl⟩
    exact ⟨n + (0 + 1), h.run hs 0⟩

theorem exists_map_run_iff {α : Type} (hs : s.machine.runState = .running)
    (f : RunOutcome → Session σ τ → α) (a : α) :
    (∃ fuel, (s.run fuel).1.map (fun out => f out (s.run fuel).2) = some a) ↔
      ∃ n, s.StopsAt n ∧ a = f (.ofLast (n + 1) (s.after n).step.1) (s.after (n + 1)) := by
  constructor
  · rintro ⟨fuel, h⟩
    obtain ⟨out, hout, rfl⟩ := Option.map_eq_some_iff.mp h
    obtain ⟨n, hn, rfl, ht⟩ := exists_stopsAt_of_run hs (Prod.ext hout rfl)
    exact ⟨n, hn, congrArg (f _) ht⟩
  · rintro ⟨n, hn, rfl⟩
    refine ⟨n + (0 + 1), ?_⟩
    rw [hn.run hs 0]
    rfl

/-- **A run of a machine that has stopped is no step.** -/
theorem runsTo_iff_of_stopped (hs : s.machine.runState ≠ .running) :
    s.RunsTo out t ↔ outcomeAt 0 s.machine.runState = some out ∧ t = s := by
  have hrun : ∀ fuel, s.run fuel = (outcomeAt 0 s.machine.runState, s) := fun fuel =>
    runFrom_eq_self (fun h => absurd h hs) 0
  constructor
  · rintro ⟨fuel, h⟩
    rw [hrun] at h
    exact ⟨congrArg Prod.fst h, (congrArg Prod.snd h).symm⟩
  · rintro ⟨hout, rfl⟩
    exact ⟨0, by rw [hrun, hout]⟩

theorem stays_of_outcomeAt {o : RunOutcome} (ho : outcomeAt 0 s.machine.runState = some o) :
    s.StopsAt 0 ∧ s.after 1 = s ∧ ∀ out t, s.RunsTo out t ↔ out = o ∧ t = s := by
  have hs : s.machine.runState ≠ .running := fun h => by
    rw [h] at ho
    cases ho
  refine ⟨stopsAt_zero_of_stopped hs, (after_of_stopped hs 1).1, fun out t => ?_⟩
  rw [runsTo_iff_of_stopped hs, ho, Option.some.injEq, eq_comm (a := out)]

/-- **A run stops if and only if some step does not retire.** -/
theorem exists_runsTo_iff : (∃ out t, s.RunsTo out t) ↔ ∃ n, s.StopsAt n := by
  by_cases hs : s.machine.runState = .running
  case pos =>
    constructor
    · rintro ⟨out, t, fuel, h⟩
      obtain ⟨n, hn, -⟩ := exists_stopsAt_of_run hs h
      exact ⟨n, hn⟩
    · rintro ⟨n, hn⟩
      exact ⟨_, _, (runsTo_iff_of_running hs hn).mpr ⟨rfl, rfl⟩⟩
  case neg =>
    have hout : ∃ out, outcomeAt 0 s.machine.runState = some out := by
      cases h : s.machine.runState with
      | running => exact absurd h hs
      | halted => exact ⟨_, rfl⟩
      | faulted c => exact ⟨_, rfl⟩
    obtain ⟨out, hout⟩ := hout
    obtain ⟨hstops, -, hrun⟩ := stays_of_outcomeAt hout
    exact ⟨fun _ => ⟨0, hstops⟩, fun _ => ⟨out, s, (hrun out s).mpr ⟨rfl, rfl⟩⟩⟩

/-- **Runs are steps.** A run stops if and only if some step does not retire. From a running machine
it then comes to what the first such step comes to, counting the steps if that is a HLT, and leaves
what these steps leave; so does a run that begins any number of retired steps later, and counts only
those it takes itself. A machine that has stopped before stays as it is, and a run of it counts no
step. The run state that a run leaves tells what the run has come to. -/
theorem runsTo_iff_steps (s : Session σ τ) :
    ((∃ out t, s.RunsTo out t) ↔ ∃ n, s.StopsAt n) ∧
    (s.machine.runState = .running → ∀ n, s.StopsAt n →
      (∀ k ≤ n, ∀ out t, (s.after k).RunsTo out t ↔
        out = .ofLast (n + 1 - k) (s.after n).step.1 ∧ t = s.after (n + 1)) ∧
      ((s.after n).step.1 = .halted →
        Instruction.fetch (s.after n).machine.memory (s.after n).machine.pc = .ok .hlt)) ∧
    (s.machine.runState = .halted →
      s.StopsAt 0 ∧ s.after 1 = s ∧ ∀ out t, s.RunsTo out t ↔ out = .halted 0 ∧ t = s) ∧
    (∀ c, s.machine.runState = .faulted c →
      s.StopsAt 0 ∧ s.after 1 = s ∧ ∀ out t, s.RunsTo out t ↔ out = .fault c ∧ t = s) ∧
    ∀ out t, s.RunsTo out t →
      (∀ steps, out = .halted steps → t.machine.runState = .halted) ∧
      ∀ c, out = .fault c → t.machine.runState = .faulted c := by
  refine ⟨exists_runsTo_iff, fun hs n hn => ⟨fun k hk out t => ?_, fun ho => ?_⟩,
    fun hs => ?_, fun c hs => ?_, fun out t h => ?_⟩
  · -- the run from step `k` on is again a run of a running machine, `k` steps nearer to its end
    have hrun : (s.after k).machine.runState = .running :=
      running_after hs fun l hl => hn.retired l (by omega)
    rw [runsTo_iff_of_running hrun (hn.after hk), ← after_add, ← after_add,
      Nat.add_sub_cancel' hk, show k + (n - k + 1) = n + 1 by omega,
      show n - k + 1 = n + 1 - k by omega]
  · exact (fetch_eq_hlt_of_halted (running_after hs hn.retired) ho).1
  · exact stays_of_outcomeAt (by rw [hs]; rfl)
  · exact stays_of_outcomeAt (by rw [hs]; rfl)
  · obtain ⟨fuel, hrun⟩ := h
    exact (runState_of_run hrun).symm

/-- A session about to carry out `LDI R0,8; PRN R0; HLT`. -/
def printEight : Session Writer NoTrace where
  machine := (Machine.new.loadProgram [0x82, 0, 8, 0x47, 0, 0x01]).1
  port := {}
  sink := {}

/-- Three steps in one run, a step and a run, or three steps and a run of a halted machine. -/
theorem runsTo_iff_steps_printEight :
    printEight.machine.runState = .running ∧ printEight.StopsAt 2 ∧
      printEight.RunsTo (.halted 3) (printEight.after 3) ∧
      (printEight.after 1).RunsTo (.halted 2) (printEight.after 3) ∧
      (printEight.after 3).machine.runState = .halted ∧
      (printEight.after 3).RunsTo (.halted 0) (printEight.after 3) := by
  have hs : printEight.machine.runState = .running := by decide +kernel
  have h : printEight.StopsAt 2 := ⟨by decide +kernel, by decide +kernel⟩
  have ho : (printEight.after 2).step.1 = .halted := by decide +kernel
  obtain ⟨-, hrunning, -, -, hstate⟩ := runsTo_iff_steps printEight
  obtain ⟨hsplit, -⟩ := hrunning hs 2 h
  rw [ho] at hsplit
  have hrun := (hsplit 0 (by decide) _ _).mpr ⟨rfl, rfl⟩
  have hhalted := (hstate _ _ hrun).1 _ rfl
  obtain ⟨-, -, hstopped, -⟩ := runsTo_iff_steps (printEight.after 3)
  exact ⟨hs, h, hrun, (hsplit 1 (by decide) _ _).mpr ⟨rfl, rfl⟩, hhalted,
    ((hstopped hhalted).2.2 _ _).mpr ⟨rfl, rfl⟩⟩

end Session

end LS8
