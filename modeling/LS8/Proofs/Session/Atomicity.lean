import LS8.Proofs.Session.Steps
import LS8.Trace.Event
import LS8.Writer

/-! # Sessions: faults change nothing

Handlers write as they go, and a fault takes nothing back: the step ends with the machine and the
port that the handler has left (`exists_left_of_fault`). But handlers check before they write
(`Handler.run_executeOne`), so what is left is the machine as it was, apart from the run state that
names the fault, and only a fault of the port itself can have written anything (`machine_of_fault`,
`port_of_fault`). Steps before the fault have all retired, so a run that ends in a fault ends in the
machine after its last retired instruction.

* `fault_changes_nothing`: one step, any number of steps, and runs. -/

namespace LS8.Session

variable {σ τ : Type} [TraceSink τ] [OutputPort σ] {s : Session σ τ} {c : Fault}

/-! ### One step -/

/-- A step that faults ends with what the handlers have left when the fault struck. -/
theorem exists_left_of_fault (hs : s.machine.runState = .running) (h : s.step.1 = .fault c) :
    ∃ left, Handler.executeOne.run (s.machine, s.port) = .error c left ∧
      s.step.2.machine = left.1.fail c ∧ s.step.2.port = left.2 := by
  rw [step_of_running hs, execute] at h ⊢
  cases hrun : Handler.executeOne.run (s.machine, s.port) with
  | error d left =>
    rw [hrun] at h
    obtain rfl := StepOutcome.fault.inj h
    exact ⟨left, rfl, rfl, rfl⟩
  | ok flow left =>
    rw [hrun] at h
    cases flow <;> cases h

theorem machine_of_fault (hs : s.machine.runState = .running) (h : s.step.1 = .fault c) :
    s.step.2.machine = s.machine.fail c := by
  obtain ⟨left, hrun, hmachine, -⟩ := exists_left_of_fault hs h
  rw [hmachine, (Handler.unchanged_of_run_executeOne_eq_error hrun).1]

theorem port_of_fault (hs : s.machine.runState = .running) (h : s.step.1 = .fault c)
    (hc : c ≠ .outputFailed) : s.step.2.port = s.port := by
  obtain ⟨left, hrun, -, hport⟩ := exists_left_of_fault hs h
  rw [hport, (Handler.unchanged_of_run_executeOne_eq_error hrun).2 hc]

/-! ### Many steps -/

theorem unchanged_after (hs : s.machine.runState = .running) {n : Nat}
    (hn : ∀ k < n, (s.after k).step.1 = .retired) (h : (s.after n).step.1 = .fault c) :
    (s.after (n + 1)).machine = { (s.after n).machine with runState := .faulted c } ∧
      (c ≠ .outputFailed → (s.after (n + 1)).port = (s.after n).port) := by
  have hrun := running_after hs hn
  rw [after_succ]
  exact ⟨machine_of_fault hrun h, port_of_fault hrun h⟩

/-- **A fault changes nothing** but the run state, and only a refused value leaves a trace in the
port. So after any number of steps that end in a fault, and after any run that does, the machine is
the one after the last retired instruction. -/
theorem fault_changes_nothing (s : Session σ τ) (c : Fault)
    (hs : s.machine.runState = .running) :
    (s.step.1 = .fault c →
      s.step.2.machine = { s.machine with runState := .faulted c } ∧
        (c ≠ .outputFailed → s.step.2.port = s.port)) ∧
    (∀ n, (s.after n).step.1 = .fault c →
      ∃ k ≤ n, (∀ l < k, (s.after l).step.1 = .retired) ∧
        (s.after (n + 1)).machine = { (s.after k).machine with runState := .faulted c } ∧
        (c ≠ .outputFailed → (s.after (n + 1)).port = (s.after k).port)) ∧
    (∀ fuel t, s.run fuel = (some (.fault c), t) →
      ∃ k, (∀ l < k, (s.after l).step.1 = .retired) ∧ t = s.after (k + 1) ∧
        t.machine = { (s.after k).machine with runState := .faulted c } ∧
        (c ≠ .outputFailed → t.port = (s.after k).port)) := by
  refine ⟨fun h => ⟨machine_of_fault hs h, port_of_fault hs h⟩, fun n h => ?_, fun fuel t h => ?_⟩
  · obtain ⟨k, hk, hretired, hstep⟩ := exists_first_of_ne_retired (n := n) (by rw [h]; simp)
    have hsame : s.after (n + 1) = s.after (k + 1) := by rw [after_succ, after_succ, hstep]
    rw [← hstep] at h
    rw [hsame]
    exact ⟨k, hk, hretired, unchanged_after hs hretired h⟩
  · obtain ⟨k, hretired, hstop⟩ := exists_stop_of_runFrom h
    rcases hstop with ⟨d, hd, hstep⟩ | ⟨hout, -⟩ | ⟨hout, -⟩
    · obtain rfl := RunOutcome.fault.inj hd
      have ht : t = s.after (k + 1) := by rw [after_succ, hstep]
      rw [ht]
      exact ⟨k, hretired, rfl, unchanged_after hs hretired (by rw [hstep])⟩
    · cases hout
    · cases hout

/-- A session about to carry out `LDI R0,12; PRN R0` with room for one more byte of output. -/
def narrowOutput : Session Writer NoTrace where
  machine := (Machine.new.loadProgram [0x82, 0, 12, 0x47, 0]).1
  port := { room := some 1 }
  sink := {}

/-- The second step writes half a line and faults; the machine keeps what the first one left. -/
theorem fault_changes_nothing_narrowOutput :
    narrowOutput.machine.runState = .running ∧
      (narrowOutput.after 1).step.1 = .fault .outputFailed ∧
      ∃ k ≤ 1, (∀ l < k, (narrowOutput.after l).step.1 = .retired) ∧
        (narrowOutput.after 2).machine =
          { (narrowOutput.after k).machine with runState := .faulted .outputFailed } := by
  have hs : narrowOutput.machine.runState = .running := by decide +kernel
  have h : (narrowOutput.after 1).step.1 = .fault .outputFailed := by decide +kernel
  obtain ⟨k, hk, hretired, hmachine, -⟩ :=
    (fault_changes_nothing narrowOutput .outputFailed hs).2.1 1 h
  exact ⟨hs, h, k, hk, hretired, hmachine⟩

end LS8.Session
