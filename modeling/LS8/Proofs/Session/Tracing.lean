import LS8.Proofs.Session.Events
import LS8.Trace.Text

/-! # Sessions: tracing

A sink hears what a machine does and never answers, so tracing changes nothing: forgetting the sink
of a session (`untraced`) and letting the session go on can be done in either order.

* `step_untraced`, `after_untraced`, `run_untraced`: one step, several steps and a run.
* `Call.seen_untraced`: a call shows a host the same answer, machine and port with any sink.
* `tracing_changes_nothing`: all of this at any point of a session, and any number of calls some of
  which are traced and some not. -/

namespace LS8.Session

variable {σ τ : Type} [TraceSink τ] [OutputPort σ]

/-! ### Forgetting the sink -/

/-- The session with nobody listening. -/
def untraced {σ τ : Type} (s : Session σ τ) : Session σ NoTrace := s.withSink NoTrace.mk

theorem step_untraced (s : Session σ τ) : s.untraced.step = (s.step.1, s.step.2.untraced) :=
  step_withSink s NoTrace.mk

theorem after_untraced (s : Session σ τ) (n : ℕ) : s.untraced.after n = (s.after n).untraced :=
  after_withSink s NoTrace.mk n

theorem run_untraced (s : Session σ τ) (fuel : ℕ) :
    s.untraced.run fuel = ((s.run fuel).1, (s.run fuel).2.untraced) := by
  have hout : ∀ k < fuel, (s.untraced.after k).step.1 = (s.after k).step.1 := fun k _ => by
    rw [after_untraced, step_untraced]
  obtain ⟨hrun, n, -, hs, ht⟩ := runFrom_congr (s := s) (t := s.untraced) rfl hout 0
  refine Prod.ext hrun ?_
  rw [Session.run, Session.run, ht, hs, after_untraced]

/-! ### Calls -/

inductive Answer where
  | step (outcome : StepOutcome)
  | run (outcome : Option RunOutcome)
deriving DecidableEq

/-- What a host sees of a call: what it returns, and the machine and the port that it leaves. -/
structure Seen (σ : Type) where
  answer : Answer
  machine : Machine
  port : σ

namespace Call

def answer (s : Session σ τ) : Call → Answer
  | step => .step s.step.1
  | run fuel => .run (s.run fuel).1

def seen (s : Session σ τ) (c : Call) : Seen σ :=
  ⟨c.answer s, (c.perform s).machine, (c.perform s).port⟩

/-- **A call shows the same with nobody listening.** -/
theorem seen_untraced (s : Session σ τ) (c : Call) : c.seen s.untraced = c.seen s := by
  cases c with
  | step =>
    rw [seen, answer, perform, step_untraced]
    rfl
  | run fuel =>
    rw [seen, answer, perform, run_untraced]
    rfl

end Call

/-- A call and the sink that listens to it, in whatever state the sink is by then. -/
structure TracedCall where
  call : Call
  {Sink : Type}
  [traceSink : TraceSink Sink]
  sink : Sink

attribute [instance] TracedCall.traceSink

def TracedCall.untraced (c : TracedCall) : TracedCall where
  call := c.call
  sink := NoTrace.mk

/-- What a host sees that makes one call after the other. -/
def seen (m : Machine) (port : σ) : List TracedCall → List (Seen σ)
  | [] => []
  | c :: cs =>
    let first := c.call.seen ⟨m, port, c.sink⟩
    first :: seen first.machine first.port cs

theorem seen_map_untraced (m : Machine) (port : σ) (calls : List TracedCall) :
    seen m port (calls.map TracedCall.untraced) = seen m port calls := by
  induction calls generalizing m port with
  | nil => rfl
  | cons c cs ih =>
    have hfirst : c.untraced.call.seen ⟨m, port, c.untraced.sink⟩ =
        c.call.seen ⟨m, port, c.sink⟩ := c.call.seen_untraced ⟨m, port, c.sink⟩
    rw [List.map_cons, seen, seen, hfirst, ih]

/-! ### At any point of a session -/

/-- **Tracing changes nothing.** Whatever sink listens, a machine goes the same way and leaves the
same port as with nobody listening, step by step, and at any point a step or a run has the same
outcome. A host that makes any calls, some of them traced, each by a sink of its own, and some not,
sees what it would see if none were traced. -/
theorem tracing_changes_nothing (s : Session σ τ) :
    (∀ n, s.untraced.after n = (s.after n).untraced ∧
      (s.untraced.after n).step = ((s.after n).step.1, (s.after n).step.2.untraced) ∧
      ∀ fuel, (s.untraced.after n).run fuel =
        (((s.after n).run fuel).1, ((s.after n).run fuel).2.untraced)) ∧
    ∀ calls : List TracedCall,
      seen s.machine s.port calls = seen s.machine s.port (calls.map TracedCall.untraced) := by
  refine ⟨fun n => ?_, fun calls => (seen_map_untraced s.machine s.port calls).symm⟩
  have hafter := after_untraced s n
  refine ⟨hafter, ?_, fun fuel => ?_⟩
  · rw [hafter, step_untraced]
  · rw [hafter, run_untraced]

/-- A text trace that breaks off in its first line does not keep the machine from printing. -/
example :
    let s : Session Writer TextTrace :=
      ⟨(Machine.new.loadProgram [0x82, 0, 8, 0x47, 0, 0x01]).1, {},
        { writer := { room := some 3 } }⟩
    (s.run 5).2.sink.failed = true ∧ (s.run 5).1 = some (.halted 3) ∧
      (s.run 5).2.port.bytes = ['8', '\n'].map fun c => UInt8.ofNat c.toNat := by
  decide +kernel

end LS8.Session
