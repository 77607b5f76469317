import LS8.Machine.Handler
import LS8.Output
import LS8.Trace.Event

/-! # Sessions

A session is a machine with the port it prints to and the sink it reports to. `Session.step` carries
out one instruction; `Session.run` carries out instructions until the machine stops.

* `step_of_halted`, `step_of_faulted`: a machine that has stopped answers every further step with
  its terminal state, prints nothing and reports nothing.
* `runFrom_succ`: a run is a step, and after a step that does not fault a run. -/

namespace LS8

/-- A machine with the world around it. -/
@[ext]
structure Session (σ τ : Type) where
  machine : Machine
  port : σ
  sink : τ

/-- What a step comes to. -/
inductive StepOutcome where
  /-- An instruction has been carried out. -/
  | retired
  /-- The machine has halted, now or before. -/
  | halted
  /-- The machine has faulted, now or before. -/
  | fault (cause : Fault)
deriving DecidableEq

/-- What a run comes to. -/
inductive RunOutcome where
  /-- The machine halted after `steps` instructions, HLT among them. -/
  | halted (steps : Nat)
  /-- The machine faulted. -/
  | fault (cause : Fault)
deriving DecidableEq

namespace Session

variable {σ τ : Type} [TraceSink τ]

/-! ### Steps -/

/-- The session after the sink has heard of `e`. -/
def report (s : Session σ τ) (e : TraceEvent) : Session σ τ :=
  { s with sink := TraceSink.record s.sink e }

/-- The session after HLT at `pc` has halted its machine. -/
def halt (s : Session σ τ) (pc : UInt16) : StepOutcome × Session σ τ :=
  (.halted, { s with machine := s.machine.halt }.report (.halted pc))

/-- The session after a fault at `pc` has stopped its machine. -/
def fail (s : Session σ τ) (pc : UInt16) (cause : Fault) : StepOutcome × Session σ τ :=
  (.fault cause, { s with machine := s.machine.fail cause }.report (.faulted cause pc))

variable [OutputPort σ]

/-- The session after the instruction at the program counter of a running machine. Machine and port
are what the handlers have left, also after a fault. -/
def execute (s : Session σ τ) : StepOutcome × Session σ τ :=
  let pc := s.machine.pc
  let started := s.report s.machine.startEvent
  match Handler.executeOne.run (s.machine, s.port) with
  | .ok .proceed (machine, port) => (.retired, { started with machine, port })
  | .ok .halt (machine, port) => { started with machine, port }.halt pc
  | .error cause (machine, port) => { started with machine, port }.fail pc cause

/-- One step. -/
def step (s : Session σ τ) : StepOutcome × Session σ τ :=
  match s.machine.runState with
  | .faulted cause => (.fault cause, s)
  | .halted => (.halted, s)
  | .running => s.execute

theorem step_of_running {s : Session σ τ} (h : s.machine.runState = .running) :
    s.step = s.execute := by
  rw [step, h]

theorem step_of_halted {s : Session σ τ} (h : s.machine.runState = .halted) :
    s.step = (.halted, s) := by
  rw [step, h]

theorem step_of_faulted {s : Session σ τ} {c : Fault} (h : s.machine.runState = .faulted c) :
    s.step = (.fault c, s) := by
  rw [step, h]

/-! ### Runs -/

/-- Steps until the machine stops, `steps` of them taken before; nothing if `fuel` more steps do
not stop it. -/
def runFrom (steps : Nat) (fuel : Nat) (s : Session σ τ) : Option RunOutcome × Session σ τ :=
  match s.machine.runState with
  | .faulted cause => (some (.fault cause), s)
  | .halted => (some (.halted steps), s)
  | .running =>
    match fuel with
    | 0 => (none, s)
    | fuel + 1 =>
      match s.step with
      | (.fault cause, stopped) => (some (.fault cause), stopped)
      | (_, next) => next.runFrom (steps + 1) fuel

/-- Steps until the machine stops; nothing if `fuel` steps do not stop it. -/
def run (fuel : Nat) (s : Session σ τ) : Option RunOutcome × Session σ τ := s.runFrom 0 fuel

theorem runFrom_of_halted {s : Session σ τ} (h : s.machine.runState = .halted) (steps fuel : Nat) :
    s.runFrom steps fuel = (some (.halted steps), s) := by
  cases fuel <;> simp [runFrom, h]

theorem runFrom_of_faulted {s : Session σ τ} {c : Fault} (h : s.machine.runState = .faulted c)
    (steps fuel : Nat) : s.runFrom steps fuel = (some (.fault c), s) := by
  cases fuel <;> simp [runFrom, h]

theorem runFrom_zero {s : Session σ τ} (h : s.machine.runState = .running) (steps : Nat) :
    s.runFrom steps 0 = (none, s) := by
  simp [runFrom, h]

/-- **A run of a running machine is a step** and, unless that faults, a run. -/
theorem runFrom_succ {s : Session σ τ} (h : s.machine.runState = .running) (steps fuel : Nat) :
    s.runFrom steps (fuel + 1) =
      match s.step with
      | (.fault cause, stopped) => (some (.fault cause), stopped)
      | (_, next) => next.runFrom (steps + 1) fuel := by
  rw [runFrom, h]

end Session

end LS8
