import LS8.Proofs.Machine.Loading
import LS8.Proofs.Session.Tracing

/-! # Sessions: the operations of a host

A host holds a machine and the port that it prints to. Besides calling for steps and runs, each time
with whatever sink it likes, a host may load bytes, write registers, move the program counter and
reset the machine. `Host.after` is what a sequence of such operations leaves.

A machine that has stopped cannot be talked into going on: of all operations only `reset` touches
the run state of a stopped machine, and while the run state is terminal every call comes back at
once (`Host.Stuck`).

* `stopped_until_reset`: any sequence of operations without a reset. -/

namespace LS8

open Session

/-! ### Operations -/

/-- A machine in the hands of a host, and the port that it prints to. -/
structure Host (σ : Type) where
  machine : Machine
  port : σ

/-- What a host may do to its machine. -/
inductive Operation where
  | loadByte (address : UInt16) (b : UInt8)
  | loadProgram (program : List UInt8)
  | setRegister (r : Register) (v : UInt8)
  | setSp (v : UInt8)
  | setPc (address : UInt16)
  | call (c : TracedCall)
  | reset

namespace Host

/-- What `sink` listens to if the host calls now. -/
def session {σ τ : Type} (h : Host σ) (sink : τ) : Session σ τ := ⟨h.machine, h.port, sink⟩

variable {σ : Type} [OutputPort σ]

/-- An operation. A byte that has no cell leaves the machine as it is, and a program leaves the
bytes before such a byte. -/
def perform (h : Host σ) : Operation → Host σ
  | .loadByte address b =>
    match h.machine.loadByte address b with
    | .ok machine => { h with machine }
    | .error _ => h
  | .loadProgram program => { h with machine := (h.machine.loadProgram program).1 }
  | .setRegister r v => { h with machine := h.machine.setRegister r v }
  | .setSp v => { h with machine := { h.machine with registers := h.machine.registers.setSp v } }
  | .setPc address => { h with machine := h.machine.setPc address }
  | .call c =>
    let next := c.call.perform (h.session c.sink)
    ⟨next.machine, next.port⟩
  | .reset => { h with machine := h.machine.reset }

/-- One operation after the other. -/
def after (h : Host σ) (ops : List Operation) : Host σ := ops.foldl perform h

/-! ### Stopped machines -/

/-- Every step comes to `o` and every run to `out`, and none of them changes the machine or the port
or lets the sink hear anything. -/
def Stuck (h : Host σ) (o : StepOutcome) (out : RunOutcome) : Prop :=
  ∀ {τ : Type} [TraceSink τ] (sink : τ), (h.session sink).step = (o, h.session sink) ∧
    ∀ fuel, (h.session sink).run fuel = (some out, h.session sink)

theorem stuck_of_halted {h : Host σ} (hs : h.machine.runState = .halted) :
    h.Stuck .halted (.halted 0) :=
  fun sink => ⟨step_of_halted (s := h.session sink) hs, fun fuel => runFrom_of_halted hs 0 fuel⟩

theorem stuck_of_faulted {h : Host σ} {c : Fault} (hs : h.machine.runState = .faulted c) :
    h.Stuck (.fault c) (.fault c) :=
  fun sink => ⟨step_of_faulted (s := h.session sink) hs, fun fuel => runFrom_of_faulted hs 0 fuel⟩

theorem runState_perform {h : Host σ} (hs : h.machine.runState ≠ .running) {op : Operation}
    (hop : op ≠ .reset) : (h.perform op).machine.runState = h.machine.runState := by
  cases op with
  | loadByte address b =>
    rcases Nat.lt_or_ge address.toNat 256 with hlt | hle
    · simp only [perform, Machine.loadByte_of_lt h.machine hlt]
    · simp only [perform, Machine.loadByte_of_le h.machine hle]
  | loadProgram program => exact h.machine.runState_loadFrom 0 program
  | setRegister r v => rfl
  | setSp v => rfl
  | setPc address => rfl
  | call c =>
    -- a call is some number of steps, and a stopped session takes none
    obtain ⟨n, hn, -⟩ := c.call.exists_steps (h.session c.sink)
    have hstay := (after_of_stopped (s := h.session c.sink) hs n).1
    simp only [perform, hn, hstay]
    rfl
  | reset => exact absurd rfl hop

theorem runState_after {h : Host σ} (hs : h.machine.runState ≠ .running) {ops : List Operation}
    (hops : .reset ∉ ops) : (h.after ops).machine.runState = h.machine.runState := by
  induction ops generalizing h with
  | nil => rfl
  | cons op ops ih =>
    rw [List.mem_cons, not_or] at hops
    have hfirst := runState_perform hs (Ne.symm hops.1)
    have hrest : ((h.perform op).after ops).machine.runState = _ := ih (by rwa [hfirst]) hops.2
    exact hrest.trans hfirst

/-- **A machine that has stopped stays stopped until it is reset.** Whatever a host does in between,
loads that fail and valid code at a valid address included, at any point the run state is still the
terminal one, every step and every run answers with it, and none of them changes or prints or
reports anything. Only a reset makes the machine run again. -/
theorem stopped_until_reset (h : Host σ) (ops : List Operation) (hops : .reset ∉ ops) :
    (h.machine.runState = .halted → ∀ done, done <+: ops →
      (h.after done).machine.runState = .halted ∧ (h.after done).Stuck .halted (.halted 0)) ∧
    (∀ c, h.machine.runState = .faulted c → ∀ done, done <+: ops →
      (h.after done).machine.runState = .faulted c ∧ (h.after done).Stuck (.fault c) (.fault c)) ∧
    (h.machine.runState.isTerminal → ∀ done, done <+: ops → ∀ op,
      ((h.after done).perform op).machine.runState = .running ↔ op = .reset) := by
  have hstays : ∀ done, done <+: ops → h.machine.runState ≠ .running →
      (h.after done).machine.runState = h.machine.runState := by
    intro done hdone hs
    exact runState_after hs fun hmem => hops (hdone.subset hmem)
  refine ⟨fun hs done hdone => ?_, fun c hs done hdone => ?_, fun hs done hdone op => ?_⟩
  · have hstate := (hstays done hdone (by simp [hs])).trans hs
    exact ⟨hstate, stuck_of_halted hstate⟩
  · have hstate := (hstays done hdone (by simp [hs])).trans hs
    exact ⟨hstate, stuck_of_faulted hstate⟩
  · have hne : h.machine.runState ≠ .running := by
      intro hrun
      rw [hrun] at hs
      cases hs
    have hstate := hstays done hdone hne
    constructor
    · intro hrun
      by_contra hop
      rw [runState_perform (by rwa [hstate]) hop, hstate] at hrun
      exact hne hrun
    · rintro rfl
      rfl

/-- A program that has been run to its end. -/
def finished (program : List UInt8) : Host Writer :=
  Host.after ⟨(Machine.new.loadProgram program).1, {}⟩ [.call ⟨.run 5, NoTrace.mk⟩]

/-- A load that fails, `LDI R0,8; PRN R0; HLT` at address 0, and calls to run it. -/
def attempts : List Operation :=
  [.loadByte 300 0x01, .loadProgram [0x82, 0, 8, 0x47, 0, 0x01], .setSp 9, .setPc 0,
    .call ⟨.step, ({} : Recorder)⟩, .call ⟨.run 5, NoTrace.mk⟩]

/-- The new program stands ready, but a halted machine and a faulted one do not carry it out. -/
theorem stopped_until_reset_attempts :
    .reset ∉ attempts ∧ (finished [0x01]).machine.runState = .halted ∧
      ((finished [0x01]).after attempts).Stuck .halted (.halted 0) ∧
      (finished []).machine.runState = .faulted (.unknownOpcode 0 0) ∧
      ((finished []).after attempts).Stuck (.fault (.unknownOpcode 0 0))
        (.fault (.unknownOpcode 0 0)) ∧
      Instruction.fetch ((finished []).after attempts).machine.memory
        ((finished []).after attempts).machine.pc = .ok (.ldi 0 8) ∧
      (((finished []).after attempts).perform .reset).machine.runState = .running := by
  have hops : .reset ∉ attempts := by simp [attempts]
  have hhalted : (finished [0x01]).machine.runState = .halted := by decide +kernel
  have hfaulted : (finished []).machine.runState = .faulted (.unknownOpcode 0 0) := by
    decide +kernel
  obtain ⟨hhalt, -, -⟩ := stopped_until_reset (finished [0x01]) attempts hops
  obtain ⟨-, hfault, hreset⟩ := stopped_until_reset (finished []) attempts hops
  exact ⟨hops, hhalted, (hhalt hhalted _ List.prefix_rfl).2, hfaulted,
    (hfault _ hfaulted _ List.prefix_rfl).2, by decide +kernel,
    (hreset (by rw [hfaulted]; rfl) _ List.prefix_rfl _).mpr rfl⟩

end Host

end LS8
