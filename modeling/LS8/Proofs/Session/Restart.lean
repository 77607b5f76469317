import LS8.Proofs.Session.Histories
import LS8.Proofs.Session.Runs
import LS8.Proofs.Session.Stack

/-! # Sessions: starting afresh

A reset forgets everything but the configuration and memory, and no history changes the
configuration; so a machine that has been reset is the new machine of the same configuration with
the same memory loaded, and whatever a host does from there on it sees the same (`Host.seen`).

Memory itself is written by loads and by what goes on the stack only. A run that puts nothing on the
stack therefore leaves the program it has found, and can be repeated.

* `config_after`: the configuration after a history.
* `memory_after`: memory after steps that put nothing on the stack.
* `reset_eq_reloaded`: machines that have been reset, and runs that are repeated. -/

namespace LS8

/-! ### Machines that are reset -/

namespace Machine

/-- **A reset loads memory into a new machine.** -/
theorem loadProgram_toList (m : Machine) :
    (ofConfig m.config).loadProgram m.memory.toList = (m.reset, .ok ()) := by
  have hfits : m.memory.toList.length ≤ 256 := Nat.le_of_eq m.memory.length_toList
  obtain ⟨memory, hload⟩ := (ofConfig m.config).exists_loadFrom_eq 0 m.memory.toList
  have hmemory : memory = m.memory := by
    have hlist := (ofConfig m.config).toList_loadProgram m.memory.toList
    have hnone : (ofConfig m.config).memory.toList.drop m.memory.toList.length = [] :=
      List.drop_of_length_le (by simp)
    rw [loadProgram, hload, List.take_of_length_le hfits, hnone, List.append_nil] at hlist
    exact Memory.toList_injective hlist
  refine Prod.ext ?_ ?_
  · rw [loadProgram, hload, hmemory]
    rfl
  · rw [result_loadProgram, if_pos hfits]

end Machine

namespace Session

variable {σ τ υ : Type} [TraceSink τ] [TraceSink υ] [OutputPort σ] {s t : Session σ τ}

/-! ### What steps leave alone -/

theorem config_step (s : Session σ τ) : s.step.2.machine.config = s.machine.config := by
  obtain ⟨i, -, hview⟩ | ⟨-, hmachine⟩ := s.machine_step
  · exact (congrArg View.config hview).trans (i.config_next s.machine.view)
  · rw [hmachine]

theorem memory_step (h : ∀ i, s.retired? = some i → i.depthChange ≠ 1) :
    s.step.2.machine.memory = s.machine.memory := by
  obtain ⟨i, hi, hview⟩ | ⟨-, hmachine⟩ := s.machine_step
  · have hcells := (congrArg View.cells hview).trans (Instruction.cells_next_of_ne (h i hi))
    exact Memory.ext_get (congrFun hcells)
  · rw [hmachine]

theorem memory_after {n : ℕ}
    (h : ∀ k < n, ∀ i, (s.after k).retired? = some i → i.depthChange ≠ 1) :
    (s.after n).machine.memory = s.machine.memory := by
  induction n with
  | zero => rfl
  | succ n ih =>
    rw [after_succ, memory_step (h n (Nat.lt_succ_self n))]
    exact ih fun k hk => h k (by omega)

theorem config_after (s : Session σ τ) (n : ℕ) : (s.after n).machine.config = s.machine.config :=
  invariant_after (P := fun m => m.config = s.machine.config)
    (fun t ht => (config_step t).trans ht) rfl n

/-! ### Runs that are repeated -/

theorem RunsTo.withSink {out : RunOutcome} (h : s.RunsTo out t) (x : υ) :
    ∃ y, (s.withSink x).RunsTo out (t.withSink y) := by
  obtain ⟨fuel, hrun⟩ := h
  have hout : ∀ k < fuel, ((s.withSink x).after k).step.1 = (s.after k).step.1 := fun k _ => by
    rw [after_withSink, step_withSink]
  have hsame := (runFrom_congr (s := s) (t := s.withSink x) rfl hout 0).1
  refine ⟨(s.eventsUntil fuel).foldl TraceSink.record x, fuel, Prod.ext ?_ ?_⟩
  · exact hsame.trans (congrArg Prod.fst hrun)
  · rw [Session.run, runFrom_eq_after, after_withSink, after_eq_of_run hrun]

/-- **A run that puts nothing on the stack can be repeated** after a reset. -/
theorem RunsTo.repeated {out : RunOutcome} {m : Machine} {p : σ} {x : τ}
    (h : (⟨m.reset, p, x⟩ : Session σ τ).RunsTo out t)
    (hstack : ∀ k i, ((⟨m.reset, p, x⟩ : Session σ τ).after k).retired? = some i →
      i.depthChange ≠ 1) (y : υ) :
    ∃ t' : Session σ υ, (⟨t.machine.reset, p, y⟩ : Session σ υ).RunsTo out t' ∧
      t'.machine = t.machine ∧ t'.port = t.port := by
  obtain ⟨z, hrun⟩ := h.withSink y
  obtain ⟨fuel, hfuel⟩ := h
  have hreset : t.machine.reset = m.reset := by
    unfold Machine.reset
    rw [← after_eq_of_run hfuel, config_after, memory_after fun k _ => hstack k]
    rfl
  rw [hreset]
  exact ⟨t.withSink z, hrun, rfl, rfl⟩

end Session

/-! ### Histories -/

namespace Host

open Session (Answer printEight after_add step_after_of_ne_retired retired?_of_ne_retired)

variable {σ : Type} [OutputPort σ]

theorem config_after (h : Host σ) (ops : List Operation) :
    (h.after ops).machine.config = h.machine.config :=
  invariant_after (P := fun m => m.config = h.machine.config)
    (fun s hs => (Session.config_step s).trans hs) (fun _ _ _ _ _ hm => hm) (fun _ hm => hm) rfl

/-- What an operation gives back: whether a load has gone well, or the answer to a call together
with the events that its sink hears. -/
inductive Reply where
  | done
  | loaded (result : Except Fault Unit)
  | answered (answer : Answer) (events : List TraceEvent)

def reply (h : Host σ) : Operation → Reply
  | .loadByte address b => .loaded ((h.machine.loadByte address b).map fun _ => ())
  | .loadProgram program => .loaded (h.machine.loadProgram program).2
  | .call c => .answered (c.call.answer (h.session c.sink)) (c.call.heard (h.session c.sink))
  | .setRegister _ _ | .setSp _ | .setPc _ | .reset => .done

/-- What one operation after the other gives back, and what each leaves. -/
def seen (h : Host σ) : List Operation → List (Reply × Host σ)
  | [] => []
  | op :: ops => (h.reply op, h.perform op) :: (h.perform op).seen ops

/-- **A reset starts afresh.** After any history, a machine that is reset is the new machine of its
configuration with the present memory loaded, and this load succeeds. Whatever a host does next, it
gets the same replies from both, events included, and the same machines and ports. And if a program
loaded into a new machine runs to its end without putting anything on the stack, then after a reset
it runs again, on a port as it was at first, to the same outcome, port and machine. -/
theorem reset_eq_reloaded {τ υ : Type} [TraceSink τ] [TraceSink υ] (config : Config) :
    (∀ (port : σ) (ops : List Operation) (m : Machine), m = ((fresh config port).after ops).machine →
      (Machine.ofConfig config).loadProgram m.memory.toList = (m.reset, .ok ()) ∧
      ∀ (p : σ) (later : List Operation), (⟨m.reset, p⟩ : Host σ).seen later =
        (⟨((Machine.ofConfig config).loadProgram m.memory.toList).1, p⟩ : Host σ).seen later) ∧
    ∀ (program : List UInt8) (p : σ) (x : τ) (y : υ) (s t : Session σ τ) (out : RunOutcome),
      s = ⟨((Machine.ofConfig config).loadProgram program).1, p, x⟩ → s.RunsTo out t →
      (∀ k r, (s.after k).retired? ≠ some (.push r) ∧ (s.after k).retired? ≠ some (.call r)) →
      ∃ t' : Session σ υ, (⟨t.machine.reset, p, y⟩ : Session σ υ).RunsTo out t' ∧
        t'.machine = t.machine ∧ t'.port = t.port := by
  refine ⟨fun port ops m hm => ?_, fun program p x y s t out hs hrun hstack => ?_⟩
  · have hconfig : m.config = config := by
      rw [hm]
      exact config_after (fresh config port) ops
    have hload := m.loadProgram_toList
    rw [hconfig] at hload
    refine ⟨hload, fun p later => ?_⟩
    rw [hload]
  · -- a new machine with a program loaded is a machine that has been reset
    obtain ⟨memory, hload⟩ := (Machine.ofConfig config).exists_loadFrom_eq 0 program
    have hreset : ((Machine.ofConfig config).loadProgram program).1 =
        { Machine.ofConfig config with memory : Machine }.reset := hload
    rw [hreset] at hs
    subst hs
    refine hrun.repeated (fun k i hi hput => ?_) y
    rcases Instruction.eq_push_or_call_of_put hput with ⟨r, rfl⟩ | ⟨r, rfl⟩
    · exact (hstack k r).1 hi
    · exact (hstack k r).2 hi

/-- A program that faults and then a halt further on, after some writes of the host. -/
def writtenOver : List Operation :=
  [.loadProgram [0x45, 0, 0], .setSp 9, .call ⟨.run 5, NoTrace.mk⟩, .setPc 300, .loadByte 2 0x01]

/-- The load succeeds after a fault, and eight is printed again after a halt. -/
theorem reset_eq_reloaded_printEight :
    (Machine.ofConfig {}).loadProgram
        ((fresh {} ({} : Writer)).after writtenOver).machine.memory.toList =
      (((fresh {} ({} : Writer)).after writtenOver).machine.reset, .ok ()) ∧
    printEight.RunsTo (.halted 3) (printEight.after 5) ∧
    (∀ k r, (printEight.after k).retired? ≠ some (.push r) ∧
      (printEight.after k).retired? ≠ some (.call r)) ∧
    ∃ t' : Session Writer Recorder,
      (⟨(printEight.after 5).machine.reset, {}, {}⟩ : Session Writer Recorder).RunsTo (.halted 3) t' ∧
        t'.machine = (printEight.after 5).machine ∧ t'.port = (printEight.after 5).port := by
  have hfirst : printEight.retired? = some (.ldi 0 8) := by decide +kernel
  have hsecond : (printEight.after 1).retired? = some (.prn 0) := by decide +kernel
  have hlast : (printEight.after 2).step.1 ≠ .retired := by decide +kernel
  have hstack : ∀ k r, (printEight.after k).retired? ≠ some (.push r) ∧
      (printEight.after k).retired? ≠ some (.call r) := by
    intro k r
    match k with
    | 0 => simp [hfirst]
    | 1 => simp [hsecond]
    | k + 2 =>
      -- from the halt on nothing is carried out
      have hne : (printEight.after (k + 2)).step.1 ≠ .retired := by
        rw [Nat.add_comm, after_add, step_after_of_ne_retired hlast]
        exact hlast
      simp [retired?_of_ne_retired hne]
  have hout : (printEight.run 5).1 = some (.halted 3) := by decide +kernel
  have hrun : printEight.RunsTo (.halted 3) (printEight.after 5) :=
    ⟨5, Prod.ext hout (Session.runFrom_eq_after printEight 0 5)⟩
  obtain ⟨hhistory, hrepeated⟩ := reset_eq_reloaded (σ := Writer) (τ := NoTrace) (υ := Recorder) {}
  exact ⟨(hhistory {} writtenOver _ rfl).1, hrun, hstack,
    hrepeated [0x82, 0, 8, 0x47, 0, 0x01] {} {} {} printEight _ _ rfl hrun hstack⟩

end Host

end LS8
