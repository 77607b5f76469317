import LS8.Proofs.Session.Steps
import LS8.Writer

/-! # Sessions: events

A sink never answers, so whatever sink a session has, its machine and its port go the same way, and
the sink hears the same events in the same order (`step_withSink`, `after_withSink`). What is heard
can therefore be written down without a sink: `events` for one step, `eventsUntil` for several.

A host drives a machine by calls that take one step or run it (`Call`), each with a sink of its own
if it likes. However it does so, the calls add up to some number of steps
(`exists_steps_of_calls`).

* `run_events`: the events of a run that stops. -/

namespace LS8

theorem Recorder.toList_foldl_record (es : List TraceEvent) (r : Recorder) :
    (es.foldl TraceSink.record r).events.toList = r.events.toList ++ es := by
  induction es generalizing r with
  | nil => exact (List.append_nil _).symm
  | cons e es ih =>
    have hrecord : (TraceSink.record r e).events.toList = r.events.toList ++ [e] :=
      Array.toList_push
    rw [List.foldl_cons, ih, hrecord, List.append_assoc]
    rfl

namespace Session

variable {σ τ υ : Type} [TraceSink τ] [TraceSink υ] [OutputPort σ]

/-! ### The events of a step -/

/-- What is reported at the end of a step that stops the machine. -/
def endEvents (pc : UInt16) : StepOutcome → List TraceEvent
  | .retired => []
  | .halted => [.halted pc]
  | .fault cause => [.faulted cause pc]

/-- The events of the next step. -/
def events (s : Session σ τ) : List TraceEvent :=
  match s.machine.runState with
  | .running => s.machine.startEvent :: endEvents s.machine.pc s.step.1
  | _ => []

theorem events_of_running {s : Session σ τ} (hs : s.machine.runState = .running) :
    s.events = s.machine.startEvent :: endEvents s.machine.pc s.step.1 := by
  rw [events, hs]

theorem events_of_stopped {s : Session σ τ} (hs : s.machine.runState ≠ .running) :
    s.events = [] := by
  unfold events
  split
  · next h => exact absurd h hs
  · rfl

theorem events_of_retired {s : Session σ τ} (h : s.step.1 = .retired) :
    s.events = [s.machine.startEvent] := by
  rw [events_of_running (running_of_retired h), h]
  rfl

/-- The session with `x` as its sink. -/
def withSink (s : Session σ τ) (x : υ) : Session σ υ := ⟨s.machine, s.port, x⟩

/-- **A step goes the same way with every sink**, and every sink hears its events. -/
theorem step_withSink (s : Session σ τ) (x : υ) :
    (s.withSink x).step =
      (s.step.1, s.step.2.withSink (s.events.foldl TraceSink.record x)) := by
  cases hs : s.machine.runState with
  | halted =>
    rw [step_of_halted hs, step_of_halted (s := s.withSink x) hs,
      events_of_stopped (by rw [hs]; simp)]
    rfl
  | faulted c =>
    rw [step_of_faulted hs, step_of_faulted (s := s.withSink x) hs,
      events_of_stopped (by rw [hs]; simp)]
    rfl
  | running =>
    rw [events_of_running hs]
    have hstep := step_of_running_machine hs
    generalize s.step.1 = o at hstep ⊢
    generalize s.step.2 = next at hstep ⊢
    cases hstep with
    | fault he => exact Step.eq (s := s.withSink x) hs (.fault he)
    | halt he => exact Step.eq (s := s.withSink x) hs (.halt he)
    | retire he => exact Step.eq (s := s.withSink x) hs (.retire he)
    | print he hp => exact Step.eq (s := s.withSink x) hs (.print he hp)
    | refuse he hp => exact Step.eq (s := s.withSink x) hs (.refuse he hp)

/-! ### The events of many steps -/

/-- The events of the next `n` steps. -/
def eventsUntil (s : Session σ τ) (n : ℕ) : List TraceEvent :=
  (List.range n).flatMap fun k => (s.after k).events

theorem eventsUntil_succ (s : Session σ τ) (n : ℕ) :
    s.eventsUntil (n + 1) = s.eventsUntil n ++ (s.after n).events := by
  rw [eventsUntil, List.range_succ, List.flatMap_append, List.flatMap_singleton, eventsUntil]

theorem eventsUntil_add (s : Session σ τ) (k n : ℕ) :
    s.eventsUntil (k + n) = s.eventsUntil k ++ (s.after k).eventsUntil n := by
  induction n with
  | zero => exact (List.append_nil _).symm
  | succ n ih =>
    rw [← Nat.add_assoc, eventsUntil_succ, ih, eventsUntil_succ, List.append_assoc, after_add]

theorem after_withSink (s : Session σ τ) (x : υ) (n : ℕ) :
    (s.withSink x).after n =
      (s.after n).withSink ((s.eventsUntil n).foldl TraceSink.record x) := by
  induction n with
  | zero => rfl
  | succ n ih =>
    rw [after_succ, ih, step_withSink, after_succ, eventsUntil_succ, List.foldl_append]

theorem sink_after (s : Session σ τ) (n : ℕ) :
    (s.after n).sink = (s.eventsUntil n).foldl TraceSink.record s.sink :=
  congrArg Session.sink (after_withSink s s.sink n)

theorem eventsUntil_of_retired {s : Session σ τ} {n : ℕ}
    (h : ∀ k < n, (s.after k).step.1 = .retired) :
    s.eventsUntil n = (List.range n).map fun k => (s.after k).machine.startEvent := by
  rw [eventsUntil, List.map_eq_flatMap]
  exact List.flatMap_congr fun k hk => events_of_retired (h k (List.mem_range.mp hk))

theorem after_of_stopped {s : Session σ τ} (hs : s.machine.runState ≠ .running) (n : ℕ) :
    s.after n = s ∧ s.eventsUntil n = [] := by
  have hstep : s.step.2 = s := by
    cases h : s.machine.runState with
    | running => exact absurd h hs
    | halted => rw [step_of_halted h]
    | faulted c => rw [step_of_faulted h]
  induction n with
  | zero => exact ⟨rfl, rfl⟩
  | succ n ih =>
    rw [after_succ, eventsUntil_succ, ih.1, ih.2, hstep, events_of_stopped hs]
    exact ⟨rfl, rfl⟩

theorem after_eq_after_of_stopped {s : Session σ τ} {m n : ℕ}
    (hm : (s.after m).machine.runState ≠ .running) (hn : (s.after n).machine.runState ≠ .running) :
    s.after m = s.after n ∧ s.eventsUntil m = s.eventsUntil n := by
  rcases Nat.le_total m n with h | h
  · obtain ⟨d, rfl⟩ := Nat.exists_eq_add_of_le h
    rw [after_add, eventsUntil_add, (after_of_stopped hm d).1, (after_of_stopped hm d).2]
    exact ⟨rfl, (List.append_nil _).symm⟩
  · obtain ⟨d, rfl⟩ := Nat.exists_eq_add_of_le h
    rw [after_add, eventsUntil_add, (after_of_stopped hn d).1, (after_of_stopped hn d).2]
    exact ⟨rfl, List.append_nil _⟩

/-! ### Calls -/

/-- What a host may call: one step, or a run, here of at most `fuel` steps. -/
inductive Call where
  | step
  | run (fuel : ℕ)

namespace Call

/-- The session after a call. -/
def perform (s : Session σ τ) : Call → Session σ τ
  | step => s.step.2
  | run fuel => (s.run fuel).2

/-- The events that a recorder of its own hears during a call. -/
def heard (s : Session σ τ) (c : Call) : List TraceEvent :=
  (c.perform (s.withSink ({} : Recorder))).sink.events.toList

/-- The events of several calls, each with a recorder of its own. -/
def heardAll (s : Session σ τ) : List Call → List TraceEvent
  | [] => []
  | c :: cs => c.heard s ++ heardAll (c.perform s) cs

theorem exists_steps (s : Session σ τ) (c : Call) :
    ∃ n, c.perform s = s.after n ∧ c.heard s = s.eventsUntil n := by
  have hheard : ∀ n, c.perform (s.withSink ({} : Recorder)) = (s.withSink ({} : Recorder)).after n →
      c.heard s = s.eventsUntil n := fun n hn => by
    rw [heard, hn, after_withSink]
    exact Recorder.toList_foldl_record _ _
  cases c with
  | step => exact ⟨1, rfl, hheard 1 rfl⟩
  | run fuel =>
    have hout : ∀ k < fuel, ((s.withSink ({} : Recorder)).after k).step.1 = (s.after k).step.1 :=
      fun k _ => by rw [after_withSink, step_withSink]
    obtain ⟨-, n, -, hs, ht⟩ :=
      runFrom_congr (s := s) (t := s.withSink ({} : Recorder)) rfl hout 0
    exact ⟨n, hs, hheard n ht⟩

theorem heard_step (s : Session σ τ) : step.heard s = s.events := by
  rw [heard, perform, step_withSink]
  exact Recorder.toList_foldl_record _ _

/-- **Calls add up to steps.** -/
theorem exists_steps_of_calls (s : Session σ τ) (calls : List Call) :
    ∃ n, calls.foldl perform s = s.after n ∧ heardAll s calls = s.eventsUntil n := by
  induction calls generalizing s with
  | nil => exact ⟨0, rfl, rfl⟩
  | cons c cs ih =>
    obtain ⟨k, hperform, hheard⟩ := c.exists_steps s
    obtain ⟨n, hrest, hrestHeard⟩ := ih (c.perform s)
    refine ⟨k + n, ?_, ?_⟩
    · rw [List.foldl_cons, hrest, hperform, after_add]
    · rw [heardAll, hheard, hrestHeard, hperform, eventsUntil_add]

end Call

/-! ### Runs -/

theorem runState_of_run {s t : Session σ τ} {fuel : ℕ} {out : RunOutcome}
    (h : s.run fuel = (some out, t)) :
    (∀ c, out = .fault c → t.machine.runState = .faulted c) ∧
      (∀ steps, out = .halted steps → t.machine.runState = .halted) := by
  obtain ⟨n, -, ⟨c, rfl, hstep⟩ | ⟨rfl, -, hstep⟩ | ⟨rfl, -, hs, rfl⟩⟩ := exists_stop_of_runFrom h
  · have hstate := runState_step (s.after n)
    rw [hstep] at hstate
    exact ⟨fun d hd => by rw [← RunOutcome.fault.inj hd]; exact hstate, fun _ hd => by cases hd⟩
  · have hstate := runState_step (s.after n)
    rw [hstep] at hstate
    exact ⟨fun _ hd => by (cases hd), fun _ _ => hstate⟩
  · exact ⟨fun _ hd => by (cases hd), fun _ _ => hs⟩

theorem stopped_of_run {s t : Session σ τ} {fuel : ℕ} {out : RunOutcome}
    (h : s.run fuel = (some out, t)) : t.machine.runState ≠ .running := by
  obtain ⟨hfault, hhalted⟩ := runState_of_run h
  cases out with
  | fault c => rw [hfault c rfl]; simp
  | halted steps => rw [hhalted steps rfl]; simp

theorem exists_stop_of_run {s t : Session σ τ} {fuel : ℕ} {out : RunOutcome}
    (hs : s.machine.runState = .running) (h : s.run fuel = (some out, t)) :
    ∃ n, (∀ k < n, (s.after k).step.1 = .retired) ∧ (s.after n).machine.runState = .running ∧
      t = s.after (n + 1) ∧
      ((∃ c, out = .fault c ∧ (s.after n).step.1 = .fault c) ∨
        out = .halted (n + 1) ∧ (s.after n).step.1 = .halted) := by
  obtain ⟨n, hretired, ⟨c, rfl, hstep⟩ | ⟨rfl, -, hstep⟩ | ⟨-, -, hhalted, -⟩⟩ :=
    exists_stop_of_runFrom h
  · exact ⟨n, hretired, running_after hs hretired, by rw [after_succ, hstep],
      .inl ⟨c, rfl, by rw [hstep]⟩⟩
  · exact ⟨n, hretired, running_after hs hretired, by rw [after_succ, hstep],
      .inr ⟨by rw [Nat.zero_add], by rw [hstep]⟩⟩
  · rw [hs] at hhalted
    cases hhalted

theorem eventsUntil_of_stop {s : Session σ τ} {n : ℕ} {e : TraceEvent}
    (hretired : ∀ k < n, (s.after k).step.1 = .retired)
    (hrun : (s.after n).machine.runState = .running)
    (he : endEvents (s.after n).machine.pc (s.after n).step.1 = [e]) :
    s.eventsUntil (n + 1) =
      (List.range (n + 1)).map (fun k => (s.after k).machine.startEvent) ++ [e] := by
  rw [eventsUntil_succ, eventsUntil_of_retired hretired, events_of_running hrun, he,
    List.range_succ, List.map_append, List.append_assoc]
  rfl

/-- A run that stops is heard as any number of steps that reach its end. -/
theorem heard_of_run {s t : Session σ τ} {fuel n : ℕ} {out : RunOutcome}
    (h : s.run fuel = (some out, t)) (hn : (s.after n).machine.runState ≠ .running) :
    s.after n = t ∧ s.eventsUntil n = (Call.run fuel).heard s := by
  obtain ⟨m, hm, hheard⟩ := (Call.run fuel).exists_steps s
  have ht : t = s.after m := (congrArg Prod.snd h).symm.trans hm
  have hstopped := stopped_of_run h
  rw [ht] at hstopped
  rw [ht, hheard]
  exact after_eq_after_of_stopped hn hstopped

/-- **The events of a run that stops.** A machine that had stopped before reports nothing. Otherwise
each step reports the program counter and the registers before it, and the last one also reports how
it ended: that it halted, if and only if the run halted, or the fault of the run, which is also left
in the run state. Any calls that bring the machine to its stop report the same in all, and calls
after that report nothing. -/
theorem run_events (s t : Session σ τ) (fuel : ℕ) (out : RunOutcome)
    (h : s.run fuel = (some out, t)) :
    t.sink = ((Call.run fuel).heard s).foldl TraceSink.record s.sink ∧
    (s.machine.runState ≠ .running → (Call.run fuel).heard s = [] ∧ t = s) ∧
    (s.machine.runState = .running →
      ∃ n e, (∀ k < n, (s.after k).step.1 = .retired) ∧ (s.after n).step.1 ≠ .retired ∧
        t = s.after (n + 1) ∧
        (Call.run fuel).heard s =
          (List.range (n + 1)).map (fun k =>
            .start (s.after k).machine.pc
              ((s.after k).machine.memory.window (s.after k).machine.pc)
              (s.after k).machine.registers) ++ [e] ∧
        (∀ pc, e = .halted pc ↔ (∃ steps, out = .halted steps) ∧ pc = t.machine.pc) ∧
        (∀ steps, out = .halted steps → steps = n + 1) ∧
        (∀ c pc, e = .faulted c pc ↔ out = .fault c ∧ pc = t.machine.pc) ∧
        (∀ c, out = .fault c → t.machine.runState = .faulted c) ∧
        t.machine.pc = (s.after n).machine.pc) ∧
    (∀ calls : List Call, (calls.foldl Call.perform s).machine.runState ≠ .running →
      calls.foldl Call.perform s = t ∧ Call.heardAll s calls = (Call.run fuel).heard s) ∧
    ∀ calls : List Call, calls.foldl Call.perform t = t ∧ Call.heardAll t calls = [] := by
  have hstopped := stopped_of_run h
  refine ⟨?_, fun hs => ?_, fun hs => ?_, fun calls hcalls => ?_, fun calls => ?_⟩
  · obtain ⟨m, hm, hheard⟩ := (Call.run fuel).exists_steps s
    have ht : t = s.after m := (congrArg Prod.snd h).symm.trans hm
    rw [hheard, ht, sink_after]
  · obtain ⟨ht, hheard⟩ := heard_of_run (n := 0) h hs
    exact ⟨hheard.symm, ht.symm⟩
  · obtain ⟨n, hretired, hrun, ht, hout⟩ := exists_stop_of_run hs h
    have hne : (s.after n).step.1 ≠ .retired := by
      rcases hout with ⟨c, -, hc⟩ | ⟨-, hhalted⟩
      · simp [hc]
      · simp [hhalted]
    have hpc : t.machine.pc = (s.after n).machine.pc := by
      rw [ht, after_succ, machine_of_ne_retired hne]
    have hheard := (heard_of_run h (ht ▸ hstopped)).2
    have hlatched := (runState_of_run h).1
    rcases hout with ⟨c, rfl, hc⟩ | ⟨rfl, hhalted⟩
    · have hend : endEvents (s.after n).machine.pc (s.after n).step.1 =
          [.faulted c t.machine.pc] := by rw [hc, hpc]; rfl
      refine ⟨n, .faulted c t.machine.pc, hretired, hne, ht,
        hheard.symm.trans (eventsUntil_of_stop hretired hrun hend), ?_, ?_, ?_, hlatched, hpc⟩
      · simp
      · simp
      · simp [eq_comm]
    · have hend : endEvents (s.after n).machine.pc (s.after n).step.1 =
          [.halted t.machine.pc] := by rw [hhalted, hpc]; rfl
      refine ⟨n, .halted t.machine.pc, hretired, hne, ht,
        hheard.symm.trans (eventsUntil_of_stop hretired hrun hend), ?_, ?_, ?_, hlatched, hpc⟩
      · simp [eq_comm]
      · simp
      · simp
  · obtain ⟨k, hk, hall⟩ := Call.exists_steps_of_calls s calls
    rw [hk] at hcalls
    rw [hk, hall]
    exact heard_of_run h hcalls
  · obtain ⟨k, hk, hall⟩ := Call.exists_steps_of_calls t calls
    rw [hk, hall]
    exact after_of_stopped hstopped k

/-- A session about to carry out `LDI R0,8; HLT`. -/
def loadEight : Session Writer NoTrace where
  machine := (Machine.new.loadProgram [0x82, 0, 8, 0x01]).1
  port := {}
  sink := {}

/-- Two instructions and a halt, in one run or in several calls. -/
theorem run_events_loadEight :
    (loadEight.run 5).1 = some (.halted 2) ∧
      (Call.run 5).heard loadEight =
        [.start 0 #v[0x82, 0, 8] ⟨#v[0, 0, 0, 0, 0, 0, 0, 0xF4]⟩,
          .start 3 #v[0x01, 0, 0] ⟨#v[8, 0, 0, 0, 0, 0, 0, 0xF4]⟩, .halted 3] ∧
      Call.heardAll loadEight [.step, .run 1, .step, .run 3] = (Call.run 5).heard loadEight := by
  have hout : (loadEight.run 5).1 = some (.halted 2) := by decide +kernel
  have hrun : loadEight.run 5 = (some (.halted 2), (loadEight.run 5).2) := Prod.ext hout rfl
  have hcalls : (([.step, .run 1, .step, .run 3] : List Call).foldl Call.perform
      loadEight).machine.runState ≠ .running := by decide +kernel
  exact ⟨hout, by decide +kernel, ((run_events _ _ 5 _ hrun).2.2.2.1 _ hcalls).2⟩

end Session

end LS8
