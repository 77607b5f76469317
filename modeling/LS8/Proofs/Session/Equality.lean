import LS8.Proofs.Session.Comparisons

/-! # Sessions: the flag that counts

A comparison raises one of three flags, but JEQ and JNE, the only instructions that look at a flag,
look at the one for equality. So two sessions whose machines differ in the flags for less and greater
at most (`DifferInOrder`) go the same way, step by step, and no port and no sink can tell them apart.
What they compare is the same as well; so the first comparison leaves the same flags in both.

* `DifferInOrder.step`: one step.
* `observes_equal_only`: any number of steps, and the flags from the first comparison on. -/

namespace LS8

/-! ### Other flags -/

namespace Flags

theorem equal_last {f g : Flags} (h : g.equal = f.equal) (cs : List (UInt8 × UInt8)) :
    (g.last cs).equal = (f.last cs).equal := by
  unfold last
  cases cs.getLast? with
  | none => exact h
  | some c => rfl

theorem last_eq_last {cs : List (UInt8 × UInt8)} (h : cs ≠ []) (f g : Flags) :
    g.last cs = f.last cs := by
  unfold last
  rw [List.getLast?_eq_getLast_of_ne_nil h]
  rfl

end Flags

/-- **No instruction looks at the flags for less and greater.** -/
theorem Instruction.next_withFlags {x : View} {f : Flags} (h : f.equal = x.flags.equal)
    (i : Instruction) :
    i.next { x with flags := f } =
      { i.next x with flags := f.last (i.comparison? x).toList } := by
  cases i with
  | jeq r | jne r =>
    simp only [next, h]
    rfl
  | cmp a b =>
    simp only [next, comparison?, Option.toList_some, Flags.last, List.getLast?_singleton,
      Option.elim_some, Flags.ofComparison_eq]
  | _ => rfl

namespace Session

variable {σ τ υ : Type} [TraceSink τ] [TraceSink υ] [OutputPort σ]

/-! ### Two sessions -/

/-- The sessions differ at most in the flags for less and greater, and in who listens. -/
structure DifferInOrder {σ τ υ : Type} (s : Session σ τ) (t : Session σ υ) : Prop where
  machine : t.machine = { s.machine with flags := t.machine.flags }
  equal : t.machine.flags.equal = s.machine.flags.equal
  port : t.port = s.port

namespace DifferInOrder

variable {s : Session σ τ} {t : Session σ υ} (h : s.DifferInOrder t)
include h

theorem step_congr :
    t.step.1 = s.step.1 ∧ t.step.2.port = s.step.2.port ∧ t.retired? = s.retired? := by
  refine Session.step_congr ?_ h.port ?_ ?_ fun _ => ?_ <;> rw [h.machine]

theorem events_eq : t.events = s.events := by
  have hstart : t.machine.startEvent = s.machine.startEvent := by
    rw [h.machine]
    rfl
  have hstate : t.machine.runState = s.machine.runState := by rw [h.machine]
  have hpc : t.machine.pc = s.machine.pc := by rw [h.machine]
  rw [events, events, hstart, hstate, hpc, h.step_congr.1]

theorem comparison?_eq : t.comparison? = s.comparison? := by
  have hregisters : t.machine.registers = s.machine.registers := by rw [h.machine]
  rw [comparison?, comparison?, h.step_congr.2.2]
  refine Option.bind_congr fun i _ => ?_
  cases i with
  | cmp a b => simp only [Instruction.comparison?, Machine.view, hregisters]
  | _ => rfl

theorem step : s.step.2.DifferInOrder t.step.2 := by
  obtain ⟨ho, hport, hretired⟩ := h.step_congr
  have hequal : t.step.2.machine.flags.equal = s.step.2.machine.flags.equal := by
    rw [flags_step, flags_step, h.comparison?_eq]
    exact Flags.equal_last h.equal _
  refine ⟨?_, hequal, hport⟩
  cases hi : s.retired? with
  | none =>
    rw [machine_of_retired?_eq_none hi, machine_of_retired?_eq_none (hretired.trans hi), h.machine,
      ho]
  | some i =>
    have hview := view_of_retired? (hretired.trans hi)
    rw [h.machine] at hview
    have hnext : t.step.2.machine.view =
        { i.next s.machine.view with
          flags := t.machine.flags.last (i.comparison? s.machine.view).toList } :=
      hview.trans (Instruction.next_withFlags (x := s.machine.view) h.equal i)
    have hflags : t.step.2.machine.flags = _ := congrArg View.flags hnext
    refine Machine.view_injective ?_
    rw [hnext, hflags, ← view_of_retired? hi]
    rfl

theorem after (n : ℕ) : (s.after n).DifferInOrder (t.after n) := by
  induction n with
  | zero => exact h
  | succ n ih =>
    rw [after_succ, after_succ]
    exact ih.step

theorem comparisons_eq (n : ℕ) : t.comparisons n = s.comparisons n :=
  List.flatMap_congr fun k _ => congrArg Option.toList (h.after k).comparison?_eq

theorem eventsUntil_eq (n : ℕ) : t.eventsUntil n = s.eventsUntil n :=
  List.flatMap_congr fun k _ => (h.after k).events_eq

end DifferInOrder

theorem mem_comparisons {s : Session σ τ} {k n : ℕ} (hk : k < n) {a b : Register}
    (h : (s.after k).retired? = some (.cmp a b)) :
    ((s.after k).machine.registers.get a, (s.after k).machine.registers.get b) ∈
      s.comparisons n := by
  have hpair : (s.after k).comparison? =
      some ((s.after k).machine.registers.get a, (s.after k).machine.registers.get b) := by
    rw [comparison?, h]
    rfl
  refine List.mem_flatMap.mpr ⟨k, List.mem_range.mpr hk, ?_⟩
  rw [hpair]
  exact List.mem_singleton_self _

/-- **Of the flags only the one for equality can be observed.** Two machines that differ in their
flags at most, and agree on equality, take the same steps on the same port: each step comes to the
same, the ports and the events are the same, and the machines still differ in the flags for less and
greater at most. Once a CMP has been carried out, they do not differ at all. -/
theorem observes_equal_only (s : Session σ τ) (t : Session σ υ)
    (hmachine : t.machine = { s.machine with flags := t.machine.flags })
    (hequal : t.machine.flags.equal = s.machine.flags.equal) (hport : t.port = s.port) (n : ℕ) :
    (t.after n).step.1 = (s.after n).step.1 ∧
    (t.after n).port = (s.after n).port ∧
    t.eventsUntil n = s.eventsUntil n ∧
    (t.after n).machine = { (s.after n).machine with flags := (t.after n).machine.flags } ∧
    (t.after n).machine.flags.equal = (s.after n).machine.flags.equal ∧
    ((∃ k < n, ∃ a b, (s.after k).retired? = some (.cmp a b)) →
      (t.after n).machine = (s.after n).machine) := by
  have h : s.DifferInOrder t := ⟨hmachine, hequal, hport⟩
  have hafter := h.after n
  refine ⟨hafter.step_congr.1, hafter.port, h.eventsUntil_eq n, hafter.machine, hafter.equal, ?_⟩
  rintro ⟨k, hk, a, b, hcmp⟩
  have hflags : (t.after n).machine.flags = (s.after n).machine.flags := by
    rw [flags_after, flags_after, h.comparisons_eq]
    exact Flags.last_eq_last (List.ne_nil_of_mem (mem_comparisons hk hcmp)) _ _
  rw [hafter.machine, hflags]

/-- A session about to carry out `JEQ R0; CMP R0,R0; HLT`, with some flags up. -/
def compareSelf {τ : Type} (f : Flags) (sink : τ) : Session Writer τ where
  machine := { (Machine.new.loadProgram [0x55, 0, 0xA7, 0, 0, 0x01]).1 with flags := f }
  port := {}
  sink := sink

/-- After the JEQ the machines still differ in their flags, after the CMP no more. -/
theorem observes_equal_only_compareSelf :
    let s := compareSelf ⟨true, false, false⟩ NoTrace.mk
    let t := compareSelf ⟨false, true, false⟩ ({} : Recorder)
    t.machine.flags.equal = s.machine.flags.equal ∧
      (t.after 1).machine.flags ≠ (s.after 1).machine.flags ∧
      (s.after 1).retired? = some (.cmp 0 0) ∧ (t.after 1).step.1 = .retired ∧
      (t.after 2).machine = (s.after 2).machine ∧ t.eventsUntil 3 = s.eventsUntil 3 := by
  intro s t
  have hcmp : (s.after 1).retired? = some (.cmp 0 0) := by decide +kernel
  have hretired : (s.after 1).step.1 = .retired := by decide +kernel
  have h := observes_equal_only s t rfl rfl rfl
  obtain ⟨-, -, -, -, -, hsame⟩ := h 2
  exact ⟨rfl, by decide +kernel, hcmp, (h 1).1.trans hretired,
    hsame ⟨1, by decide, 0, 0, hcmp⟩, (h 3).2.2.1⟩

end Session

end LS8
