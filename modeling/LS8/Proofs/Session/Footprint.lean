import LS8.Proofs.Machine.Reading

/-! # Sessions: memory that is not read

Two machines that differ in some cells of memory at most go the same way until one of these cells is
read. A cell need not differ for long: PUSH and CALL put the same byte into both memories, and from
then on it may be read. So what may differ after a number of steps are the cells that differed at
first, less those that have been put on the stack since (`overwritten`).

* `get_after_of_notMem`: a cell that is not overwritten holds what it held.
* `View.AgreeOff.next`: one instruction, if the byte that it takes from the stack is the same.
* `AgreeOff.step`: one step, if none of the cells that differ is read.
* `unread_cells_irrelevant`: any number of steps. -/

namespace LS8

/-! ### One instruction -/

/-- The cell that an instruction puts a byte into. -/
def Instruction.putCells (x : View) : Instruction → List UInt8
  | push _ | call _ => [x.sp - 1]
  | _ => []

theorem Instruction.cells_next_of_notMem {x : View} {i : Instruction} {a : UInt8}
    (h : a ∉ i.putCells x) : (i.next x).cells a = x.cells a := by
  cases i with
  | push r | call r =>
    have hne : a ≠ x.sp - 1 := fun heq => h (List.mem_singleton.mpr heq)
    exact Function.update_of_ne hne _ _
  | _ => rfl

/-- The views differ in the cells of `D` at most. -/
structure View.AgreeOff (D : Set UInt8) (x y : View) : Prop where
  rest : y = { x with cells := y.cells }
  cells : ∀ a ∉ D, y.cells a = x.cells a

theorem View.AgreeOff.mono {D E : Set UInt8} {x y : View} (h : x.AgreeOff D y) (hsub : D ⊆ E) :
    x.AgreeOff E y :=
  ⟨h.rest, fun a ha => h.cells a fun hD => ha (hsub hD)⟩

/-- **An instruction makes no other difference**, and none where it puts a byte. -/
theorem View.AgreeOff.next {D : Set UInt8} {x y : View} (h : x.AgreeOff D y) {i : Instruction}
    (htaken : i.takenByte? y = i.takenByte? x) :
    (i.next x).AgreeOff (D \ {a | a ∈ i.putCells x}) (i.next y) := by
  obtain ⟨hrest, hcells⟩ := h
  generalize y.cells = cells at hrest hcells
  subst hrest
  have hkept : ∀ a ∉ D \ {a | a ∈ ([] : List UInt8)}, cells a = x.cells a := fun a ha =>
    hcells a fun hD => ha ⟨hD, List.not_mem_nil⟩
  have hput : ∀ b, ∀ a ∉ D \ {a | a ∈ [x.sp - 1]},
      Function.update cells (x.sp - 1) b a = Function.update x.cells (x.sp - 1) b a := by
    intro b a ha
    by_cases hsp : a = x.sp - 1
    · rw [hsp, Function.update_self, Function.update_self]
    · rw [Function.update_of_ne hsp, Function.update_of_ne hsp]
      exact hcells a fun hD => ha ⟨hD, fun hmem => hsp (List.mem_singleton.mp hmem)⟩
  cases i with
  | push r => exact ⟨rfl, hput _⟩
  | call r => exact ⟨rfl, hput _⟩
  | pop r =>
    have htop : cells x.sp = x.cells x.sp := Option.some.inj htaken
    refine ⟨?_, hkept⟩
    simp only [Instruction.next]
    rw [show View.sp { x with cells := cells } = x.sp from rfl, htop]
  | ret =>
    have htop : cells x.sp = x.cells x.sp := Option.some.inj htaken
    refine ⟨?_, hkept⟩
    simp only [Instruction.next]
    rw [show View.sp { x with cells := cells } = x.sp from rfl, htop]
  | _ => exact ⟨rfl, hkept⟩

namespace Session

variable {σ τ υ : Type} [TraceSink τ] [TraceSink υ] [OutputPort σ]

/-! ### What steps read and overwrite -/

/-- The cells that the next step reads; none if the machine has stopped. -/
def reads {σ τ : Type} (s : Session σ τ) : List UInt8 :=
  match s.machine.runState with
  | .running => s.machine.reads
  | _ => []

omit [TraceSink τ] [OutputPort σ] in
theorem reads_of_running {s : Session σ τ} (hs : s.machine.runState = .running) :
    s.reads = s.machine.reads := by
  rw [reads, hs]

/-- The cells that the next step puts a byte into, if it carries out a PUSH or a CALL. -/
def putCells (s : Session σ τ) : List UInt8 :=
  s.retired?.elim [] (·.putCells s.machine.view)

/-- The cells that the next `n` steps put a byte into. -/
def overwritten (s : Session σ τ) (n : ℕ) : List UInt8 :=
  (List.range n).flatMap fun k => (s.after k).putCells

theorem overwritten_succ (s : Session σ τ) (n : ℕ) :
    s.overwritten (n + 1) = s.overwritten n ++ (s.after n).putCells := by
  rw [overwritten, List.range_succ, List.flatMap_append, List.flatMap_singleton, overwritten]

theorem get_step_of_notMem {s : Session σ τ} {a : UInt8} (h : a ∉ s.putCells) :
    s.step.2.machine.memory.get a = s.machine.memory.get a := by
  obtain ⟨i, hi, hview⟩ | ⟨-, hmachine⟩ := s.machine_step
  · rw [putCells, hi] at h
    exact (congrFun (congrArg View.cells hview) a).trans (Instruction.cells_next_of_notMem h)
  · rw [hmachine]

theorem get_after_of_notMem {s : Session σ τ} {n : ℕ} {a : UInt8}
    (h : a ∉ s.overwritten n) :
    (s.after n).machine.memory.get a = s.machine.memory.get a := by
  induction n with
  | zero => rfl
  | succ n ih =>
    rw [overwritten_succ, List.mem_append, not_or] at h
    rw [after_succ, get_step_of_notMem h.2, ih h.1]

/-! ### Two sessions -/

/-- The sessions differ in the cells of `D` at most, and in who listens. -/
structure AgreeOff {σ τ υ : Type} (D : Set UInt8) (s : Session σ τ) (t : Session σ υ) : Prop where
  view : s.machine.view.AgreeOff D t.machine.view
  port : t.port = s.port

namespace AgreeOff

variable {D : Set UInt8} {s : Session σ τ} {t : Session σ υ} (h : s.AgreeOff D t)
include h

omit [TraceSink τ] [TraceSink υ] [OutputPort σ] in
theorem machine : t.machine = { s.machine with memory := t.machine.memory } :=
  Machine.view_injective h.view.rest

/-- **A step makes no other difference**, if it reads no cell that may differ. -/
theorem step (hreads : ∀ a ∈ s.reads, a ∉ D) :
    t.step.1 = s.step.1 ∧ s.step.2.AgreeOff (D \ {a | a ∈ s.putCells}) t.step.2 := by
  have hpc : t.machine.pc = s.machine.pc := by rw [h.machine]
  have hregisters : t.machine.registers = s.machine.registers := by rw [h.machine]
  have hsame : s.machine.runState = .running → _ := fun hs =>
    Machine.fetch_eq_of_agree hpc hregisters fun a ha =>
      h.view.cells a (hreads a (by rwa [reads_of_running hs]))
  obtain ⟨ho, hport, hretired⟩ := step_congr (by rw [h.machine]) h.port hpc hregisters
    fun hs => (hsame hs).1
  refine ⟨ho, ?_, hport⟩
  rw [putCells]
  cases hi : s.retired? with
  | none =>
    rw [machine_of_retired?_eq_none hi, machine_of_retired?_eq_none (hretired.trans hi), ho]
    refine View.AgreeOff.mono ?_ fun a hD => ⟨hD, List.not_mem_nil⟩
    refine ⟨?_, h.view.cells⟩
    rw [h.machine]
    rfl
  | some i =>
    obtain ⟨hstep, hfetch⟩ := retired?_eq_some_iff.mp hi
    rw [view_of_retired? hi, view_of_retired? (hretired.trans hi)]
    exact h.view.next ((hsame (running_of_retired hstep)).2 i hfetch)

/-- Before a cell that differs is read, **steps make no other difference.** -/
theorem after {n : ℕ}
    (hreads : ∀ k < n, ∀ a ∈ (s.after k).reads, a ∈ D → a ∈ s.overwritten k) :
    (s.after n).AgreeOff (D \ {a | a ∈ s.overwritten n}) (t.after n) := by
  induction n with
  | zero => exact ⟨h.view.mono fun a hD => ⟨hD, List.not_mem_nil⟩, h.port⟩
  | succ n ih =>
    have hbefore := ih fun k hk => hreads k (by omega)
    have hnext := (hbefore.step fun a ha hD => hD.2 (hreads n (by omega) a ha hD.1)).2
    rw [after_succ, after_succ, overwritten_succ]
    refine ⟨hnext.view.mono fun a ha => ⟨ha.1.1, fun hmem => ?_⟩, hnext.port⟩
    exact (List.mem_append.mp hmem).elim ha.1.2 ha.2

end AgreeOff

/-- **Memory that is not read is irrelevant.** Two machines differ in the cells of `D` at most, and
print to the same port. If the first reads none of these cells in `n` steps before a PUSH or a CALL
has put a byte there, then each of these steps comes to the same in both, and before and after each
the ports are the same and the machines differ in memory only, in cells of `D` that have not been
overwritten. -/
theorem unread_cells_irrelevant (s : Session σ τ) (t : Session σ υ) (D : Set UInt8) (n : ℕ)
    (hmachine : t.machine = { s.machine with memory := t.machine.memory })
    (hcells : ∀ a, t.machine.memory.get a ≠ s.machine.memory.get a → a ∈ D)
    (hport : t.port = s.port)
    (hreads : ∀ k < n, ∀ a ∈ (s.after k).reads, a ∈ D → a ∈ s.overwritten k) :
    (∀ k < n, (t.after k).step.1 = (s.after k).step.1) ∧
    ∀ k ≤ n,
      (t.after k).port = (s.after k).port ∧
      (t.after k).machine = { (s.after k).machine with memory := (t.after k).machine.memory } ∧
      ∀ a, (t.after k).machine.memory.get a ≠ (s.after k).machine.memory.get a →
        a ∈ D ∧ a ∉ s.overwritten k := by
  have h : s.AgreeOff D t := by
    refine ⟨⟨?_, fun a ha => ?_⟩, hport⟩
    · rw [hmachine]
      rfl
    · by_contra hne
      exact ha (hcells a hne)
  have hafter : ∀ k ≤ n, (s.after k).AgreeOff (D \ {a | a ∈ s.overwritten k}) (t.after k) :=
    fun k hk => h.after fun l hl => hreads l (by omega)
  refine ⟨fun k hk => ?_, fun k hk => ⟨(hafter k hk).port, (hafter k hk).machine, fun a ha => ?_⟩⟩
  · exact ((hafter k (by omega)).step fun a ha hD => hD.2 (hreads k hk a ha hD.1)).1
  · by_contra hD
    exact ha ((hafter k hk).view.cells a hD)

/-- A session about to carry out `LDI R0,8; PUSH R0; POP R1`, and a MUL of a register that does not
exist. `b` is the other operand of the MUL, in the middle of memory, and below the stack. -/
def pushPop (b : UInt8) : Session Writer NoTrace where
  machine :=
    let m := (Machine.new.loadProgram [0x82, 0, 8, 0x45, 0, 0x46, 1, 0xA2, 9]).1
    { m with memory := ((m.memory.set 9 b).set 100 b).set 243 b }
  port := {}
  sink := {}

/-- `b` is never read: the cell below the stack is overwritten first, and the MUL faults over its
first operand. -/
theorem unread_cells_irrelevant_pushPop :
    let D : Set UInt8 := {a | a ∈ [9, 100, 243]}
    (∀ a, (pushPop 7).machine.memory.get a ≠ (pushPop 0).machine.memory.get a → a ∈ D) ∧
      (∀ k < 4, ∀ a ∈ ((pushPop 0).after k).reads, a ∈ D → a ∈ (pushPop 0).overwritten k) ∧
      ((pushPop 7).after 3).step.1 = .fault (.registerOutOfRange 9) ∧
      ((pushPop 7).after 4).machine.registers.get 1 = 8 ∧
      ((pushPop 7).after 4).machine.memory.get 243 =
        ((pushPop 0).after 4).machine.memory.get 243 := by
  intro D
  have hcells : ∀ a,
      (pushPop 7).machine.memory.get a ≠ (pushPop 0).machine.memory.get a → a ∈ D := by
    intro a hne
    by_contra hD
    obtain ⟨h9, h100, h243⟩ : 9 ≠ a ∧ 100 ≠ a ∧ 243 ≠ a := by simpa [D, eq_comm] using hD
    simp [pushPop, Memory.get_set_of_ne, h9, h100, h243] at hne
  have hreads : ∀ k < 4, ∀ a ∈ ((pushPop 0).after k).reads, a ∈ D →
      a ∈ (pushPop 0).overwritten k := by
    decide +kernel
  have h := unread_cells_irrelevant (pushPop 0) (pushPop 7) D 4 rfl hcells rfl hreads
  obtain ⟨hsteps, hafter⟩ := h
  obtain ⟨-, hmachine, hrest⟩ := hafter 4 (Nat.le_refl 4)
  have hfault : ((pushPop 0).after 3).step.1 = .fault (.registerOutOfRange 9) := by decide +kernel
  have hone : ((pushPop 0).after 4).machine.registers.get 1 = 8 := by decide +kernel
  refine ⟨hcells, hreads, (hsteps 3 (by decide)).trans hfault, ?_, ?_⟩
  · rw [hmachine, hone]
  · by_contra hne
    exact (hrest 243 hne).2 (by decide +kernel)

end Session

end LS8
