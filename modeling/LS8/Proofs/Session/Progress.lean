import LS8.Proofs.Session.Runs

/-! # Sessions: progress

A machine may go on for ever, but not straight on. An instruction that does not transfer control
leads to the one behind it, and it is at least two bytes long, since the instructions of one byte
are HLT and RET; so the program counter grows by two or more with every such step, whatever happens
to memory meanwhile, and no more than 128 of them fit into 256 cells.

* `add_le_pc_after`: the program counter after steps that go straight on.
* `transfers_within`: control is transferred or the machine stops within any 129 steps. -/

namespace LS8

/-! ### Transfers of control -/

namespace Instruction

/-- Whether an instruction leads elsewhere than to the one behind it, if the flags are `f`. -/
def transfers (f : Flags) : Instruction → Bool
  | call _ | ret | jmp _ => true
  | jeq _ => f.equal
  | jne _ => !f.equal
  | _ => false

variable {x : View} {i : Instruction}

theorem add_two_le_pc_next (h : i.transfers x.flags = false) (hi : i ≠ hlt) :
    2 ≤ i.opcode.length ∧ (i.next x).pc = x.pc + i.opcode.length := by
  rw [Opcode.length_eq]
  cases i with
  | hlt => exact absurd rfl hi
  | ret | call r | jmp r => cases h
  | push r | pop r | prn r => exact ⟨Nat.le_refl 2, rfl⟩
  | ldi r v | mul a b | cmp a b => exact ⟨Nat.le_succ 2, rfl⟩
  | jeq r =>
    have hclear : x.flags.equal = false := h
    refine ⟨Nat.le_refl 2, ?_⟩
    simp only [next, hclear, Bool.false_eq_true, if_false]
    rfl
  | jne r =>
    have hset : x.flags.equal = true := by simpa [transfers] using h
    refine ⟨Nat.le_refl 2, ?_⟩
    simp only [next, hset, if_true]
    rfl

end Instruction

namespace Session

variable {σ τ : Type} [TraceSink τ] [OutputPort σ] {s : Session σ τ} {n : ℕ}

/-- The next step carries out an instruction that transfers control. -/
def Transfers (s : Session σ τ) : Prop := ∃ i ∈ s.retired?, i.transfers s.machine.flags

instance (s : Session σ τ) : Decidable s.Transfers :=
  inferInstanceAs (Decidable (∃ i ∈ s.retired?, i.transfers s.machine.flags = true))

theorem not_transfers_of_ne_retired (h : s.step.1 ≠ .retired) : ¬ s.Transfers := by
  rintro ⟨i, hi, -⟩
  rw [retired?_of_ne_retired h] at hi
  cases hi

/-! ### Steps that go straight on -/

theorem pc_step_of_not_transfers {i : Instruction} (hi : s.retired? = some i)
    (ht : ¬ s.Transfers) :
    2 ≤ i.opcode.length ∧
      s.step.2.machine.pc.toNat = s.machine.pc.toNat + i.opcode.length := by
  have hstraight : i.transfers s.machine.view.flags = false := by
    by_contra htransfers
    exact ht ⟨i, hi, (Bool.not_eq_false _).mp htransfers⟩
  obtain ⟨hlen, hnext⟩ := Instruction.add_two_le_pc_next hstraight (ne_hlt_of_retired? hi)
  exact ⟨hlen, (congrArg View.pc (view_of_retired? hi)).trans hnext⟩

/-- A step that goes straight on leads two bytes or more further, and not beyond memory. -/
theorem add_two_le_pc_step (h : s.step.1 = .retired) (ht : ¬ s.Transfers) :
    s.machine.pc.toNat + 2 ≤ s.step.2.machine.pc.toNat ∧ s.step.2.machine.pc.toNat ≤ 256 := by
  obtain ⟨i, hi⟩ := exists_retired? h
  obtain ⟨hlen, hpc⟩ := pc_step_of_not_transfers hi ht
  have hend := Instruction.pc_add_length_le (retired?_eq_some_iff.mp hi).2
  omega

/-- **Straight on, the program counter grows by two with every step.** -/
theorem add_le_pc_after
    (h : ∀ k < n, (s.after k).step.1 = .retired ∧ ¬ (s.after k).Transfers) :
    s.machine.pc.toNat + 2 * n ≤ (s.after n).machine.pc.toNat := by
  induction n with
  | zero => exact Nat.le_refl _
  | succ n ih =>
    have hbefore := ih fun k hk => h k (by omega)
    obtain ⟨ho, ht⟩ := h n (Nat.lt_succ_self n)
    have hgrows := (add_two_le_pc_step ho ht).1
    rw [after_succ]
    omega

/-- Memory has no room for 129 steps straight on. -/
theorem exists_transfers_or_ne_retired (s : Session σ τ) :
    ∃ k < 129, (s.after k).Transfers ∨ (s.after k).step.1 ≠ .retired := by
  by_contra h
  have hstraight : ∀ k < 129, (s.after k).step.1 = .retired ∧ ¬ (s.after k).Transfers := by
    intro k hk
    constructor
    · by_contra ho
      exact h ⟨k, hk, .inr ho⟩
    · intro ht
      exact h ⟨k, hk, .inl ht⟩
  have hpc := add_le_pc_after (n := 128) fun k hk => hstraight k (by omega)
  obtain ⟨ho, ht⟩ := hstraight 128 (by omega)
  have hlast := add_two_le_pc_step ho ht
  omega

theorem isTerminal_step (h : s.step.1 ≠ .retired) : s.step.2.machine.runState.isTerminal := by
  rw [runState_step]
  cases ho : s.step.1 with
  | retired => exact absurd ho h
  | halted => rfl
  | fault c => rfl

/-! ### Runs -/

theorem StopsAt.exists_run {k : ℕ} (h : s.StopsAt k) (hk : k < n) :
    ∃ out, (s.run n).1 = some out ∧ ∀ steps, out = .halted steps → steps ≤ n := by
  by_cases hs : s.machine.runState = .running
  case pos =>
    refine ⟨.ofLast (k + 1) (s.after k).step.1, ?_, fun steps hsteps => ?_⟩
    · rw [show n = k + (n - k - 1 + 1) by omega, h.run hs]
    · cases ho : (s.after k).step.1 with
      | retired => exact absurd ho h.stops
      | fault c =>
        rw [ho] at hsteps
        cases hsteps
      | halted =>
        rw [ho] at hsteps
        obtain rfl := RunOutcome.halted.inj hsteps
        exact hk
  case neg =>
    rw [Session.run, runFrom_eq_self fun hrun => absurd hrun hs]
    cases hstate : s.machine.runState with
    | running => exact absurd hstate hs
    | halted =>
      refine ⟨.halted 0, rfl, fun steps hsteps => ?_⟩
      obtain rfl := RunOutcome.halted.inj hsteps
      exact Nat.zero_le n
    | faulted c => exact ⟨.fault c, rfl, fun steps hsteps => by cases hsteps⟩

/-- **A machine does not go straight on for long.** Of any 129 steps in a row, whatever they do to
memory, one transfers control, or the machine has stopped after one of them. So a session in which
no control is transferred stops, and is run to its end by 129 steps; and a session that no run
brings to an end transfers control again and again. -/
theorem transfers_within (s : Session σ τ) :
    (∀ n, ∃ k, n ≤ k ∧ k < n + 129 ∧
      ((s.after k).Transfers ∨ (s.after (k + 1)).machine.runState.isTerminal)) ∧
    ((∀ k < 129, ¬ (s.after k).Transfers) →
      (∃ n < 129, s.StopsAt n) ∧
      ∃ out, (s.run 129).1 = some out ∧ ∀ steps, out = .halted steps → steps ≤ 129) ∧
    ((∀ out t, ¬ s.RunsTo out t) → ∀ n, ∃ k, n ≤ k ∧ (s.after k).Transfers) := by
  have hwindow : ∀ n, ∃ k, n ≤ k ∧ k < n + 129 ∧
      ((s.after k).Transfers ∨ (s.after k).step.1 ≠ .retired) := by
    intro n
    obtain ⟨k, hk, hor⟩ := exists_transfers_or_ne_retired (s.after n)
    rw [← after_add] at hor
    exact ⟨n + k, by omega, by omega, hor⟩
  refine ⟨fun n => ?_, fun hnone => ?_, fun hnever n => ?_⟩
  · obtain ⟨k, hn, hk, hor⟩ := hwindow n
    refine ⟨k, hn, hk, hor.imp_right fun ho => ?_⟩
    rw [after_succ]
    exact isTerminal_step ho
  · obtain ⟨k, -, hk, hor⟩ := hwindow 0
    have hne := hor.resolve_left (hnone k (by omega))
    obtain ⟨n, hnk, hbefore, hstep⟩ := exists_first_of_ne_retired hne
    have hstops : s.StopsAt n := ⟨hbefore, by rwa [hstep]⟩
    exact ⟨⟨n, by omega, hstops⟩, hstops.exists_run (by omega)⟩
  · obtain ⟨k, hn, -, hor⟩ := hwindow n
    refine ⟨k, hn, hor.resolve_right fun ho => ?_⟩
    obtain ⟨l, -, hbefore, hstep⟩ := exists_first_of_ne_retired ho
    obtain ⟨out, t, hrun⟩ := exists_runsTo_iff.mpr ⟨l, hbefore, by rwa [hstep]⟩
    exact hnever out t hrun

/-- A session about to carry out `CMP R0,R0; JNE R0` in the last five cells of memory. -/
def lastCells : Session Writer NoTrace where
  machine := { Machine.new with memory := (Memory.zero.set 251 0xA7).set 254 0x56, pc := 251 }
  port := {}
  sink := {}

/-- A session about to carry out `JMP R0` at address 0, again and again. -/
def endless : Session Writer NoTrace where
  machine := { Machine.new with memory := Memory.zero.set 0 0x54 }
  port := {}
  sink := {}

/-- The jump at the end is not taken and leads behind memory; the other one is always taken. -/
theorem transfers_within_lastCells :
    (∀ k < 129, ¬ (lastCells.after k).Transfers) ∧ (lastCells.after 1).step.1 = .retired ∧
      (∃ n < 129, lastCells.StopsAt n) ∧ (∃ out, (lastCells.run 129).1 = some out) ∧
      (∀ out t, ¬ endless.RunsTo out t) ∧ ∀ n, ∃ k, n ≤ k ∧ (endless.after k).Transfers := by
  have hnone : ∀ k < 129, ¬ (lastCells.after k).Transfers := by
    intro k _
    by_cases hk : k < 2
    · have hfirst : ∀ k < 2, ¬ (lastCells.after k).Transfers := by decide +kernel
      exact hfirst k hk
    · -- the third step faults, and nothing is carried out from then on
      have hfault : (lastCells.after 2).step.1 ≠ .retired := by decide +kernel
      refine not_transfers_of_ne_retired ?_
      rw [show k = 2 + (k - 2) by omega, after_add, step_after_of_ne_retired hfault]
      exact hfault
  have hjump : endless.retired? = some (.jmp 0) := by decide +kernel
  have hstep : endless.step.1 = .retired := (retired?_eq_some_iff.mp hjump).1
  have hmachine : endless.step.2.machine = endless.machine :=
    Machine.view_injective (view_of_retired? hjump)
  have hsame : endless.step.2 = endless := Session.ext hmachine rfl rfl
  have hafter : ∀ n, endless.after n = endless := fun n => by
    induction n with
    | zero => rfl
    | succ n ih => rw [after_succ, ih, hsame]
  have hnever : ∀ out t, ¬ endless.RunsTo out t := fun out t hrun => by
    obtain ⟨n, hn⟩ := exists_runsTo_iff.mp ⟨out, t, hrun⟩
    exact hn.stops (by rw [hafter, hstep])
  obtain ⟨-, hstraight, -⟩ := transfers_within lastCells
  obtain ⟨hstops, out, hrun, -⟩ := hstraight hnone
  exact ⟨hnone, by decide +kernel, hstops, ⟨out, hrun⟩, hnever,
    (transfers_within endless).2.2 hnever⟩

end Session

end LS8
