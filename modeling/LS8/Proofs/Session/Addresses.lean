import LS8.Proofs.Listing.Execution
import LS8.Proofs.Session.Histories

/-! # Sessions: addresses

The program counter has 16 bits and memory 256 cells. A machine whose program counter no host has
moved keeps it within memory or, at 256, right behind its end (`Machine.InReach`): an instruction is
only carried out if all of its bytes are in memory, and a jump goes to the address in a byte. So the
additions to the program counter never wrap around, and the only address that is ever missed is 256.

* `address_of_fault`: the address that a step misses, wherever the program counter is.
* `InReach.step`: every step keeps the program counter in reach.
* `counter_in_reach`: so does every history in which no host moves it. -/

namespace LS8

/-! ### The address that is missed -/

namespace Instruction

variable {m : Memory} {pc a : UInt16}

theorem address_of_fetch_eq_error (h : fetch m pc = .error (.addressOutOfRange a)) :
    a.toNat = max pc.toNat 256 := by
  rcases fetch_eq_error_iff.mp h with ⟨hle, ha⟩ | ⟨b, hb, hcause⟩
  · obtain rfl := Fault.addressOutOfRange.inj ha
    exact (Nat.max_eq_left hle).symm
  · have hpc := (List.getElem?_eq_some_iff.mp hb).1
    rw [Memory.length_toList] at hpc
    rcases hcause with ⟨-, hc⟩ | ⟨o, -, hfault⟩
    · cases hc
    · obtain ⟨k, -, hk⟩ := List.exists_of_findSome?_eq_some hfault
      rcases operandFault?_eq_some_iff.mp hk with ⟨-, hc⟩ | ⟨b, -, -, -, hc⟩
      · obtain rfl := Fault.addressOutOfRange.inj hc
        exact (Nat.max_eq_right (Nat.le_of_lt hpc)).symm
      · cases hc

end Instruction

namespace Session

variable {σ τ : Type} [TraceSink τ] [OutputPort σ] {s : Session σ τ} {a : UInt16}

/-- **The address that a step misses** is the program counter or 256, whichever is greater. -/
theorem address_of_fault (hs : s.machine.runState = .running)
    (h : s.step.1 = .fault (.addressOutOfRange a)) : a.toNat = max s.machine.pc.toNat 256 := by
  rcases cause_of_fault hs h with hfetch | ⟨-, hpc, ha⟩ | ⟨-, ha⟩
  · exact Instruction.address_of_fetch_eq_error hfetch
  · obtain rfl := Fault.addressOutOfRange.inj ha
    rw [hpc]
    rfl
  · cases ha

theorem fault_of_pc_eq (hs : s.machine.runState = .running) (hpc : s.machine.pc.toNat = 256) :
    s.step.1 = .fault (.addressOutOfRange 256) := by
  have heq : s.machine.pc = 256 := UInt16.toNat_inj.mp hpc
  rw [fault_of_fetch_eq_error hs (Instruction.fetch_of_le _ (Nat.le_of_eq hpc.symm)), heq]

end Session

/-! ### The program counter in reach -/

namespace Instruction

theorem pc_next_le {x : View} {i : Instruction} (h : x.pc + i.opcode.length ≤ 256) :
    (i.next x).pc ≤ 256 := by
  have hbyte : ∀ b : UInt8, b.toNat ≤ 256 := fun b => Nat.le_of_lt b.toNat_lt
  rw [Opcode.length_eq] at h
  cases i with
  | hlt => exact Nat.le_trans (Nat.le_add_right _ _) h
  | push r | pop r | prn r | ldi r v | mul a b | cmp a b => exact h
  | ret | call r | jmp r => exact hbyte _
  | jeq r =>
    simp only [next]
    split
    · exact hbyte _
    · exact h
  | jne r =>
    simp only [next]
    split
    · exact h
    · exact hbyte _

end Instruction

/-- **The program counter is in memory or right behind it.** If it is behind, the machine faults
there or has done so, and no other address has ever been missed. -/
structure Machine.InReach (m : Machine) : Prop where
  counter_le : m.pc.toNat ≤ 256
  behind : m.pc.toNat = 256 →
    m.runState = .running ∨ m.runState = .faulted (.addressOutOfRange 256)
  missed : ∀ a, m.runState = .faulted (.addressOutOfRange a) → a = 256

namespace Machine.InReach

theorem ofConfig (config : Config) : (Machine.ofConfig config).InReach :=
  ⟨Nat.zero_le _, fun _ => .inl rfl, fun a h => by cases h⟩

theorem edit {m : Machine} (h : m.InReach) (memory : Memory) (registers : RegisterFile) :
    { m with memory, registers : Machine }.InReach :=
  ⟨h.counter_le, h.behind, h.missed⟩

theorem reset (m : Machine) : m.reset.InReach := (ofConfig m.config).edit m.memory _

theorem toNat_pc_add {m : Machine} (h : m.InReach) {o : Opcode} {k : ℕ} (hk : k ≤ o.length) :
    (m.pc + UInt16.ofNat k).toNat = m.pc.toNat + k := by
  have hk3 := Nat.le_trans hk o.length_le_three
  have hle := h.counter_le
  have hmod : (UInt16.ofNat k).toNat = k :=
    UInt16.toNat_ofNat_of_lt' (by change k < 65536; omega)
  rw [UInt16.toNat_add, hmod]
  exact Nat.mod_eq_of_lt (by omega)

variable {σ τ : Type} [TraceSink τ] [OutputPort σ] {s : Session σ τ}

theorem missed_of_fault (h : s.machine.InReach) {a : UInt16}
    (ho : s.step.1 = .fault (.addressOutOfRange a)) : a = 256 := by
  cases hs : s.machine.runState with
  | running =>
    have ha := Session.address_of_fault hs ho
    rw [Nat.max_eq_right h.counter_le] at ha
    exact UInt16.toNat_inj.mp ha
  | halted =>
    rw [Session.step_of_halted hs] at ho
    cases ho
  | faulted c =>
    rw [Session.step_of_faulted hs] at ho
    obtain rfl := StepOutcome.fault.inj ho
    exact h.missed a hs

theorem fault_of_behind (h : s.machine.InReach) (hpc : s.machine.pc.toNat = 256) :
    s.step.1 = .fault (.addressOutOfRange 256) := by
  rcases h.behind hpc with hs | hs
  · exact Session.fault_of_pc_eq hs hpc
  · rw [Session.step_of_faulted hs]

/-- **A step keeps the program counter in reach.** -/
theorem step (h : s.machine.InReach) : s.step.2.machine.InReach := by
  by_cases ho : s.step.1 = .retired
  case pos =>
    have hrun := Session.running_step_of_retired ho
    obtain ⟨i, hi⟩ := Session.exists_retired? ho
    have hlen := Instruction.pc_add_length_le (Session.retired?_eq_some_iff.mp hi).2
    have hpc : s.step.2.machine.pc.toNat = (i.next s.machine.view).pc :=
      congrArg View.pc (Session.view_of_retired? hi)
    refine ⟨?_, fun _ => .inl hrun, fun a ha => ?_⟩
    · rw [hpc]
      exact Instruction.pc_next_le hlen
    · rw [hrun] at ha
      cases ha
  case neg =>
    -- the program counter stays, and the run state is what the step has come to
    rw [Session.machine_of_ne_retired ho]
    refine ⟨h.counter_le, fun hpc => .inr ?_, fun a ha => h.missed_of_fault (s := s) ?_⟩
    · rw [h.fault_of_behind hpc]
      rfl
    · cases hs : s.step.1 with
      | retired => exact absurd hs ho
      | halted =>
        rw [hs] at ha
        cases ha
      | fault c =>
        rw [hs] at ha
        rw [RunState.faulted.inj ha]

theorem after (h : s.machine.InReach) (n : ℕ) : (s.after n).machine.InReach :=
  Session.invariant_after (P := Machine.InReach) (fun _ => step) h n

theorem missed_of_run (h : s.machine.InReach) {fuel : ℕ} {a : UInt16}
    (hout : (s.run fuel).1 = some (.fault (.addressOutOfRange a))) : a = 256 := by
  have hrun : s.run fuel = (some (.fault (.addressOutOfRange a)), s.after fuel) :=
    Prod.ext hout (Session.runFrom_eq_after s 0 fuel)
  exact (h.after fuel).missed a ((Session.runState_of_run hrun).1 _ rfl)

end Machine.InReach

/-! ### Histories -/

namespace Host

variable {σ τ : Type} [TraceSink τ] [OutputPort σ]

theorem inReach_after {h : Host σ} {ops : List Operation} (hops : ∀ a, .setPc a ∉ ops)
    (hm : h.machine.InReach) : (h.after ops).machine.InReach := by
  refine invariant_after (fun s => Machine.InReach.step) ?_ (fun m _ => .reset m) hm
  intro m memory registers pc hpc hm
  obtain rfl := hpc.resolve_right (hops pc)
  exact hm.edit memory registers

/-- **The program counter stays in reach.** As long as no host moves it, it is at most 256 after any
operations and any number of steps, and at 256 the next step faults. Nothing that is added to it
while an instruction is carried out, the places of the operands and the length of the instruction,
makes it wrap around, and steps and runs report no missed address but 256. Wherever a host has put
it, the address that the next step misses is the program counter or 256, whichever is greater. -/
theorem counter_in_reach :
    (∀ (config : Config) (port : σ) (ops : List Operation), (∀ a, .setPc a ∉ ops) →
      ∀ (sink : τ) (n : ℕ) (s : Session σ τ),
        s = (((fresh config port).after ops).session sink).after n →
        s.machine.pc.toNat ≤ 256 ∧
        (s.machine.pc.toNat = 256 → s.step.1 = .fault (.addressOutOfRange 256)) ∧
        (∀ (o : Opcode) (k : ℕ), k ≤ o.length →
          (s.machine.pc + UInt16.ofNat k).toNat = s.machine.pc.toNat + k) ∧
        (∀ a, s.step.1 = .fault (.addressOutOfRange a) → a = 256) ∧
        ∀ fuel a, (s.run fuel).1 = some (.fault (.addressOutOfRange a)) → a = 256) ∧
    ∀ (s : Session σ τ), s.machine.runState = .running → ∀ a,
      s.step.1 = .fault (.addressOutOfRange a) → a.toNat = max s.machine.pc.toNat 256 := by
  refine ⟨fun config port ops hops sink n s hs => ?_, fun s hs a => Session.address_of_fault hs⟩
  have hreach : s.machine.InReach := by
    rw [hs]
    exact (inReach_after hops (.ofConfig config)).after (s := Host.session _ sink) n
  exact ⟨hreach.counter_le, hreach.fault_of_behind, fun _ _ => hreach.toNat_pc_add,
    fun _ => hreach.missed_of_fault, fun _ _ => hreach.missed_of_run⟩

/-- `LDI R0,254; JMP R0` at address 0 and `POP R0` in the last two cells. -/
def toTheEnd : List Operation :=
  [.loadProgram [0x82, 0, 254, 0x54, 0], .loadByte 254 0x46,
    .call ⟨.run 2, NoTrace.mk⟩, .setRegister .sp 1, .call ⟨.step, NoTrace.mk⟩]

/-- The session that these operations lead to. -/
def behindMemory : Session Writer NoTrace := ((fresh {} {}).after toTheEnd).session NoTrace.mk

/-- The session with its program counter moved further away. -/
def farBehindMemory : Session Writer NoTrace :=
  ((fresh {} {}).after (toTheEnd ++ [.setPc 300])).session NoTrace.mk

/-- The POP leads behind memory, where the next step and every run miss address 256. -/
theorem counter_in_reach_toTheEnd :
    (∀ a, .setPc a ∉ toTheEnd) ∧ behindMemory.machine.pc.toNat = 256 ∧
      behindMemory.step.1 = .fault (.addressOutOfRange 256) ∧
      (behindMemory.run 3).1 = some (.fault (.addressOutOfRange 256)) ∧
      farBehindMemory.machine.runState = .running ∧
      farBehindMemory.step.1 = .fault (.addressOutOfRange 300) ∧
      (300 : UInt16).toNat = max farBehindMemory.machine.pc.toNat 256 := by
  have hops : ∀ a, .setPc a ∉ toTheEnd := by simp [toTheEnd]
  have hpc : behindMemory.machine.pc.toNat = 256 := by decide +kernel
  have hrun : farBehindMemory.machine.runState = .running := by decide +kernel
  have hfault : farBehindMemory.step.1 = .fault (.addressOutOfRange 300) := by decide +kernel
  obtain ⟨hhistory, hmoved⟩ := counter_in_reach (σ := Writer) (τ := NoTrace)
  obtain ⟨-, hbehind, -⟩ := hhistory {} {} toTheEnd hops NoTrace.mk 0 behindMemory rfl
  exact ⟨hops, hpc, hbehind hpc, by decide +kernel, hrun, hfault, hmoved _ hrun _ hfault⟩

end Host

end LS8
