import LS8.Proofs.Listing.Execution

/-! # Sessions: which fault comes first

Several things may be wrong with the instruction at the program counter at once. `Session.faults`
lists the fault of each of them in the order in which a step finds them: there is no cell, the byte
is no opcode, then each operand byte from left to right, then the return address of a CALL, and at
last a port that refuses the value of a PRN. The step faults with the first of these, and does not
fault if there is none.

* `Machine.effect_eq_error_iff_head?`: what is wrong before anything is carried out.
* `step_eq_verdict`: what every step of a running machine comes to.
* `fault_iff_first`: the first fault listed, and which faults are never listed. -/

namespace LS8

/-! ### What is at the program counter -/

namespace Machine

/-- The opcode at the program counter. -/
def opcode? (m : Machine) : Option Opcode :=
  m.memory.toList[m.pc.toNat]?.bind Opcode.ofByte?

/-- The value of the register that the first operand byte names. -/
def operandValue? (m : Machine) : Option UInt8 :=
  m.memory.toList[m.pc.toNat + 1]?.bind fun b =>
    if h : b.toNat < 8 then some (m.registers.get ⟨b.toNat, h⟩) else none

/-- The faults of everything that is wrong with the instruction at the program counter. -/
def faults (m : Machine) : List Fault :=
  match m.memory.toList[m.pc.toNat]? with
  | none => [.addressOutOfRange m.pc]
  | some b =>
    match Opcode.ofByte? b with
    | none => [.unknownOpcode b m.pc]
    | some o =>
      (List.range' 1 o.operandCount).filterMap (Instruction.operandFault? m.memory m.pc o) ++
        if o = .call ∧ m.pc.toNat = 254 then [.addressOutOfRange 256] else []

variable {m : Machine} {i : Instruction} {c : Fault}

theorem opcode?_of_fetch (h : Instruction.fetch m.memory m.pc = .ok i) :
    m.opcode? = some i.opcode := by
  have hcell := (Memory.holdsAt_cons_iff.mp (Instruction.fetch_eq_ok_iff.mp h)).1
  rw [opcode?, hcell, Option.bind_some, Opcode.ofByte?_byte]

theorem operandValue?_of_fetch {r : Register}
    (h : Instruction.fetch m.memory m.pc = .ok (.prn r)) :
    m.operandValue? = some (m.registers.get r) := by
  have hrest := (Memory.holdsAt_cons_iff.mp (Instruction.fetch_eq_ok_iff.mp h)).2
  have hcell : m.memory.toList[m.pc.toNat + 1]? = some r.byte :=
    (Memory.holdsAt_cons_iff.mp hrest).1
  have hr : r.byte.toNat = r.val := by
    rw [Register.byte, UInt8.toNat_ofNat']
    omega
  rw [operandValue?, hcell, Option.bind_some, dif_pos (by omega)]
  exact congrArg (fun r => some (m.registers.get r)) (Fin.ext hr)

/-- What is wrong at an opcode: an operand byte, or else the return address of a CALL. -/
theorem effect_eq_error_iff_of_opcode {b : UInt8} {o : Opcode}
    (hb : m.memory.toList[m.pc.toNat]? = some b) (ho : Opcode.ofByte? b = some o) :
    m.effect = .error c ↔
      ((List.range' 1 o.operandCount).findSome?
        (Instruction.operandFault? m.memory m.pc o)).or
          (if o = .call ∧ m.pc.toNat = 254 then some (.addressOutOfRange 256) else none) =
        some c := by
  have hpc : m.pc.toNat < 256 := by
    have hlt := (List.getElem?_eq_some_iff.mp hb).1
    rwa [Memory.length_toList] at hlt
  have hcell : m.memory.get m.pc.toUInt8 = b := by
    have hread := Memory.read_eq_ok_iff.mpr hb
    rw [Memory.read_of_lt _ hpc] at hread
    exact Except.ok.inj hread
  have hfetch : Instruction.fetch m.memory m.pc = Instruction.operands m.memory m.pc o := by
    rw [Instruction.fetch_of_lt _ hpc, hcell, ho]
  rw [effect_eq_error_iff, hfetch]
  cases hi : Instruction.operands m.memory m.pc o with
  | error d =>
    rw [(Instruction.operands_eq_error_iff hpc).mp hi]
    simp
  | ok i =>
    have hnone : (List.range' 1 o.operandCount).findSome?
        (Instruction.operandFault? m.memory m.pc o) = none := by
      refine Option.eq_none_iff_forall_ne_some.mpr fun d hd => ?_
      rw [(Instruction.operands_eq_error_iff hpc).mpr hd] at hi
      cases hi
    have hcall : (∃ r, (Except.ok i : Except Fault Instruction) = .ok (.call r)) ↔ o = .call := by
      rw [← Instruction.opcode_of_operands hi]
      cases i <;> simp [Instruction.opcode]
    rw [hnone, hcall, Option.none_or]
    simp [and_assoc, eq_comm (a := c)]

/-- **The first thing that is wrong** is what keeps an instruction from being carried out. -/
theorem effect_eq_error_iff_head? : m.effect = .error c ↔ m.faults.head? = some c := by
  cases hb : m.memory.toList[m.pc.toNat]? with
  | none =>
    have hle : 256 ≤ m.pc.toNat := by
      rw [List.getElem?_eq_none_iff, Memory.length_toList] at hb
      exact hb
    have hfetch := Instruction.fetch_of_le m.memory hle
    rw [effect_of_fetch_eq_error hfetch, faults, hb]
    simp
  | some b =>
    cases ho : Opcode.ofByte? b with
    | none =>
      have hfetch : Instruction.fetch m.memory m.pc = .error (.unknownOpcode b m.pc) :=
        Instruction.fetch_eq_error_iff.mpr (.inr ⟨b, hb, .inl ⟨ho, rfl⟩⟩)
      rw [effect_of_fetch_eq_error hfetch, faults, hb]
      simp [ho]
    | some o =>
      rw [effect_eq_error_iff_of_opcode hb ho, faults, hb]
      simp only [ho, List.head?_append, List.head?_filterMap]
      split <;> rfl

theorem faults_eq_nil_of_effect {e : Effect} (h : m.effect = .ok e) : m.faults = [] := by
  refine List.head?_eq_none_iff.mp (Option.eq_none_iff_forall_ne_some.mpr fun c hc => ?_)
  rw [effect_eq_error_iff_head?.mpr hc] at h
  cases h

theorem exists_opcode?_of_faults_eq_nil (h : m.faults = []) : ∃ o, m.opcode? = some o := by
  cases he : m.effect with
  | error c =>
    rw [effect_eq_error_iff_head?, h] at he
    cases he
  | ok e =>
    obtain ⟨i, hi, -⟩ := effect_eq_ok_iff.mp he
    exact ⟨i.opcode, opcode?_of_fetch hi⟩

theorem faultClass_of_mem_faults (h : c ∈ m.faults) :
    c.faultClass = .address ∨ c.faultClass = .decode := by
  unfold faults at h
  split at h
  · rw [List.mem_singleton.mp h]
    exact .inl rfl
  · split at h
    · rw [List.mem_singleton.mp h]
      exact .inr rfl
    · rcases List.mem_append.mp h with h | h
      · obtain ⟨k, -, hk⟩ := List.mem_filterMap.mp h
        rcases Instruction.operandFault?_eq_some_iff.mp hk with ⟨-, rfl⟩ | ⟨b, -, -, -, rfl⟩
        · exact .inl rfl
        · exact .inl rfl
      · split at h
        · rw [List.mem_singleton.mp h]
          exact .inl rfl
        · cases h

theorem opcode?_eq_none_of_unknownOpcode_mem_faults {b : UInt8} {pc : UInt16}
    (h : .unknownOpcode b pc ∈ m.faults) : m.opcode? = none := by
  cases hb : m.memory.toList[m.pc.toNat]? with
  | none => rw [opcode?, hb, Option.bind_none]
  | some b' =>
    cases ho : Opcode.ofByte? b' with
    | none => rw [opcode?, hb, Option.bind_some, ho]
    | some o =>
      simp only [faults, hb, ho] at h
      rcases List.mem_append.mp h with h | h
      · obtain ⟨k, -, hk⟩ := List.mem_filterMap.mp h
        rcases Instruction.operandFault?_eq_some_iff.mp hk with ⟨-, hc⟩ | ⟨_, -, -, -, hc⟩
        · cases hc
        · cases hc
      · split at h
        · cases List.mem_singleton.mp h
        · cases h

end Machine

/-- **The arithmetic unit is asked for what it can do:** it knows the code of every arithmetic
opcode, and none of them is a division. -/
theorem AluOp.exists_ofCode_byte {o : Opcode} (h : o.isAlu) :
    ∃ op, ofCode o.byte = .ok op ∧ op ≠ .div := by
  rw [Opcode.isAlu_eq] at h
  cases o with
  | mul => exact ⟨.mul, rfl, by simp⟩
  | cmp => exact ⟨.cmp, rfl, by simp⟩
  | _ => cases h

namespace Session

variable {σ τ : Type} [TraceSink τ] [OutputPort σ] {s : Session σ τ} {c : Fault}

/-! ### Steps -/

/-- The port refuses the value of a PRN at the program counter. -/
def Refused {σ τ : Type} [OutputPort σ] (s : Session σ τ) : Prop :=
  s.machine.opcode? = some .prn ∧
    ∃ v ∈ s.machine.operandValue?, (OutputPort.print s.port v).1 = false

instance {σ τ : Type} [OutputPort σ] (s : Session σ τ) : Decidable s.Refused :=
  inferInstanceAs (Decidable (_ ∧ ∃ v ∈ s.machine.operandValue?, _ = false))

/-- The faults of everything that is wrong at the program counter, in the order of the checks. -/
def faults {σ τ : Type} [OutputPort σ] (s : Session σ τ) : List Fault :=
  s.machine.faults ++ if s.Refused then [.outputFailed] else []

/-- What a step comes to, by what is wrong: the first fault, or else HLT halts and all else
retires. -/
def verdict {σ τ : Type} [OutputPort σ] (s : Session σ τ) : StepOutcome :=
  match s.faults with
  | c :: _ => .fault c
  | [] => if s.machine.opcode? = some .hlt then .halted else .retired

omit [TraceSink τ] in
theorem faults_of_not_prn (h : s.machine.opcode? ≠ some .prn) : s.faults = s.machine.faults := by
  have hrefused : ¬ s.Refused := fun hr => h hr.1
  rw [faults, if_neg hrefused, List.append_nil]

omit [TraceSink τ] in
theorem refused_iff_of_prn {r : Register}
    (h : Instruction.fetch s.machine.memory s.machine.pc = .ok (.prn r)) :
    s.Refused ↔ (OutputPort.print s.port (s.machine.registers.get r)).1 = false := by
  rw [Refused, Machine.operandValue?_of_fetch h]
  simp [Machine.opcode?_of_fetch h, Instruction.opcode]

omit [TraceSink τ] in
theorem verdict_of_not_prn {o : Opcode} (hnil : s.machine.faults = [])
    (ho : s.machine.opcode? = some o) (h : o ≠ .prn) :
    s.verdict = if o = .hlt then .halted else .retired := by
  have hprn : s.machine.opcode? ≠ some .prn := fun hprn =>
    h (Option.some.inj (ho.symm.trans hprn))
  rw [verdict, faults_of_not_prn hprn, hnil, ho]
  simp only [Option.some.injEq]

omit [TraceSink τ] in
theorem verdict_of_prn {r : Register} (hnil : s.machine.faults = [])
    (h : Instruction.fetch s.machine.memory s.machine.pc = .ok (.prn r)) :
    s.verdict =
      if (OutputPort.print s.port (s.machine.registers.get r)).1 then .retired
      else .fault .outputFailed := by
  have hhlt : s.machine.opcode? ≠ some .hlt := by
    rw [Machine.opcode?_of_fetch h]
    simp [Instruction.opcode]
  rw [verdict, faults, hnil, List.nil_append]
  by_cases hp : (OutputPort.print s.port (s.machine.registers.get r)).1 = true
  · rw [if_neg (by simp [refused_iff_of_prn h, hp]), if_pos hp]
    exact if_neg hhlt
  · rw [if_pos (by simpa [refused_iff_of_prn h] using hp), if_neg hp]

/-- **Every step comes to what is wrong first.** -/
theorem step_eq_verdict (hs : s.machine.runState = .running) : s.step.1 = s.verdict := by
  have hanswer : s.step.1 = (answer s.port (s.machine.effect.map Effect.kind)).1 := by
    rw [← outcome_port_eq_answer hs]
  rw [hanswer]
  cases he : s.machine.effect with
  | error c =>
    obtain ⟨rest, hrest⟩ := List.head?_eq_some_iff.mp (Machine.effect_eq_error_iff_head?.mp he)
    rw [verdict, faults, hrest]
    rfl
  | ok e =>
    obtain ⟨i, hi, hie⟩ := Machine.effect_eq_ok_iff.mp he
    have hopcode := Machine.opcode?_of_fetch hi
    have hnil := Machine.faults_eq_nil_of_effect he
    cases e with
    | halt =>
      obtain rfl := Instruction.effect_eq_halt_iff.mp hie
      rw [verdict_of_not_prn hnil hopcode (by simp [Instruction.opcode])]
      rfl
    | retire next =>
      have hprn : i.opcode ≠ .prn := by
        intro h
        have hvalue := (Instruction.view_of_effect (Instruction.pc_add_length_le hi) hie).2
        cases i <;> cases h
        cases hvalue
      have hhlt : i.opcode ≠ .hlt := by
        intro h
        cases i <;> cases h
        cases hie
      rw [verdict_of_not_prn hnil hopcode hprn, if_neg hhlt]
      rfl
    | print v next =>
      obtain ⟨r, hr, rfl⟩ := Machine.exists_prn_of_effect he
      rw [verdict_of_prn hnil hr]
      simp only [Except.map, Effect.kind, answer]
      cases OutputPort.print s.port (s.machine.registers.get r) with
      | mk taken port => cases taken <;> rfl

omit [TraceSink τ] in
theorem faultClass_of_mem_faults (h : c ∈ s.faults) :
    c.faultClass = .address ∨ c.faultClass = .decode ∨ c.faultClass = .output := by
  rcases List.mem_append.mp h with h | h
  · exact (Machine.faultClass_of_mem_faults h).imp_right .inl
  · split at h
    · rw [List.mem_singleton.mp h]
      exact .inr (.inr rfl)
    · cases h

/-- The stack pointer has no say in this, unless it is to be printed. -/
theorem step_setRegister_sp (hs : s.machine.runState = .running)
    (h : s.machine.opcode? ≠ some .prn) (v : UInt8) :
    (⟨s.machine.setRegister .sp v, s.port, s.sink⟩ : Session σ τ).step.1 = s.step.1 := by
  have hmachine : (s.machine.setRegister .sp v).faults = s.machine.faults := rfl
  have hfaults : (⟨s.machine.setRegister .sp v, s.port, s.sink⟩ : Session σ τ).faults =
      s.faults := by
    rw [faults_of_not_prn h, ← hmachine]
    exact faults_of_not_prn h
  rw [step_eq_verdict hs, step_eq_verdict (s := ⟨s.machine.setRegister .sp v, s.port, s.sink⟩) hs,
    verdict, verdict, hfaults]
  rfl

/-- **A step faults with the first thing that is wrong**, and if nothing is wrong it halts at HLT
and retires otherwise. Where the stack pointer stands makes no difference to PUSH, POP, CALL and
RET, so what they do to the stack never faults. No step divides by zero, and none asks the
arithmetic unit for something it cannot do, since all that it is asked for are products and
comparisons. Nor does a step ever miss a handler: what it reports as unknown is no opcode. -/
theorem fault_iff_first (s : Session σ τ) (hs : s.machine.runState = .running) :
    (∀ c, s.step.1 = .fault c ↔ s.faults.head? = some c) ∧
    (s.faults = [] → ∃ o, s.machine.opcode? = some o ∧
      (o = .hlt → s.step.1 = .halted) ∧ (o ≠ .hlt → s.step.1 = .retired)) ∧
    (∀ o ∈ s.machine.opcode?, o ∈ [Opcode.push, .pop, .call, .ret] → ∀ v,
      (⟨s.machine.setRegister .sp v, s.port, s.sink⟩ : Session σ τ).step.1 = s.step.1) ∧
    (∀ c, s.step.1 = .fault c →
      c ≠ .divisionByZero ∧ ∀ code, c ≠ .unsupportedAluOperation code) ∧
    (∀ o ∈ s.machine.opcode?, o.isAlu → ∃ op, AluOp.ofCode o.byte = .ok op ∧ op ≠ .div) ∧
    (∀ b pc, s.step.1 = .fault (.unknownOpcode b pc) → s.machine.opcode? = none) ∧
    ∀ o ∈ s.machine.opcode?, o ∉ [Opcode.hlt, .call, .ret] →
      (Handler.handlerFor o.byte : Option (Handler σ Unit)).isSome := by
  have hfirst : ∀ c, s.step.1 = .fault c ↔ s.faults.head? = some c := fun c => by
    rw [step_eq_verdict hs, verdict]
    cases hfaults : s.faults with
    | nil => by_cases h : s.machine.opcode? = some .hlt <;> simp [h]
    | cons d rest => simp
  refine ⟨hfirst, fun hnil => ?_, fun o ho hmem => ?_, fun c hc => ?_,
    fun o _ => AluOp.exists_ofCode_byte, fun b pc h => ?_, fun o _ ho => ?_⟩
  · obtain ⟨o, ho⟩ := Machine.exists_opcode?_of_faults_eq_nil (List.append_eq_nil_iff.mp hnil).1
    have hverdict := step_eq_verdict hs
    simp only [verdict, hnil, ho, Option.some.injEq] at hverdict
    exact ⟨o, ho, fun h => hverdict.trans (if_pos h), fun h => hverdict.trans (if_neg h)⟩
  · refine step_setRegister_sp hs fun hprn => ?_
    obtain rfl := Option.some.inj (ho.symm.trans hprn)
    simp at hmem
  · have hclass := faultClass_of_mem_faults (List.mem_of_head? ((hfirst c).mp hc))
    exact ⟨by rintro rfl; simp [Fault.faultClass] at hclass,
      by rintro code rfl; simp [Fault.faultClass] at hclass⟩
  · rcases List.mem_append.mp (List.mem_of_head? ((hfirst _).mp h)) with hmem | hmem
    · exact Machine.opcode?_eq_none_of_unknownOpcode_mem_faults hmem
    · split at hmem
      · cases List.mem_singleton.mp hmem
      · cases hmem
  · simpa [Handler.isSome_handlerFor_byte_iff] using ho

/-- A session about to carry out a CALL of a register that does not exist, in the last two cells of
memory. -/
def lastCall : Session Writer NoTrace where
  machine := { Machine.new with memory := (Memory.zero.set 254 0x50).set 255 9, pc := 254 }
  port := {}
  sink := {}

/-- Of the CALL the register is found to be wrong first, then the return address. With nothing
wrong, the PRN in the same place retires. -/
theorem fault_iff_first_lastCall :
    lastCall.machine.runState = .running ∧
      lastCall.faults = [.registerOutOfRange 9, .addressOutOfRange 256] ∧
      lastCall.step.1 = .fault (.registerOutOfRange 9) ∧
      (⟨lastCall.machine.setRegister .sp 0, {}, {}⟩ : Session Writer NoTrace).step.1 =
        .fault (.registerOutOfRange 9) ∧
      Fault.registerOutOfRange 9 ≠ .divisionByZero ∧
      lastPrint.machine.runState = .running ∧ lastPrint.faults = [] ∧
      lastPrint.step.1 = .retired := by
  have hs : lastCall.machine.runState = .running := by decide +kernel
  have hfaults : lastCall.faults = [.registerOutOfRange 9, .addressOutOfRange 256] := by
    decide +kernel
  have hopcode : lastCall.machine.opcode? = some .call := by decide +kernel
  have hs' : lastPrint.machine.runState = .running := by decide +kernel
  have hnil : lastPrint.faults = [] := by decide +kernel
  have hopcode' : lastPrint.machine.opcode? = some .prn := by decide +kernel
  obtain ⟨hfirst, -, hstack, harithmetic, -⟩ := fault_iff_first lastCall hs
  obtain ⟨-, hnone, -⟩ := fault_iff_first lastPrint hs'
  have hfault : lastCall.step.1 = .fault (.registerOutOfRange 9) := by
    rw [hfirst, hfaults, List.head?_cons]
  obtain ⟨o, ho, -, hretired⟩ := hnone hnil
  obtain rfl := Option.some.inj (hopcode'.symm.trans ho)
  exact ⟨hs, hfaults, hfault, (hstack .call hopcode (by simp) 0).trans hfault,
    (harithmetic _ hfault).1, hs', hnil, hretired (by simp)⟩

end Session

end LS8
