import LS8.Proofs.Session.Steps
import LS8.Trace.Event
import LS8.Writer

/-! # Sessions: what a step changes

A step that retires changes the session exactly as the table `Instruction.next` says for the
instruction whose bytes stand at the program counter: the view of the machine afterwards is the row
of the table, so nothing else has changed, and the port has taken what the instruction prints and
nothing more (`Becomes`). Since the bytes are those before the step, it does not matter if the
instruction overwrites itself.

A port that is read as a stream of bytes (`Transcript`), such as a `Writer`, has then grown by the
line of the printed value.

* `step_changes`: steps that retire and steps that halt. -/

namespace LS8

open LS8.Text

/-! ### Ports as streams of bytes -/

/-- A port read as the bytes it holds: a value that it takes adds the digits of the value and a
newline. -/
structure Transcript (σ : Type) [OutputPort σ] where
  bytes : σ → List UInt8
  bytes_print : ∀ {p p' : σ} {v : UInt8}, OutputPort.print p v = (true, p') →
    bytes p' = bytes p ++ Utf8.encode (Numeral.decimal v.toNat ++ ['\n'])

theorem Writer.bytes_write_of_taken {w w' : Writer} {bs : List UInt8}
    (h : w.write bs = (true, w')) : w'.bytes = w.bytes ++ bs := by
  have hw : w' = (w.write bs).2 := by rw [h]
  subst hw
  cases hroom : w.room with
  | none => rw [write_of_unlimited hroom]; simp [bytes]
  | some room =>
    rcases Nat.lt_or_ge room bs.length with hlt | hle
    · simp [write, hroom, Nat.not_le.mpr hlt] at h
    · exact bytes_write_of_le hroom hle

def Writer.transcript : Transcript Writer := ⟨Writer.bytes, Writer.bytes_write_of_taken⟩

namespace Session

variable {σ τ : Type} [TraceSink τ] [OutputPort σ]

/-! ### Steps -/

/-- **The session `s` becomes `t` by the instruction `i`.** -/
structure Becomes (s t : Session σ τ) (i : Instruction) : Prop where
  view : t.machine.view = i.next s.machine.view
  silent : i.printed s.machine.view = none → t.port = s.port
  printed : ∀ v, i.printed s.machine.view = some v → OutputPort.print s.port v = (true, t.port)

omit [TraceSink τ] in
theorem Becomes.bytes {s t : Session σ τ} {i : Instruction} (h : s.Becomes t i)
    (out : Transcript σ) :
    out.bytes t.port = out.bytes s.port ++
      (i.printed s.machine.view).elim []
        fun v => Utf8.encode (Numeral.decimal v.toNat ++ ['\n']) := by
  cases hv : i.printed s.machine.view with
  | none => rw [h.silent hv]; simp
  | some v => exact out.bytes_print (h.printed v hv)

theorem becomes_of_retired? {s : Session σ τ} {i : Instruction} (h : s.retired? = some i) :
    s.Becomes s.step.2 i := by
  obtain ⟨ho, hi⟩ := retired?_eq_some_iff.mp h
  obtain ⟨e, he, -, -, hsilent, hprinted⟩ := exists_effect_of_retired ho
  rw [Machine.effect_of_fetch hi] at he
  have hvalue := (Instruction.view_of_effect (Instruction.pc_add_length_le hi) he).2
  rw [hvalue] at hsilent hprinted
  exact ⟨view_of_retired? h, hsilent, hprinted⟩

/-- **What a step changes.** A step that retires carries out the instruction whose bytes stand at
the program counter, and the machine becomes the one that the table says; the address that CALL
leaves behind is a byte. A step that halts carries out HLT and changes the run state. -/
theorem step_changes (s : Session σ τ) (hs : s.machine.runState = .running) :
    (s.step.1 = .retired →
      ∃ i, i ≠ .hlt ∧ s.machine.memory.HoldsAt s.machine.pc.toNat i.bytes ∧
        s.Becomes s.step.2 i ∧
        (∀ m : Machine, m.view = i.next s.machine.view → m = s.step.2.machine) ∧
        (∀ r, i = .call r → s.machine.pc.toNat + 2 < 256) ∧
        ∀ out : Transcript σ, out.bytes s.step.2.port = out.bytes s.port ++
          (i.printed s.machine.view).elim []
            fun v => Utf8.encode (Numeral.decimal v.toNat ++ ['\n'])) ∧
    (s.step.1 = .halted →
      s.machine.memory.HoldsAt s.machine.pc.toNat Instruction.hlt.bytes ∧
        s.step.2.machine = { s.machine with runState := .halted } ∧
        s.step.2.port = s.port) := by
  refine ⟨fun h => ?_, fun h => ?_⟩
  · obtain ⟨i, hi⟩ := exists_retired? h
    have hbytes := Instruction.fetch_eq_ok_iff.mp (retired?_eq_some_iff.mp hi).2
    have hbecomes := becomes_of_retired? hi
    refine ⟨i, ne_hlt_of_retired? hi, hbytes, hbecomes, fun m hm => ?_, ?_, hbecomes.bytes⟩
    · exact Machine.view_injective (hm.trans hbecomes.view.symm)
    · rintro r rfl
      exact add_two_lt_of_retired?_call hi
  · obtain ⟨hfetch, hmachine, hport⟩ := fetch_eq_hlt_of_halted hs h
    exact ⟨Instruction.fetch_eq_ok_iff.mp hfetch, hmachine, hport⟩

/-- A session about to carry out `CALL R7` at 15 with the stack at 16. The CALL overwrites itself
with its return address 17, which is RET, and goes on there; at 17 stands `PRN R7; HLT`. -/
def selfCall : Session Writer NoTrace where
  machine :=
    (((Machine.ofConfig { stackPointerReset := 16 }).loadProgram
      (List.replicate 15 0 ++ [0x50, 7, 0x47, 7, 0x01])).1).setPc 15
  port := {}
  sink := {}

/-- The CALL retires, two steps later `PRN R7` prints the stack pointer, and then the machine
halts. -/
theorem step_changes_selfCall :
    selfCall.machine.runState = .running ∧ selfCall.step.1 = .retired ∧
      selfCall.machine.memory.HoldsAt 15 (Instruction.call 7).bytes ∧
      selfCall.Becomes selfCall.step.2 (.call 7) ∧
      (selfCall.after 2).step.1 = .retired ∧
      (selfCall.after 2).machine.memory.HoldsAt 17 (Instruction.prn 7).bytes ∧
      (selfCall.after 2).step.2.port.bytes =
        (selfCall.after 2).port.bytes ++ Utf8.encode "16\n".toList ∧
      (selfCall.after 3).step.1 = .halted ∧
      (selfCall.after 3).step.2.machine =
        { (selfCall.after 3).machine with runState := .halted } := by
  have hs : selfCall.machine.runState = .running := by decide +kernel
  have h : selfCall.step.1 = .retired := by decide +kernel
  have hfetch : Instruction.fetch selfCall.machine.memory selfCall.machine.pc = .ok (.call 7) := by
    decide +kernel
  have hs2 : (selfCall.after 2).machine.runState = .running := by decide +kernel
  have h2 : (selfCall.after 2).step.1 = .retired := by decide +kernel
  have hfetch2 : Instruction.fetch (selfCall.after 2).machine.memory
      (selfCall.after 2).machine.pc = .ok (.prn 7) := by decide +kernel
  have hprinted : (Instruction.prn 7).printed (selfCall.after 2).machine.view = some 16 := by
    decide +kernel
  have hs3 : (selfCall.after 3).machine.runState = .running := by decide +kernel
  have h3 : (selfCall.after 3).step.1 = .halted := by decide +kernel
  obtain ⟨i, -, hbytes, hbecomes, -⟩ := (step_changes selfCall hs).1 h
  obtain rfl := Except.ok.inj ((Instruction.fetch_eq_ok_iff.mpr hbytes).symm.trans hfetch)
  obtain ⟨k, -, hbytes2, -, -, -, hout⟩ := (step_changes _ hs2).1 h2
  obtain rfl := Except.ok.inj ((Instruction.fetch_eq_ok_iff.mpr hbytes2).symm.trans hfetch2)
  have hdigits : Numeral.decimal (16 : UInt8).toNat ++ ['\n'] = "16\n".toList := by decide +kernel
  have hline := hout Writer.transcript
  rw [hprinted, Option.elim_some, hdigits] at hline
  have hpc2 : (selfCall.after 2).machine.pc.toNat = 17 := by decide +kernel
  exact ⟨hs, h, hbytes, hbecomes, h2, hpc2 ▸ hbytes2, hline, h3, ((step_changes _ hs3).2 h3).2.1⟩

end Session

end LS8
