import LS8.Proofs.Session.Conformance

/-! # Sessions: limited output

The same machine prints to a writer without limit and to one that keeps the first `L` bytes. As long
as the output fits, the two sessions differ in nothing but the limit itself: what one writer holds
and the other is said by `Writer.Mirrors`, and `withPort` puts the second writer in place of the
first. The step that carries the output past the limit is a PRN; under the limit it faults, and what
fits of its line is kept.

* `step_of_fits`, `step_of_exceeds`: one step, before the limit is reached and as it is reached.
* `after_of_fits`, `Overflows.after_of_lt`: any number of steps, before and after.
* `limited_output`: the two sessions side by side from the start, for any limit. -/

namespace LS8

open LS8.Text

/-! ### Two writers -/

namespace Writer

/-- The writer `w` holds what the unlimited writer `p` holds, and has room for `limit` bytes in
all. -/
structure Mirrors (limit : ℕ) (p w : Writer) : Prop where
  unlimited : p.room = none
  limited : w.room = some (limit - p.bytes.length)
  fits : p.bytes.length ≤ limit
  bytes : w.bytes = p.bytes

theorem mirrors_empty (limit : ℕ) : Mirrors limit {} { room := some limit } :=
  ⟨rfl, rfl, Nat.zero_le _, rfl⟩

theorem taken_of_unlimited {p p' : Writer} {bs : List UInt8} {taken : Bool} (h : p.room = none)
    (hp : p.write bs = (taken, p')) :
    taken = true ∧ p'.bytes = p.bytes ++ bs ∧ p'.room = none := by
  rw [write_of_unlimited h] at hp
  cases hp
  exact ⟨rfl, by simp [Writer.bytes], h⟩

variable {limit : ℕ} {p p' w : Writer} {bs : List UInt8} {taken : Bool}

theorem Mirrors.write_of_fits (h : Mirrors limit p w) (hp : p.write bs = (taken, p'))
    (hfits : p'.bytes.length ≤ limit) :
    ∃ w', w.write bs = (true, w') ∧ Mirrors limit p' w' := by
  obtain ⟨-, hbytes, hroom⟩ := taken_of_unlimited h.unlimited hp
  have hlen := congrArg List.length hbytes
  rw [List.length_append] at hlen
  have hbs : bs.length ≤ limit - p.bytes.length := by omega
  have hw : w.write bs = (true, (w.write bs).2) := by simp [write, h.limited, hbs]
  refine ⟨_, hw, hroom, ?_, hfits, ?_⟩
  · simp only [write, h.limited, hbs, if_true, Option.some.injEq]
    omega
  · rw [bytes_write_of_le h.limited hbs, h.bytes, hbytes]

theorem Mirrors.write_of_exceeds (h : Mirrors limit p w) (hp : p.write bs = (taken, p'))
    (hexceeds : limit < p'.bytes.length) :
    ∃ w', w.write bs = (false, w') ∧ w'.bytes = p'.bytes.take limit := by
  obtain ⟨-, hbytes, -⟩ := taken_of_unlimited h.unlimited hp
  have hlen := congrArg List.length hbytes
  have hfits := h.fits
  rw [List.length_append] at hlen
  have hbs : limit - p.bytes.length < bs.length := by omega
  have hw : w.write bs = (false, (w.write bs).2) := by
    simp [write, h.limited, Nat.not_le.mpr hbs]
  refine ⟨_, hw, ?_⟩
  rw [bytes_write_of_lt h.limited hbs, h.bytes, hbytes, List.take_append,
    List.take_of_length_le hfits]

end Writer

namespace Session

variable {τ : Type} [TraceSink τ]

/-! ### The output of a step -/

section Line
variable {σ : Type} [OutputPort σ]

/-- The line that the next step prints, if the port takes it. -/
def line (s : Session σ τ) : List UInt8 :=
  match s.retired? with
  | some (.prn r) => Utf8.encode (Numeral.decimal (s.machine.registers.get r).toNat ++ ['\n'])
  | _ => []

theorem line_of_ne_retired {s : Session σ τ} (h : s.step.1 ≠ .retired) : s.line = [] := by
  rw [line, retired?_of_ne_retired h]

theorem line_of_retired? {s : Session σ τ} {i : Instruction} (h : s.retired? = some i) :
    s.line = (i.printed s.machine.view).elim []
      fun v => Utf8.encode (Numeral.decimal v.toNat ++ ['\n']) := by
  rw [line, h]
  cases i <;> rfl

theorem bytes_of_retired (out : Transcript σ) {s : Session σ τ} (h : s.step.1 = .retired) :
    out.bytes s.step.2.port = out.bytes s.port ++ s.line := by
  obtain ⟨i, hi⟩ := exists_retired? h
  rw [line_of_retired? hi]
  exact (becomes_of_retired? hi).bytes out

theorem exists_prn_of_line_ne_nil {s : Session σ τ} (h : s.line ≠ []) :
    ∃ r, s.retired? = some (.prn r) := by
  unfold line at h
  split at h
  · next r hr => exact ⟨r, hr⟩
  · exact absurd rfl h

end Line

variable {limit : ℕ} {s : Session Writer τ} {w : Writer}

theorem bytes_step (h : s.port.room = none) :
    s.step.2.port.bytes = s.port.bytes ++ s.line ∧ s.step.2.port.room = none := by
  cases hs : s.machine.runState with
  | halted =>
    rw [line_of_ne_retired (by rw [step_of_halted hs]; simp), step_of_halted hs]
    exact ⟨(List.append_nil _).symm, h⟩
  | faulted c =>
    rw [line_of_ne_retired (by rw [step_of_faulted hs]; simp), step_of_faulted hs]
    exact ⟨(List.append_nil _).symm, h⟩
  | running =>
    by_cases hret : s.step.1 = .retired
    · refine ⟨bytes_of_retired Writer.transcript hret, ?_⟩
      have hstep := step_of_retired hret
      generalize s.step.2 = next at hstep ⊢
      cases hstep with
      | retire _ => exact h
      | print _ hp => exact (Writer.taken_of_unlimited h hp).2.2
    · rw [line_of_ne_retired hret, List.append_nil]
      have hstep := step_of_running_machine hs
      generalize s.step.1 = o at hstep hret
      generalize s.step.2 = next at hstep ⊢
      cases hstep with
      | fault _ => exact ⟨rfl, h⟩
      | halt _ => exact ⟨rfl, h⟩
      | retire _ => exact absurd rfl hret
      | print _ _ => exact absurd rfl hret
      | refuse _ hp => cases (Writer.taken_of_unlimited h hp).1

/-- **The output of any number of steps** is their lines, one after the other. -/
theorem bytes_after (h : s.port.room = none) (n : ℕ) :
    (s.after n).port.bytes =
      s.port.bytes ++ (List.range n).flatMap (fun k => (s.after k).line) ∧
    (s.after n).port.room = none := by
  induction n with
  | zero => exact ⟨(List.append_nil _).symm, h⟩
  | succ n ih =>
    obtain ⟨hbytes, hroom⟩ := bytes_step ih.2
    rw [after_succ, hbytes, ih.1, List.range_succ, List.flatMap_append, List.flatMap_singleton,
      List.append_assoc]
    exact ⟨rfl, hroom⟩

theorem bytes_prefix_of_le (h : s.port.room = none) {k n : ℕ} (hk : k ≤ n) :
    (s.after k).port.bytes <+: (s.after n).port.bytes := by
  obtain ⟨d, rfl⟩ := Nat.exists_eq_add_of_le hk
  rw [after_add, (bytes_after (bytes_after h k).2 d).1]
  exact List.prefix_append _ _

/-! ### One step under a limit -/

/-- The session with `p` as its port. -/
def withPort {σ ρ : Type} (s : Session σ τ) (p : ρ) : Session ρ τ := ⟨s.machine, p, s.sink⟩

/-- **A step within the limit** is the same with either writer. -/
theorem step_of_fits (hw : s.port.Mirrors limit w) (hfits : s.step.2.port.bytes.length ≤ limit) :
    ∃ w', (s.withPort w).step = (s.step.1, s.step.2.withPort w') ∧
      s.step.2.port.Mirrors limit w' := by
  cases hs : s.machine.runState with
  | halted =>
    rw [step_of_halted hs, step_of_halted (s := s.withPort w) hs]
    exact ⟨w, rfl, hw⟩
  | faulted c =>
    rw [step_of_faulted hs, step_of_faulted (s := s.withPort w) hs]
    exact ⟨w, rfl, hw⟩
  | running =>
    have hstep := step_of_running_machine hs
    generalize s.step.1 = o at hstep ⊢
    generalize s.step.2 = next at hstep hfits ⊢
    cases hstep with
    | fault he => exact ⟨w, Step.eq (s := s.withPort w) hs (.fault he), hw⟩
    | halt he => exact ⟨w, Step.eq (s := s.withPort w) hs (.halt he), hw⟩
    | retire he => exact ⟨w, Step.eq (s := s.withPort w) hs (.retire he), hw⟩
    | print he hp =>
      obtain ⟨w', hw', hmirrors⟩ := hw.write_of_fits hp hfits
      exact ⟨w', Step.eq (s := s.withPort w) hs (.print he hw'), hmirrors⟩
    | refuse he hp => cases (Writer.taken_of_unlimited hw.unlimited hp).1

/-- **The step that exceeds the limit** faults, and the writer keeps what fits. -/
theorem step_of_exceeds (hw : s.port.Mirrors limit w)
    (hexceeds : limit < s.step.2.port.bytes.length) :
    (s.withPort w).step.1 = .fault .outputFailed ∧
      (s.withPort w).step.2.machine = s.machine.fail .outputFailed ∧
      (s.withPort w).step.2.port.bytes = s.step.2.port.bytes.take limit := by
  have hfits := hw.fits
  have hline : s.line ≠ [] := by
    intro hnil
    rw [(bytes_step hw.unlimited).1, hnil, List.append_nil] at hexceeds
    omega
  obtain ⟨r, hr⟩ := exists_prn_of_line_ne_nil hline
  have hret := (retired?_eq_some_iff.mp hr).1
  have hs := running_of_retired hret
  have hstep := step_of_retired hret
  generalize s.step.2 = next at hstep hexceeds ⊢
  cases hstep with
  | retire _ => exact absurd hexceeds (Nat.not_lt.mpr hfits)
  | print he hp =>
    obtain ⟨w', hw', hbytes⟩ := hw.write_of_exceeds hp hexceeds
    rw [Step.eq (s := s.withPort w) hs (.refuse he hw')]
    exact ⟨rfl, rfl, hbytes⟩

/-! ### Many steps under a limit -/

theorem after_of_fits (hw : s.port.Mirrors limit w) {n : ℕ}
    (hfits : (s.after n).port.bytes.length ≤ limit) :
    ∃ w', (s.withPort w).after n = (s.after n).withPort w' ∧
      (s.after n).port.Mirrors limit w' := by
  induction n with
  | zero => exact ⟨w, rfl, hw⟩
  | succ n ih =>
    have hle := (bytes_prefix_of_le hw.unlimited (Nat.le_add_right n 1)).length_le
    obtain ⟨w₁, hafter, hmirrors⟩ := ih (by omega)
    rw [after_succ] at hfits
    obtain ⟨w₂, hstep, hmirrors₂⟩ := step_of_fits hmirrors hfits
    refine ⟨w₂, ?_, by rwa [after_succ]⟩
    rw [after_succ, hafter, hstep, after_succ]

theorem outcome_of_fits (hw : s.port.Mirrors limit w) {n : ℕ}
    (hfits : (s.after (n + 1)).port.bytes.length ≤ limit) :
    ((s.withPort w).after n).step.1 = (s.after n).step.1 := by
  have hle := (bytes_prefix_of_le hw.unlimited (Nat.le_add_right n 1)).length_le
  obtain ⟨w₁, hafter, hmirrors⟩ := after_of_fits hw (Nat.le_trans hle hfits)
  rw [after_succ] at hfits
  obtain ⟨w₂, hstep, -⟩ := step_of_fits hmirrors hfits
  rw [hafter, hstep]

/-- Step `n` is the first PRN whose line would carry the output past `limit` bytes. -/
structure Overflows (s : Session Writer τ) (limit n : ℕ) : Prop where
  prints : ∃ r, (s.after n).retired? = some (.prn r)
  fits : ∀ k ≤ n, (s.after k).port.bytes.length ≤ limit
  exceeds : limit < (s.after (n + 1)).port.bytes.length

theorem fits_of_not_overflows (hw : s.port.Mirrors limit w) {n : ℕ}
    (h : ∀ k < n, ¬ s.Overflows limit k) : ∀ k ≤ n, (s.after k).port.bytes.length ≤ limit := by
  induction n with
  | zero =>
    intro k hk
    rw [Nat.le_zero.mp hk]
    exact hw.fits
  | succ n ih =>
    have hbefore := ih fun k hk => h k (by omega)
    intro k hk
    rcases Nat.lt_or_ge n k with hlt | hle
    · obtain rfl : k = n + 1 := by omega
      by_contra hexceeds
      have hstep := (bytes_step (bytes_after hw.unlimited n).2).1
      rw [← after_succ] at hstep
      have hline : (s.after n).line ≠ [] := by
        intro hnil
        rw [hstep, hnil, List.append_nil] at hexceeds
        exact hexceeds (hbefore n (Nat.le_refl n))
      exact h n (Nat.lt_succ_self n)
        ⟨exists_prn_of_line_ne_nil hline, hbefore, Nat.lt_of_not_le hexceeds⟩
    · exact hbefore k hle

section Overflows
variable {n : ℕ} (hw : s.port.Mirrors limit w) (h : s.Overflows limit n)
include hw h

theorem Overflows.step :
    ((s.withPort w).after n).step.1 = .fault .outputFailed ∧
      ((s.withPort w).after (n + 1)).machine = (s.after n).machine.fail .outputFailed ∧
      ((s.withPort w).after (n + 1)).port.bytes = (s.after (n + 1)).port.bytes.take limit := by
  obtain ⟨w', hafter, hmirrors⟩ := after_of_fits hw (h.fits n (Nat.le_refl n))
  have hexceeds := h.exceeds
  rw [after_succ] at hexceeds
  rw [after_succ, after_succ, hafter]
  exact step_of_exceeds hmirrors hexceeds

/-- Later steps change nothing, and what the output begins with stays as it is. -/
theorem Overflows.after_of_lt {k : ℕ} (hk : n < k) :
    (s.withPort w).after k = (s.withPort w).after (n + 1) ∧
      ((s.withPort w).after k).port.bytes = (s.after k).port.bytes.take limit := by
  obtain ⟨hfault, -, hbytes⟩ := h.step hw
  obtain ⟨d, rfl⟩ := Nat.exists_eq_add_of_le (Nat.succ_le_of_lt hk)
  have hstay : (s.withPort w).after (n + 1 + d) = (s.withPort w).after (n + 1) := by
    cases d with
    | zero => rfl
    | succ d =>
      have hne : ((s.withPort w).after n).step.1 ≠ .retired := by simp [hfault]
      rw [show n + 1 + (d + 1) = n + (d + 1) + 1 by omega, after_succ, after_succ, after_add,
        step_after_of_ne_retired hne]
  obtain ⟨rest, hrest⟩ := bytes_prefix_of_le hw.unlimited hk
  refine ⟨hstay, ?_⟩
  rw [hstay, hbytes, ← hrest, List.take_append_of_le_length (Nat.le_of_lt h.exceeds)]

theorem Overflows.run {fuel : ℕ} (hfuel : n < fuel) :
    (s.withPort w).run fuel = (some (.fault .outputFailed), (s.withPort w).after (n + 1)) := by
  obtain ⟨r, hr⟩ := h.prints
  have hret := (retired?_eq_some_iff.mp hr).1
  obtain ⟨hfault, -, -⟩ := h.step hw
  have hretired : ∀ k < n, ((s.withPort w).after k).step.1 = .retired := fun k hk => by
    rw [outcome_of_fits hw (h.fits (k + 1) hk)]
    exact retired_of_le (Nat.le_of_lt hk) hret
  have hrun : ((s.withPort w).after n).machine.runState = .running := by
    obtain ⟨w', hafter, -⟩ := after_of_fits hw (h.fits n (Nat.le_refl n))
    rw [hafter]
    exact running_of_retired (s := s.after n) hret
  obtain ⟨d, rfl⟩ := Nat.exists_eq_add_of_le (Nat.succ_le_of_lt hfuel)
  rw [Session.run, show n.succ + d = n + (d + 1) by omega, runFrom_add hretired,
    runFrom_succ_of_fault hrun hfault, after_succ]

end Overflows

/-! ### From the start -/

/-- A machine that prints to an empty writer without limit. -/
def unlimited (m : Machine) (sink : τ) : Session Writer τ := ⟨m, {}, sink⟩

/-- A machine that prints to an empty writer with room for `limit` bytes. -/
def limited (limit : ℕ) (m : Machine) (sink : τ) : Session Writer τ :=
  ⟨m, { room := some limit }, sink⟩

/-- Two sessions that differ in the room of their writers at most. -/
structure Agree (s t : Session Writer τ) : Prop where
  machine : t.machine = s.machine
  sink : t.sink = s.sink
  bytes : t.port.bytes = s.port.bytes

theorem agree_of_fits {m : Machine} {sink : τ} {n : ℕ}
    (hfits : ((unlimited m sink).after n).port.bytes.length ≤ limit) :
    ((unlimited m sink).after n).Agree ((limited limit m sink).after n) := by
  obtain ⟨w', hafter, hmirrors⟩ :=
    after_of_fits (s := unlimited m sink) (Writer.mirrors_empty limit) hfits
  change (limited limit m sink).after n = _ at hafter
  rw [hafter]
  exact ⟨rfl, rfl, hmirrors.bytes⟩

/-- **Limited output is a prefix.** Without a limit the output is the lines of the PRNs that retire.
With a limit all is the same up to the first PRN whose line does not fit. There the step faults and
changes nothing in the machine but its run state, the writer holds the first `limit` bytes of the
unlimited output, and so it stays. If there is no such PRN, all is the same for ever. Runs follow. -/
theorem limited_output (limit : ℕ) (m : Machine) (sink : τ) :
    (∀ n, ((unlimited m sink).after n).port.bytes =
      (List.range n).flatMap fun k => ((unlimited m sink).after k).line) ∧
    (∀ n, (unlimited m sink).Overflows limit n →
      (∀ k < n, ((limited limit m sink).after k).step.1 = ((unlimited m sink).after k).step.1) ∧
      (∀ k ≤ n, ((unlimited m sink).after k).Agree ((limited limit m sink).after k)) ∧
      ((limited limit m sink).after n).step.1 = .fault .outputFailed ∧
      ((limited limit m sink).after (n + 1)).machine =
        { ((unlimited m sink).after n).machine with runState := .faulted .outputFailed } ∧
      (∃ r, Instruction.fetch ((limited limit m sink).after (n + 1)).machine.memory
        ((limited limit m sink).after (n + 1)).machine.pc = .ok (.prn r)) ∧
      (∀ k > n, (limited limit m sink).after k = (limited limit m sink).after (n + 1) ∧
        ((limited limit m sink).after k).port.bytes =
          ((unlimited m sink).after k).port.bytes.take limit) ∧
      ∀ fuel > n, (limited limit m sink).run fuel =
        (some (.fault .outputFailed), (limited limit m sink).after (n + 1))) ∧
    ∀ n, (∀ k < n, ¬ (unlimited m sink).Overflows limit k) →
      (∀ k < n, ((limited limit m sink).after k).step.1 = ((unlimited m sink).after k).step.1) ∧
      (∀ k ≤ n, ((unlimited m sink).after k).Agree ((limited limit m sink).after k)) ∧
      ((limited limit m sink).run n).1 = ((unlimited m sink).run n).1 ∧
      ((unlimited m sink).run n).2.Agree ((limited limit m sink).run n).2 := by
  have hw : (unlimited m sink).port.Mirrors limit { room := some limit } :=
    Writer.mirrors_empty limit
  refine ⟨fun n => (bytes_after rfl n).1, fun n h => ?_, fun n h => ?_⟩
  · obtain ⟨hfault, hmachine, -⟩ := h.step hw
    obtain ⟨r, hr⟩ := h.prints
    refine ⟨fun k hk => outcome_of_fits hw (h.fits (k + 1) hk),
      fun k hk => agree_of_fits (h.fits k hk), hfault, hmachine, ⟨r, ?_⟩,
      fun k hk => h.after_of_lt hw hk, fun fuel hfuel => h.run hw hfuel⟩
    -- the fault has left the program counter on the PRN
    rw [show ((limited limit m sink).after (n + 1)).machine = _ from hmachine]
    exact (retired?_eq_some_iff.mp hr).2
  · have hfits := fits_of_not_overflows hw h
    have hout : ∀ k < n, ((limited limit m sink).after k).step.1 =
        ((unlimited m sink).after k).step.1 := fun k hk => outcome_of_fits hw (hfits (k + 1) hk)
    obtain ⟨hrun, k, hk, hs, ht⟩ :=
      runFrom_congr (s := unlimited m sink) (t := limited limit m sink) rfl hout 0
    refine ⟨hout, fun k hk => agree_of_fits (hfits k hk), hrun, ?_⟩
    rw [Session.run, Session.run, hs, ht]
    exact agree_of_fits (hfits k hk)

/-- `LDI R0,12; PRN R0; HLT`. -/
def printTwelve : Machine := (Machine.new.loadProgram [0x82, 0, 12, 0x47, 0, 0x01]).1

/-- With room for one byte the PRN faults between its two digits. -/
theorem limited_output_printTwelve :
    (unlimited printTwelve NoTrace.mk).Overflows 1 1 ∧
      (limited 1 printTwelve NoTrace.mk).run 5 =
        (some (.fault .outputFailed), (limited 1 printTwelve NoTrace.mk).after 2) ∧
      ((limited 1 printTwelve NoTrace.mk).after 2).port.bytes =
        ((unlimited printTwelve NoTrace.mk).after 2).port.bytes.take 1 ∧
      ((unlimited printTwelve NoTrace.mk).after 2).port.bytes =
        ['1', '2', '\n'].map fun c => UInt8.ofNat c.toNat := by
  have h : (unlimited printTwelve NoTrace.mk).Overflows 1 1 :=
    ⟨⟨0, by decide +kernel⟩, by decide +kernel, by decide +kernel⟩
  obtain ⟨-, -, -, -, -, hbytes, hrun⟩ := (limited_output 1 printTwelve NoTrace.mk).2.1 1 h
  exact ⟨h, hrun 5 (by decide), (hbytes 2 (by decide)).2, by decide +kernel⟩

end Session

end LS8
