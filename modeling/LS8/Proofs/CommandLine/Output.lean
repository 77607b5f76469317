import LS8.CommandLine.Invocation
import LS8.Proofs.Session.Printing

/-! # The command line: standard output

Standard output holds the lines of the PRNs that have retired, whether its device takes lines or
not. A line gets stuck if and only if the device takes none and a PRN was tried.

* `standardOutput_step`, `standardOutput_after`: one step and any number of steps. -/

namespace LS8

open LS8.CommandLine LS8.Text

/-! ### Printing -/

namespace CommandLine.StandardOutput

theorem print_of_accepts {out : StandardOutput} (h : out.accepts = true) (v : UInt8) :
    OutputPort.print out v =
      (true, { out with
        written := out.written ++ Utf8.encode (Numeral.decimal v.toNat ++ ['\n']) }) :=
  if_pos h

theorem print_of_refuses {out : StandardOutput} (h : out.accepts = false) (v : UInt8) :
    OutputPort.print out v = (false, { out with stuck := true }) :=
  if_neg (by simp [h])

/-- What has been written, as bytes. -/
def transcript : Transcript StandardOutput where
  bytes out := out.written.toList
  bytes_print := by
    intro p p' v hp
    cases h : p.accepts with
    | true =>
      rw [print_of_accepts h] at hp
      obtain ⟨-, rfl⟩ := Prod.mk.inj hp
      exact Array.toList_appendList
    | false =>
      rw [print_of_refuses h] at hp
      cases (Prod.mk.inj hp).1

end CommandLine.StandardOutput

/-! ### Steps -/

namespace Session

variable {τ : Type} [TraceSink τ]

/-- **What a step does to standard output**: its line is written, and a line that the device does
not take is stuck. -/
theorem standardOutput_step (s : Session StandardOutput τ) :
    s.step.2.port.accepts = s.port.accepts ∧
      s.step.2.port.written.toList = s.port.written.toList ++ s.line ∧
      (s.step.2.port.stuck = true ↔
        s.port.stuck = true ∨ s.port.accepts = false ∧ s.Prints) := by
  by_cases h : s.Prints
  case neg =>
    obtain ⟨hport, hline⟩ := port_of_not_prints h
    rw [hport, hline, List.append_nil]
    simp [h]
  case pos =>
    have hs := h.1
    obtain ⟨v, next, he⟩ := (prints_iff hs).mp h
    cases hp : s.port.accepts with
    | true =>
      have hstep := Step.eq hs (.print he (StandardOutput.print_of_accepts hp v))
      have hret : s.step.1 = .retired := by rw [hstep]
      refine ⟨by rw [hstep, ← hp], bytes_of_retired StandardOutput.transcript hret, ?_⟩
      rw [hstep]
      simp
    | false =>
      have hstep := Step.eq hs (.refuse he (StandardOutput.print_of_refuses hp v))
      have hret : s.step.1 ≠ .retired := by
        rw [hstep]
        simp
      rw [line_of_ne_retired hret, List.append_nil, hstep]
      exact ⟨hp, rfl, by simp [h, Session.fail, Session.report]⟩

theorem standardOutput_after (s : Session StandardOutput τ) (n : ℕ) :
    (s.after n).port.accepts = s.port.accepts ∧
      (s.after n).port.written.toList =
        s.port.written.toList ++ (List.range n).flatMap (fun k => (s.after k).line) ∧
      ((s.after n).port.stuck = true ↔
        s.port.stuck = true ∨ s.port.accepts = false ∧ ∃ k < n, (s.after k).Prints) := by
  induction n with
  | zero => simp
  | succ n ih =>
    obtain ⟨haccepts, hwritten, hstuck⟩ := ih
    obtain ⟨haccepts', hwritten', hstuck'⟩ := standardOutput_step (s.after n)
    have hprints : (∃ k < n + 1, (s.after k).Prints) ↔
        (∃ k < n, (s.after k).Prints) ∨ (s.after n).Prints := by
      simp only [Nat.lt_succ_iff_lt_or_eq, or_and_right, exists_or, exists_eq_left]
    rw [after_succ, haccepts', hwritten', hstuck', hwritten, hstuck, haccepts, List.range_succ,
      List.flatMap_append, List.flatMap_singleton, List.append_assoc, hprints, and_or_left,
      or_assoc]
    exact ⟨rfl, rfl, Iff.rfl⟩

end Session

end LS8
