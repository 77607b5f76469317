import LS8.CommandLine.Arguments
import Mathlib.Data.Nat.Notation

/-! # The command line: reading arguments

All words that ask for help or for a trace begin with a dash, so an argument that does not is a
path. Trace flags may stand anywhere among the arguments of `run`: `scan` takes a row of them in one
go.

* `parse_run`: one path among trace flags.
* `parse_eq_parse_run`: the command `run` may be left out before a path that is not a command. -/

namespace LS8.CommandLine

variable {a p : ByteString} {flags before after : List ByteString}

/-! ### Single arguments -/

theorem isHelp_iff : isHelp a ↔ a = word "--help" ∨ a = word "-h" := by simp [isHelp]

theorem isTrace_iff : isTrace a ↔ a = word "--trace" ∨ a = word "-t" := by simp [isTrace]

theorem isDashed_of_isHelp (h : isHelp a) : isDashed a := by
  rcases isHelp_iff.mp h with rfl | rfl
  · decide
  · decide

theorem isDashed_of_isTrace (h : isTrace a) : isDashed a := by
  rcases isTrace_iff.mp h with rfl | rfl
  · decide
  · decide

theorem isHelp_eq_false (h : isDashed a = false) : isHelp a = false := by
  refine Bool.eq_false_iff.mpr fun hhelp => ?_
  rw [isDashed_of_isHelp hhelp] at h
  cases h

theorem isTrace_eq_false (h : isDashed a = false) : isTrace a = false := by
  refine Bool.eq_false_iff.mpr fun htrace => ?_
  rw [isDashed_of_isTrace htrace] at h
  cases h

theorem kind_of_isDashed_eq_false (h : isDashed a = false) (traceFlags : Bool) :
    kind traceFlags a = .path := by
  simp [kind, isHelp_eq_false h, isTrace_eq_false h, h]

theorem isHelp_eq_false_of_isTrace (h : isTrace a) : isHelp a = false := by
  rcases isTrace_iff.mp h with rfl | rfl
  · decide
  · decide

theorem kind_of_isTrace (h : isTrace a) : kind true a = .trace := by
  simp [kind, isHelp_eq_false_of_isTrace h, h]

/-! ### Rows of trace flags -/

theorem scan_flags (hflags : ∀ a ∈ flags, isTrace a) (path? : Option ByteString) (trace : Bool)
    (as : List ByteString) :
    scan true path? trace (flags ++ as) = scan true path? (trace || !flags.isEmpty) as := by
  induction flags generalizing trace with
  | nil => rw [List.nil_append, List.isEmpty_nil, Bool.not_true, Bool.or_false]
  | cons a flags ih =>
    have hkind : kind true a = .trace := kind_of_isTrace (hflags a List.mem_cons_self)
    rw [List.cons_append, scan, hkind]
    refine (ih (fun b hb => hflags b (List.mem_cons_of_mem a hb)) true).trans ?_
    simp

/-- **One path among trace flags** is a program to run, with a trace if there is a flag. -/
theorem parse_run (hp : isDashed p = false) (hbefore : ∀ a ∈ before, isTrace a)
    (hafter : ∀ a ∈ after, isTrace a) :
    parse (word "run" :: (before ++ p :: after)) =
      .ok (.run p (!(before ++ after).isEmpty)) := by
  have hscan : scan true none false (before ++ p :: after) =
      .ok (p, !(before ++ after).isEmpty) := by
    have hrest := scan_flags hafter (some p) (false || !before.isEmpty) []
    rw [List.append_nil] at hrest
    rw [scan_flags hbefore, scan, kind_of_isDashed_eq_false hp]
    refine hrest.trans ?_
    cases before with
    | nil => rfl
    | cons a before => rfl
  have hword : isHelp (word "run") = false := by decide
  rw [parse, hword, if_neg (by decide), if_pos rfl, parseRun, hscan]
  rfl

/-- **The command `run` may be left out** before a path. -/
theorem parse_eq_parse_run (hp : isDashed p = false) (hrun : p ≠ word "run")
    (hdisasm : p ≠ word "disasm") (as : List ByteString) :
    parse (p :: as) = parse (word "run" :: p :: as) := by
  have hword : isHelp (word "run") = false := by decide
  rw [parse, parse, isHelp_eq_false hp, hword, hp]
  simp [hrun, hdisasm]

end LS8.CommandLine
