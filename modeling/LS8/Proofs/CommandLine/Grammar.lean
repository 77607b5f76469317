import LS8.CommandLine.Usage
import LS8.Proofs.CommandLine.Arguments
import LS8.Proofs.Text.Lossy
import Mathlib.Data.List.Induction

/-! # The command line: the grammar of arguments

The arguments of a command are trace flags, as far as it has any, and one path among them. An
argument is out of place (`OutOfPlace`) if it is a wish for help, begins with a dash and is no flag,
or is a path behind another path; the first such argument is what is reported, and only if there is
none it matters that there has to be a path. `scan` goes through arguments that are in order with
nothing in its hands but their path and whether one of them has been a flag (`scan_inOrder`).

* `inOrder_iff`: arguments that are in order are flags and at most one path.
* `exists_reading`: arguments begin with one that is out of place, lack a path or are understood.
* `commandLaw_scan`: which of these it is, decides what a command answers (`CommandLaw`).
* `argument_grammar`: the commands, and whole command lines (`LineLaw`). -/

namespace LS8.CommandLine

open LS8.Text

variable {traceFlags trace : Bool} {a p : ByteString} {as before : List ByteString}
  {text : List Char}

/-! ### Arguments as they are shown -/

/-- An argument begins with a dash exactly if it is shown with one, broken pieces or not. -/
theorem isDashed_iff_lossy : isDashed a ↔ (Utf8.lossy a).head? = some '-' := by
  rw [Utf8.head?_lossy_eq_some_iff ⟨by decide, by decide⟩, isDashed, decide_eq_true_eq]
  rfl

theorem eq_word_iff_lossy {w : String} (h : w.toList.all fun c => Utf8.IsPlain c) :
    a = word w ↔ Utf8.lossy a = w.toList := by
  rw [List.all_eq_true] at h
  exact (Utf8.lossy_eq_iff_of_plain (fun c hc => of_decide_eq_true (h c hc)) a).symm

/-! ### Arguments in their places -/

/-- Whether an argument is a trace flag for a command that has trace flags or has none. -/
def isFlag (traceFlags : Bool) (a : ByteString) : Bool := traceFlags && isTrace a

/-- The arguments that do not begin with a dash. -/
def paths (as : List ByteString) : List ByteString := as.filter fun a => !isDashed a

/-- **Why an argument is out of place** behind the arguments before it, in the words that report
it. -/
inductive OutOfPlace (traceFlags : Bool) (before : List ByteString) (a : ByteString) :
    List Char → Prop
  | help (h : isHelp a) : OutOfPlace traceFlags before a usage
  | unknown (hdash : isDashed a) (hhelp : isHelp a = false) (hflag : isFlag traceFlags a = false) :
    OutOfPlace traceFlags before a ("unknown option: ".toList ++ Utf8.lossy a)
  | second (hpath : isDashed a = false) (hbefore : paths before ≠ []) :
    OutOfPlace traceFlags before a "multiple program paths provided".toList

/-- No argument is out of place. -/
def InOrder (traceFlags : Bool) (as : List ByteString) : Prop :=
  ∀ before a after text, as = before ++ a :: after → ¬ OutOfPlace traceFlags before a text

/-- `text` reports the first argument that is out of place. -/
def FirstOutOfPlace (traceFlags : Bool) (as : List ByteString) (text : List Char) : Prop :=
  ∃ before a after, as = before ++ a :: after ∧ InOrder traceFlags before ∧
    OutOfPlace traceFlags before a text

/-- **Arguments that a command understands** are flags and one path. -/
structure Understood (traceFlags : Bool) (as : List ByteString) (p : ByteString) (trace : Bool) :
    Prop where
  places : ∀ a ∈ as, isFlag traceFlags a ∨ isDashed a = false
  path : paths as = [p]
  trace_iff : trace = true ↔ ∃ a ∈ as, isFlag traceFlags a

theorem isTrace_of_isFlag (h : isFlag traceFlags a) : isTrace a := (Bool.and_eq_true_iff.mp h).2

theorem kind_of_isFlag (h : isFlag traceFlags a) : kind traceFlags a = .trace := by
  obtain ⟨rfl, htrace⟩ := Bool.and_eq_true_iff.mp h
  exact kind_of_isTrace htrace

theorem isFlag_eq_false (h : isDashed a = false) : isFlag traceFlags a = false := by
  rw [isFlag, isTrace_eq_false h, Bool.and_false]

theorem paths_concat_of_isDashed (h : isDashed a) : paths (as ++ [a]) = paths as := by
  simp [paths, h]

theorem paths_concat (h : isDashed a = false) : paths (as ++ [a]) = paths as ++ [a] := by
  simp [paths, h]

theorem forall_not_outOfPlace_iff : (∀ text, ¬ OutOfPlace traceFlags before a text) ↔
    isFlag traceFlags a ∨ isDashed a = false ∧ paths before = [] := by
  constructor
  · intro h
    by_cases hdash : isDashed a
    · refine .inl ?_
      by_contra hflag
      by_cases hhelp : isHelp a
      · exact h _ (.help hhelp)
      · exact h _ (.unknown hdash (Bool.eq_false_iff.mpr hhelp) (Bool.eq_false_iff.mpr hflag))
    · rw [Bool.not_eq_true] at hdash
      refine .inr ⟨hdash, ?_⟩
      by_contra hbefore
      exact h _ (.second hdash hbefore)
  · rintro (hflag | ⟨hpath, hbefore⟩) text hout
    · cases hout with
      | help hhelp => simp [isHelp_eq_false_of_isTrace (isTrace_of_isFlag hflag)] at hhelp
      | unknown _ _ hno => simp [hflag] at hno
      | second hpath _ => simp [isDashed_of_isTrace (isTrace_of_isFlag hflag)] at hpath
    · cases hout with
      | help hhelp => simp [isHelp_eq_false hpath] at hhelp
      | unknown hdash _ _ => simp [hpath] at hdash
      | second _ hne => exact hne hbefore

/-! ### Arguments in order -/

theorem inOrder_nil : InOrder traceFlags [] := by
  intro before a after text h
  simp at h

theorem inOrder_concat_iff : InOrder traceFlags (as ++ [a]) ↔
    InOrder traceFlags as ∧ ∀ text, ¬ OutOfPlace traceFlags as a text := by
  constructor
  · intro h
    refine ⟨fun before b after text has => ?_, fun text => h as a [] text rfl⟩
    refine h before b (after ++ [a]) text ?_
    rw [has, List.append_assoc, List.cons_append]
  · rintro ⟨hfirst, hlast⟩ before b after text has
    -- the argument is the last one or one of those before
    rcases List.eq_nil_or_concat after with rfl | ⟨after, c, rfl⟩
    · obtain ⟨rfl, hb⟩ := List.append_inj' has rfl
      obtain rfl := List.singleton_inj.mp hb
      exact hlast text
    · rw [List.concat_eq_append, ← List.cons_append, ← List.append_assoc] at has
      exact hfirst before b after text (List.append_inj' has rfl).1

theorem inOrder_iff : InOrder traceFlags as ↔
    (∀ a ∈ as, isFlag traceFlags a ∨ isDashed a = false) ∧ (paths as).length ≤ 1 := by
  induction as using List.reverseRecOn with
  | nil => exact iff_of_true inOrder_nil ⟨by simp, Nat.zero_le 1⟩
  | append_singleton as a ih =>
    rw [inOrder_concat_iff, forall_not_outOfPlace_iff, ih, List.forall_mem_append,
      List.forall_mem_singleton]
    by_cases hdash : isDashed a
    · rw [paths_concat_of_isDashed hdash, hdash]
      simp only [Bool.true_eq_false, false_and, or_false]
      exact and_right_comm
    · rw [Bool.not_eq_true] at hdash
      have hlength : (paths (as ++ [a])).length ≤ 1 ↔ paths as = [] := by
        rw [paths_concat hdash, List.length_append, List.length_singleton,
          ← List.length_eq_zero_iff]
        omega
      rw [hlength, hdash, isFlag_eq_false hdash]
      simp only [Bool.false_eq_true, false_or, or_true, true_and, and_true]
      constructor
      · rintro ⟨⟨hplaces, -⟩, hnone⟩
        exact ⟨hplaces, hnone⟩
      · rintro ⟨hplaces, hnone⟩
        exact ⟨⟨hplaces, by simp [hnone]⟩, hnone⟩

theorem Understood.inOrder (h : Understood traceFlags as p trace) : InOrder traceFlags as :=
  inOrder_iff.mpr ⟨h.places, Nat.le_of_eq (congrArg List.length h.path)⟩

theorem exists_first_or_inOrder (traceFlags : Bool) (as : List ByteString) :
    (∃ text, FirstOutOfPlace traceFlags as text) ∨ InOrder traceFlags as := by
  induction as using List.reverseRecOn with
  | nil => exact .inr inOrder_nil
  | append_singleton as a ih =>
    rcases ih with ⟨text, before, b, after, has, hbefore, hout⟩ | horder
    · refine .inl ⟨text, before, b, after ++ [a], ?_, hbefore, hout⟩
      rw [has, List.append_assoc, List.cons_append]
    · by_cases hout : ∃ text, OutOfPlace traceFlags as a text
      · obtain ⟨text, hout⟩ := hout
        exact .inl ⟨text, as, a, [], rfl, horder, hout⟩
      · exact .inr (inOrder_concat_iff.mpr ⟨horder, not_exists.mp hout⟩)

/-- **Arguments are read in one of three ways.** -/
theorem exists_reading (traceFlags : Bool) (as : List ByteString) :
    (∃ text, FirstOutOfPlace traceFlags as text) ∨ (InOrder traceFlags as ∧ paths as = []) ∨
      ∃ p trace, Understood traceFlags as p trace := by
  refine (exists_first_or_inOrder traceFlags as).imp_right fun horder => ?_
  obtain ⟨hplaces, hlength⟩ := inOrder_iff.mp horder
  cases hpaths : paths as with
  | nil => exact .inl ⟨horder, rfl⟩
  | cons p rest =>
    rw [hpaths, List.length_cons] at hlength
    obtain rfl : rest = [] := List.length_eq_zero_iff.mp (by omega)
    exact .inr ⟨p, as.any (isFlag traceFlags), hplaces, hpaths, List.any_eq_true⟩

/-! ### The scan -/

theorem scan_inOrder (h : InOrder traceFlags before) (rest : List ByteString) :
    scan traceFlags none false (before ++ rest) =
      scan traceFlags (paths before).head? (before.any (isFlag traceFlags)) rest := by
  induction before using List.reverseRecOn generalizing rest with
  | nil => rfl
  | append_singleton before a ih =>
    obtain ⟨horder, hplace⟩ := inOrder_concat_iff.mp h
    rw [List.append_assoc, ih horder, List.singleton_append, scan, List.any_append, List.any_cons,
      List.any_nil, Bool.or_false]
    rcases forall_not_outOfPlace_iff.mp hplace with hflag | ⟨hpath, hnone⟩
    · have hdash := isDashed_of_isTrace (isTrace_of_isFlag hflag)
      rw [kind_of_isFlag hflag, paths_concat_of_isDashed hdash, hflag, Bool.or_true]
    · rw [kind_of_isDashed_eq_false hpath, paths_concat hpath, isFlag_eq_false hpath, hnone,
        Bool.or_false]
      rfl

theorem scan_eq_scan_nil (h : InOrder traceFlags as) : scan traceFlags none false as =
    scan traceFlags (paths as).head? (as.any (isFlag traceFlags)) [] := by
  rw [← scan_inOrder h, List.append_nil]

theorem scan_of_understood (h : Understood traceFlags as p trace) :
    scan traceFlags none false as = .ok (p, trace) := by
  have htrace : trace = as.any (isFlag traceFlags) := by
    rw [Bool.eq_iff_iff, h.trace_iff, List.any_eq_true]
  rw [scan_eq_scan_nil h.inOrder, h.path, htrace]
  rfl

theorem scan_of_paths_eq_nil (h : InOrder traceFlags as) (hpaths : paths as = []) :
    scan traceFlags none false as = .error .missingPath := by
  rw [scan_eq_scan_nil h, hpaths]
  rfl

theorem exists_error_of_outOfPlace (h : OutOfPlace traceFlags before a text) (trace : Bool)
    (rest : List ByteString) :
    ∃ e, scan traceFlags (paths before).head? trace (a :: rest) = .error e ∧ e.message = text := by
  cases h with
  | help hhelp =>
    refine ⟨.usage, ?_, rfl⟩
    rw [scan, kind, if_pos hhelp]
  | unknown hdash hhelp hflag =>
    refine ⟨.unknownOption a, ?_, rfl⟩
    rw [isFlag] at hflag
    simp [scan, kind, hhelp, hflag, hdash]
  | second hpath hbefore =>
    refine ⟨.multiplePaths, ?_, rfl⟩
    rw [scan, kind_of_isDashed_eq_false hpath]
    exact if_pos (List.isSome_head?.mpr hbefore)

theorem exists_error_of_first (h : FirstOutOfPlace traceFlags as text) :
    ∃ e, scan traceFlags none false as = .error e ∧ e.message = text := by
  obtain ⟨before, a, after, rfl, hbefore, hout⟩ := h
  rw [scan_inOrder hbefore]
  exact exists_error_of_outOfPlace hout _ after

/-! ### The arguments of a command -/

/-- What is answered: a request, or the words that report the error. -/
def answered (r : Except UsageError Request) : Except (List Char) Request :=
  r.mapError UsageError.message

/-- **The law of the arguments of a command** that makes `request` of a path and a trace. -/
structure CommandLaw (traceFlags : Bool) (request : ByteString → Bool → Request)
    (as : List ByteString) (r : Except (List Char) Request) : Prop where
  accepts_iff : ∀ q, r = .ok q ↔ ∃ p trace, q = request p trace ∧ Understood traceFlags as p trace
  rejects_iff : ∀ text, r = .error text ↔ FirstOutOfPlace traceFlags as text ∨
    InOrder traceFlags as ∧ paths as = [] ∧ text = "missing program path".toList

/-- **Every command obeys its law.** -/
theorem commandLaw_scan (traceFlags : Bool) (request : ByteString → Bool → Request)
    (as : List ByteString) : CommandLaw traceFlags request as
      (answered ((scan traceFlags none false as).map fun found => request found.1 found.2)) := by
  generalize hr : answered _ = r
  -- one answer for each way in which the arguments are read
  have hrejected : ∀ text, FirstOutOfPlace traceFlags as text → r = .error text := by
    intro text hfirst
    obtain ⟨e, herror, rfl⟩ := exists_error_of_first hfirst
    rw [← hr, herror]
    rfl
  have hmissing : InOrder traceFlags as → paths as = [] →
      r = .error "missing program path".toList := by
    intro hin hpaths
    rw [← hr, scan_of_paths_eq_nil hin hpaths]
    rfl
  have haccepted : ∀ p trace, Understood traceFlags as p trace → r = .ok (request p trace) := by
    intro p trace h
    rw [← hr, scan_of_understood h]
    rfl
  refine ⟨fun q => ⟨fun hok => ?_, ?_⟩, fun text => ⟨fun herror => ?_, ?_⟩⟩
  · rcases exists_reading traceFlags as with ⟨text, hfirst⟩ | ⟨hin, hpaths⟩ | ⟨p, trace, h⟩
    · cases (hrejected text hfirst).symm.trans hok
    · cases (hmissing hin hpaths).symm.trans hok
    · exact ⟨p, trace, Except.ok.inj (hok.symm.trans (haccepted p trace h)), h⟩
  · rintro ⟨p, trace, rfl, h⟩
    exact haccepted p trace h
  · rcases exists_reading traceFlags as with ⟨first, hfirst⟩ | ⟨hin, hpaths⟩ | ⟨p, trace, h⟩
    · rw [Except.error.inj (herror.symm.trans (hrejected first hfirst))]
      exact .inl hfirst
    · exact .inr ⟨hin, hpaths, Except.error.inj (herror.symm.trans (hmissing hin hpaths))⟩
    · cases (haccepted p trace h).symm.trans herror
  · rintro (hfirst | ⟨hin, hpaths, rfl⟩)
    · exact hrejected text hfirst
    · exact hmissing hin hpaths

theorem CommandLaw.ne_help {request : ByteString → Bool → Request} {r : Except (List Char) Request}
    (h : CommandLaw traceFlags request as r) (hrequest : ∀ p trace, request p trace ≠ .help) :
    r ≠ .ok .help := by
  intro hr
  obtain ⟨p, trace, hq, -⟩ := (h.accepts_iff .help).mp hr
  exact hrequest p trace hq.symm

/-! ### Command lines -/

/-- The law of the arguments of a run. -/
abbrev RunLaw : List ByteString → Except (List Char) Request → Prop := CommandLaw true .run

/-- The law of the arguments of a listing, for which trace flags are unknown options. -/
abbrev ListingLaw : List ByteString → Except (List Char) Request → Prop :=
  CommandLaw false fun p _ => .disasm p

theorem runLaw_parseRun (as : List ByteString) : RunLaw as (answered (parseRun as)) :=
  commandLaw_scan true .run as

theorem listingLaw_parseDisasm (as : List ByteString) : ListingLaw as (answered (parseDisasm as)) :=
  commandLaw_scan false (fun p _ => .disasm p) as

/-- **The law of whole command lines**: the first argument decides what is made of the others. -/
structure LineLaw (answer : List ByteString → Except (List Char) Request) : Prop where
  help_iff : ∀ as, answer as = .ok .help ↔ ∃ a rest, as = a :: rest ∧ isHelp a
  run : ∀ as, RunLaw as (answer (word "run" :: as))
  disasm : ∀ as, ListingLaw as (answer (word "disasm" :: as))
  empty : answer [] = .error "missing command".toList
  unknown : ∀ a as, isDashed a → isHelp a = false →
    answer (a :: as) = .error ("unknown option: ".toList ++ Utf8.lossy a)
  path : ∀ a as, isDashed a = false → a ≠ word "run" → a ≠ word "disasm" →
    RunLaw (a :: as) (answer (a :: as))

theorem parse_of_isHelp (h : isHelp a) (as : List ByteString) : parse (a :: as) = .ok .help :=
  if_pos h

theorem parse_run_cons (as : List ByteString) : parse (word "run" :: as) = parseRun as := by
  rw [parse, if_neg (by decide), if_pos rfl]

theorem parse_disasm_cons (as : List ByteString) : parse (word "disasm" :: as) = parseDisasm as := by
  rw [parse, if_neg (by decide), if_neg (by decide), if_pos rfl]

theorem parse_of_isDashed (h : isDashed a) (hhelp : isHelp a = false) (as : List ByteString) :
    parse (a :: as) = .error (.unknownOption a) := by
  have hne : ∀ w, isDashed (word w) = false → a ≠ word w := by
    rintro w hw rfl
    rw [h] at hw
    cases hw
  rw [parse, hhelp, if_neg Bool.false_ne_true, if_neg (hne _ (by decide)),
    if_neg (hne _ (by decide)), if_pos h]

theorem parse_of_path (h : isDashed a = false) (hrun : a ≠ word "run") (hdisasm : a ≠ word "disasm")
    (as : List ByteString) : parse (a :: as) = parseRun (a :: as) := by
  rw [parse_eq_parse_run h hrun hdisasm, parse_run_cons]

theorem answered_parse_eq_help_iff (as : List ByteString) :
    answered (parse as) = .ok .help ↔ ∃ a rest, as = a :: rest ∧ isHelp a := by
  constructor
  · intro hr
    cases as with
    | nil => cases hr
    | cons a as =>
      refine ⟨a, as, rfl, ?_⟩
      by_contra hhelp
      rw [Bool.not_eq_true] at hhelp
      -- no other first argument leads to an answer of help
      by_cases hdash : isDashed a
      · rw [parse_of_isDashed hdash hhelp] at hr
        cases hr
      rw [Bool.not_eq_true] at hdash
      by_cases hrun : a = word "run"
      · rw [hrun, parse_run_cons] at hr
        exact (runLaw_parseRun as).ne_help (by simp) hr
      by_cases hdisasm : a = word "disasm"
      · rw [hdisasm, parse_disasm_cons] at hr
        exact (listingLaw_parseDisasm as).ne_help (by simp) hr
      · rw [parse_of_path hdash hrun hdisasm] at hr
        exact (runLaw_parseRun (a :: as)).ne_help (by simp) hr
  · rintro ⟨a, rest, rfl, hhelp⟩
    rw [parse_of_isHelp hhelp]
    rfl

theorem lineLaw_parse : LineLaw (fun as => answered (parse as)) where
  help_iff := answered_parse_eq_help_iff
  run as := by
    rw [parse_run_cons]
    exact runLaw_parseRun as
  disasm as := by
    rw [parse_disasm_cons]
    exact listingLaw_parseDisasm as
  empty := rfl
  unknown a as hdash hhelp := by
    rw [parse_of_isDashed hdash hhelp]
    rfl
  path a as hdash hrun hdisasm := by
    rw [parse_of_path hdash hrun hdisasm]
    exact runLaw_parseRun (a :: as)

/-- **The grammar of arguments.** The arguments of a run are understood exactly if they are trace
flags and one path, which is then the program, with a trace if there is a flag; otherwise the first
argument that is out of place is reported, or that there is no path. The same holds of a listing,
which has no flags. A command line is a wish for help, a command and its arguments, or the arguments
of a run that begin with their path. Whether an argument begins with a dash and whether it is a
command is a matter of its bytes, and the text that it is shown as says the same. -/
theorem argument_grammar :
    (∀ as, RunLaw as (answered (parseRun as))) ∧
    (∀ as, ListingLaw as (answered (parseDisasm as))) ∧
    LineLaw (fun as => answered (parse as)) ∧
    ∀ a, (isDashed a ↔ (Utf8.lossy a).head? = some '-') ∧
      ∀ w ∈ ["run", "disasm"], a = word w ↔ Utf8.lossy a = w.toList := by
  refine ⟨runLaw_parseRun, listingLaw_parseDisasm, lineLaw_parse, fun a => ?_⟩
  refine ⟨isDashed_iff_lossy, fun w hw => ?_⟩
  rw [List.mem_cons, List.mem_singleton] at hw
  rcases hw with rfl | rfl
  · exact eq_word_iff_lossy (by decide)
  · exact eq_word_iff_lossy (by decide)

/-- Flags around a path that is no text, a second path before a wish for help, a flag where there
are none, no path, and first arguments of either sort. -/
theorem argument_grammar_mixed :
    answered (parseRun [word "-t", [0x72, 0xFF], word "--trace"]) =
        .ok (.run [0x72, 0xFF] true) ∧
      answered (parseRun [word "a", word "-t", word "run", word "-h"]) =
        .error "multiple program paths provided".toList ∧
      answered (parseDisasm [word "a", word "-t"]) = .error "unknown option: -t".toList ∧
      answered (parse [word "run", word "-t"]) = .error "missing program path".toList ∧
      answered (parse [[0x2D, 0xFF], word "-h"]) = .error "unknown option: -\uFFFD".toList ∧
      answered (parse [[0xFF], word "-t"]) = .ok (.run [0xFF] true) ∧
      Utf8.lossy [0x2D, 0xFF] = ['-', '\uFFFD'] := by
  obtain ⟨hrun, hlisting, hline, hshown⟩ := argument_grammar
  have haccepted := (hrun [word "-t", [0x72, 0xFF], word "--trace"]).accepts_iff
  have hrejected := (hrun [word "a", word "-t", word "run", word "-h"]).rejects_iff
  have hlisted := (hlisting [word "a", word "-t"]).rejects_iff
  have hmissing := (hline.run [word "-t"]).rejects_iff
  have hunknown := hline.unknown [0x2D, 0xFF] [word "-h"] ((hshown _).1.mpr rfl) (by decide)
  have hpath := (hline.path [0xFF] [word "-t"] (by decide) (by decide) (by decide)).accepts_iff
  refine ⟨(haccepted _).mpr ⟨_, true, rfl, by decide, by decide, by decide⟩,
    (hrejected _).mpr (.inl ⟨[word "a", word "-t"], word "run", [word "-h"], rfl, ?_, ?_⟩),
    (hlisted _).mpr (.inl ⟨[word "a"], word "-t", [], rfl, ?_, ?_⟩),
    (hmissing _).mpr (.inr ⟨?_, by decide, rfl⟩), hunknown,
    (hpath _).mpr ⟨_, true, rfl, by decide, by decide, by decide⟩, rfl⟩
  · exact inOrder_iff.mpr (by decide)
  · exact .second (by decide) (by decide)
  · exact inOrder_iff.mpr (by decide)
  · exact .unknown (by decide) (by decide) (by decide)
  · exact inOrder_iff.mpr (by decide)

end LS8.CommandLine
