import LS8.Proofs.CommandLine.Arguments
import LS8.Proofs.CommandLine.Outcomes

/-! # The command line: runs with a trace

A trace flag adds the trace to what a run writes to standard error, in front of everything else, and
changes nothing more, wherever the flags stand and whatever standard output does. The command `run`
itself can be left out.

* `runOutcome_trace`, `outcomeOf_trace`: a trace comes in front of standard error.
* `run_with_flags`: runs with flags and without, and runs without the command. -/

namespace LS8.CommandLine

open LS8.Text

variable {files : Image.Files} {out : StandardOutput} {path : ByteString} {image : List UInt8}
  {trace : Bool} {es : List TraceEvent}

/-- The outcome with more bytes in front of its standard error. -/
def Outcome.behind (front : ByteString) (o : Outcome) : Outcome :=
  { o with stderr := front ++ o.stderr }

/-- **A trace comes in front of standard error** and changes nothing else. -/
theorem runOutcome_trace (result : RunOutcome) (out : StandardOutput) (front : ByteString) :
    runOutcome result out front = (runOutcome result out []).behind front := by
  unfold runOutcome
  split
  · rfl
  · cases result with
    | halted steps => simp [Outcome.behind]
    | fault cause => rfl

theorem outcomeOf_trace (image : List UInt8) (trace : Bool) (out : StandardOutput) (n : ℕ) :
    outcomeOf image trace out n = (outcomeOf image false out n).behind
      (traceBytes trace ((started image out).eventsUntil (n + 1))) :=
  runOutcome_trace _ _ _

/-! ### The events of a run -/

/-- What is reported while the program at `path` runs: what a recorder has heard when the machine
has stopped, and nothing if the program cannot be loaded. -/
def Reports (files : Image.Files) (out : StandardOutput) (path : ByteString)
    (es : List TraceEvent) : Prop :=
  match Image.load files path with
  | .error _ => es = []
  | .ok image => ∃ result t,
    Session.RunsTo ⟨loaded image, out, ({} : Recorder)⟩ result t ∧ es = t.sink.events.toList

theorem reports_iff_of_load (h : Image.load files path = .ok image) :
    Reports files out path es ↔
      ∃ n, (started image out).StopsAt n ∧ es = (started image out).eventsUntil (n + 1) := by
  have hheard : ∀ n, ((started image out).withSink ({} : Recorder)).StopsAt n →
      ∀ result t, ((started image out).withSink ({} : Recorder)).RunsTo result t ↔
        result = .ofLast (n + 1) ((started image out).after n).step.1 ∧
          t = ((started image out).after (n + 1)).withSink
            (((started image out).eventsUntil (n + 1)).foldl TraceSink.record {}) := by
    intro n hn result t
    rw [Session.runsTo_iff_of_running (running_loaded image) hn, Session.after_withSink,
      Session.after_withSink, Session.step_withSink]
  have hevents := fun es => Recorder.toList_foldl_record es {}
  unfold Reports
  simp only [h]
  constructor
  · rintro ⟨result, t, ht, rfl⟩
    obtain ⟨n, hn⟩ := Session.exists_runsTo_iff.mp ⟨result, t, ht⟩
    obtain ⟨-, rfl⟩ := (hheard n hn result t).mp ht
    exact ⟨n, (Session.stopsAt_withSink _).mp hn, hevents _⟩
  · rintro ⟨n, hn, rfl⟩
    have hn' := (Session.stopsAt_withSink ({} : Recorder)).mpr hn
    exact ⟨_, _, (hheard n hn' _ _).mpr ⟨rfl, rfl⟩, (hevents _).symm⟩

/-! ### Flags -/

theorem traceBytes_nil (trace : Bool) : traceBytes trace [] = [] := by
  cases trace <;> rfl

theorem ends_iff_plain_of_loadError {arguments arguments' : List ByteString} {e : Image.LoadError}
    (h : Names arguments path) (h' : Names arguments' path)
    (he : Image.load files path = .error e) (trace : Bool) {traced : Outcome} :
    Ends files out arguments traced ↔
      ∃ plain es, Ends files out arguments' plain ∧ Reports files out path es ∧
        traced = plain.behind (traceBytes trace es) := by
  rw [ends_iff_of_done (launch_of_loadError h he)]
  simp only [ends_iff_of_done (launch_of_loadError h' he), Reports, he]
  constructor
  · rintro rfl
    refine ⟨_, [], rfl, rfl, ?_⟩
    rw [traceBytes_nil]
    rfl
  · rintro ⟨plain, es, rfl, rfl, rfl⟩
    rw [traceBytes_nil]
    rfl

theorem ends_iff_plain_of_runs {arguments arguments' : List ByteString}
    (h : Runs files arguments image trace) (h' : Runs files arguments' image false)
    (hload : Image.load files path = .ok image) {traced : Outcome} :
    Ends files out arguments traced ↔
      ∃ plain es, Ends files out arguments' plain ∧ Reports files out path es ∧
        traced = plain.behind (traceBytes trace es) := by
  rw [ends_iff_of_runs h]
  simp only [ends_iff_of_runs h', reports_iff_of_load hload]
  constructor
  · rintro ⟨n, hn, rfl⟩
    exact ⟨_, _, ⟨n, hn, rfl⟩, ⟨n, hn, rfl⟩, outcomeOf_trace image trace out n⟩
  · rintro ⟨plain, es, ⟨n, hn, rfl⟩, ⟨m, hm, rfl⟩, rfl⟩
    rw [hn.eq hm]
    exact ⟨m, hm, (outcomeOf_trace image trace out m).symm⟩

/-- **Runs with flags and without.** A run with trace flags, wherever they stand, ends if and only
if the run without ends, with the same exit code and the same standard output, and on standard error
the lines of the events of the run come first, if there is a flag. Before a path that is not a
command the command `run` makes no difference. -/
theorem run_with_flags (files : Image.Files) (out : StandardOutput) {p : ByteString}
    (hp : isDashed p = false) {before after : List ByteString}
    (hbefore : ∀ a ∈ before, isTrace a) (hafter : ∀ a ∈ after, isTrace a) :
    (∀ traced, Ends files out (word "run" :: (before ++ p :: after)) traced ↔
      ∃ plain es, Ends files out [word "run", p] plain ∧ Reports files out p es ∧
        traced = plain.behind (traceBytes (!(before ++ after).isEmpty) es)) ∧
    (p ≠ word "run" → p ≠ word "disasm" → ∀ fuel,
      invoke fuel files out (p :: (before ++ after)) =
        invoke fuel files out (word "run" :: p :: (before ++ after))) := by
  refine ⟨fun traced => ?_, fun hrun hdisasm fuel => ?_⟩
  · have hparse := parse_run hp hbefore hafter
    have hplain : parse (word "run" :: ([] ++ p :: [])) = .ok (.run p false) :=
      parse_run hp (List.forall_mem_nil _) (List.forall_mem_nil _)
    cases hload : Image.load files p with
    | error e => exact ends_iff_plain_of_loadError (.inl ⟨_, hparse⟩) (.inl ⟨_, hplain⟩) hload _
    | ok image => exact ends_iff_plain_of_runs ⟨p, hparse, hload⟩ ⟨p, hplain, hload⟩ hload
  · have hparse := parse_eq_parse_run hp hrun hdisasm (before ++ after)
    rw [invoke, invoke, launch, launch, hparse]

/-- A run that faults over its first line, with a trace: what the run without writes comes last. -/
theorem run_with_flags_printAndFault :
    let files := oneFile "p" printAndFault
    let lines := ["TRACE: 00 | 82 00 08 | 00 00 00 00 00 00 00 F4 | LDI R0,8\n",
      "TRACE: 03 | 47 00 00 | 08 00 00 00 00 00 00 F4 | PRN R0\n",
      "TRACE: 03 | fault: output write failed\n",
      "error: failed to flush output: No space left on device (os error 28)\n"]
    isDashed (word "p") = false ∧ (∀ a ∈ [word "-t"], isTrace a) ∧
      (∀ a ∈ [word "--trace"], isTrace a) ∧
      (∃ plain es, Ends files refusing [word "run", word "p"] plain ∧
        Reports files refusing (word "p") es ∧
        plain.behind (Utf8.encode (traceText es)) = ⟨3, [], lines.flatMap word⟩) ∧
      invoke 3 files refusing [word "p", word "-t", word "--trace"] =
        invoke 3 files refusing [word "run", word "p", word "-t", word "--trace"] := by
  intro files lines
  have hp : isDashed (word "p") = false := by decide
  have hbefore : ∀ a ∈ [word "-t"], isTrace a := by decide
  have hafter : ∀ a ∈ [word "--trace"], isTrace a := by decide
  obtain ⟨hflags, hshort⟩ := run_with_flags files refusing hp hbefore hafter
  have htraced : Ends files refusing [word "run", word "-t", word "p", word "--trace"]
      ⟨3, [], lines.flatMap word⟩ := ⟨3, by decide +kernel⟩
  obtain ⟨plain, es, hplain, hes, heq⟩ := (hflags _).mp htraced
  exact ⟨hp, hbefore, hafter, ⟨plain, es, hplain, hes, heq.symm⟩,
    hshort (by decide) (by decide) 3⟩

end LS8.CommandLine
