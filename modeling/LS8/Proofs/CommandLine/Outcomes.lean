import LS8.Proofs.CommandLine.Output
import LS8.Proofs.Machine.Loading
import LS8.Proofs.Trace.Reading

/-! # The command line: outcomes

An invocation is over before any instruction is carried out, or it is a run. A run is given fuel,
but its outcome does not depend on the fuel as long as there is enough of it, so it can be spoken of
without (`Ends`). An invocation goes one of five ways (`Way`), and all else is read off there.

* `loadProgram_of_load`: an image that could be loaded from its file fits into memory.
* `ends_iff_of_done`, `ends_iff_of_runs`: the outcome of an invocation that is over at once, and of
  a run, whose steps, output and events are those of the machine with nobody listening.
* `exists_ends_iff`, `Ends.eq`: an invocation ends if and only if its run stops, in one outcome. -/

namespace LS8.CommandLine

open LS8.Text

variable {files : Image.Files} {out : StandardOutput} {arguments : List ByteString}
  {path : ByteString} {image : List UInt8} {trace : Bool} {o o' : Outcome}

/-- The invocation, given enough fuel, has the outcome `o`. -/
def Ends (files : Image.Files) (out : StandardOutput) (arguments : List ByteString) (o : Outcome) :
    Prop :=
  ∃ fuel, invoke fuel files out arguments = some o

theorem ends_iff_of_done (h : launch files out arguments = .done o) :
    Ends files out arguments o' ↔ o' = o := by
  have hinvoke : ∀ fuel, invoke fuel files out arguments = some o := fun fuel => by
    rw [invoke, h]
  constructor
  · rintro ⟨fuel, ho⟩
    rw [hinvoke] at ho
    exact (Option.some.inj ho).symm
  · rintro rfl
    exact ⟨0, hinvoke 0⟩

/-- A standard output that takes every line. -/
def accepting : StandardOutput := {}

/-- A standard output that takes no line. -/
def refusing : StandardOutput := { accepts := false }

/-- Files of which one is there. -/
def oneFile (path content : String) : Image.Files := fun p =>
  if p = word path then .ok (word content) else .error .notFound

/-- `LDI R0,8; PRN R0` and no HLT. -/
def printAndFault : String := "10000010\n00000000\n00001000\n01000111\n00000000\n"

/-! ### Requests -/

/-- The arguments ask for a run or a listing of the program at `path`. -/
def Names (arguments : List ByteString) (path : ByteString) : Prop :=
  (∃ trace, parse arguments = .ok (.run path trace)) ∨ parse arguments = .ok (.disasm path)

/-- The arguments ask for a run of a program that can be loaded, and it is `image`. -/
def Runs (files : Image.Files) (arguments : List ByteString) (image : List UInt8) (trace : Bool) :
    Prop :=
  ∃ path, parse arguments = .ok (.run path trace) ∧ Image.load files path = .ok image

/-- The arguments ask for a listing of a program that can be loaded, and it is `image`. -/
def Lists (files : Image.Files) (arguments : List ByteString) (image : List UInt8) : Prop :=
  ∃ path, parse arguments = .ok (.disasm path) ∧ Image.load files path = .ok image

theorem Runs.unique {image' : List UInt8} {trace' : Bool} (h : Runs files arguments image trace)
    (h' : Runs files arguments image' trace') : image' = image ∧ trace' = trace := by
  obtain ⟨path, hparse, hload⟩ := h
  obtain ⟨path', hparse', hload'⟩ := h'
  rw [hparse] at hparse'
  cases hparse'
  rw [hload] at hload'
  cases hload'
  exact ⟨rfl, rfl⟩

theorem Names.unique {path' : ByteString} (h : Names arguments path)
    (h' : Names arguments path') : path' = path := by
  rcases h with ⟨trace, h⟩ | h
  all_goals
    rcases h' with ⟨trace', h'⟩ | h'
    all_goals
      rw [h] at h'
      cases h'
  · rfl
  · rfl

theorem Runs.names (h : Runs files arguments image trace) :
    ∃ path, Names arguments path ∧ Image.load files path = .ok image := by
  obtain ⟨path, hparse, hload⟩ := h
  exact ⟨path, .inl ⟨trace, hparse⟩, hload⟩

theorem Names.ne_error (h : Names arguments path) (e : UsageError) :
    parse arguments ≠ .error e := by
  rcases h with ⟨trace, h⟩ | h
  all_goals
    rw [h]
    simp

theorem Names.not_loadError (h : Names arguments path) (hload : Image.load files path = .ok image) :
    ¬ ∃ path' e, Names arguments path' ∧ Image.load files path' = .error e := by
  rintro ⟨path', e, h', he⟩
  rw [h.unique h', hload] at he
  cases he

/-- The ways in which an invocation can go. -/
inductive Way (files : Image.Files) (arguments : List ByteString) : Prop
  | usageError {e : UsageError} (h : parse arguments = .error e)
  | help (h : parse arguments = .ok .help)
  | loadError {path : ByteString} {e : Image.LoadError} (h : Names arguments path)
    (he : Image.load files path = .error e)
  | disasm {image : List UInt8} (h : Lists files arguments image)
  | run {image : List UInt8} {trace : Bool} (h : Runs files arguments image trace)

theorem way (files : Image.Files) (arguments : List ByteString) : Way files arguments := by
  cases h : parse arguments with
  | error e => exact .usageError h
  | ok request =>
    cases request with
    | help => exact .help h
    | run path trace =>
      cases hload : Image.load files path with
      | error e => exact .loadError (.inl ⟨trace, h⟩) hload
      | ok image => exact .run ⟨path, h, hload⟩
    | disasm path =>
      cases hload : Image.load files path with
      | error e => exact .loadError (.inr h) hload
      | ok image => exact .disasm ⟨path, h, hload⟩

theorem launch_of_usageError {e : UsageError} (h : parse arguments = .error e) :
    launch files out arguments = .done (usageFailure out e) := by
  rw [launch, h]

theorem launch_of_help (h : parse arguments = .ok .help) :
    launch files out arguments = .done (showUsage exitSuccess out) := by
  rw [launch, h]

theorem launch_of_loadError {e : Image.LoadError} (h : Names arguments path)
    (he : Image.load files path = .error e) :
    launch files out arguments = .done (failure exitLoad out [] e.message) := by
  rcases h with ⟨trace, h⟩ | h
  · rw [launch, h]
    simp only [he]
  · rw [launch, h]
    simp only [he]

theorem launch_of_lists (h : Lists files arguments image) :
    launch files out arguments = .done (disasm image out) := by
  obtain ⟨path, h, hload⟩ := h
  rw [launch, h]
  simp only [hload]

/-! ### Runs -/

/-- A machine that is not configured otherwise, loaded with an image. -/
def loaded (image : List UInt8) : Machine := (Machine.new.loadProgram image).1

theorem running_loaded (image : List UInt8) : (loaded image).runState = .running :=
  Machine.new.runState_loadFrom 0 image

theorem length_le_of_load (h : Image.load files path = .ok image) : image.length ≤ 256 := by
  unfold Image.load at h
  split at h
  · cases h
  · split at h
    · cases h
    · split at h
      · cases h
      · next hparse =>
        obtain rfl := Except.ok.inj h
        exact Image.length_le_of_parse hparse

/-- **An image that could be loaded from its file fits into memory.** -/
theorem loadProgram_of_load (h : Image.load files path = .ok image) :
    Machine.new.loadProgram image = (loaded image, .ok ()) := by
  have hload : (Machine.new.loadProgram image).2 = .ok () := by
    rw [Machine.result_loadProgram, if_pos (length_le_of_load h)]
  exact Prod.ext rfl hload

theorem launch_of_runs (h : Runs files arguments image trace) :
    launch files out arguments = .ready (loaded image) trace := by
  obtain ⟨path, h, hload⟩ := h
  rw [launch, h]
  simp only [hload, launchRun, loadProgram_of_load hload]

/-- The session in which an image is run, with nobody listening. -/
def started (image : List UInt8) (out : StandardOutput) : Session StandardOutput NoTrace :=
  ⟨loaded image, out, NoTrace.mk⟩

/-- The bytes of a trace, if there is to be one. -/
def traceBytes (trace : Bool) (es : List TraceEvent) : ByteString :=
  if trace then Utf8.encode (traceText es) else []

/-- What is left behind by the run of an image that step `n` stops. -/
def outcomeOf (image : List UInt8) (trace : Bool) (out : StandardOutput) (n : ℕ) : Outcome :=
  let s := started image out
  runOutcome (.ofLast (n + 1) (s.after n).step.1) (s.after (n + 1)).port
    (traceBytes trace (s.eventsUntil (n + 1)))

theorem ends_iff_of_runs (h : Runs files arguments image trace) :
    Ends files out arguments o ↔
      ∃ n, (started image out).StopsAt n ∧ o = outcomeOf image trace out n := by
  have hs : (started image out).machine.runState = .running := running_loaded image
  unfold Ends
  simp only [invoke, launch_of_runs h]
  cases trace with
  | false => exact Session.exists_map_run_iff hs (fun result t => runOutcome result t.port []) o
  | true =>
    -- the text trace writes down the events of the run with nobody listening
    have hrun := Session.exists_map_run_iff (s := (started image out).withSink { writer := {} }) hs
      (fun result t => runOutcome result t.port (TextTrace.writer t.sink).bytes) o
    have hbytes := TextTrace.unlimited_empty.bytes_foldl_record
    refine hrun.trans (exists_congr fun n => ?_)
    rw [Session.stopsAt_withSink, Session.after_withSink, Session.after_withSink,
      Session.step_withSink]
    change _ ∧ o = runOutcome _ _ (List.foldl _ _ _ : TextTrace).writer.bytes ↔ _
    rw [hbytes]
    rfl

/-! ### Invocations that end -/

theorem exists_launch_done (h : ∀ image trace, ¬ Runs files arguments image trace)
    (out : StandardOutput) : ∃ o, launch files out arguments = .done o := by
  cases way files arguments with
  | usageError h => exact ⟨_, launch_of_usageError h⟩
  | help h => exact ⟨_, launch_of_help h⟩
  | loadError h he => exact ⟨_, launch_of_loadError h he⟩
  | disasm h => exact ⟨_, launch_of_lists h⟩
  | run hruns => exact absurd hruns (h _ _)

theorem Ends.eq (ho : Ends files out arguments o) (ho' : Ends files out arguments o') : o = o' := by
  by_cases h : ∃ image trace, Runs files arguments image trace
  case pos =>
    obtain ⟨image, trace, h⟩ := h
    obtain ⟨n, hn, rfl⟩ := (ends_iff_of_runs h).mp ho
    obtain ⟨m, hm, rfl⟩ := (ends_iff_of_runs h).mp ho'
    rw [hn.eq hm]
  case neg =>
    obtain ⟨d, hd⟩ := exists_launch_done (fun image trace hruns => h ⟨image, trace, hruns⟩) out
    rw [(ends_iff_of_done hd).mp ho, (ends_iff_of_done hd).mp ho']

/-- **An invocation ends if and only if its run stops.** -/
theorem exists_ends_iff :
    (∃ o, Ends files out arguments o) ↔ ∀ image trace, Runs files arguments image trace →
      ∃ result t, (started image out).RunsTo result t := by
  constructor
  · rintro ⟨o, ho⟩ image trace h
    obtain ⟨n, hn, -⟩ := (ends_iff_of_runs h).mp ho
    exact Session.exists_runsTo_iff.mpr ⟨n, hn⟩
  · intro hstops
    by_cases h : ∃ image trace, Runs files arguments image trace
    case pos =>
      obtain ⟨image, trace, h⟩ := h
      obtain ⟨n, hn⟩ := Session.exists_runsTo_iff.mp (hstops image trace h)
      exact ⟨_, (ends_iff_of_runs h).mpr ⟨n, hn, rfl⟩⟩
    case neg =>
      obtain ⟨d, hd⟩ := exists_launch_done (fun image trace hruns => h ⟨image, trace, hruns⟩) out
      exact ⟨d, (ends_iff_of_done hd).mpr rfl⟩

end LS8.CommandLine
