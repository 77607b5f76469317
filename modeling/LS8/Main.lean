import LS8.CommandLine.Invocation

/-! # The program

The command line program. All it decides is decided by `CommandLine.launch`, `Session.run` and
`CommandLine.runOutcome`; here files are read and streams are written. A run is carried out in
slices, so that what it prints can be seen while it goes on. -/

namespace LS8.Program

open LS8.CommandLine LS8.Text

/-- The cause of a failure to read. Some causes come as one error and are told apart by its number:
21 is that of a directory, -36 that of a name too long, -40 that of a circle of links. -/
def readErrorOf : IO.Error → Image.ReadError
  | .noFileOrDirectory .. => .notFound
  | .permissionDenied .. => .permissionDenied
  | .inappropriateType _ number _ => if number = 21 then .isDirectory else .notDirectory
  | .invalidArgument _ number _ =>
    if number = -36 then .nameTooLong else if number = -40 then .circle else .zeroByte
  | _ => .uncategorized

/-- What reading the file at `path` gives. Files are opened by texts, so behind a name that is not
UTF-8 there is nothing. -/
def readPath (path : ByteString) : IO (Except Image.ReadError ByteString) := do
  try
    let content ← IO.FS.readBinFile (String.ofList (Utf8.lossy path))
    return if (Utf8.decode? path).isSome then .ok content.toList else .error .notFound
  catch e => return .error (readErrorOf e)

/-- The arguments as they were given. The texts that a program receives have lost what is not UTF-8,
but the system keeps a record of the bytes: a zero byte ends each argument, and the arguments are
the last in it. Without such a record the texts have to do. -/
def givenArguments (arguments : List String) : IO (List ByteString) := do
  let record ← try IO.FS.readBinFile "/proc/self/cmdline" catch _ => pure .empty
  let recorded := (record.toList.splitOn 0).dropLast
  let given := recorded.drop (recorded.length - arguments.length)
  return if given.length = arguments.length then given else arguments.map word

/-- The files that a request needs. -/
def filesFor : Except UsageError Request → IO Image.Files
  | .ok (.run program _) | .ok (.disasm program) => do
    let content ← readPath program
    return fun _ => content
  | _ => return fun _ => .error .notFound

/-- Whether a stream took all the bytes. -/
def send (stream : IO.FS.Stream) (bytes : Array UInt8) : IO Bool := do
  try
    stream.write ⟨bytes⟩
    stream.flush
    return true
  catch _ => return false

/-- The exit code of an outcome, after its streams have been written; `refused` is the outcome if
standard output takes nothing. -/
def finish (outcome refused : Outcome) : IO UInt32 := do
  let taken ← send (← IO.getStdout) outcome.stdout.toArray
  let outcome := if taken then outcome else refused
  let _ ← send (← IO.getStderr) outcome.stderr.toArray
  return outcome.exitCode.toUInt32

/-- The outcome of a session, run in slices. A slice whose output is not taken is run again over an
output that takes nothing. `drain` takes from the sink what it has to write. -/
partial def runSlices {τ : Type} [TraceSink τ] (drain : τ → Array UInt8 × τ)
    (s : Session StandardOutput τ) : IO Outcome := do
  let attempt := s.run 4096
  let taken ← send (← IO.getStdout) attempt.2.port.written
  let (result?, next) :=
    if taken then attempt else Session.run 4096 { s with port := { accepts := false } }
  let (trace, sink) := drain next.sink
  let _ ← send (← IO.getStderr) trace
  let port := { next.port with written := #[] }
  match result? with
  | some result => return runOutcome result port []
  | none => runSlices drain ⟨next.machine, port, sink⟩

/-- The outcome of running a machine, with a trace or without. -/
def runMachine (machine : Machine) (trace : Bool) : IO Outcome :=
  if trace then
    runSlices (fun sink => (sink.writer.written, { writer := {} }))
      ⟨machine, {}, ({ writer := {} } : TextTrace)⟩
  else runSlices (fun sink => (#[], sink)) ⟨machine, {}, NoTrace.mk⟩

end LS8.Program

/-- Runs the program on its arguments and gives its exit code. -/
def main (arguments : List String) : IO UInt32 := do
  let arguments ← LS8.Program.givenArguments arguments
  let files ← LS8.Program.filesFor (LS8.CommandLine.parse arguments)
  match LS8.CommandLine.launch files {} arguments with
  | .ready machine trace =>
    let outcome ← LS8.Program.runMachine machine trace
    LS8.Program.finish outcome outcome
  | .done outcome =>
    match LS8.CommandLine.launch files { accepts := false } arguments with
    | .done refused => LS8.Program.finish outcome refused
    | .ready _ _ => LS8.Program.finish outcome outcome
