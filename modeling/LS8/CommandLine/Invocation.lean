import LS8.CommandLine.Usage
import LS8.Image.Load
import LS8.Listing
import LS8.Session
import LS8.Trace.Text

/-! # The command line: invocations

An invocation reads its arguments, loads a program and runs or lists it. It ends with an exit code:
0 for success, 1 for arguments that ask for nothing, 2 for a program that cannot be loaded, 3 for a
run that faults or for output that cannot be written. `invoke` is the whole of it as a function of
the arguments, the files and standard output; only a run can go on for ever, so `fuel` bounds the
steps of that. -/

namespace LS8.CommandLine

open LS8.Text

/-! ### Standard output -/

/-- Standard output over a device that takes either every line or none. A line that the device does
not take is stuck, and flushing fails from then on. -/
structure StandardOutput where
  /-- Whether the device takes lines. -/
  accepts : Bool := true
  /-- The bytes that the device took. -/
  written : Array UInt8 := #[]
  /-- Whether a line is stuck. -/
  stuck : Bool := false

namespace StandardOutput

/-- Whether a line could be written, and the output afterwards. -/
def writeLine (out : StandardOutput) (line : List Char) : Bool × StandardOutput :=
  if out.accepts then
    (true, { out with written := out.written ++ Utf8.encode (line ++ ['\n']) })
  else (false, { out with stuck := true })

/-- Whether all lines could be written, and the output afterwards; the first line that is stuck is
the last one tried. -/
def writeLines (out : StandardOutput) : List (List Char) → Bool × StandardOutput
  | [] => (true, out)
  | line :: lines =>
    match out.writeLine line with
    | (true, out) => out.writeLines lines
    | (false, out) => (false, out)

instance : OutputPort StandardOutput :=
  ⟨fun out v => out.writeLine (Numeral.decimal v.toNat)⟩

end StandardOutput

/-- What the device says when it takes nothing. -/
def deviceFull : List Char := "No space left on device (os error 28)".toList

/-! ### Outcomes -/

/-- What an invocation leaves behind. -/
structure Outcome where
  exitCode : UInt8
  stdout : ByteString
  stderr : ByteString
deriving DecidableEq

/-- The exit code of success. -/
def exitSuccess : UInt8 := 0

/-- The exit code of arguments that ask for nothing. -/
def exitUsage : UInt8 := 1

/-- The exit code of a program that cannot be loaded. -/
def exitLoad : UInt8 := 2

/-- The exit code of a run that faults and of output that cannot be written. -/
def exitFault : UInt8 := 3

/-- The exit code when not even the usage text can be written. -/
def exitAbort : UInt8 := 101

/-- The line on standard error that reports an error. -/
def errorLine (message : List Char) : ByteString :=
  Utf8.encode ("error: ".toList ++ message ++ ['\n'])

/-- The outcome that reports an error after `out` and the bytes `before` on standard error. -/
def failure (exitCode : UInt8) (out : StandardOutput) (before : ByteString) (message : List Char) :
    Outcome where
  exitCode := exitCode
  stdout := out.written.toList
  stderr := before ++ errorLine message

/-- The outcome of showing the usage text. -/
def showUsage (exitCode : UInt8) (out : StandardOutput) : Outcome :=
  match out.writeLine usage with
  | (true, out) => ⟨exitCode, out.written.toList, []⟩
  | (false, out) =>
    ⟨exitAbort, out.written.toList,
      Utf8.encode ("failed printing to stdout: ".toList ++ deviceFull ++ ['\n'])⟩

/-- The outcome of arguments that ask for nothing. -/
def usageFailure (out : StandardOutput) : UsageError → Outcome
  | .usage => showUsage exitUsage out
  | e =>
    ⟨exitUsage, out.written.toList, errorLine e.message ++ Utf8.encode (usage ++ ['\n'])⟩

/-- The outcome of a run that has ended, with the bytes of its trace. What is stuck in standard
output is reported before a fault is. -/
def runOutcome (result : RunOutcome) (out : StandardOutput) (trace : ByteString) : Outcome :=
  if out.stuck then
    failure exitFault out trace ("failed to flush output: ".toList ++ deviceFull)
  else
    match result with
    | .halted _ => ⟨exitSuccess, out.written.toList, trace⟩
    | .fault cause => failure exitFault out trace cause.message

/-! ### Commands -/

/-- What an invocation comes to before any instruction is carried out. -/
inductive Launch where
  /-- It is over. -/
  | done (outcome : Outcome)
  /-- A machine is ready to run, with a trace or without. -/
  | ready (machine : Machine) (trace : Bool)
deriving DecidableEq

/-- The launch of running an image. -/
def launchRun (image : List UInt8) (trace : Bool) (out : StandardOutput) : Launch :=
  match Machine.new.loadProgram image with
  | (_, .error cause) => .done (failure exitLoad out [] cause.message)
  | (machine, .ok ()) => .ready machine trace

/-- The outcome of listing an image. -/
def disasm (image : List UInt8) (out : StandardOutput) : Outcome :=
  match out.writeLines ((listing image).map Row.line) with
  | (true, out) => ⟨exitSuccess, out.written.toList, []⟩
  | (false, out) => failure exitFault out [] ("failed to write listing: ".toList ++ deviceFull)

/-- The launch of an invocation with the given arguments. -/
def launch (files : Image.Files) (out : StandardOutput) (arguments : List ByteString) : Launch :=
  match parse arguments with
  | .error e => .done (usageFailure out e)
  | .ok .help => .done (showUsage exitSuccess out)
  | .ok (.run program trace) =>
    match Image.load files program with
    | .error e => .done (failure exitLoad out [] e.message)
    | .ok image => launchRun image trace out
  | .ok (.disasm program) =>
    match Image.load files program with
    | .error e => .done (failure exitLoad out [] e.message)
    | .ok image => .done (disasm image out)

/-- The outcome of running a machine; nothing if `fuel` steps do not stop it. -/
def runMachine (fuel : Nat) (machine : Machine) (trace : Bool) (out : StandardOutput) :
    Option Outcome :=
  if trace then
    let (result?, s) := Session.run fuel ⟨machine, out, ({ writer := {} } : TextTrace)⟩
    result?.map fun result => runOutcome result s.port s.sink.writer.bytes
  else
    let (result?, s) := Session.run fuel ⟨machine, out, NoTrace.mk⟩
    result?.map fun result => runOutcome result s.port []

/-- The outcome of an invocation; nothing if its run does not stop within `fuel` steps. -/
def invoke (fuel : Nat) (files : Image.Files) (out : StandardOutput) (arguments : List ByteString) :
    Option Outcome :=
  match launch files out arguments with
  | .done outcome => some outcome
  | .ready machine trace => runMachine fuel machine trace out

end LS8.CommandLine
