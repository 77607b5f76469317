import LS8.Text.Utf8

/-! # The command line: arguments

Arguments are byte strings. The first may ask for help or name a command; the rest of a command are
flags in any order and exactly one path. An argument that begins with a dash is never a path, and
the first argument that is out of place decides the error. -/

namespace LS8.CommandLine

open LS8.Text

/-- What a command line asks for. -/
inductive Request where
  /-- Show the usage text. -/
  | help
  /-- Run the program at a path, with a trace or without. -/
  | run (program : ByteString) (trace : Bool)
  /-- Print a listing of the program at a path. -/
  | disasm (program : ByteString)
deriving DecidableEq

/-- Why a command line asks for nothing that can be done. -/
inductive UsageError where
  /-- There is no argument. -/
  | missingCommand
  /-- Help is asked for after a command. -/
  | usage
  /-- An argument begins with a dash and is no flag. -/
  | unknownOption (argument : ByteString)
  /-- There is a second path. -/
  | multiplePaths
  /-- There is no path. -/
  | missingPath
deriving DecidableEq

/-! ### Single arguments -/

/-- An argument spelled out. -/
def word (s : String) : ByteString := Utf8.encode s.toList

/-- What an argument of a command is. -/
inductive ArgumentKind where
  /-- A wish for help. -/
  | help
  /-- A trace flag. -/
  | trace
  /-- Another word that begins with a dash. -/
  | unknown
  /-- A path. -/
  | path
deriving DecidableEq

/-- Whether an argument asks for help. -/
def isHelp (a : ByteString) : Bool := a = word "--help" || a = word "-h"

/-- Whether an argument asks for a trace. -/
def isTrace (a : ByteString) : Bool := a = word "--trace" || a = word "-t"

/-- Whether an argument begins with a dash. -/
def isDashed (a : ByteString) : Bool := a.head? = some 0x2D

/-- What an argument is for a command that has trace flags or has none. -/
def kind (traceFlags : Bool) (a : ByteString) : ArgumentKind :=
  if isHelp a then .help
  else if traceFlags && isTrace a then .trace
  else if isDashed a then .unknown
  else .path

/-! ### Lists of arguments -/

/-- The path and the trace flag among the arguments of a command, after the path and the trace flag
found before. -/
def scan (traceFlags : Bool) (path? : Option ByteString) (trace : Bool) :
    List ByteString → Except UsageError (ByteString × Bool)
  | [] =>
    match path? with
    | some path => .ok (path, trace)
    | none => .error .missingPath
  | a :: as =>
    match kind traceFlags a with
    | .help => .error .usage
    | .trace => scan traceFlags path? true as
    | .unknown => .error (.unknownOption a)
    | .path => if path?.isSome then .error .multiplePaths else scan traceFlags (some a) trace as

/-- The request of the arguments of `run`. -/
def parseRun (as : List ByteString) : Except UsageError Request :=
  (scan true none false as).map fun found => .run found.1 found.2

/-- The request of the arguments of `disasm`. -/
def parseDisasm (as : List ByteString) : Except UsageError Request :=
  (scan false none false as).map fun found => .disasm found.1

/-- The request of a command line. A first argument that is no command is the path of a program to
run. -/
def parse : List ByteString → Except UsageError Request
  | [] => .error .missingCommand
  | a :: as =>
    if isHelp a then .ok .help
    else if a = word "run" then parseRun as
    else if a = word "disasm" then parseDisasm as
    else if isDashed a then .error (.unknownOption a)
    else parseRun (a :: as)

end LS8.CommandLine
