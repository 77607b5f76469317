import LS8.CommandLine.Arguments

/-! # The command line: usage

The texts that explain the command line and report what is wrong with one. -/

namespace LS8.CommandLine

open LS8.Text

/-- The lines of the usage text. -/
def usageLines : List String :=
  ["Usage: ls8 <command> [options]",
    "",
    "Commands:",
    "  run <program> [--trace]  Load a program image and execute it",
    "  disasm <program>         Print a listing of a program image",
    "  <program>                Shorthand for `run <program>`",
    "",
    "Options:",
    "  -t, --trace  Write one trace line per instruction to stderr (run only)",
    "  -h, --help   Show this help message",
    "",
    "Exit codes:",
    "  0 halted, 1 usage error, 2 program could not be loaded, 3 runtime fault",
    "",
    "Examples:",
    "  ls8 run mult.ls8",
    "  ls8 run mult.ls8 --trace",
    "  ls8 disasm mult.ls8"]

/-- The usage text, with a newline after every line. -/
def usage : List Char := usageLines.flatMap fun line => line.toList ++ ['\n']

/-- The sentence that reports a usage error. Help is its own report. -/
def UsageError.message : UsageError → List Char
  | missingCommand => "missing command".toList
  | usage => CommandLine.usage
  | unknownOption argument => "unknown option: ".toList ++ Utf8.lossy argument
  | multiplePaths => "multiple program paths provided".toList
  | missingPath => "missing program path".toList

end LS8.CommandLine
