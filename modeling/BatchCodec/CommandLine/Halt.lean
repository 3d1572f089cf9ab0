/-!
Why the reading of a command line ends without an invocation: help or the version was asked for, or
the command line is wrong.
-/

namespace BatchCodec.CommandLine

inductive UsageError where
  /-- An option is given twice, or with one that excludes it. -/
  | conflict
  /-- A value is missing or not acceptable. -/
  | badValue
  /-- A flag has a value. -/
  | surplusValue
  /-- There is no such option, or no place for the argument. -/
  | unknownArgument
  /-- There is no such subcommand. -/
  | unknownSubcommand
  /-- The subcommand is missing. -/
  | missingSubcommand
  /-- There is nothing at all on the command line. -/
  | nothing
  deriving DecidableEq, Repr

def UsageError.message : UsageError → String
  | conflict => "an option is given twice or with one that excludes it"
  | badValue => "a value is missing or not acceptable"
  | surplusValue => "a flag takes no value"
  | unknownArgument => "unexpected argument"
  | unknownSubcommand => "unrecognized subcommand"
  | missingSubcommand => "a subcommand is required"
  | nothing => "a subcommand is required"

/-- Why no invocation came of a command line. -/
inductive Halt where
  | help
  | version
  | usage (e : UsageError)
  deriving DecidableEq, Repr

def Halt.exitStatus : Halt → Nat
  | help => 0
  | version => 0
  | usage _ => 2

def versionText : String := "dgrtools 0.3.0\n"

def usageText : String :=
  "Usage: dgrtools [OPTIONS] <compile|decompile|shell> [INPUTS]...\n\n" ++
  "Options:\n" ++
  "  -o, --output <DIR>       Output folder for converted files\n" ++
  "      --codec <PROGRAM>    Codec program to run for each file\n" ++
  "      --continue-on-error  Keep going after a file fails to convert\n" ++
  "      --stop-on-error      Stop at the first file that fails to convert\n" ++
  "  -j, --json               Print the batch report as JSON\n" ++
  "  -q, --quiet              Do not print the status log\n" ++
  "      --color <MODE>       auto, always or never\n" ++
  "      --no-color           Disable coloured output\n" ++
  "      --debug              Enable debug output\n" ++
  "  -h, --help               Print help\n" ++
  "  -V, --version            Print version"

end BatchCodec.CommandLine
