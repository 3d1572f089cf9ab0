import BatchCodec.ColorMode

/-!
The options of the command line.

An option with a value sets the output folder, the codec or the colour mode; a flag has no value.
Help and version end the reading. The version can be asked for before the subcommand only.
-/

namespace BatchCodec.CommandLine

/-- An option with a value. -/
inductive Setting where
  | output
  | codec
  | color
  deriving DecidableEq, Repr

/-- An option without a value. -/
inductive Flag where
  | continueOnError
  | stopOnError
  | json
  | quiet
  | noColor
  | debug
  deriving DecidableEq, Repr

inductive Meaning where
  | setting (s : Setting)
  | flag (f : Flag)
  | help
  | version
  deriving DecidableEq, Repr

/-- Where on the command line an argument stands. -/
inductive Scope where
  /-- Before the subcommand. -/
  | root
  /-- After a subcommand that takes input files. -/
  | batch
  /-- After the subcommand that takes none. -/
  | shell
  deriving DecidableEq, Repr

def longNames : List (String × Meaning) := [
  ("output", .setting .output),
  ("codec", .setting .codec),
  ("color", .setting .color),
  ("continue-on-error", .flag .continueOnError),
  ("stop-on-error", .flag .stopOnError),
  ("json", .flag .json),
  ("quiet", .flag .quiet),
  ("no-color", .flag .noColor),
  ("debug", .flag .debug),
  ("help", .help),
  ("version", .version)]

def letters : List (Char × Meaning) := [
  ('o', .setting .output),
  ('j', .flag .json),
  ('q', .flag .quiet),
  ('h', .help),
  ('V', .version)]

namespace Meaning

def standsIn (scope : Scope) : Meaning → Bool
  | .version => scope = .root
  | _ => true

def ofLongName? (scope : Scope) (name : String) : Option Meaning :=
  (longNames.lookup name).filter (standsIn scope)

def ofLetter? (scope : Scope) (letter : Char) : Option Meaning :=
  (letters.lookup letter).filter (standsIn scope)

end Meaning

end BatchCodec.CommandLine
