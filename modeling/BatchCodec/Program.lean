import BatchCodec.Codec.Command
import BatchCodec.Config.Search
import BatchCodec.RecordFilter
import BatchCodec.Shell

/-!
The whole program: from the arguments of the command line to an exit status and what was written.

The configuration is found first and its settings are joined with those of the command line. Then one
batch is run, or the shell. Records that pass the filter are written to standard error.

Functions of the program: `main` (`Program.run`).
-/

namespace BatchCodec

/-- Everything the program finds when it is started. -/
structure World where
  host : Host
  surroundings : Surroundings
  /-- The text that chooses which records are written, if there is one. -/
  filterText : Option String := none
  /-- Whether standard output is a terminal. -/
  terminal : Bool := false
  /-- The timing of a batch from the command line. -/
  timing : Timing
  /-- What the user chooses from the menu of the shell, each with the timing of its batch. -/
  choices : List (MenuChoice × Timing) := []
  /-- Why the menu fails after these choices, if it does. -/
  menuFailure : Option PickError := none

/-- What a run of the program came to. -/
structure Completion where
  exitStatus : Nat
  trace : Trace
  /-- The configuration files that could not be understood. -/
  broken : List Path
  /-- What standard error says after the warnings about those files. -/
  errors : String

namespace Program

def loadedRecord (p : Path) : Record :=
  ⟨.info, .start, "loaded config from " ++ p.text⟩

/-- What a task came to: its exit status, its effects, and a last line on standard error. -/
def perform (s : Settings) (w : World) : Nat × Trace × String :=
  let converter := s.command.converter w.host
  match s.task with
  | .batch d =>
    let o := OneShot.run Report.write s d w.host.tree converter w.timing
    (o.exitStatus.getD OneShot.abortStatus, o.trace, "")
  | .shell =>
    let v := Shell.run s w.host.tree converter w.choices w.menuFailure
    (v.exitStatus, v.trace, v.failureLine)

def filter (w : World) (debug : Bool) : RecordFilter :=
  match w.filterText with
  | some text => .ofText text
  | none => .standard debug

def filterWarnings (w : World) : String :=
  String.join (((w.filterText.map RecordFilter.warnings).getD []).map (· ++ "\n"))

def run (arguments : List String) (w : World) : Except CommandLine.Halt Completion :=
  match CommandLine.Invocation.parse arguments with
  | .error h => .error h
  | .ok invocation =>
    let found := Config.load w.host.tree w.surroundings
    let settings := Settings.of invocation found.config w.terminal
    let (status, trace, lastLine) := perform settings w
    let trace : Trace := { records := (found.source.map loadedRecord).toList } ++ trace
    let written := trace.records.filter (filter w settings.debug).passes
    .ok {
      exitStatus := status
      trace := trace
      broken := found.broken
      errors := filterWarnings w ++ String.join (written.map Record.line) ++ lastLine }

end Program

end BatchCodec
