import BatchCodec.OneShot

/-!
The shell: batches one after the other, chosen from a menu.

Folders and status log carry over from one batch to the next. Showing the log prints the panel and
changes nothing. The shell ends when the user leaves it or when the menu fails. Between two choices
files may come and go, and the codec may answer otherwise than before.

Functions of the program: `run_shell` (`Shell.run`, one round of its loop `Shell.act`).
-/

namespace BatchCodec

inductive MenuChoice where
  /-- Convert files, with the answers to both prompts. -/
  | convert (d : Direction) (answers : Answers)
  | showLog

/-- A choice from the menu, with the timing of its batch and the files and the converter there are
while it is carried out. -/
structure Move where
  choice : MenuChoice
  timing : Timing
  tree : FileTree
  converter : Converter

/-- What one choice from the menu came to. -/
structure ShellStep where
  session : Session
  report : Option Report
  trace : Trace

/-- What a visit to the shell came to. -/
structure Shell where
  session : Session
  steps : List ShellStep
  /-- Why the menu failed, unless the user left the shell. -/
  failure : Option PickError
  trace : Trace

namespace Shell

def display (s : Settings) : Display :=
  if s.quiet then .silent else .newPanel s.color

def act (s : Settings) (t : FileTree) (c : Converter) (timing : Timing) (session : Session) :
    MenuChoice → ShellStep
  | .showLog => ⟨session, none, Trace.ofPrinted (session.log.panelText ++ "\n")⟩
  | .convert d answers =>
    let step := session.step d (Picker.prompt t answers) c s.policy (display s)
    let shown := match step.report with
      | some report => (s.presented Report.write report timing).getD ""
      | none => ""
    ⟨step.session, step.report, step.trace ++ Trace.ofPrinted shown⟩

def actAll (s : Settings) : Session → List Move → Session × List ShellStep
  | session, [] => (session, [])
  | session, move :: moves =>
    let step := act s move.tree move.converter move.timing session move.choice
    let (last, steps) := actAll s step.session moves
    (last, step :: steps)

def traceOf (steps : List ShellStep) : Trace :=
  steps.foldr (fun step later => step.trace ++ later) {}

def startedRecord : Record := ⟨.info, .app, "shell started"⟩

/-- Visits the shell; `failure` says why the menu failed after the choices, if it did. -/
def visit (s : Settings) (moves : List Move) (failure : Option PickError) : Shell :=
  let (session, steps) := actAll s (Session.start s.folders.input s.folders.output) moves
  { session := session
    steps := steps
    failure := failure
    trace := Trace.ofRecord startedRecord ++ traceOf steps }

/-- Visits the shell while the files and the converter stay the same. -/
def run (s : Settings) (t : FileTree) (c : Converter) (choices : List (MenuChoice × Timing))
    (failure : Option PickError) : Shell :=
  visit s (choices.map fun (choice, timing) => ⟨choice, timing, t, c⟩) failure

/-- Why the menu fails where there is no terminal. -/
def noTerminal : PickError := .prompt "not a terminal"

def exitStatus (v : Shell) : Nat :=
  if v.failure.isSome then 2 else 0

/-- What standard error says about a menu that failed. -/
def failureLine (v : Shell) : String :=
  match v.failure with
  | some e => e.terminalMessage ++ "\n"
  | none => ""

end Shell

end BatchCodec
