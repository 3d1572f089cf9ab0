import BatchCodec.Report.Document
import BatchCodec.Report.Table
import BatchCodec.Session
import BatchCodec.Settings

/-!
One batch from the command line.

Standard output holds one JSON document if that is asked for, nothing if quiet is asked for, and
otherwise the status lines and, if the batch ran, an empty line and the printed report. The run is a
success if the selection was cancelled or every selected file was converted.

What writes a report as JSON may refuse to. The writer that the program uses refuses a report with a
path that is no Unicode text, and this aborts the run: the files have been converted by then, but
nothing is printed and there is no exit status. Paths are Unicode texts here, so that the texts of this
writer are all given by `Report.write`, which never refuses; runs are defined for any writer, so that it
can be said what follows if one does.

Functions of the program: `handle_batch` (`OneShot.run`), `report_json` (`Report.write`),
`cancelled_json` (`cancelledJson`), `print_report` (`Report.printed`).
-/

namespace BatchCodec

/-- What writes a report as a JSON text, or refuses to. -/
abbrev ReportWriter := Report → Timing → Option String

/-- The writer of reports all of whose paths are Unicode texts. -/
def Report.write : ReportWriter := fun r t => some (r.json t)

/-- The report of a batch on standard output, if it can be written. -/
def Settings.presented (s : Settings) (write : ReportWriter) (r : Report) (t : Timing) :
    Option String :=
  if s.json then (write r t).map (· ++ "\n")
  else if s.quiet then some ""
  else some ("\n" ++ r.printed t s.color)

/-- What one batch from the command line came to. -/
structure OneShot where
  /-- A run that was aborted has none. -/
  exitStatus : Option Nat
  step : Step
  trace : Trace

namespace OneShot

def display (s : Settings) : Display :=
  if s.json || s.quiet then .silent else .line

/-- What standard output says after the status lines, if it can be written. -/
def closing (s : Settings) (write : ReportWriter) (step : Step) (timing : Timing) :
    Option String :=
  match step.report with
  | some report => s.presented write report timing
  | none =>
    if s.json then
      match step.session.log.newest? with
      | some line => some (cancelledJson line ++ "\n")
      | none => some ""
    else some ""

/-- A batch that did not run is no failure. -/
def statusOf (report : Option Report) : Nat :=
  if report.all Report.isClean then 0 else 1

/-- Runs one batch for the inputs and the output folder of the settings. -/
def run (write : ReportWriter) (s : Settings) (d : Direction) (t : FileTree) (c : Converter)
    (timing : Timing) : OneShot :=
  let session := Session.start s.folders.input s.folders.output
  let step := session.step d (Picker.preset t s.inputs s.output) c s.policy (display s)
  let shown := closing s write step timing
  { exitStatus := shown.map fun _ => statusOf step.report
    step := step
    trace := step.trace ++ Trace.ofPrinted (shown.getD "") }

/-- What the host says of a run that was aborted. -/
def abortStatus : Nat := 134

end OneShot

end BatchCodec
