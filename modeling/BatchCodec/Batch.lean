import BatchCodec.Converter
import BatchCodec.Display
import BatchCodec.Policy
import BatchCodec.Report
/-!
Running a batch: the selected files, one after the other, through a converter.

Each file gives one item of the report. A converted and a rejected file also give one status line,
shown at once; a fault gives none. A rejected file ends the batch if the policy says so; a fault never
does. What the batch did not reach is reported as skipped.

Functions of the program: `BatchRunner.run` (`runBatch`, its loop `convertAll`), `LogDiagnostics` (the
diagnostics of `Verdict`), `StatusEntry.converted` and `ConversionError.summary` (the line of
`Verdict.of`).
-/

namespace BatchCodec

/-- The files and the output folder of one batch. -/
structure Selection where
  inputs : List Path
  outputDir : Path
  deriving DecidableEq, Repr

/-- What one answer of the converter means. -/
structure Verdict where
  outcome : Outcome
  /-- The status line, if the user is to see one. -/
  line : Option String
  /-- The diagnostic, if something went wrong. -/
  diagnostic : Option Diagnostic
  deriving DecidableEq, Repr

def Verdict.of (d : Direction) (input : Path) : Except Failure Unit → Verdict
  | .ok () => ⟨.converted, some (d.convertedLine input), none⟩
  | .error (.fault f) => ⟨.unexpected f.message, none, some (.fault input f)⟩
  | .error (.rejected message) =>
    let summary := (Failure.rejected message).summary
    ⟨.failed summary, some summary, some (.rejected input message)⟩

/-- A status log with the display that shows it. -/
structure Board where
  log : StatusLog
  display : Display
  deriving DecidableEq, Repr

/-- Pushes a line, if there is one, and shows the log. -/
def Board.announce (b : Board) : Option String → Board × Trace
  | none => (b, {})
  | some line =>
    let log := b.log.push line
    let (display, text) := b.display.refresh log
    (⟨log, display⟩, { refreshes := [log], printed := text })

/-- What the files of a batch came to. -/
structure Progress where
  items : List Item
  skipped : List Path
  entries : List String
  board : Board
  trace : Trace

/-- Converts files in order, the first of them by the `k`-th request of the batch. -/
def convertAll (c : Converter) (keepGoing : Bool) (d : Direction) (outputDir : Path) :
    Nat → Board → List Path → Progress
  | _, b, [] => ⟨[], [], [], b, {}⟩
  | k, b, input :: rest =>
    let request : Request := ⟨d, input, outputDir⟩
    let reply := c.convert k request
    let verdict := Verdict.of d input reply.result
    let diagnostics := verdict.diagnostic.toList
    let asked : Trace :=
      { calls := [request], started := reply.started, diagnostics := diagnostics,
        records := reply.records ++ diagnostics.map Diagnostic.record }
    let (b, shown) := b.announce verdict.line
    let item : Item := ⟨input, verdict.outcome⟩
    if verdict.outcome.isFailed && !keepGoing then
      ⟨[item], rest, verdict.line.toList, b, asked ++ shown⟩
    else
      let later := convertAll c keepGoing d outputDir (k + 1) b rest
      ⟨item :: later.items, later.skipped, verdict.line.toList ++ later.entries, later.board,
        asked ++ shown ++ later.trace⟩

def startRecord (d : Direction) (s : Selection) (codec : String) : Record :=
  ⟨.info, .runner, d.name ++ " batch: " ++ toString s.inputs.length ++ " file(s) -> " ++
    s.outputDir.text ++ " via " ++ codec⟩

def stopRecord? (d : Direction) (skipped : List Path) : Option Record :=
  if skipped.isEmpty then none
  else some ⟨.warn, .runner, d.name ++ " batch stopped after a codec failure; " ++
    toString skipped.length ++ " file(s) not attempted"⟩

structure BatchResult where
  report : Report
  board : Board
  trace : Trace

def runBatch (c : Converter) (policy : Policy) (d : Direction) (s : Selection) (b : Board) :
    BatchResult :=
  let p := convertAll c (policy.get d) d s.outputDir 0 b s.inputs
  { report := ⟨d, s.outputDir, p.items, p.skipped, p.entries⟩
    board := p.board
    trace := Trace.ofRecord (startRecord d s c.name) ++ p.trace ++
      { records := (stopRecord? d p.skipped).toList } }

end BatchCodec
