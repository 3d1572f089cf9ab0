import BatchCodec.Direction
import BatchCodec.Failure
import BatchCodec.Record
import BatchCodec.StatusLog
/-!
Traces: what a part of a run did to the world, in order.

A trace keeps each kind of effect apart: the folders prompts were opened with, the requests the codec
received, the programs started, the states of the status log a display was shown, the diagnostics and
records for the operator, and the text on standard output. Traces of consecutive parts are joined.
-/

namespace BatchCodec

/-- A request to convert one file. -/
structure Request where
  direction : Direction
  input : Path
  outputDir : Path
  deriving DecidableEq, Repr

/-- A failure as the operator is told of it, in full. -/
inductive Diagnostic where
  | rejected (input : Path) (message : String)
  | fault (input : Path) (f : Fault)
  deriving DecidableEq, Repr

/-- The record of a diagnostic: rejections are details, faults are errors. -/
def Diagnostic.record : Diagnostic → Record
  | rejected input message =>
    ⟨.debug, .runner, "codec rejected " ++ input.text ++ ":\n" ++ message⟩
  | fault input f =>
    ⟨.error, .runner, "unexpected failure on " ++ input.text ++ ": " ++ f.message⟩

structure Trace where
  /-- The folders that prompts were opened with. -/
  prompts : List Path := []
  /-- The requests the codec received. -/
  calls : List Request := []
  /-- The programs started, each with its arguments. -/
  started : List (List String) := []
  /-- The status log as the display was shown it. -/
  refreshes : List StatusLog := []
  diagnostics : List Diagnostic := []
  records : List Record := []
  /-- The text on standard output. -/
  printed : String := ""
  deriving DecidableEq, Repr

namespace Trace

def append (a b : Trace) : Trace where
  prompts := a.prompts ++ b.prompts
  calls := a.calls ++ b.calls
  started := a.started ++ b.started
  refreshes := a.refreshes ++ b.refreshes
  diagnostics := a.diagnostics ++ b.diagnostics
  records := a.records ++ b.records
  printed := a.printed ++ b.printed

instance : Append Trace := ⟨append⟩

/-- A part that only records something. -/
def ofRecord (r : Record) : Trace := { records := [r] }

/-- A part that only prints something. -/
def ofPrinted (s : String) : Trace := { printed := s }

@[simp] theorem prompts_append (a b : Trace) : (a ++ b).prompts = a.prompts ++ b.prompts := rfl
@[simp] theorem calls_append (a b : Trace) : (a ++ b).calls = a.calls ++ b.calls := rfl
@[simp] theorem started_append (a b : Trace) : (a ++ b).started = a.started ++ b.started := rfl
@[simp] theorem refreshes_append (a b : Trace) :
    (a ++ b).refreshes = a.refreshes ++ b.refreshes := rfl
@[simp] theorem diagnostics_append (a b : Trace) :
    (a ++ b).diagnostics = a.diagnostics ++ b.diagnostics := rfl
@[simp] theorem records_append (a b : Trace) : (a ++ b).records = a.records ++ b.records := rfl
@[simp] theorem printed_append (a b : Trace) : (a ++ b).printed = a.printed ++ b.printed := rfl

end Trace

end BatchCodec
