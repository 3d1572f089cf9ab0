import BatchCodec.Batch
import BatchCodec.Memory
import BatchCodec.Picker
/-!
Sessions: the remembered folders and the status log, kept from one batch to the next.

A step asks for files and then for an output folder, each question starting from the remembered
folder, and converts what was selected. Backing out of a question, or a question that fails, leaves
one status line and calls no converter. A folder is remembered as soon as its question is answered.

Functions of the program: `Session.run_batch` (`Session.step`), `SelectionController.begin_batch`
(`choose`, its second question `chooseFolder`), `Cancelled.status` (`Cancelled.line`).
-/

namespace BatchCodec

/-- Which question was not answered. -/
inductive Cancelled where
  | files
  | folder
  deriving DecidableEq, Repr

def Cancelled.line : Cancelled → String
  | files => "No file selected!"
  | folder => "No folder selected!"

/-- The record of a question that was not answered; `what` names what was asked for, `asked` the
question. -/
def unanswered (what asked : String) : Option PickError → Record
  | none => ⟨.warn, .selection, "user did not select " ++ what⟩
  | some e => ⟨.warn, .selection, asked ++ " selection failed: " ++ e.message⟩

/-- What the two questions came to. -/
structure Choice where
  result : Except Cancelled Selection
  memory : Memory
  trace : Trace

/-- Asks for an output folder for files already chosen. -/
def chooseFolder (p : Picker) (d : Direction) (m : Memory) (inputs : List Path) : Choice :=
  let start := (m.get d).output
  let pick := p.folder d start
  let asked : Trace := { prompts := [start], records := pick.records }
  let refuse (e : Option PickError) : Choice :=
    ⟨.error .folder, m, asked ++ Trace.ofRecord (unanswered "output folder" "folder" e)⟩
  match pick.result with
  | .error e => refuse (some e)
  | .ok none => refuse none
  | .ok (some folder) =>
    if folder.text.isEmpty then refuse none
    else ⟨.ok ⟨inputs, folder⟩, m.rememberOutput d folder, asked⟩

/-- Asks for files, and for an output folder once there are some. -/
def choose (p : Picker) (d : Direction) (m : Memory) : Choice :=
  let start := (m.get d).input
  let pick := p.files d start
  let asked : Trace := { prompts := [start], records := pick.records }
  let refuse (e : Option PickError) : Choice :=
    ⟨.error .files, m, asked ++ Trace.ofRecord (unanswered "file" "file" e)⟩
  match pick.result with
  | .error e => refuse (some e)
  | .ok none => refuse none
  | .ok (some []) => refuse none
  | .ok (some (first :: more)) =>
    let rest := chooseFolder p d (m.rememberInput d first) (first :: more)
    { rest with trace := asked ++ rest.trace }

/-- What outlives a batch. -/
structure Session where
  memory : Memory
  log : StatusLog
  deriving DecidableEq, Repr

structure Step where
  session : Session
  /-- The report, unless the selection was cancelled. -/
  report : Option Report
  trace : Trace

namespace Session

/-- A session without status lines that starts from the given folders. -/
def start (input output : Path) : Session :=
  ⟨Memory.start input output, StatusLog.empty StatusLog.defaultCapacity⟩

/-- Asks for files and a folder and converts them. -/
def step (s : Session) (d : Direction) (p : Picker) (c : Converter) (policy : Policy)
    (display : Display) : Step :=
  let choice := choose p d s.memory
  match choice.result with
  | .error cancelled =>
    let (b, shown) := Board.announce ⟨s.log, display⟩ (some cancelled.line)
    ⟨⟨choice.memory, b.log⟩, none, choice.trace ++ shown⟩
  | .ok selection =>
    let batch := runBatch c policy d selection ⟨s.log, display⟩
    ⟨⟨choice.memory, batch.board.log⟩, some batch.report, choice.trace ++ batch.trace⟩

end Session

end BatchCodec
