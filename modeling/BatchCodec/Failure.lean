import BatchCodec.Path
import BatchCodec.Text.Lines
/-!
What can go wrong, as causes with one wording each.

A conversion fails because the codec rejected the input, with a message that may run over several
lines, or because of a fault around the codec. A selection fails because a prompt could not be shown,
a pattern is no pattern, or a folder cannot be read.

Functions of the program: `ConversionError.summary` (`Failure.summary`), the texts of
`ConversionError`, `UnexpectedError`, `PickerError` and `AppError` (the definitions named `message` and
`terminalMessage`).
-/

namespace BatchCodec

/-- Something wrong around the codec rather than inside it. -/
inductive Fault where
  /-- There is no such program. -/
  | notFound (program : String)
  /-- The program is there but could not be started. -/
  | notStarted (program : String) (cause : String)
  /-- The program ended without an exit status. -/
  | terminated (program : String)
  deriving DecidableEq, Repr

def Fault.message : Fault → String
  | notFound program => "Codec program not found: " ++ program
  | notStarted program cause => "Failed to run codec " ++ program ++ ": " ++ cause
  | terminated program => "Codec " ++ program ++ " was terminated without an exit status"

/-- Why one file was not converted. -/
inductive Failure where
  /-- The codec ran and rejected the input. -/
  | rejected (message : String)
  /-- The codec did not come to a verdict. -/
  | fault (f : Fault)
  deriving DecidableEq, Repr

namespace Failure

def message : Failure → String
  | rejected m => m
  | fault f => f.message

/-- The first line of the wording, the only part a user is shown. -/
def summary (f : Failure) : String :=
  Text.firstLine f.message

end Failure

/-- Why a question for files or for a folder was not answered. -/
inductive PickError where
  /-- The prompt itself failed. -/
  | prompt (cause : String)
  /-- The answer is no valid pattern. -/
  | pattern (input : String) (cause : String)
  /-- The answer is a folder that cannot be read. -/
  | unreadable (folder : Path) (cause : String)
  deriving DecidableEq, Repr

def PickError.message : PickError → String
  | prompt cause => "Prompt failed: IO error: " ++ cause
  | pattern input cause => "Invalid pattern \"" ++ input ++ "\": " ++ cause
  | unreadable folder cause => "Failed to read directory " ++ folder.text ++ ": " ++ cause

/-- The wording when the terminal fails the shell. -/
def PickError.terminalMessage (e : PickError) : String :=
  "Terminal error: " ++ e.message

end BatchCodec
