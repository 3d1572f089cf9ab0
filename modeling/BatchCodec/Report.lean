import BatchCodec.Direction
/-!
The report of a batch: what happened to every file that was attempted, which files were not, and the
status lines in the order in which they appeared.

Functions of the program: `converted`, `failed`, `unexpected` and `is_clean` of `BatchReport`
(`converted`, `failed`, `unexpected`, `isClean`).
-/

namespace BatchCodec

/-- What happened to one attempted file. -/
inductive Outcome where
  | converted
  /-- The codec rejected the file; `summary` is the first line of its message. -/
  | failed (summary : String)
  /-- The codec came to no verdict; the user is not told `detail` by a status line. -/
  | unexpected (detail : String)
  deriving DecidableEq, Repr

namespace Outcome

def isConverted : Outcome → Bool
  | converted => true
  | _ => false

def isFailed : Outcome → Bool
  | failed _ => true
  | _ => false

def isUnexpected : Outcome → Bool
  | unexpected _ => true
  | _ => false

end Outcome

structure Item where
  input : Path
  outcome : Outcome
  deriving DecidableEq, Repr

/-- Everything one batch did, in order. -/
structure Report where
  direction : Direction
  outputDir : Path
  items : List Item
  /-- The files not attempted because the batch ended before them. -/
  skipped : List Path
  /-- The status lines of the batch, oldest first. -/
  entries : List String
  deriving DecidableEq, Repr

namespace Report

def count (r : Report) (p : Outcome → Bool) : Nat :=
  r.items.countP (fun item => p item.outcome)

def converted (r : Report) : Nat := r.count Outcome.isConverted

def failed (r : Report) : Nat := r.count Outcome.isFailed

def unexpected (r : Report) : Nat := r.count Outcome.isUnexpected

/-- Whether every selected file was attempted and converted. -/
def isClean (r : Report) : Bool :=
  r.skipped.isEmpty && r.converted == r.items.length

end Report

end BatchCodec
