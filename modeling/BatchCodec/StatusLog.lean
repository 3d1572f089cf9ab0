import BatchCodec.Text.Lines
/-!
The status log: the newest status lines, newest first, never more than its capacity.

Pushing a line puts it in front and drops the oldest line once the log is full. So a log that began
empty holds the newest lines of its whole history, which is what `history` says.

Functions of the program: `new` and `with_capacity` (`empty`), `push` (`push`), `render` (the field
`lines`), `to_text` (`text`).
-/

namespace BatchCodec

/-- A bounded list of status lines, newest first. -/
structure StatusLog where
  capacity : Nat
  lines : List String
  deriving DecidableEq, Repr

namespace StatusLog

def defaultCapacity : Nat := 12

def empty (capacity : Nat) : StatusLog := ⟨capacity, []⟩

/-- Puts a line in front and drops the oldest line of a full log. -/
def push (log : StatusLog) (line : String) : StatusLog :=
  { log with lines := (line :: log.lines).take log.capacity }

def pushAll (log : StatusLog) (lines : List String) : StatusLog :=
  lines.foldl push log

def newest? (log : StatusLog) : Option String :=
  log.lines.head?

def text (log : StatusLog) : String :=
  Text.unlines log.lines

/-- The newest lines of a history given in order of time. -/
def history (capacity : Nat) (past : List String) : StatusLog :=
  ⟨capacity, past.reverse.take capacity⟩

end StatusLog

end BatchCodec
