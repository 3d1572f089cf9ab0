/-!
Records for the operator.

A record has a level and comes from one part of the program, its source; each source has a name
below the program's own.
-/

namespace BatchCodec

inductive Level where
  | error
  | warn
  | info
  | debug
  deriving DecidableEq, Repr

/-- The part of the program a record comes from. -/
inductive Source where
  /-- Starting up. -/
  | start
  /-- The choice between one batch and the shell. -/
  | app
  /-- Running a batch. -/
  | runner
  /-- Asking for files and a folder. -/
  | selection
  /-- Starting the codec program. -/
  | command
  /-- Prompts on the terminal. -/
  | prompt
  deriving DecidableEq, Repr

/-- The name of a source below the program's own; starting up has none. -/
def Source.name : Source → String
  | start => ""
  | app => "app"
  | runner => "core::runner"
  | selection => "core::selection"
  | command => "codec::command"
  | prompt => "picker::prompt"

structure Record where
  level : Level
  source : Source
  message : String
  deriving DecidableEq, Repr

end BatchCodec
