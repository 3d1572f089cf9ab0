import BatchCodec.CommandLine.Level
import BatchCodec.Direction

/-!
From the arguments of a command line to an invocation.

The arguments before the subcommand and those after it are two levels; each is read on its own. For
an option with a value the level after the subcommand wins; a flag is raised if either level raises
it. The level before the subcommand is finished last, so what is wrong after the subcommand comes to
light first.

Functions of the program: `Cli` (`Invocation`), `Commands.batch` (`Task`). The reading itself is that
of the library which the program reads its arguments with.
-/

namespace BatchCodec.CommandLine

/-- What the program is asked to do. -/
inductive Task where
  | batch (d : Direction)
  | shell
  deriving DecidableEq, Repr

namespace Task

def ofName? (s : String) : Option Task :=
  if s = "compile" then some (.batch .compile)
  else if s = "decompile" then some (.batch .decompile)
  else if s = "shell" then some .shell
  else none

def scope : Task → Scope
  | batch _ => .batch
  | shell => .shell

end Task

def helpName : String := "help"

/-- What follows a request for help: nothing, or the name of one subcommand. -/
def readHelp : List String → Halt
  | [] => .help
  | [name] =>
    if name = helpName ∨ (Task.ofName? name).isSome then .help else .usage .unknownSubcommand
  | _ => .usage .unknownSubcommand

/-- The level before the subcommand, with the subcommand and what follows it. -/
structure RootLevel where
  level : Level
  command : Option (Task × List String)
  deriving DecidableEq, Repr

/-- Reads the arguments before the subcommand; `divided` says whether the options have ended. -/
def readRoot (divided : Bool) : Level → List String → Except Halt RootLevel
  | l, [] => .ok ⟨l, none⟩
  | l, argument :: rest =>
    if divided then .error (.usage .unknownArgument)
    else
      match Shape.of argument with
      | .divider => readRoot true l rest
      | .long body =>
        match Level.long .root l body with
        | .error h => .error h
        | .ok l => readRoot false l rest
      | .short body =>
        match Level.short .root l body with
        | .error h => .error h
        | .ok l => readRoot false l rest
      | .plain =>
        if l.awaits then readRoot false (l.supply argument) rest
        else if argument = helpName then .error (readHelp rest)
        else
          match Task.ofName? argument with
          | some task => .ok ⟨l, some (task, rest)⟩
          | none => .error (.usage .unknownSubcommand)

def readCommand (scope : Scope) (divided : Bool) : Level → List String → Except Halt Level
  | l, [] => .ok l
  | l, argument :: rest =>
    let take (l : Level) : Except Halt Level :=
      if scope = .batch then Level.halting (l.addInput argument)
      else .error (.usage .unknownArgument)
    if divided then
      match take l with
      | .error h => .error h
      | .ok l => readCommand scope true l rest
    else
      match Shape.of argument with
      | .divider => readCommand scope true l rest
      | .long body =>
        match Level.long scope l body with
        | .error h => .error h
        | .ok l => readCommand scope false l rest
      | .short body =>
        match Level.short scope l body with
        | .error h => .error h
        | .ok l => readCommand scope false l rest
      | .plain =>
        if l.awaits then readCommand scope false (l.supply argument) rest
        else
          match take l with
          | .error h => .error h
          | .ok l => readCommand scope false l rest

/-- A command line that has been understood. -/
structure Invocation where
  task : Task
  inputs : List Path := []
  output : Option Path := none
  codec : Option String := none
  continueOnError : Bool := false
  stopOnError : Bool := false
  json : Bool := false
  quiet : Bool := false
  color : ColorMode := .auto
  noColor : Bool := false
  debug : Bool := false
  deriving DecidableEq, Repr

namespace Invocation

/-- The invocation that two levels describe. -/
def ofLevels (task : Task) (root sub : Level) : Invocation :=
  let has (f : Flag) : Bool := f ∈ root.flags || f ∈ sub.flags
  { task := task
    inputs := sub.inputs.map Path.mk
    output := (sub.output.or root.output).map Path.mk
    codec := sub.codec.or root.codec
    continueOnError := has .continueOnError
    stopOnError := has .stopOnError
    json := has .json
    quiet := has .quiet
    color := (sub.color.or root.color).getD .auto
    noColor := has .noColor
    debug := has .debug }

def parse (arguments : List String) : Except Halt Invocation :=
  match readRoot false {} arguments with
  | .error h => .error h
  | .ok ⟨root, none⟩ =>
    match root.settle with
    | .error e => .error (.usage e)
    | .ok root => .error (.usage (if root.isSilent then .nothing else .missingSubcommand))
  | .ok ⟨root, some (task, rest)⟩ =>
    match readCommand task.scope false {} rest with
    | .error h => .error h
    | .ok sub =>
      match sub.finish with
      | .error e => .error (.usage e)
      | .ok sub =>
        match root.finish with
        | .error e => .error (.usage e)
        | .ok root => .ok (ofLevels task root sub)

end Invocation

end BatchCodec.CommandLine
