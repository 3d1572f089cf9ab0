import BatchCodec.CommandLine.Halt
import BatchCodec.CommandLine.Options

/-!
One level of the command line: the arguments before the subcommand, or those after it.

Values that stand in arguments of their own are first collected and only settled when the next option
or a new list of inputs begins, or when the level ends. So what is wrong with such a value comes to
light after what is wrong with the arguments that merely follow it.
-/

namespace BatchCodec.CommandLine

/-- Values collected and not settled yet. -/
inductive Pending where
  /-- The value of an option, `none` as long as it has not come. -/
  | setting (s : Setting) (value : Option String)
  | inputs (values : List String)
  deriving DecidableEq, Repr

/-- What a level says. -/
structure Level where
  output : Option String := none
  codec : Option String := none
  color : Option ColorMode := none
  flags : List Flag := []
  inputs : List String := []
  pending : Option Pending := none
  deriving DecidableEq, Repr

namespace Level

def hasSetting (l : Level) : Setting → Bool
  | .output => l.output.isSome
  | .codec => l.codec.isSome
  | .color => l.color.isSome

/-- Gives an option its value; the output folder must not be empty. -/
def assign (l : Level) (s : Setting) (value : String) : Except UsageError Level :=
  if l.hasSetting s then .error .conflict
  else
    match s with
    | .output => if value.isEmpty then .error .badValue else .ok { l with output := some value }
    | .codec => .ok { l with codec := some value }
    | .color =>
      match ColorMode.ofName? value with
      | some mode => .ok { l with color := some mode }
      | none => .error .badValue

def settle (l : Level) : Except UsageError Level :=
  match l.pending with
  | none => .ok l
  | some (.setting _ none) => .error .badValue
  | some (.setting s (some value)) => { l with pending := none }.assign s value
  | some (.inputs values) =>
    if values.any String.isEmpty then .error .badValue
    else .ok { l with inputs := l.inputs ++ values, pending := none }

def awaits (l : Level) : Bool :=
  match l.pending with
  | some (.setting _ none) => true
  | _ => false

/-- The value an option waits for. -/
def supply (l : Level) (value : String) : Level :=
  match l.pending with
  | some (.setting s none) => { l with pending := some (.setting s (some value)) }
  | _ => l

/-- One more input, collected with those directly before it. -/
def addInput (l : Level) (value : String) : Except UsageError Level :=
  match l.pending with
  | some (.inputs values) => .ok { l with pending := some (.inputs (values ++ [value])) }
  | _ => l.settle.map fun l => { l with pending := some (.inputs [value]) }

/-- An option with the value written behind it, if there is one. -/
def set (l : Level) (s : Setting) (value : Option String) : Except UsageError Level :=
  match l.settle with
  | .error e => .error e
  | .ok l =>
    match value with
    | some value => l.assign s value
    | none => .ok { l with pending := some (.setting s none) }

/-- A flag; it must not be given twice. -/
def raise (l : Level) (f : Flag) : Except UsageError Level :=
  match l.settle with
  | .error e => .error e
  | .ok l => if f ∈ l.flags then .error .conflict else .ok { l with flags := l.flags ++ [f] }

def isSilent (l : Level) : Bool :=
  l = {}

/-- The end of a level: what was collected is settled, and then the two flags of the continuation
policy must not both be there. -/
def finish (l : Level) : Except UsageError Level :=
  match l.settle with
  | .error e => .error e
  | .ok l =>
    if .continueOnError ∈ l.flags ∧ .stopOnError ∈ l.flags then .error .conflict else .ok l

/-- Turns the result of a step into that of the reading. -/
def halting (r : Except UsageError Level) : Except Halt Level :=
  r.mapError Halt.usage

/-- Settles what was collected and ends the reading. -/
def stopWith (l : Level) (h : Halt) : Except Halt Level :=
  match l.settle with
  | .error e => .error (.usage e)
  | .ok _ => .error h

/-- An argument of two dashes, the name of an option and perhaps an equals sign and a value. -/
def long (scope : Scope) (l : Level) (body : List Char) : Except Halt Level :=
  let name := String.ofList (body.takeWhile (· != '='))
  let value := match body.dropWhile (· != '=') with
    | [] => none
    | _ :: value => some (String.ofList value)
  match Meaning.ofLongName? scope name, value with
  | none, _ => .error (.usage .unknownArgument)
  | some (.setting s), value => halting (l.set s value)
  | some _, some _ => .error (.usage .surplusValue)
  | some (.flag f), none => halting (l.raise f)
  | some .help, none => l.stopWith .help
  | some .version, none => l.stopWith .version

/-- An argument of one dash and letters of options. The first option with a value has the rest of the
argument as its value, without an equals sign in front. -/
def short (scope : Scope) : Level → List Char → Except Halt Level
  | l, [] => .ok l
  | l, letter :: rest =>
    match Meaning.ofLetter? scope letter with
    | none => .error (.usage .unknownArgument)
    | some (.setting s) =>
      let value := match rest with
        | [] => none
        | '=' :: value => some (String.ofList value)
        | value => some (String.ofList value)
      halting (l.set s value)
    | some (.flag f) =>
      match l.raise f with
      | .error e => .error (.usage e)
      | .ok l => short scope l rest
    | some .help => l.stopWith .help
    | some .version => l.stopWith .version

end Level

inductive Shape where
  /-- Nothing but two dashes, which end the options. -/
  | divider
  | long (body : List Char)
  | short (body : List Char)
  /-- Anything else, a single dash included. -/
  | plain
  deriving DecidableEq, Repr

def Shape.of (argument : String) : Shape :=
  match argument.toList with
  | ['-', '-'] => .divider
  | '-' :: '-' :: body => .long body
  | ['-'] => .plain
  | '-' :: body => .short body
  | _ => .plain

end BatchCodec.CommandLine
