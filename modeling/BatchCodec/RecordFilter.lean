import BatchCodec.Record
import BatchCodec.Text.Blank
import BatchCodec.Text.Lines

/-!
Which records reach standard error, and how they are written there.

A filter is a list of directives, each for the targets that begin with a text; of the directives that
fit a target the one with the longest text decides, and of equally long ones the last.

Functions of the program: `init` of the logging (`standard`); reading a filter and writing records is
done by the library behind it.
-/

namespace BatchCodec

/-- How grave a level is; zero is reserved for letting nothing through. -/
def Level.rank : Level → Nat
  | .error => 1
  | .warn => 2
  | .info => 3
  | .debug => 4

def Level.name : Level → String
  | .error => "error"
  | .warn => "warn"
  | .info => "info"
  | .debug => "debug"

/-- The name of the program in targets. -/
def programTarget : String := "dgrtools"

def Source.target (s : Source) : String :=
  if s.name.isEmpty then programTarget else programTarget ++ "::" ++ s.name

/-- Records of the targets that begin with a text pass up to a rank; without a text, those of every
target. -/
structure Directive where
  target : Option (List Char)
  rank : Nat
  deriving DecidableEq, Repr

namespace Directive

/-- How much of a target the directive names. -/
def reach (d : Directive) : Nat :=
  (d.target.getD []).length

def covers (d : Directive) (target : List Char) : Bool :=
  (d.target.getD []).isPrefixOf target

end Directive

/-- Directives, no two of them for the same text. -/
abbrev RecordFilter := List Directive

namespace RecordFilter

def everything : Nat := 5

def rankNames : List (String × Nat) := [
  ("off", 0), ("error", 1), ("warn", 2), ("info", 3), ("debug", 4), ("trace", everything)]

/-- The rank with a name, whatever its letter case. -/
def rankOf? (cs : List Char) : Option Nat :=
  rankNames.lookup (String.ofList (cs.map Char.toLower))

/-- The directive that a text stands for: a rank for every target, a target, or both; or else the part
of the text that is wrong. -/
def readDirective (text : List Char) : Except (List Char) Directive :=
  match Text.splitOn '=' text with
  | [word] =>
    match rankOf? word with
    | some rank => .ok ⟨none, rank⟩
    | none => .ok ⟨some word, everything⟩
  | [target, rank] =>
    let rank := Text.trimChars rank
    if rank.isEmpty then .ok ⟨some target, everything⟩
    else
      match rankOf? rank with
      | some rank => .ok ⟨some target, rank⟩
      | none => .error rank
  | _ => .error text

/-- Adds a directive, in the place of one for the same text if there is one. -/
def insert (filter : RecordFilter) (d : Directive) : RecordFilter :=
  if filter.any fun e => e.target == d.target then
    filter.map fun e => if e.target == d.target then d else e
  else filter ++ [d]

/-- The directives of a text, with commas between them. -/
def pieces (text : String) : List (List Char) :=
  ((Text.splitOn ',' text.toList).map Text.trimChars).filter fun piece => !piece.isEmpty

/-- The filter that a text stands for; what is wrong in it is passed over. One without directives
shows errors only. -/
def ofText (text : String) : RecordFilter :=
  let directives := (pieces text).filterMap fun piece =>
    match readDirective piece with
    | .ok d => some d
    | .error _ => none
  if directives.isEmpty then [⟨none, Level.error.rank⟩] else directives.foldl insert []

def warnings (text : String) : List String :=
  (pieces text).filterMap fun piece =>
    match readDirective piece with
    | .ok _ => none
    | .error wrong =>
      some ("warning: invalid logging spec '" ++ String.ofList wrong ++ "', ignoring it")

/-- The filter used when nothing else is asked for. -/
def standard (debug : Bool) : RecordFilter :=
  [⟨some programTarget.toList, if debug then Level.debug.rank else Level.warn.rank⟩]

def decisive? (filter : RecordFilter) (target : List Char) : Option Directive :=
  (filter.filter fun d => d.covers target).foldl
    (fun best d =>
      match best with
      | none => some d
      | some b => if b.reach ≤ d.reach then some d else some b)
    none

def passes (filter : RecordFilter) (r : Record) : Bool :=
  match filter.decisive? r.source.target.toList with
  | some d => r.level.rank ≤ d.rank
  | none => false

end RecordFilter

namespace Record

/-- The level in capitals, five characters wide. -/
def levelText (l : Level) : String :=
  let name := l.name.toList.map Char.toUpper
  String.ofList (name ++ List.replicate (5 - name.length) ' ')

/-- The message, its later lines indented. -/
def indented (message : String) : String :=
  String.ofList (message.toList.flatMap fun c => if c == '\n' then ['\n', ' ', ' ', ' ', ' '] else [c])

/-- A record on standard error. -/
def line (r : Record) : String :=
  "[" ++ levelText r.level ++ " " ++ r.source.target ++ "] " ++ indented r.message ++ "\n"

end Record

end BatchCodec
