/-!
TOML documents as values, and how their tables grow.

A table remembers how it came to be, because that decides what may still be added to it: a table
between braces is complete; a table with a header of its own is opened once; a table that only a
longer header or a dotted key mentioned may still be extended in the same manner.
-/

namespace BatchCodec.Toml

/-- A value that is neither a list nor a table. -/
inductive Scalar where
  | string (s : String)
  | integer (n : Int)
  | float
  | boolean (b : Bool)
  /-- A date, a time, or both. -/
  | moment
  deriving DecidableEq, Repr

inductive Origin where
  /-- Written between braces. -/
  | braces
  /-- Opened by a header of its own, or the document itself. -/
  | header
  /-- Mentioned on the way to another header. -/
  | passed
  /-- Mentioned by a dotted key. -/
  | dotted
  deriving DecidableEq, Repr

inductive Value where
  | scalar (s : Scalar)
  | array (items : List Value)
  /-- The tables opened one after the other by the same double header, oldest first. -/
  | tables (elements : List (List (String × Value)))
  | table (origin : Origin) (members : List (String × Value))

abbrev Members := List (String × Value)

namespace Members

def replace (key : String) (v : Value) : Members → Members
  | [] => []
  | (k, w) :: rest => if k = key then (k, v) :: rest else (k, w) :: replace key v rest

/-- Changes the table that keys lead to, making the tables on the way that are not there. A dotted key
does not lead into a table with a header of its own, and nothing leads into a table between braces. -/
def within (dotted : Bool) (change : Origin → Members → Option Members) :
    List String → Origin → Members → Option Members
  | [], origin, ms => change origin ms
  | key :: path, _, ms =>
    match ms.lookup key with
    | none =>
      let origin := if dotted then .dotted else .passed
      (within dotted change path origin []).map fun inner => ms ++ [(key, .table origin inner)]
    | some (.table origin inner) =>
      if origin = .braces ∨ (dotted ∧ origin = .header) then none
      else (within dotted change path origin inner).map fun inner =>
        replace key (.table origin inner) ms
    | some (.tables elements) =>
      match elements.getLast? with
      | none => none
      | some last =>
        (within dotted change path .header last).map fun inner =>
          replace key (.tables (elements.dropLast ++ [inner])) ms
    | some _ => none

/-- Adds a new key to a table. A dotted key may only add to a table that dotted keys made. -/
def addKey (dotted : Bool) (key : String) (v : Value) (origin : Origin) (ms : Members) :
    Option Members :=
  if decide (origin = .dotted) ≠ dotted then none
  else if (ms.lookup key).isSome then none
  else some (ms ++ [(key, v)])

/-- Adds a value under a key, which is dotted if `path` is not empty. -/
def add (path : List String) (key : String) (v : Value) (ms : Members) : Option Members :=
  let dotted := !path.isEmpty
  within dotted (addKey dotted key v) path .header ms

/-- Opens the table of a header; it must not have been opened before. -/
def openTable (path : List String) (key : String) (ms : Members) : Option Members :=
  within false (fun _ ms =>
    match ms.lookup key with
    | none => some (ms ++ [(key, .table .header [])])
    | some (.table .passed inner) => some (replace key (.table .header inner) ms)
    | some _ => none) path .header ms

/-- Opens another table of a double header. -/
def openElement (path : List String) (key : String) (ms : Members) : Option Members :=
  within false (fun _ ms =>
    match ms.lookup key with
    | none => some (ms ++ [(key, .tables [[]])])
    | some (.tables elements) => some (replace key (.tables (elements ++ [[]])) ms)
    | some _ => none) path .header ms

/-- Adds a value under a key of the table that the header `current` opened. -/
def addBelow (current path : List String) (key : String) (v : Value) (ms : Members) :
    Option Members :=
  within false (fun _ inner => add path key v inner) current .header ms

end Members

end BatchCodec.Toml
