import BatchCodec.Text.Lines
/-!
Paths: texts with a view as components.

A path is kept exactly as it was written. Its components forget repeated separators and the `.`
components that do not stand at the very beginning; equality and order of paths as places are those
of their components. The text of the parent is cut from the text of the path, not rebuilt from
components.

Paths are Unicode texts: a host may have names that are none, and they are left out here and in file
trees.
-/

namespace BatchCodec

/-- A path as it was written. -/
structure Path where
  text : String
  deriving DecidableEq, Repr, Inhabited

/-- One step of a path. -/
inductive Component where
  /-- The root, at the beginning of an absolute path. -/
  | root
  /-- A `.` at the beginning of a relative path. -/
  | here
  /-- A `..` anywhere. -/
  | up
  /-- Any other name. -/
  | name (n : List Char)
  deriving DecidableEq, Repr

namespace Component

/-- Kinds of components in ascending order. -/
def rank : Component → Nat
  | root => 0
  | here => 1
  | up => 2
  | name _ => 3

/-- Whether one text comes strictly before another, by code points. -/
def charsBefore : List Char → List Char → Bool
  | _, [] => false
  | [], _ :: _ => true
  | a :: as, b :: bs => a.toNat < b.toNat || (a == b && charsBefore as bs)

def before : Component → Component → Bool
  | name a, name b => charsBefore a b
  | a, b => a.rank < b.rank

/-- Whether one list of components comes before another or is the same. -/
def upTo : List Component → List Component → Bool
  | [], _ => true
  | _ :: _, [] => false
  | a :: as, b :: bs => a.before b || (a == b && upTo as bs)

/-- The component that a piece between separators stands for; empty pieces and `.` stand for none. -/
def ofPiece? : List Char → Option Component
  | [] => none
  | ['.'] => none
  | ['.', '.'] => some up
  | n => some (name n)

end Component

namespace Path

def components (p : Path) : List Component :=
  match p.text.toList with
  | '/' :: rest => .root :: (Text.splitOn '/' rest).filterMap Component.ofPiece?
  | cs =>
    match Text.splitOn '/' cs with
    | ['.'] :: pieces => .here :: pieces.filterMap Component.ofPiece?
    | pieces => pieces.filterMap Component.ofPiece?

def sameAs (p q : Path) : Bool :=
  p.components == q.components

/-- Whether one path comes before another, component by component, or has the same components. -/
def upTo (p q : Path) : Bool :=
  Component.upTo p.components q.components

/-- Paths in ascending order; paths with the same components keep their order. -/
def sort (paths : List Path) : List Path :=
  paths.mergeSort upTo

/-- The number of bytes that the host needs for the text of a path. -/
def byteSize (p : Path) : Nat :=
  Text.byteSize p.text.toList

def isAbsolute (p : Path) : Bool :=
  p.text.toList.head? == some '/'

/-- The path of the entry `name` below a path. -/
def join (p : Path) (name : String) : Path :=
  if p.text.isEmpty || p.text.toList.getLast? == some '/' then ⟨p.text ++ name⟩
  else ⟨p.text ++ "/" ++ name⟩

/-- Whether a piece between separators stands for a component. -/
def isSignificant (piece : List Char) : Bool :=
  (Component.ofPiece? piece).isSome

/-- The pieces without those at the end that stand for no component. -/
def dropInsignificant (pieces : List (List Char)) : List (List Char) :=
  (pieces.reverse.dropWhile (fun piece => !isSignificant piece)).reverse

/-- The path without its last component and what stands around it, cut from its text. The root and
the empty path have no parent; a single relative component has the empty one. -/
def parent? (p : Path) : Option Path :=
  match p.text.toList with
  | [] => none
  | '/' :: rest =>
    match dropInsignificant (Text.splitOn '/' rest) with
    | [] => none
    | pieces =>
      some ⟨String.ofList ('/' :: Text.joinWith '/' (dropInsignificant pieces.dropLast))⟩
  | cs =>
    match Text.splitOn '/' cs with
    | [] => none
    | first :: pieces =>
      match dropInsignificant pieces with
      | [] => some ⟨""⟩
      | pieces =>
        some ⟨String.ofList (Text.joinWith '/' (first :: dropInsignificant pieces.dropLast))⟩

/-- The last component, if it is a name. -/
def fileName? (p : Path) : Option (List Char) :=
  match p.components.getLast? with
  | some (.name n) => some n
  | _ => none

/-- What follows the last full stop of a file name, unless no or only the first character is one. -/
def extensionOf? (n : List Char) : Option (List Char) :=
  match (Text.splitOn '.' n).reverse with
  | _ :: [] => none
  | [_, []] => none
  | ext :: _ => some ext
  | [] => none

def extension? (p : Path) : Option (List Char) :=
  p.fileName?.bind extensionOf?

end Path

end BatchCodec
