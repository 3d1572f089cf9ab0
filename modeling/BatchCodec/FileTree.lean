import BatchCodec.Path
/-!
File trees and looking up paths in them.

A tree has files and folders. A folder may forbid that its names are listed, that anything in it is
looked up, or both; the folder itself is still there. A path is looked up piece by piece from the root
or from the current folder, so `..` goes to the folder above the place reached and not above the text
written. Looking up is a total function with four ways to fail, and one of them looks at nothing but
the text: the host takes no path of 4096 bytes or more.

What is assumed of the host: there are no links and no special files, so a node has one place and is
a file or a folder; names are Unicode texts, as paths are; and the tree does not change while one
argument is expanded.
-/

namespace BatchCodec

/-- How a program that was started came to its end. -/
structure Execution where
  stdout : List UInt8 := []
  stderr : List UInt8 := []
  /-- The exit status; a program ended from outside has none. -/
  status : Option Int := some 0

/-- A program: how it ends for given arguments. -/
abbrev Program := List String → Execution

structure FileContent where
  /-- The text, unless the file may not be read or what it holds is no text. -/
  text : Option String := some ""
  /-- The program that the file is, if it can be executed. -/
  program : Option Program := none

/-- What a folder allows. Its names can be read without leave to look them up, and the other way
round. -/
structure Access where
  list : Bool
  search : Bool
  deriving DecidableEq, Repr

def Access.full : Access := ⟨true, true⟩

def Access.none : Access := ⟨false, false⟩

/-- A file, or a folder with its entries in the order in which it lists them. -/
inductive Node where
  | file (content : FileContent)
  | folder (access : Access) (entries : List (String × Node))

/-- Why a path leads nowhere. -/
inductive LookupError where
  /-- There is no entry of that name. -/
  | missing
  /-- A file stands where a folder is needed. -/
  | notFolder
  /-- A folder on the way does not allow it. -/
  | denied
  /-- The path has too many bytes. -/
  | tooLong
  deriving DecidableEq, Repr

def LookupError.message : LookupError → String
  | missing => "No such file or directory (os error 2)"
  | notFolder => "Not a directory (os error 20)"
  | denied => "Permission denied (os error 13)"
  | tooLong => "File name too long (os error 36)"

namespace Node

def isFolder : Node → Bool
  | file _ => false
  | folder _ _ => true

/-- The node at a place below this one, given by names. -/
def at? : Node → List String → Option Node
  | node, [] => some node
  | file _, _ :: _ => none
  | folder _ entries, name :: place => (entries.lookup name).bind (fun child => child.at? place)

end Node

/-- A tree with a current folder, given by names from the root. -/
structure FileTree where
  root : Node
  current : List String := []

namespace FileTree

/-- One piece of a path, from a place already reached. An empty piece needs a folder and stays
there; every other piece is looked up in the folder, which the folder has to allow. -/
def step (t : FileTree) (place : List String) (piece : List Char) :
    Except LookupError (List String) :=
  match t.root.at? place with
  | none => .error .missing
  | some (.file _) => .error .notFolder
  | some (.folder access entries) =>
    if piece = [] then .ok place
    else if !access.search then .error .denied
    else if piece = ['.'] then .ok place
    else if piece = ['.', '.'] then .ok place.dropLast
    else if (entries.lookup (String.ofList piece)).isSome then
      .ok (place ++ [String.ofList piece])
    else .error .missing

def steps (t : FileTree) : List String → List (List Char) → Except LookupError (List String)
  | place, [] => .ok place
  | place, piece :: pieces =>
    match t.step place piece with
    | .ok next => t.steps next pieces
    | .error e => .error e

/-- The number of bytes from which on a path is too long. -/
def byteLimit : Nat := 4096

/-- The place a path leads to. The empty path and a path with a NUL character lead nowhere. -/
def locate (t : FileTree) (p : Path) : Except LookupError (List String) :=
  if p.text.toList.contains '\x00' then .error .missing
  else if byteLimit ≤ p.byteSize then .error .tooLong
  else
    match p.text.toList with
    | [] => .error .missing
    | '/' :: rest => t.steps [] (Text.splitOn '/' rest)
    | cs => t.steps t.current (Text.splitOn '/' cs)

def find (t : FileTree) (p : Path) : Except LookupError Node :=
  match t.locate p with
  | .error e => .error e
  | .ok place =>
    match t.root.at? place with
    | some node => .ok node
    | none => .error .missing

/-- Whether a path leads anywhere. -/
def has (t : FileTree) (p : Path) : Bool :=
  match t.find p with
  | .ok _ => true
  | .error _ => false

/-- Whether a path leads to a folder. -/
def isFolder (t : FileTree) (p : Path) : Bool :=
  match t.find p with
  | .ok node => node.isFolder
  | .error _ => false

/-- Whether a path leads to a file. -/
def isFile (t : FileTree) (p : Path) : Bool :=
  match t.find p with
  | .ok node => !node.isFolder
  | .error _ => false

/-- The names in the folder a path leads to, in the order in which the folder lists them. -/
def names (t : FileTree) (p : Path) : Except LookupError (List String) :=
  match t.find p with
  | .error e => .error e
  | .ok (.file _) => .error .notFolder
  | .ok (.folder access entries) =>
    if access.list then .ok (entries.map Prod.fst) else .error .denied

/-- The text of the file a path leads to, if it can be read as text. -/
def readText? (t : FileTree) (p : Path) : Option String :=
  match t.find p with
  | .ok (.file content) => content.text
  | _ => none

end FileTree

end BatchCodec
