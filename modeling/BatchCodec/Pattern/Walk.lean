import BatchCodec.FileTree
import BatchCodec.Pattern.Basic
/-!
The paths of a file tree that a pattern leads to.

A pattern is read as parts between separators. A literal part is looked up; a part with wildcards
is compared with the names of a folder; two stars compare the part after them with every entry
below a folder, however deep. Folders that cannot be read contribute nothing. From the current folder
entries are reached by their bare names.
-/

namespace BatchCodec.Pattern

inductive Part where
  /-- A name without wildcards. -/
  | literal (name : List Char)
  /-- A name with wildcards. -/
  | wild (ts : List Token)
  /-- Any number of folders. -/
  | folders
  deriving DecidableEq, Repr

namespace Part

def ofTokens (ts : List Token) : Part :=
  if ts = [.folders] then .folders
  else
    match literal? ts with
    | some name => .literal name
    | none => .wild ts

/-- Whether a name in a folder matches the part. -/
def fits (name : String) : Part → Bool
  | literal n => name.toList == n
  | wild ts => matchesName ts name.toList
  | folders => false

/-- Whether the part begins with a full stop, which is needed to match `.` and `..`. -/
def beginsWithDot : Part → Bool
  | wild (.char '.' :: _) => true
  | _ => false

end Part

structure Glob where
  absolute : Bool
  parts : List Part
  /-- Only folders are asked for: the pattern ends with a separator. -/
  foldersOnly : Bool
  deriving Repr

/-- The pieces without an empty one at the end. -/
def dropLastEmpty : List (List Char) → List (List Char)
  | [] => []
  | [[]] => []
  | piece :: pieces => piece :: dropLastEmpty pieces

/-- Two stars several times in a row count once. -/
def collapse : List Part → List Part
  | .folders :: .folders :: parts => collapse (.folders :: parts)
  | part :: parts => part :: collapse parts
  | [] => []

def readParts : List (List Char) → Except Malformed (List Part)
  | [] => .ok []
  | piece :: pieces =>
    match tokens none piece with
    | .error e => .error e
    | .ok ts => (readParts pieces).map (Part.ofTokens ts :: ·)

/-- Reads a pattern: it has to be well formed as a whole and in each part. -/
def Glob.read (pattern : List Char) : Except Malformed Glob :=
  match tokens none pattern with
  | .error e => .error e
  | .ok _ =>
    let absolute := pattern.head? == some '/'
    let pieces := Text.splitOn '/' (if absolute then pattern.drop 1 else pattern)
    match readParts (dropLastEmpty pieces) with
    | .error e => .error e
    | .ok parts => .ok ⟨absolute, collapse parts, pattern.getLast? == some '/'⟩

/-- An entry met on the way: its name, its path, and whether it is a folder. -/
structure Entry where
  name : String
  path : Path
  isFolder : Bool

/-- Values in the order of the names they belong to. -/
def inNameOrder {α : Type} (xs : List (String × α)) : List α :=
  (xs.mergeSort (fun a b => !Component.charsBefore b.1.toList a.1.toList)).map Prod.snd

mutual

/-- Every entry below a node, each folder directly before what it holds, in the order of names.
`child` gives the path of an entry by its name. -/
def below (child : String → Path) : Node → List Entry
  | .file _ => []
  | .folder access entries =>
    if access.list then (inNameOrder (belowEntries child entries)).flatten else []

/-- For each entry of a folder its name, and the entry itself with everything below it. -/
def belowEntries (child : String → Path) : List (String × Node) → List (String × List Entry)
  | [] => []
  | (name, node) :: rest =>
    (name, ⟨name, child name, node.isFolder⟩ :: below (child name).join node) ::
      belowEntries child rest

end

/-- The path of an entry of a folder: its bare name in the current folder. -/
def childOf (folder : Path) (name : String) : Path :=
  if folder.sameAs ⟨"."⟩ then ⟨name⟩ else folder.join name

section Walk

variable (t : FileTree) (foldersOnly : Bool)

/-- A path at the end of a pattern is taken unless it is a file and only folders are asked for. -/
def arrive (p : Path) : List Path :=
  if foldersOnly && !t.isFolder p then [] else [p]

/-- The paths that parts lead to from a path, in the order in which they are met. -/
def walk : List Part → Path → List Path
  | [], p => arrive t foldersOnly p
  | .literal name :: parts, p =>
    let name := String.ofList name
    let there := if name = "." ∨ name = ".." then t.isFolder p else t.has (childOf p name)
    if there then walk parts (childOf p name) else []
  | .wild ts :: parts, p =>
    match t.names p with
    | .error _ => []
    | .ok names =>
      let part := Part.wild ts
      let special := fun name =>
        if part.beginsWithDot && part.fits name then walk parts (p.join name) else []
      let entries := names.map fun name =>
        (name, if part.fits name then walk parts (childOf p name) else [])
      special ".." ++ special "." ++ (inNameOrder entries).flatten
  | [.folders], p =>
    match t.find p with
    | .error _ => []
    | .ok node => ((below (childOf p) node).filter Entry.isFolder).map Entry.path
  | .folders :: part :: parts, p =>
    match t.find p with
    | .error _ => []
    | .ok node =>
      (below (childOf p) node).flatMap fun entry =>
        if part.fits entry.name then walk parts entry.path else []

end Walk

/-- The paths that a pattern leads to, in the order in which they are met. -/
def Glob.paths (g : Glob) (t : FileTree) : List Path :=
  walk t g.foldersOnly g.parts ⟨if g.absolute then "/" else "."⟩

end BatchCodec.Pattern
