import BatchCodec.FileTree
/-!
Hosts: a file tree, and the programs that can be started by name.

A name with a separator is a path in the tree; any other name is looked up among the commands of the
host. Starting can fail because there is no such program, because what is there cannot be executed,
because a file stands where a folder is needed, or because a text holds a NUL character.

The host is not part of the program; this says what the program relies on when `CommandCodec.convert`
starts another one.
-/

namespace BatchCodec

/-- What the program runs on. -/
structure Host where
  tree : FileTree
  /-- The files in the folder where programs are looked up by name. -/
  commands : List (String × FileContent) := []

/-- Why a program was not started. -/
inductive StartError where
  /-- The name leads to no program. -/
  | lookup (e : LookupError)
  /-- The name or an argument holds a NUL character. -/
  | nul
  deriving DecidableEq, Repr

def StartError.message : StartError → String
  | lookup e => e.message
  | nul => "nul byte found in provided data"

namespace Host

/-- The program a file is; a file that cannot be executed is none. -/
def executable (content : FileContent) : Except StartError Program :=
  match content.program with
  | some program => .ok program
  | none => .error (.lookup .denied)

def program (h : Host) (name : String) : Except StartError Program :=
  if name.toList.contains '/' then
    match h.tree.find ⟨name⟩ with
    | .error e => .error (.lookup e)
    | .ok (.folder _ _) => .error (.lookup .denied)
    | .ok (.file content) => executable content
  else if name = "." ∨ name = ".." then .error (.lookup .denied)
  else
    match h.commands.lookup name with
    | none => .error (.lookup .missing)
    | some content => executable content

/-- Starts a program and waits for its end. -/
def start (h : Host) (name : String) (args : List String) : Except StartError Execution :=
  if (name :: args).any (fun s => s.toList.contains '\x00') then .error .nul
  else
    match h.program name with
    | .error e => .error e
    | .ok program => .ok (program args)

end Host

end BatchCodec
