import BatchCodec.Direction
/-!
The folders remembered for each direction: where the last input files came from and where the last
output went. Both directions start from the same pair.

Functions of the program: `DirectoryMemory.new` (`start`), `remember_input` (`rememberInput`, the
parent in `folderOf`), `remember_output` (`rememberOutput`).
-/

namespace BatchCodec

structure Folders where
  input : Path
  output : Path
  deriving DecidableEq, Repr

/-- The remembered folders of both directions. -/
abbrev Memory := PerDirection Folders

namespace Memory

def start (input output : Path) : Memory :=
  PerDirection.both ⟨input, output⟩

/-- The folder a file lies in; a file without a folder lies in the current one. -/
def folderOf (file : Path) : Path :=
  match file.parent? with
  | some folder => if folder.text.isEmpty then ⟨"."⟩ else folder
  | none => ⟨"."⟩

/-- Remembers the folder of the first input file. -/
def rememberInput (m : Memory) (d : Direction) (file : Path) : Memory :=
  m.set d { m.get d with input := folderOf file }

def rememberOutput (m : Memory) (d : Direction) (folder : Path) : Memory :=
  m.set d { m.get d with output := folder }

end Memory

end BatchCodec
