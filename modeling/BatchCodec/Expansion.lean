import BatchCodec.Direction
import BatchCodec.Failure
import BatchCodec.Pattern.Walk
/-!
From one input argument to files.

What exists is never read as a pattern. A folder stands for the files in it that the direction
accepts, a pattern for the files it leads to, and anything else for itself, to be judged by the codec.
Files are listed in path order.

Functions of the program: `expand_input` (`expandInput`, its two lists `folderFiles` and
`patternFiles`), the loop of `PresetPicker.pick_files` (`expandInputs`).
-/

namespace BatchCodec

def folderFiles (t : FileTree) (folder : Path) (names : List String) (d : Direction) : List Path :=
  Path.sort ((names.map folder.join).filter fun p => t.isFile p && d.accepts p)

def patternFiles (t : FileTree) (g : Pattern.Glob) : List Path :=
  Path.sort ((g.paths t).filter t.isFile)

/-- The files that one input argument stands for. -/
def expandInput (t : FileTree) (d : Direction) (raw : Path) : Except PickError (List Path) :=
  if !t.has raw && Pattern.isPattern raw.text then
    match Pattern.Glob.read raw.text.toList with
    | .error e => .error (.pattern raw.text e.message)
    | .ok g => .ok (patternFiles t g)
  else if t.isFolder raw then
    match t.names raw with
    | .error e => .error (.unreadable raw e.message)
    | .ok names => .ok (folderFiles t raw names d)
  else .ok [raw]

/-- The files that several input arguments stand for, in the order of the arguments; the first
argument that cannot be expanded fails all of them. -/
def expandInputs (t : FileTree) (d : Direction) : List Path → Except PickError (List Path)
  | [] => .ok []
  | raw :: raws =>
    match expandInput t d raw with
    | .error e => .error e
    | .ok files =>
      match expandInputs t d raws with
      | .error e => .error e
      | .ok more => .ok (files ++ more)

end BatchCodec
