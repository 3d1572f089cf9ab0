import BatchCodec.FileTree.Build
import BatchCodec.Program
import Std.Time.DateTime.Timestamp

/-!
The program on the command line.

The working folder and the configuration files are read once, before anything else; the run itself is
a function of that snapshot. Programs are not part of the snapshot, so every codec is one that cannot
be found. The shell needs a terminal; a line typed at a prompt is the answer, and an empty line
accepts the text that the prompt shows.
-/

namespace BatchCodec.Main

def snapshotDepth : Nat := 24

/-- The names on the way to an absolute path. -/
def placeOf (path : String) : List String :=
  (Text.split '/' path).filter fun name => !name.isEmpty

/-- Reads what is below a folder; of a folder that cannot be listed nothing is known. -/
def readFolder : Nat → IO.FS.DirEntry → IO Node
  | 0, _ => return .emptyFolder
  | depth + 1, entry => do
    if ← entry.path.isDir then
      try
        let entries ← entry.path.readDir
        let nodes ← entries.toList.mapM fun e => do return (e.fileName, ← readFolder depth e)
        return .folder .full nodes
      catch _ => return .folder .none []
    else return .file {}

/-- Reads the working folder and the places for a configuration. -/
def readTree (s : Surroundings) : IO FileTree := do
  let folder ← IO.currentDir
  let place := placeOf folder.toString
  let entries ← folder.readDir
  let nodes ← entries.toList.mapM fun e => do return (e.fileName, ← readFolder snapshotDepth e)
  let mut root := Node.emptyFolder.put place (.folder .full nodes)
  for candidate in s.candidates do
    try
      let text ← IO.FS.readFile candidate.text
      root := root.put (placeOf candidate.text) (.file { text := some text })
    catch _ => pure ()
  return ⟨root, place⟩

/-- What the variables of the environment say. -/
def readSurroundings : IO Surroundings := do
  let home := (← IO.getEnv "HOME").getD "/"
  return ⟨⟨home⟩, (← IO.getEnv "XDG_CONFIG_HOME").map Path.mk⟩

def now : IO Timestamp := do
  let nanos := (← Std.Time.Timestamp.now).toNanosecondsSinceUnixEpoch.val
  return ⟨nanos.fdiv 1000000000, (nanos.fmod 1000000000).toNat⟩

/-- The warnings about configuration files that could not be understood. -/
def warn (broken : List Path) : IO Unit :=
  broken.forM fun p => IO.eprintln (brokenWarning p ++ "not a valid configuration")

def ask (title shown : String) : IO String := do
  IO.eprint (title ++ " [" ++ shown ++ "]: ")
  let line ← (← IO.getStdin).getLine
  let answer := String.ofList (line.toList.filter fun c => c != '\n')
  return if answer.isEmpty then shown else answer

/-- The choices of the shell until the user leaves it. -/
partial def visit (s : Settings) (w : World) (filter : RecordFilter) (session : Session) :
    IO Unit := do
  IO.eprint "DGR TOOLS: 1 Compile, 2 Decompile, 3 Show log, 4 Quit: "
  let line ← (← IO.getStdin).getLine
  let act (choice : MenuChoice) : IO Unit := do
    let step := Shell.act s w.host.tree (s.command.converter w.host) ⟨← now, 0⟩ session choice
    IO.eprint (String.join ((step.trace.records.filter filter.passes).map Record.line))
    IO.print step.trace.printed
    visit s w filter step.session
  let convert (d : Direction) : IO Unit := do
    let folders := session.memory.get d
    let files ← ask d.inputTitle (fileSeed folders.input)
    let folder ← ask d.outputTitle (folderSeed folders.output)
    act (.convert d ⟨fun _ => .ok files, fun _ => .ok folder⟩)
  match Text.trim line with
  | "1" => convert .compile
  | "2" => convert .decompile
  | "3" => act .showLog
  | "" => if line.isEmpty then return () else visit s w filter session
  | _ => return ()

def shell (i : CommandLine.Invocation) (w : World) : IO UInt32 := do
  let found := Config.load w.host.tree w.surroundings
  let settings := Settings.of i found.config w.terminal
  warn found.broken
  let filter := Program.filter w settings.debug
  let records := (found.source.map Program.loadedRecord).toList ++ [Shell.startedRecord]
  IO.eprint (Program.filterWarnings w ++ String.join ((records.filter filter.passes).map Record.line))
  visit settings w filter (Session.start settings.folders.input settings.folders.output)
  return 0

/-- Says why no invocation came of the command line. -/
def explain (h : CommandLine.Halt) : IO UInt32 := do
  match h with
  | .version => IO.print CommandLine.versionText
  | .help => IO.println CommandLine.usageText
  | .usage e => IO.eprintln ("error: " ++ e.message ++ "\n\n" ++ CommandLine.usageText)
  return h.exitStatus.toUInt32

def run (arguments : List String) : IO UInt32 := do
  match CommandLine.Invocation.parse arguments with
  | .error h => explain h
  | .ok invocation =>
    let surroundings ← readSurroundings
    let tree ← readTree surroundings
    let terminal ← (← IO.getStdout).isTty
    let w : World := {
      host := ⟨tree, []⟩
      surroundings := surroundings
      filterText := ← IO.getEnv "RUST_LOG"
      terminal := terminal
      timing := ⟨← now, 0⟩
      menuFailure := some Shell.noTerminal }
    if invocation.task = .shell && terminal && (← (← IO.getStdin).isTty) then shell invocation w
    else
      match Program.run arguments w with
      | .error h => explain h
      | .ok c =>
        warn c.broken
        IO.print c.trace.printed
        IO.eprint c.errors
        return c.exitStatus.toUInt32

end BatchCodec.Main

def main (arguments : List String) : IO UInt32 :=
  BatchCodec.Main.run arguments
