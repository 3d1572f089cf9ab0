import BatchCodec.Codec.Template
import BatchCodec.CommandLine.Invocation
import BatchCodec.Config
import BatchCodec.Memory
import BatchCodec.Policy

/-!
Settings: what the command line and the configuration say together.

A flag is raised if either raises it. For the codec program, the output folder and the continuation
policy the command line wins; a colour mode of the configuration counts as long as the command line
leaves the choice open.

Functions of the program: `with_config` (`withConfig`), `use_color` (`useColor`), `codec_command`
(`command`), `policy` (`policy`), `initial_dirs` (`folders`).
-/

namespace BatchCodec

/-- Where the first question for files starts if nothing else is said. -/
def defaultInputDir : Path := ⟨"./data"⟩

/-- Where the first question for an output folder starts if nothing else is said. -/
def defaultOutputDir : Path := ⟨"./output"⟩

namespace CommandLine.Invocation

/-- The invocation with what the configuration adds to it. -/
def withConfig (i : Invocation) (c : Config) : Invocation :=
  { i with
    debug := i.debug || c.debug
    json := i.json || c.json
    quiet := i.quiet || c.quiet
    noColor := i.noColor || c.noColor
    color := if i.color = .auto then c.color.getD .auto else i.color
    codec := i.codec.or c.program }

def useColor (i : Invocation) (terminal : Bool) : Bool :=
  !i.noColor && i.color.isColored terminal

def command (i : Invocation) (c : Config) : CodecCommand where
  program := i.codec.getD CodecCommand.default.program
  templates := {
    compile := c.templates.compile.getD CodecCommand.default.templates.compile
    decompile := c.templates.decompile.getD CodecCommand.default.templates.decompile }

/-- The continuation policy; a flag of the command line decides both directions. -/
def policy (i : Invocation) (c : Config) : Policy :=
  if i.continueOnError || i.stopOnError then .both i.continueOnError
  else {
    compile := c.keepGoing.compile.getD Policy.default.compile
    decompile := c.keepGoing.decompile.getD Policy.default.decompile }

def folders (i : Invocation) (c : Config) : Folders where
  input := c.inputDir.getD defaultInputDir
  output := (i.output.or c.outputDir).getD defaultOutputDir

end CommandLine.Invocation

/-- Everything a run is told beforehand. -/
structure Settings where
  task : CommandLine.Task
  inputs : List Path := []
  /-- The output folder of the command line. -/
  output : Option Path := none
  json : Bool := false
  quiet : Bool := false
  color : Bool := false
  debug : Bool := false
  policy : Policy := Policy.default
  command : CodecCommand := CodecCommand.default
  /-- The folders the first questions start from. -/
  folders : Folders := ⟨defaultInputDir, defaultOutputDir⟩
  deriving DecidableEq, Repr

def Settings.of (i : CommandLine.Invocation) (c : Config) (terminal : Bool) : Settings :=
  let i := i.withConfig c
  { task := i.task
    inputs := i.inputs
    output := i.output
    json := i.json
    quiet := i.quiet
    color := i.useColor terminal
    debug := i.debug
    policy := i.policy c
    command := i.command c
    folders := i.folders c }

end BatchCodec
