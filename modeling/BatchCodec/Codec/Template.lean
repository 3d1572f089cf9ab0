import BatchCodec.Direction
import BatchCodec.Text.Replace
/-!
Argument templates of the codec program.

A template may mention the input file and the output folder by placeholders. An argument that is
nothing but a placeholder becomes the path. In a longer argument the placeholders of the input are
filled in first, and those of the output in what results.

Functions of the program: `build_args` (`fillArgument` for each argument), `CodecCommand.default` and
`CodecCommand.template` (`default`, `templates`).
-/

namespace BatchCodec

def inputPlaceholder : String := "\x7binput\x7d"

def outputPlaceholder : String := "\x7boutput\x7d"

/-- One argument with its placeholders filled in. -/
def fillArgument (input outputDir : Path) (template : String) : String :=
  if template = inputPlaceholder then input.text
  else if template = outputPlaceholder then outputDir.text
  else
    Text.replaceAll (Text.replaceAll template inputPlaceholder input.text) outputPlaceholder
      outputDir.text

/-- The codec program with the argument templates of each direction. -/
structure CodecCommand where
  program : String
  templates : PerDirection (List String)
  deriving DecidableEq, Repr

namespace CodecCommand

def defaultProgram : String := "dgrlin"

/-- The name of the direction, then the input file and the output folder. -/
def defaultTemplate (d : Direction) : List String :=
  [d.name, inputPlaceholder, outputPlaceholder]

def default : CodecCommand :=
  ⟨defaultProgram, ⟨defaultTemplate .compile, defaultTemplate .decompile⟩⟩

def arguments (c : CodecCommand) (d : Direction) (input outputDir : Path) : List String :=
  (c.templates.get d).map (fillArgument input outputDir)

end CodecCommand

end BatchCodec
