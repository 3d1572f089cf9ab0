import BatchCodec.ColorMode
import BatchCodec.Direction

/-!
Settings that a configuration file can hold. Every one of them may be left out.
-/

namespace BatchCodec

structure Config where
  debug : Bool := false
  json : Bool := false
  quiet : Bool := false
  noColor : Bool := false
  color : Option ColorMode := none
  /-- Where the first question for files starts. -/
  inputDir : Option Path := none
  /-- Where the first question for an output folder starts. -/
  outputDir : Option Path := none
  /-- The codec program. -/
  program : Option String := none
  /-- The argument templates of the codec program. -/
  templates : PerDirection (Option (List String)) := .both none
  /-- Whether a batch goes on after a rejected file. -/
  keepGoing : PerDirection (Option Bool) := .both none
  deriving DecidableEq, Repr

end BatchCodec
