import BatchCodec.Codec.Host
import BatchCodec.Codec.Template
import BatchCodec.Converter
import BatchCodec.Text.Blank
import BatchCodec.Text.Quoted
import BatchCodec.Text.Utf8
/-!
The codec as a program of the host, started once for each file.

Exit status zero means converted. Any other exit status is a rejection whose message is what the
program wrote: its error output if that is not blank, else its output if that is not blank, else the
status itself. No exit status at all, or a program that did not start, is a fault.

Functions of the program: `CommandCodec.convert` (`CodecCommand.reply`, the end of the codec program in
`judge`), `failure_message` (`rejectionMessage`).
-/

namespace BatchCodec

/-- The message of a rejection: the first of the two outputs that is not blank, trimmed. -/
def rejectionMessage (stderr stdout : List UInt8) (status : Int) : String :=
  let err := Text.trim (Text.decodeUtf8 stderr)
  let out := Text.trim (Text.decodeUtf8 stdout)
  if !err.isEmpty then err
  else if !out.isEmpty then out
  else "codec exited with status " ++ toString status

/-- What the end of the codec program means. -/
def judge (program : String) (e : Execution) : Except Failure Unit :=
  match e.status with
  | none => .error (.fault (.terminated program))
  | some 0 => .ok ()
  | some status => .error (.rejected (rejectionMessage e.stderr e.stdout status))

def startFault (program : String) : StartError → Fault
  | .lookup .missing => .notFound program
  | e => .notStarted program e.message

namespace CodecCommand

/-- Runs the codec program for one request. -/
def reply (c : CodecCommand) (h : Host) (r : Request) : Reply :=
  let args := c.arguments r.direction r.input r.outputDir
  let records : List Record :=
    [⟨.debug, .command, "running " ++ c.program ++ " " ++ Text.quoteList args⟩]
  match h.start c.program args with
  | .error e => { result := .error (.fault (startFault c.program e)), records := records }
  | .ok e =>
    { result := judge c.program e, records := records, started := [c.program :: args] }

def converter (c : CodecCommand) (h : Host) : Converter :=
  .stateless c.program (c.reply h)

end CodecCommand

end BatchCodec
