import BatchCodec.Json
import BatchCodec.Report
import BatchCodec.Report.Timing
/-!
The report of a batch as a JSON document. Keys stand in alphabetical order.

Every path is a Unicode text here, so that every report has a document. What the program does with any
other report is said where a report is presented.

Functions of the program: `report_json` (`Report.json`), `cancelled_json` (`cancelledJson`).
-/

namespace BatchCodec

def Item.document (item : Item) : Json :=
  let input := ("input", Json.string item.input.text)
  match item.outcome with
  | .converted => .object [input, ("status", .string "converted")]
  | .failed summary =>
    .object [input, ("status", .string "failed"), ("summary", .string summary)]
  | .unexpected detail =>
    .object [("detail", .string detail), input, ("status", .string "unexpected")]

namespace Report

def document (r : Report) (t : Timing) : Json :=
  .object [
    ("converted", .ofNat r.converted),
    ("direction", .string r.direction.name),
    ("elapsed_ms", (t.elapsedNumber?.map Json.number).getD .null),
    ("entries", .list (r.entries.map Json.string)),
    ("failed", .ofNat r.failed),
    ("items", .list (r.items.map Item.document)),
    ("output_dir", .string r.outputDir.text),
    ("skipped", .list (r.skipped.map fun p => Json.string p.text)),
    ("started_at", .string t.started.text),
    ("unexpected", .ofNat r.unexpected)]

def json (r : Report) (t : Timing) : String :=
  (r.document t).pretty

end Report

def cancelledDocument (line : String) : Json :=
  .object [("cancelled", .bool true), ("entries", .list [.string line])]

def cancelledJson (line : String) : String :=
  (cancelledDocument line).pretty

end BatchCodec
