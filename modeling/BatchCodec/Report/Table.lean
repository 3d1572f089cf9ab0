import BatchCodec.Report
import BatchCodec.Report.Timing
import BatchCodec.Text.Lines
import BatchCodec.Text.Width
/-!
The report of a batch as a table with a summary line.

The table has one row for every attempted file and then one for every file that was skipped, with its
number and what became of it; the numbers go on from the one list to the other. A cell may have several
lines; a column is as wide as the widest line of its cells. The summary line counts the rows of each
kind, leaving out kinds without rows except the converted.

Standard output is taken to be no terminal. On a terminal the table would also be wrapped to the width
of the screen, with a bold header and coloured results; elsewhere neither is written, whether or not
colour is asked for. The duration behind the summary is coloured wherever colour is asked for. Nothing
limits the width of a column.

Functions of the program: `render_report_table` (`Report.table`, `Table.render`), `summary_line`
(`Report.summary`), `plural` (`Report.plural`), `print_report` (`Report.printed`).
-/

namespace BatchCodec

/-- A table: a frame around rows of cells, with a line between each two rows. -/
structure Table where
  rows : List (List String)
  deriving Repr

namespace Table

def cellLines (cell : String) : List String := Text.split '\n' cell

/-- The number of columns of the screen that a cell needs. -/
def cellWidth (cell : String) : Nat :=
  ((cellLines cell).map Text.width).foldl max 0

def columnWidths (t : Table) : List Nat :=
  t.rows.foldl (fun widths row => List.zipWith max widths (row.map cellWidth))
    (((t.rows.head?.getD []).map fun _ => 0))

def between (left middle right : String) (cells : List String) : String :=
  left ++ middle.intercalate cells ++ right

/-- A line of the frame. -/
def rule (left middle right : String) (widths : List Nat) : String :=
  between left middle right (widths.map fun w => String.ofList (List.replicate (w + 2) '─'))

/-- A line of a cell, padded to the width of its column. -/
def pad (width : Nat) (line : String) : String :=
  " " ++ line ++ String.ofList (List.replicate (width - Text.width line) ' ') ++ " "

/-- The lines of a row; cells with fewer lines get blank ones. -/
def rowLines (widths : List Nat) (row : List String) : List String :=
  let cells := row.map cellLines
  let height := (cells.map List.length).foldl max 0
  (List.range height).map fun i =>
    between "│" "│" "│" (List.zipWith (fun w lines => pad w (lines[i]?.getD "")) widths cells)

/-- The lines of all rows with a line of the frame between each two rows. -/
def body (widths : List Nat) : List (List String) → List String
  | [] => []
  | [row] => rowLines widths row
  | row :: rows => rowLines widths row ++ rule "├" "┼" "┤" widths :: body widths rows

def render (t : Table) : String :=
  let widths := t.columnWidths
  Text.unlines (rule "┌" "┬" "┐" widths :: body widths t.rows ++ [rule "└" "┴" "┘" widths])

end Table

/-- One row of the report: its number, the file, and what became of it. -/
structure Row where
  number : Nat
  input : Path
  result : String
  deriving DecidableEq, Repr

/-- What the table says about an attempted file. -/
def Outcome.result (d : Direction) : Outcome → String
  | converted => d.verb
  | failed summary => "failed: " ++ summary
  | unexpected _ => "error (see log)"

namespace Report

def itemRows (r : Report) : List Row :=
  r.items.zipIdx.map fun (item, i) => ⟨i + 1, item.input, item.outcome.result r.direction⟩

/-- The rows of the files that were skipped; their numbers follow those of the attempted files. -/
def skippedRows (r : Report) : List Row :=
  r.skipped.zipIdx.map fun (p, i) => ⟨r.items.length + i + 1, p, "skipped"⟩

def rows (r : Report) : List Row := r.itemRows ++ r.skippedRows

def table (r : Report) : Table :=
  ⟨["#", "Input", "Result"] ::
    r.rows.map fun row => [toString row.number, row.input.text, row.result]⟩

def plural (n : Nat) (noun : String) : String :=
  toString n ++ " " ++ noun ++ (if n = 1 then "" else "s")

/-- A part of the summary line that is left out when it counts nothing. -/
def tally (n : Nat) (what : String) : List String :=
  if n = 0 then [] else [toString n ++ " " ++ what]

def summaryParts (r : Report) : List String :=
  [plural r.converted "file" ++ " " ++ r.direction.verb] ++ tally r.failed "failed" ++
    tally r.unexpected "errored" ++ tally r.skipped.length "skipped"

def summary (r : Report) : String :=
  ", ".intercalate r.summaryParts

/-- The printed report: the table and the summary line with the duration, in colour if asked for. A
report of nothing is not printed. -/
def printed (r : Report) (t : Timing) (color : Bool) : String :=
  if r.items.isEmpty && r.skipped.isEmpty then ""
  else
    let elapsed := t.elapsedWhole ++ "ms"
    let elapsed := if color then "\x1b[36m" ++ elapsed ++ "\x1b[0m" else elapsed
    r.table.render ++ "\n\n  " ++ r.summary ++ " | " ++ elapsed ++ "\n\n"

end Report

end BatchCodec
