import BatchCodec.StatusLog
/-!
Displays: what is printed when the status log has changed.

The line display prints the newest line. The panel display prints all lines; in place, it first moves
the cursor up over the panel it drew before and clears the rest of the screen, so that only the
current panel remains. A panel of an empty log still takes one line.

Functions of the program: `refresh` of `NoDisplay`, `LineDisplay` and `PanelDisplay`
(`Display.refresh`), `panel_text` (`StatusLog.panelText`).
-/

namespace BatchCodec

/-- What stands in the panel of an empty log. -/
def panelPlaceholder : String := "(no status yet)"

def StatusLog.panelText (log : StatusLog) : String :=
  if log.lines.isEmpty then panelPlaceholder else log.text

/-- A display and what it remembers between two refreshes. -/
inductive Display where
  /-- Prints nothing. -/
  | silent
  /-- Prints the newest line. -/
  | line
  /-- Prints the panel; `drawn` is the height of the panel last drawn, 0 if there is none. -/
  | panel (inPlace : Bool) (drawn : Nat)
  deriving DecidableEq, Repr

namespace Display

def newPanel (inPlace : Bool) : Display := .panel inPlace 0

/-- Moves the cursor up and clears everything below it. -/
def eraseAbove (lines : Nat) : String :=
  "\x1b[" ++ toString lines ++ "A\x1b[J"

/-- Shows a log: the display afterwards and the text it printed. -/
def refresh (log : StatusLog) : Display → Display × String
  | silent => (silent, "")
  | line =>
    (line, match log.newest? with
      | some newest => newest ++ "\n"
      | none => "")
  | panel inPlace drawn =>
    let erased := if inPlace && 0 < drawn then eraseAbove drawn else ""
    (panel inPlace (max log.lines.length 1), erased ++ log.panelText ++ "\n")

end Display

end BatchCodec
