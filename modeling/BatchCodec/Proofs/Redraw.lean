import BatchCodec.Proofs.Announce
/-!
What a panel that is redrawn in place leaves on the screen.

A terminal is taken as the list of lines on it. A display sends it two kinds of strokes: erase so many
lines from the end, or print a text and a line break; what a display prints is the text of its strokes
(`printed_refresh`).

The panel remembers one number, how many lines it drew, and erases as many before it draws again. So
the invariant ties that number to the end of the screen: the last lines, as many as remembered, are
those of the panel last drawn, and what stands above them is settled (`Scene.Drawn`). A push changes
neither; a refresh replaces exactly these lines (`Drawn.screen_refresh`). A panel is remembered as
high as the log has lines, and is higher if one of them has a break; the part that is not remembered
is never erased (`StatusLog.surplus`). Along any events the screen is what was there, these parts of
the panels shown before, and the current panel (`redraw_leaves_the_current_panel`).
-/

namespace BatchCodec

/-! ## The terminal -/

/-- What is sent to a terminal at once. -/
inductive Stroke where
  /-- Moves the cursor up and clears everything below it. -/
  | erase (lines : Nat)
  /-- Prints a text and a line break. -/
  | print (text : String)
  deriving DecidableEq, Repr

def Stroke.text : Stroke → String
  | erase lines => Display.eraseAbove lines
  | print text => text ++ "\n"

/-- The lines on the screen after a stroke. -/
def Stroke.draw (screen : List String) : Stroke → List String
  | erase lines => screen.take (screen.length - lines)
  | print text => screen ++ Text.split '\n' text

/-- The strokes with which a display shows a log. -/
def Display.strokes (log : StatusLog) : Display → List Stroke
  | silent => []
  | line => log.newest?.toList.map .print
  | panel inPlace drawn =>
    (if inPlace && 0 < drawn then [.erase drawn] else []) ++ [.print log.panelText]

theorem Display.printed_refresh (log : StatusLog) (display : Display) :
    (display.refresh log).2 = String.join ((display.strokes log).map Stroke.text) := by
  cases display with
  | silent => rfl
  | line => cases h : log.newest? <;> simp [refresh, strokes, h, Stroke.text]
  | panel inPlace drawn =>
    simp only [refresh, strokes]
    split <;> simp [Stroke.text, String.append_assoc]

/-- A log with a display that shows it, and the screen it is shown on. -/
structure Scene where
  board : Board
  screen : List String
  deriving DecidableEq, Repr

/-- What can happen to a log that is shown. -/
inductive LogEvent where
  | push (line : String)
  | refresh
  deriving DecidableEq, Repr

namespace Scene

/-- A screen on which no panel has been drawn yet. -/
def start (screen : List String) (log : StatusLog) : Scene :=
  ⟨⟨log, Display.newPanel true⟩, screen⟩

def step (scene : Scene) : LogEvent → Scene
  | .push line => { scene with board := { scene.board with log := scene.board.log.push line } }
  | .refresh =>
    { board := { scene.board with display := (scene.board.display.refresh scene.board.log).1 }
      screen := (scene.board.display.strokes scene.board.log).foldl Stroke.draw scene.screen }

def run (scene : Scene) (events : List LogEvent) : Scene := events.foldl step scene

end Scene

/-! ## The height of a panel -/

theorem Text.length_splitOn (sep : Char) (cs : List Char) :
    (splitOn sep cs).length = cs.count sep + 1 := by
  induction cs with
  | nil => rfl
  | cons c cs ih =>
    obtain ⟨piece, pieces, hs⟩ := List.exists_cons_of_ne_nil (splitOn_ne_nil sep cs)
    rw [hs] at ih
    by_cases h : c = sep
    · simpa [splitOn, h, hs] using ih
    · simpa [splitOn, h, hs] using ih

theorem Text.length_flatMap_splitOn (sep : Char) (pieces : List (List Char)) :
    (pieces.flatMap (splitOn sep)).length = pieces.length + pieces.flatten.count sep := by
  induction pieces with
  | nil => rfl
  | cons piece pieces ih =>
    simp only [List.flatMap_cons, List.length_append, length_splitOn, ih, List.length_cons,
      List.flatten_cons, List.count_append]
    omega

namespace StatusLog

def panelLines (log : StatusLog) : List String := Text.split '\n' log.panelText

/-- How many lines of the panel are remembered. -/
def panelHeight (log : StatusLog) : Nat := max log.lines.length 1

/-- The first lines of the panel, as many as are not remembered. -/
def surplus (log : StatusLog) : List String :=
  log.panelLines.take (log.panelLines.length - log.panelHeight)

/-- Each line break inside a line makes the panel one line higher than is remembered. -/
theorem length_panelLines (log : StatusLog) :
    log.panelLines.length = log.panelHeight + (log.lines.map String.toList).flatten.count '\n' := by
  obtain ⟨capacity, lines⟩ := log
  cases lines with
  | nil =>
    have hplaceholder : (Text.split '\n' panelPlaceholder).length = 1 := by decide
    exact hplaceholder
  | cons line lines =>
    have hne : (line :: lines).map String.toList ≠ [] := by simp
    simp only [panelLines, panelText, text, Text.split, Text.unlines, List.isEmpty_cons,
      Bool.false_eq_true, if_false, String.toList_ofList, List.length_map,
      Text.splitOn_joinWith hne, Text.length_flatMap_splitOn, panelHeight]
    simp only [List.length_cons]
    omega

theorem surplus_eq_nil_iff (log : StatusLog) :
    log.surplus = [] ↔ ∀ line ∈ log.lines, '\n' ∉ line.toList := by
  have hlength : log.surplus.length = (log.lines.map String.toList).flatten.count '\n' := by
    rw [surplus, List.length_take, length_panelLines]
    omega
  rw [← List.length_eq_zero_iff, hlength, List.count_eq_zero]
  simp

end StatusLog

namespace Scene

/-- The last lines of the screen are the panel, as many as it remembers; `above` stands above it. -/
def Drawn (above : List String) (scene : Scene) : Prop :=
  ∃ panel : List String, scene.board.display = .panel true panel.length ∧
    scene.screen = above ++ panel

theorem drawn_start (screen : List String) (log : StatusLog) :
    (start screen log).Drawn screen :=
  ⟨[], rfl, (List.append_nil screen).symm⟩

theorem Drawn.push {above : List String} {scene : Scene} (h : scene.Drawn above) (line : String) :
    (scene.step (.push line)).Drawn above := h

/-- A refresh erases the panel drawn before and nothing else. -/
theorem Drawn.screen_refresh {above : List String} {scene : Scene} (h : scene.Drawn above) :
    (scene.step .refresh).screen = above ++ scene.board.log.panelLines := by
  obtain ⟨panel, hdisplay, hscreen⟩ := h
  simp only [step, hdisplay, hscreen, Display.strokes]
  cases panel with
  | nil => simp [Stroke.draw, StatusLog.panelLines]
  | cons line lines => simp [Stroke.draw, StatusLog.panelLines]

theorem Drawn.refresh {above : List String} {scene : Scene} (h : scene.Drawn above) :
    (scene.step .refresh).Drawn (above ++ scene.board.log.surplus) := by
  have hscreen := h.screen_refresh
  obtain ⟨panel, hdisplay, -⟩ := h
  let log := scene.board.log
  have hlength := log.length_panelLines
  refine ⟨log.panelLines.drop (log.panelLines.length - log.panelHeight), ?_, ?_⟩
  · rw [List.length_drop]
    simp only [step, hdisplay, Display.refresh]
    congr 1
    show log.panelHeight = _
    omega
  · rw [hscreen, List.append_assoc]
    congr 1
    exact (List.take_append_drop _ _).symm

end Scene

/-! ## Any events -/

def pushedLines : List LogEvent → List String
  | [] => []
  | .push line :: events => line :: pushedLines events
  | .refresh :: events => pushedLines events

def shownLogs : StatusLog → List LogEvent → List StatusLog
  | _, [] => []
  | log, .push line :: events => shownLogs (log.push line) events
  | log, .refresh :: events => log :: shownLogs log events

theorem Scene.log_run (scene : Scene) (events : List LogEvent) :
    (scene.run events).board.log = scene.board.log.pushAll (pushedLines events) := by
  induction events generalizing scene with
  | nil => rfl
  | cons e events ih => cases e <;> exact ih _

theorem Scene.Drawn.run {above : List String} {scene : Scene} (h : scene.Drawn above)
    (events : List LogEvent) :
    (scene.run events).Drawn
      (above ++ (shownLogs scene.board.log events).flatMap StatusLog.surplus) := by
  induction events generalizing scene above with
  | nil =>
    rw [shownLogs, List.flatMap_nil, List.append_nil]
    exact h
  | cons e events ih =>
    cases e with
    | push line => exact ih (h.push line)
    | refresh =>
      have hlater := ih h.refresh
      rw [List.append_assoc] at hlater
      exact hlater

/-- A line of a log that was shown was there at the start or was pushed on the way. -/
theorem mem_of_mem_shownLogs {log shown : StatusLog} {events : List LogEvent} {line : String}
    (hshown : shown ∈ shownLogs log events) (hline : line ∈ shown.lines) :
    line ∈ log.lines ∨ line ∈ pushedLines events := by
  induction events generalizing log with
  | nil => cases hshown
  | cons e events ih =>
    cases e with
    | push pushed =>
      rcases ih hshown with hmem | hmem
      · rcases List.mem_cons.mp (List.mem_of_mem_take hmem) with rfl | hmem
        · exact Or.inr List.mem_cons_self
        · exact Or.inl hmem
      · exact Or.inr (List.mem_cons_of_mem _ hmem)
    | refresh =>
      rcases List.mem_cons.mp hshown with rfl | hshown
      · exact Or.inl hline
      · exact ih hshown

/-- **A redraw leaves exactly the current panel on the screen.** Take any screen, any log and a panel
that is redrawn in place and has drawn nothing yet, and let lines be pushed and the panel refreshed
in any order. After a further refresh the screen is what was there at first, then what earlier panels
left behind, then the lines of the panel of the current log. If no line that was in the log or was
pushed has a break, nothing is left behind; in general nothing is if and only if no log shown before
had a line with a break. What the display prints at a refresh is the text of its strokes. -/
theorem redraw_leaves_the_current_panel (prior : List String) (log : StatusLog)
    (events : List LogEvent) :
    let scene := (Scene.start prior log).run events
    let current := log.pushAll (pushedLines events)
    let screen := (scene.step .refresh).screen
    let panel := Text.split '\n' current.panelText
    scene.board.log = current ∧
    (scene.board.display.refresh current).2 =
      String.join ((scene.board.display.strokes current).map Stroke.text) ∧
    ((∀ line ∈ log.lines ++ pushedLines events, '\n' ∉ line.toList) → screen = prior ++ panel) ∧
    screen = prior ++ (shownLogs log events).flatMap StatusLog.surplus ++ panel ∧
    (screen = prior ++ panel ↔
      ∀ shown ∈ shownLogs log events, ∀ line ∈ shown.lines, '\n' ∉ line.toList) := by
  intro scene current screen panel
  have hlog : scene.board.log = current := Scene.log_run _ events
  have hscreen : screen = prior ++ (shownLogs log events).flatMap StatusLog.surplus ++ panel := by
    have hrefresh := ((Scene.drawn_start prior log).run events).screen_refresh
    rw [hlog] at hrefresh
    exact hrefresh
  have hexact : screen = prior ++ panel ↔
      ∀ shown ∈ shownLogs log events, ∀ line ∈ shown.lines, '\n' ∉ line.toList := by
    rw [hscreen, List.append_left_inj, List.append_right_eq_self, List.flatMap_eq_nil_iff]
    simp only [StatusLog.surplus_eq_nil_iff]
  refine ⟨hlog, Display.printed_refresh current _, ?_, hscreen, hexact⟩
  intro hsingle
  rw [hexact]
  intro shown hshown line hline
  exact hsingle line (List.mem_append.mpr (mem_of_mem_shownLogs hshown hline))

/-- A log of two lines that is filled beyond its capacity, an empty line among those pushed, and a
log that holds no line at all. -/
theorem redraw_leaves_the_current_panel_of_a_full_log :
    let events : List LogEvent :=
      [.refresh, .push "a", .push "", .refresh, .push "b", .refresh, .push "c"]
    let screen := fun capacity =>
      (((Scene.start ["$ codec"] (.empty capacity)).run events).step .refresh).screen
    (∀ line ∈ [] ++ pushedLines events, '\n' ∉ line.toList) ∧
      screen 2 = ["$ codec", "c", "b"] ∧ screen 0 = ["$ codec", "(no status yet)"] := by
  intro events screen
  have hsingle : ∀ line ∈ [] ++ pushedLines events, '\n' ∉ line.toList := by decide
  have hscreen := fun capacity =>
    (redraw_leaves_the_current_panel ["$ codec"] (.empty capacity) events).2.2.1 hsingle
  exact ⟨hsingle, (hscreen 2).trans (by decide), (hscreen 0).trans (by decide)⟩

end BatchCodec
