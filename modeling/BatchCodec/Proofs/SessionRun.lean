import BatchCodec.Proofs.Attempts
import BatchCodec.Proofs.Choice
/-!
Runs of a session: steps one after the other, each with a picker, a converter, a policy and a
display of its own.

A run is the list of its episodes, each a turn with the step that was taken on it (`episodes`), and
ends in the session after the last step (`after`). The session before the `k`-th step is the one
after the first `k` turns (`episodes_getElem?`), so what holds after every run holds at every moment
of one. What a single step can do is said once (`play_cases`).

Main statement: the status log is a cut of everything the run ever announced
(`session_log_is_newest_of_history`). One step pushes the lines of its episode (`log_play`); the run
adds nothing to this but the induction (`log_after`).
-/

namespace BatchCodec

/-- What one step of a session is given. -/
structure Turn where
  direction : Direction
  picker : Picker
  converter : Converter
  policy : Policy
  display : Display

/-- A turn with the step that was taken on it. -/
structure Episode where
  turn : Turn
  step : Step

namespace Session

/-- Plays a turn: takes the step it stands for. -/
def play (s : Session) (turn : Turn) : Step :=
  s.step turn.direction turn.picker turn.converter turn.policy turn.display

def after : Session → List Turn → Session
  | s, [] => s
  | s, turn :: turns => (s.play turn).session.after turns

def episodes : Session → List Turn → List Episode
  | _, [] => []
  | s, turn :: turns => ⟨turn, s.play turn⟩ :: (s.play turn).session.episodes turns

@[simp] theorem after_nil (s : Session) : s.after [] = s := rfl

@[simp] theorem after_cons (s : Session) (turn : Turn) (turns : List Turn) :
    s.after (turn :: turns) = (s.play turn).session.after turns := rfl

@[simp] theorem episodes_nil (s : Session) : s.episodes [] = [] := rfl

@[simp] theorem episodes_cons (s : Session) (turn : Turn) (turns : List Turn) :
    s.episodes (turn :: turns) = ⟨turn, s.play turn⟩ :: (s.play turn).session.episodes turns := rfl

/-- The first episodes of a run are the run of the first turns. -/
theorem take_episodes (s : Session) (turns : List Turn) (k : Nat) :
    (s.episodes turns).take k = s.episodes (turns.take k) := by
  induction turns generalizing s k with
  | nil => simp
  | cons turn turns ih =>
    cases k with
    | zero => rfl
    | succ k => rw [episodes_cons, List.take_succ_cons, List.take_succ_cons, ih, episodes_cons]

/-- Every step of a run is taken from the session after the turns before it. -/
theorem episodes_getElem? {s : Session} {turns : List Turn} {k : Nat} {e : Episode}
    (h : (s.episodes turns)[k]? = some e) : e.step = (s.after (turns.take k)).play e.turn := by
  induction turns generalizing s k with
  | nil => simp at h
  | cons turn turns ih =>
    cases k with
    | zero =>
      rw [episodes_cons, List.getElem?_cons_zero, Option.some.injEq] at h
      rw [← h]
      rfl
    | succ k =>
      rw [episodes_cons, List.getElem?_cons_succ] at h
      rw [List.take_succ_cons, after_cons]
      exact ih h

end Session

/-! ## One step

A step does one of three things, by how its two questions were answered. The `records` are those of
the two questions, which no statement below depends on.
-/

section Steps

variable {s : Session} {d : Direction} {p : Picker} (c : Converter) (policy : Policy)
  (display : Display)

theorem step_of_no_files (h : p.chosenFiles? d (s.memory.get d).input = none) :
    ∃ records, s.step d p c policy display =
      ⟨⟨s.memory, s.log.push Cancelled.files.line⟩, none,
        { prompts := [(s.memory.get d).input], records := records } ++
          (Board.announce ⟨s.log, display⟩ (some Cancelled.files.line)).2⟩ := by
  obtain ⟨records, hchoose⟩ := choose_of_no_files h
  exact ⟨records, by simp only [Session.step, hchoose]; rfl⟩

theorem step_of_no_folder {first : Path} {more : List Path}
    (hfiles : p.chosenFiles? d (s.memory.get d).input = some (first :: more))
    (hfolder : p.chosenFolder? d (s.memory.get d).output = none) :
    ∃ records, s.step d p c policy display =
      ⟨⟨s.memory.rememberInput d first, s.log.push Cancelled.folder.line⟩, none,
        { prompts := [(s.memory.get d).input, (s.memory.get d).output], records := records } ++
          (Board.announce ⟨s.log, display⟩ (some Cancelled.folder.line)).2⟩ := by
  obtain ⟨records, hchoose⟩ := choose_of_no_folder hfiles hfolder
  exact ⟨records, by simp only [Session.step, hchoose]; rfl⟩

theorem step_of_folder {first : Path} {more : List Path} {folder : Path}
    (hfiles : p.chosenFiles? d (s.memory.get d).input = some (first :: more))
    (hfolder : p.chosenFolder? d (s.memory.get d).output = some folder) :
    ∃ records, s.step d p c policy display =
      let batch := runBatch c policy d ⟨first :: more, folder⟩ ⟨s.log, display⟩
      ⟨⟨(s.memory.rememberInput d first).rememberOutput d folder, batch.board.log⟩,
        some batch.report,
        { prompts := [(s.memory.get d).input, (s.memory.get d).output], records := records } ++
          batch.trace⟩ := by
  obtain ⟨records, hchoose⟩ := choose_of_folder hfiles hfolder
  exact ⟨records, by simp only [Session.step, hchoose]⟩

end Steps

/-- What a step had to do with the user and the converter: the folders its questions were put with,
the requests it made and the report it gave. -/
structure Dealings where
  prompts : List Path
  calls : List Request
  report : Option Report
  deriving DecidableEq, Repr

def Step.dealings (step : Step) : Dealings := ⟨step.trace.prompts, step.trace.calls, step.report⟩

/-- Two steps whose questions are put with the same folders and answered alike have the same
dealings, remember the same and announce the same, whatever their logs and displays are. -/
theorem step_congr {s s' : Session} {d : Direction} {p q : Picker} (c : Converter) (policy : Policy)
    (display display' : Display) (hfolders : s'.memory.get d = s.memory.get d)
    (hfiles : q.chosenFiles? d (s'.memory.get d).input = p.chosenFiles? d (s.memory.get d).input)
    (hfolder : q.chosenFolder? d (s'.memory.get d).output =
      p.chosenFolder? d (s.memory.get d).output) :
    (s'.step d q c policy display').dealings = (s.step d p c policy display).dealings ∧
    ∃ (remember : Memory → Memory) (lines : List String),
      (s.step d p c policy display).session = ⟨remember s.memory, s.log.pushAll lines⟩ ∧
      (s'.step d q c policy display').session = ⟨remember s'.memory, s'.log.pushAll lines⟩ := by
  cases hp : p.chosenFiles? d (s.memory.get d).input with
  | none =>
    obtain ⟨records, hstep⟩ := step_of_no_files c policy display hp
    obtain ⟨records', hstep'⟩ := step_of_no_files c policy display' (hfiles.trans hp)
    rw [hstep, hstep', hfolders]
    exact ⟨rfl, id, [Cancelled.files.line], rfl, rfl⟩
  | some files =>
    obtain ⟨first, more, rfl⟩ := Picker.exists_cons_of_chosenFiles? hp
    have hq := hfiles.trans hp
    cases hp' : p.chosenFolder? d (s.memory.get d).output with
    | none =>
      obtain ⟨records, hstep⟩ := step_of_no_folder c policy display hp hp'
      obtain ⟨records', hstep'⟩ := step_of_no_folder c policy display' hq (hfolder.trans hp')
      rw [hstep, hstep', hfolders]
      exact ⟨rfl, (Memory.rememberInput · d first), [Cancelled.folder.line], rfl, rfl⟩
    | some folder =>
      obtain ⟨records, hstep⟩ := step_of_folder c policy display hp hp'
      obtain ⟨records', hstep'⟩ := step_of_folder c policy display' hq (hfolder.trans hp')
      let batch := runBatch c policy d ⟨first :: more, folder⟩ ⟨s.log, display⟩
      let batch' := runBatch c policy d ⟨first :: more, folder⟩ ⟨s'.log, display'⟩
      -- a batch makes the same requests and the same report on every board
      have hreport : batch'.report = batch.report := by rw [runBatch_report, runBatch_report]
      have hcalls : batch'.trace.calls = batch.trace.calls := by
        rw [runBatch_calls, runBatch_calls]
      refine ⟨?_, fun m => (m.rememberInput d first).rememberOutput d folder,
        batch.report.entries, ?_, ?_⟩
      · rw [hstep, hstep', hfolders]
        simp only [Step.dealings, Trace.prompts_append, Trace.calls_append, runBatch_prompts,
          Dealings.mk.injEq, true_and]
        exact ⟨congrArg ([] ++ ·) hcalls, congrArg some hreport⟩
      · rw [hstep]
        exact congrArg (Session.mk _) (runBatch_log c policy d _ _)
      · rw [hstep', ← hreport]
        exact congrArg (Session.mk _) (runBatch_log c policy d _ _)

namespace Episode

/-- The files that the question for files was answered with, put with the folder it was put with. -/
def files? (e : Episode) : Option (List Path) :=
  e.step.trace.prompts.head?.bind (e.turn.picker.chosenFiles? e.turn.direction)

/-- The status lines of an episode: those of the report or, without one, the line about the question
that was not answered. -/
def lines (e : Episode) : List String :=
  match e.step.report with
  | some report => report.entries
  | none => [if e.files?.isNone then "No file selected!" else "No folder selected!"]

end Episode

/-- Everything a step can do to a session. -/
theorem play_cases (s : Session) (turn : Turn) :
    let e : Episode := ⟨turn, s.play turn⟩
    let d := turn.direction
    let folders := s.memory.get d
    (e.files? = none ∧ e.step.trace.prompts = [folders.input] ∧ e.step.report = none ∧
      e.step.session = ⟨s.memory, s.log.push Cancelled.files.line⟩) ∨
    ∃ first more, e.files? = some (first :: more) ∧
      e.step.trace.prompts = [folders.input, folders.output] ∧
      ((e.step.report = none ∧
        e.step.session = ⟨s.memory.rememberInput d first, s.log.push Cancelled.folder.line⟩) ∨
      ∃ report, e.step.report = some report ∧ report.outputDir.text ≠ "" ∧
        e.step.session = ⟨(s.memory.rememberInput d first).rememberOutput d report.outputDir,
          s.log.pushAll report.entries⟩) := by
  intro e d folders
  -- the question for files was put with the remembered folder, whatever came of it
  have hfiles? : e.step.trace.prompts.head? = some folders.input →
      e.files? = turn.picker.chosenFiles? d folders.input := by
    intro hhead
    rw [Episode.files?, hhead]
    rfl
  cases hfiles : turn.picker.chosenFiles? d folders.input with
  | none =>
    obtain ⟨records, hstep⟩ := step_of_no_files turn.converter turn.policy turn.display hfiles
    have he : e.step = _ := hstep
    left
    refine ⟨?_, by rw [he]; rfl, by rw [he], by rw [he]⟩
    rw [hfiles? (by rw [he]; rfl), hfiles]
  | some files =>
    obtain ⟨first, more, rfl⟩ := Picker.exists_cons_of_chosenFiles? hfiles
    right
    refine ⟨first, more, ?_⟩
    cases hfolder : turn.picker.chosenFolder? d folders.output with
    | none =>
      obtain ⟨records, hstep⟩ :=
        step_of_no_folder turn.converter turn.policy turn.display hfiles hfolder
      have he : e.step = _ := hstep
      refine ⟨?_, by rw [he]; rfl, Or.inl ⟨by rw [he], by rw [he]⟩⟩
      rw [hfiles? (by rw [he]; rfl), hfiles]
    | some folder =>
      obtain ⟨records, hstep⟩ :=
        step_of_folder turn.converter turn.policy turn.display hfiles hfolder
      have he : e.step = _ := hstep
      refine ⟨?_, ?_, Or.inr ⟨_, by rw [he], ?_, ?_⟩⟩
      · rw [hfiles? (by rw [he]; rfl), hfiles]
      · rw [he, Trace.prompts_append, runBatch_prompts, List.append_nil]
      · rw [runBatch_report]
        exact Picker.text_ne_of_chosenFolder? hfolder
      · rw [he]
        exact congrArg (Session.mk _) (runBatch_log turn.converter turn.policy d _ _)

/-- A report of a step is the report of a batch. -/
theorem report_play {s : Session} {turn : Turn} {report : Report}
    (h : (s.play turn).report = some report) :
    ∃ selection b, report =
      (runBatch turn.converter turn.policy turn.direction selection b).report := by
  unfold Session.play Session.step at h
  dsimp only at h
  split at h
  · cases h
  · exact ⟨_, _, (Option.some.inj h).symm⟩

/-! ## What a run announces -/

/-- A step pushes the status lines of its episode. -/
theorem log_play (s : Session) (turn : Turn) :
    (s.play turn).session.log = s.log.pushAll (Episode.lines ⟨turn, s.play turn⟩) := by
  unfold Episode.lines
  obtain ⟨hfiles, -, hreport, hsession⟩ | ⟨first, more, hfiles, -, hstep⟩ := play_cases s turn
  · rw [hreport, hfiles, hsession]
    rfl
  · obtain ⟨hreport, hsession⟩ | ⟨report, hreport, -, hsession⟩ := hstep
    · rw [hreport, hfiles, hsession]
      rfl
    · rw [hreport, hsession]

/-- A log that is a cut of some past is, after a run, one of the past with the lines of the run. -/
theorem log_after {capacity : Nat} {s : Session} (past : List String)
    (h : s.log = StatusLog.history capacity past) (turns : List Turn) :
    (s.after turns).log =
      StatusLog.history capacity (past ++ (s.episodes turns).flatMap Episode.lines) := by
  induction turns generalizing s past with
  | nil => rw [Session.episodes_nil, List.flatMap_nil, List.append_nil, Session.after_nil, h]
  | cons turn turns ih =>
    have hstep : (s.play turn).session.log =
        StatusLog.history capacity (past ++ Episode.lines ⟨turn, s.play turn⟩) := by
      rw [log_play, h, StatusLog.history_pushAll]
    rw [Session.after_cons, ih _ hstep, Session.episodes_cons, List.flatMap_cons,
      List.append_assoc]

/-- **The status log is the newest part of its history.** After any steps from a fresh session, the
log holds the newest twelve, newest first, of all status lines so far: those of each report in order,
and one for each selection that was given up. -/
theorem session_log_is_newest_of_history (input output : Path) (turns : List Turn) :
    let start := Session.start input output
    let history := (start.episodes turns).flatMap Episode.lines
    (start.after turns).log = ⟨12, history.reverse.take 12⟩ ∧
      (start.after turns).log.lines.length ≤ 12 := by
  intro start history
  have hlog : (start.after turns).log = StatusLog.history 12 history := log_after [] rfl turns
  rw [hlog]
  exact ⟨rfl, StatusLog.length_history_le 12 history⟩

end BatchCodec
