import BatchCodec.Proofs.Redraw
import BatchCodec.Proofs.SessionRun
/-!
What a display sees of a step while it runs.

A step announces its status lines one by one, and an announcement is a push with a refresh right behind
it (`states_eq_shownLogs`). So the display is shown every state of the log that the lines of the step
lead through and no other (`announced_play`). The lines before the step are cut off at the far end
while the new ones come in at the front, and cutting on the way makes no difference to what is kept in
the end (`pushAll_push`): the `k`-th state is the newest part of the first `k` lines on top of the log
as it was. Its front is the `k`-th line itself, which is all that a line display reads.

Main statement: `display_sees_every_line_once`.
-/

namespace BatchCodec

namespace StatusLog

/-- What is cut off beyond the capacity would not have been kept anyway. -/
theorem take_append_take {α : Type} (n : Nat) (newer older : List α) :
    (newer ++ older.take n).take n = (newer ++ older).take n := by
  rw [List.take_append, List.take_append, List.take_take, Nat.min_eq_left (Nat.sub_le n _)]

/-- Lines pushed one after the other lie on top of the log, cut to its capacity once. -/
theorem pushAll_push (log : StatusLog) (lines : List String) (line : String) :
    (log.pushAll lines).push line =
      ⟨log.capacity, ((lines ++ [line]).reverse ++ log.lines).take log.capacity⟩ := by
  induction lines generalizing log with
  | nil => rfl
  | cons first lines ih =>
    rw [pushAll_cons, ih]
    show StatusLog.mk log.capacity _ = StatusLog.mk log.capacity _
    congr 1
    calc ((lines ++ [line]).reverse ++ (first :: log.lines).take log.capacity).take log.capacity
        = ((lines ++ [line]).reverse ++ first :: log.lines).take log.capacity :=
          take_append_take _ _ _
      _ = ((first :: lines ++ [line]).reverse ++ log.lines).take log.capacity := by simp

theorem pushAll_concat (log : StatusLog) (lines : List String) (line : String) :
    log.pushAll (lines ++ [line]) = (log.pushAll lines).push line := by
  rw [pushAll, List.foldl_append]
  rfl

/-! ## The states on the way -/

/-- The `k`-th state is the log with the first `k` lines pushed. -/
theorem states_eq_map (log : StatusLog) (lines : List String) :
    log.states lines =
      (List.range lines.length).map fun k => log.pushAll (lines.take (k + 1)) := by
  induction lines generalizing log with
  | nil => rfl
  | cons line lines ih =>
    rw [states, ih, List.length_cons, List.range_succ_eq_map, List.map_cons, List.map_map]
    rfl

theorem states_eq_stacked (log : StatusLog) (lines : List String) :
    log.states lines = (List.range lines.length).map fun k =>
      ⟨log.capacity, ((lines.take (k + 1)).reverse ++ log.lines).take log.capacity⟩ := by
  rw [states_eq_map]
  apply List.map_congr_left
  intro k hk
  rw [List.mem_range] at hk
  rw [List.take_succ_eq_append_getElem hk, pushAll_concat, pushAll_push]

/-- The states are those in which the log is shown if a refresh follows every push. -/
theorem states_eq_shownLogs (log : StatusLog) (lines : List String) :
    log.states lines = shownLogs log (lines.flatMap fun line => [.push line, .refresh]) := by
  induction lines generalizing log with
  | nil => rfl
  | cons line lines ih =>
    rw [states, ih]
    rfl

theorem getLastD_states (log : StatusLog) (lines : List String) :
    (log.states lines).getLastD log = log.pushAll lines := by
  induction lines generalizing log with
  | nil => rfl
  | cons line lines ih => rw [states, List.getLastD_cons, ih, pushAll_cons]

/-- A line display prints, at each state, the line that led to it. -/
theorem map_refresh_states (log : StatusLog) (lines : List String) (h : 0 < log.capacity) :
    (log.states lines).map (fun shown => (Display.line.refresh shown).2) =
      lines.map (· ++ "\n") := by
  induction lines generalizing log with
  | nil => rfl
  | cons line lines ih =>
    rw [states, List.map_cons, List.map_cons, ih (log.push line) h]
    simp only [Display.refresh, newest?_push log line h]

end StatusLog

/-! ## One step -/

/-- A step shows and prints what announcing its status lines shows and prints. -/
theorem announced_play (s : Session) (turn : Turn) :
    let shown := (Board.announceAll ⟨s.log, turn.display⟩ (Episode.lines ⟨turn, s.play turn⟩)).2
    (s.play turn).trace.refreshes = shown.refreshes ∧
      (s.play turn).trace.printed = shown.printed := by
  let d := turn.direction
  let folders := s.memory.get d
  -- the trace of a step without a report is that of its questions and of one announcement
  have hcancelled : ∀ (prompts : List Path) (records : List Record) (line : String),
      let trace := ({ prompts := prompts, records := records } : Trace) ++
        (Board.announce ⟨s.log, turn.display⟩ (some line)).2
      let shown := (Board.announceAll ⟨s.log, turn.display⟩ [line]).2
      trace.refreshes = shown.refreshes ∧ trace.printed = shown.printed := by
    intro prompts records line
    simp [Board.announceAll, Board.announce_trace]
  cases hfiles : turn.picker.chosenFiles? d folders.input with
  | none =>
    obtain ⟨records, hstep⟩ := step_of_no_files turn.converter turn.policy turn.display hfiles
    have hplay : s.play turn = _ := hstep
    have hlines : Episode.lines ⟨turn, s.play turn⟩ = [Cancelled.files.line] := by
      have hnone : Episode.files? ⟨turn, s.play turn⟩ = none := by rw [hplay]; exact hfiles
      rw [Episode.lines, hnone, hplay]
      rfl
    rw [hlines, hplay]
    exact hcancelled _ records _
  | some files =>
    obtain ⟨first, more, rfl⟩ := Picker.exists_cons_of_chosenFiles? hfiles
    cases hfolder : turn.picker.chosenFolder? d folders.output with
    | none =>
      obtain ⟨records, hstep⟩ :=
        step_of_no_folder turn.converter turn.policy turn.display hfiles hfolder
      have hplay : s.play turn = _ := hstep
      have hlines : Episode.lines ⟨turn, s.play turn⟩ = [Cancelled.folder.line] := by
        have hsome : Episode.files? ⟨turn, s.play turn⟩ = some (first :: more) := by
          rw [hplay]
          exact hfiles
        rw [Episode.lines, hsome, hplay]
        rfl
      rw [hlines, hplay]
      exact hcancelled _ records _
    | some folder =>
      obtain ⟨records, hstep⟩ :=
        step_of_folder turn.converter turn.policy turn.display hfiles hfolder
      have hplay : s.play turn = _ := hstep
      rw [Episode.lines, hplay]
      simp only [Trace.refreshes_append, Trace.printed_append, List.nil_append,
        String.empty_append]
      exact ⟨runBatch_refreshes _ _ _ _ _, (runBatch_announces _ _ _ _ _).2⟩

theorem refreshes_play (s : Session) (turn : Turn) :
    (s.play turn).trace.refreshes = s.log.states (Episode.lines ⟨turn, s.play turn⟩) := by
  rw [(announced_play s turn).1, Board.refreshes_announceAll]

/-- The status lines of a step are the same on every display. -/
theorem lines_play_display (s : Session) (turn : Turn) (display : Display) :
    let turn' := { turn with display := display }
    Episode.lines ⟨turn', s.play turn'⟩ = Episode.lines ⟨turn, s.play turn⟩ := by
  intro turn'
  have hdealings : (s.play turn').dealings = (s.play turn).dealings :=
    (step_congr turn.converter turn.policy turn.display display rfl rfl rfl).1
  have hprompts : (s.play turn').trace.prompts = (s.play turn).trace.prompts :=
    congrArg Dealings.prompts hdealings
  have hreport : (s.play turn').report = (s.play turn).report :=
    congrArg Dealings.report hdealings
  simp only [Episode.lines, Episode.files?, hreport, hprompts]
  rfl

/-- **A display sees every status line once, when it is pushed.** Whatever a session remembers and its
log holds, take a step and let `emitted` be its status lines: those of the report or, if the selection
was given up, the one line about that. The display is refreshed right after the push of each of
them and at no other time, as often as the report has entries, or once. At the `k`-th refresh the log
holds the newest twelve of the first `k` lines on top of those from before the step; the log at the
last refresh is the log after the step. On a line display the refreshes print one line of `emitted`
each, and what is printed in all is these lines in order. -/
theorem display_sees_every_line_once (memory : Memory) (before : List String) (turn : Turn) :
    let s : Session := ⟨memory, ⟨12, before⟩⟩
    let step := s.play turn
    let emitted := Episode.lines ⟨turn, step⟩
    let refreshes := step.trace.refreshes
    refreshes = shownLogs s.log (emitted.flatMap fun line => [.push line, .refresh]) ∧
    refreshes.length = (step.report.map fun report => report.entries.length).getD 1 ∧
    refreshes = (List.range emitted.length).map (fun k =>
      ⟨12, ((emitted.take (k + 1)).reverse ++ before).take 12⟩) ∧
    refreshes.getLastD s.log = step.session.log ∧
    refreshes.map (fun log => (Display.line.refresh log).2) = emitted.map (· ++ "\n") ∧
    (s.play { turn with display := .line }).trace.printed =
      String.join (emitted.map (· ++ "\n")) := by
  intro s step emitted refreshes
  have hrefreshes : refreshes = s.log.states emitted := refreshes_play s turn
  have hcapacity : 0 < s.log.capacity := Nat.succ_pos 11
  refine ⟨?_, ?_, ?_, ?_, ?_, ?_⟩
  · rw [hrefreshes, StatusLog.states_eq_shownLogs]
  · rw [hrefreshes, StatusLog.states_eq_map, List.length_map, List.length_range]
    show (Episode.lines ⟨turn, step⟩).length = _
    unfold Episode.lines
    cases step.report <;> rfl
  · rw [hrefreshes, StatusLog.states_eq_stacked]
  · rw [hrefreshes, StatusLog.getLastD_states]
    exact (log_play s turn).symm
  · rw [hrefreshes]
    exact s.log.map_refresh_states emitted hcapacity
  · rw [(announced_play s { turn with display := .line }).2, lines_play_display s turn .line]
    exact Board.printed_announceAll_line s.log emitted hcapacity

end BatchCodec
