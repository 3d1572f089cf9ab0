import BatchCodec.Proofs.SessionRun
/-!
Status lines and line breaks.

A status line comes from one of three places: the first line of what the codec said, which has no
break; a fixed text about a selection that was given up, which has none either; and the line about a
converted file, which holds the path as it is. So a line with a break tells of a converted file with a
break in its path, and there is no other: said of one file (`Attempt.line_cases`), it carries over to
a batch, to a step and by induction to a run (`breaks_of_newline_mem`). The text of the log can be cut
back into its lines exactly when no such line is among the newest twelve
(`status_lines_break_only_at_converted_paths`); a file name with a break is enough to spoil it
(`a_broken_path_makes_a_broken_line`).
-/

namespace BatchCodec

theorem newline_mem_convertedLine (d : Direction) (file : Path) :
    '\n' ∈ (d.convertedLine file).toList ↔ '\n' ∈ file.text.toList := by
  cases d <;> simp [Direction.convertedLine, Direction.verb]

theorem newline_not_mem_cancelled (cancelled : Cancelled) : '\n' ∉ cancelled.line.toList := by
  cases cancelled <;> decide

/-! ## One file, one batch -/

theorem Attempt.line_cases {d : Direction} {a : Attempt} {line : String}
    (h : line ∈ (a.verdict d).line.toList) :
    (a.item = ⟨a.input, .converted⟩ ∧ line = d.convertedLine a.input) ∨ '\n' ∉ line.toList := by
  unfold verdict at h
  unfold item
  cases hr : a.reply.result with
  | ok u =>
    rw [hr] at h
    exact Or.inl ⟨rfl, by simpa [Verdict.of] using h⟩
  | error f =>
    rw [hr] at h
    cases f with
    | fault f => simp [Verdict.of] at h
    | rejected message =>
      have hline : line = Text.firstLine message := by
        simpa [Verdict.of, Failure.summary, Failure.message] using h
      rw [hline]
      exact Or.inr (Text.newline_not_mem_firstLine message)

theorem runBatch_line_cases {c : Converter} {policy : Policy} {d : Direction} {s : Selection}
    {b : Board} {line : String} (h : line ∈ (runBatch c policy d s b).report.entries) :
    (∃ file, ⟨file, .converted⟩ ∈ (runBatch c policy d s b).report.items ∧
      line = d.convertedLine file) ∨ '\n' ∉ line.toList := by
  rw [runBatch_report] at h ⊢
  obtain ⟨a, ha, hline⟩ := List.mem_flatMap.mp h
  obtain ⟨hitem, rfl⟩ | hnone := a.line_cases hline
  · exact Or.inl ⟨a.input, List.mem_map.mpr ⟨a, ha, hitem⟩, rfl⟩
  · exact Or.inr hnone

/-! ## Steps and runs -/

namespace Episode

def Converted (e : Episode) (file : Path) : Prop :=
  ∃ report, e.step.report = some report ∧ ⟨file, .converted⟩ ∈ report.items

/-- The line tells of a file that was converted in the episode and has a break in its path. -/
def Breaks (e : Episode) (line : String) : Prop :=
  ∃ file, e.Converted file ∧ '\n' ∈ file.text.toList ∧ line = e.turn.direction.convertedLine file

theorem Breaks.newline_mem {e : Episode} {line : String} (h : e.Breaks line) :
    '\n' ∈ line.toList := by
  obtain ⟨file, -, hbreak, rfl⟩ := h
  rwa [newline_mem_convertedLine]

end Episode

theorem breaks_of_newline_mem_play {s : Session} {turn : Turn} {line : String}
    (h : line ∈ Episode.lines ⟨turn, s.play turn⟩) (hbreak : '\n' ∈ line.toList) :
    Episode.Breaks ⟨turn, s.play turn⟩ line := by
  unfold Episode.lines at h
  split at h
  · rename_i report hreport
    obtain ⟨selection, b, rfl⟩ := report_play hreport
    obtain ⟨file, hitem, rfl⟩ | hnone := runBatch_line_cases h
    · rw [newline_mem_convertedLine] at hbreak
      exact ⟨file, ⟨_, hreport, hitem⟩, hbreak, rfl⟩
    · exact absurd hbreak hnone
  · -- a selection that was given up
    rw [List.mem_singleton] at h
    subst h
    split at hbreak
    · exact absurd hbreak (newline_not_mem_cancelled .files)
    · exact absurd hbreak (newline_not_mem_cancelled .folder)

theorem breaks_of_newline_mem {s : Session} {turns : List Turn} {e : Episode} {line : String}
    (he : e ∈ s.episodes turns) (h : line ∈ e.lines) (hbreak : '\n' ∈ line.toList) :
    e.Breaks line := by
  induction turns generalizing s with
  | nil => simp at he
  | cons turn turns ih =>
    rw [Session.episodes_cons, List.mem_cons] at he
    obtain rfl | he := he
    · exact breaks_of_newline_mem_play h hbreak
    · exact ih he

/-- **Status lines break only at converted paths.** After any steps from a fresh session, the log holds
the newest twelve status lines so far, newest first. A line of it has a break if and only if it is the
line about a file that was converted on the way and has a break in its path. So the text of a log
that is not empty, cut at its line breaks, gives back the lines of the log if and only if none of
them is such a line; in particular it does if no converted file has a break in its path. -/
theorem status_lines_break_only_at_converted_paths (input output : Path) (turns : List Turn) :
    let start := Session.start input output
    let past := start.episodes turns
    let log := (start.after turns).log
    log.lines = (past.flatMap Episode.lines).reverse.take 12 ∧
    log.lines.length ≤ 12 ∧
    (∀ line ∈ log.lines, '\n' ∈ line.toList ↔ ∃ e ∈ past, e.Breaks line) ∧
    (log.lines ≠ [] →
      (Text.split '\n' log.text = log.lines ↔ ¬∃ line ∈ log.lines, ∃ e ∈ past, e.Breaks line)) ∧
    ((∀ e ∈ past, ∀ file, e.Converted file → '\n' ∉ file.text.toList) → log.lines ≠ [] →
      Text.split '\n' log.text = log.lines) := by
  intro start past log
  have hlog : log = StatusLog.history 12 (past.flatMap Episode.lines) := log_after [] rfl turns
  have hlines : log.lines = (past.flatMap Episode.lines).reverse.take 12 := by rw [hlog]; rfl
  have hiff : ∀ line ∈ log.lines, '\n' ∈ line.toList ↔ ∃ e ∈ past, e.Breaks line := by
    intro line hline
    constructor
    · intro hbreak
      rw [hlines] at hline
      obtain ⟨e, he, hmem⟩ := List.mem_flatMap.mp (List.mem_reverse.mp (List.mem_of_mem_take hline))
      exact ⟨e, he, breaks_of_newline_mem he hmem hbreak⟩
    · rintro ⟨e, -, hbreaks⟩
      exact hbreaks.newline_mem
  have hsplit : log.lines ≠ [] → (Text.split '\n' log.text = log.lines ↔
      ¬∃ line ∈ log.lines, ∃ e ∈ past, e.Breaks line) := by
    intro hne
    rw [StatusLog.text, Text.split_unlines_eq_iff hne]
    constructor
    · rintro hnone ⟨line, hline, hbreaks⟩
      exact hnone line hline ((hiff line hline).mpr hbreaks)
    · intro hnone line hline hbreak
      exact hnone ⟨line, hline, (hiff line hline).mp hbreak⟩
  refine ⟨hlines, ?_, hiff, hsplit, ?_⟩
  · rw [hlines]
    exact List.length_take_le _ _
  · intro hpaths hne
    rw [hsplit hne]
    rintro ⟨line, -, e, he, file, hconverted, hbreak, -⟩
    exact hpaths e he file hconverted hbreak

/-- One converted file whose name has a break makes one status line that is two lines of text. -/
theorem a_broken_path_makes_a_broken_line :
    let t : FileTree := ⟨.folder .full [("a\nb.txt", .file {})], []⟩
    let turn : Turn :=
      { direction := .compile
        picker := Picker.preset t [⟨"a\nb.txt"⟩] (some ⟨"out"⟩)
        converter := Converter.stateless "codec" fun _ => { result := .ok () }
        policy := Policy.default
        display := .silent }
    let log := ((Session.start ⟨"data"⟩ ⟨"out"⟩).after [turn]).log
    log.lines = ["File compiled: a\nb.txt"] ∧
      Text.split '\n' log.text = ["File compiled: a", "b.txt"] := by
  decide

end BatchCodec
