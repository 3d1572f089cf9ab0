import BatchCodec.Proofs.Channels
import BatchCodec.Proofs.PrintedTable
import BatchCodec.Proofs.ReportRows
import BatchCodec.Proofs.StatusLines
/-!
Exit status and standard output of a batch from the command line.

What is printed is described by what can be read from it. The table of a printed report is read back
into the cells of its rows (`Report.printedAs_printed`), a JSON report into the report, and the JSON
document of a selection that was given up into its one line (`read?_cancelledJson`). Status lines are
printed one below the other. Cut at its line breaks, their text gives them back unless one of them has a
break itself (`Text.split_join_eq_iff`), and only the line about a converted file can have one
(`runBatch_lines_intact_iff`).

A run either gives up or runs a batch; each of the two is said by one lemma (`run_of_not_selected`,
`run_of_selected`), and `exit_status_and_output_of_one_shot` puts them together. In
`a_broken_path_is_printed_on_two_lines` one status line is printed as two.
-/

namespace BatchCodec

/-! ## Status lines -/

/-- Printed lines can be told apart again exactly when none of them has a break. -/
theorem Text.split_join_eq_iff (lines : List String) :
    split '\n' (String.join (lines.map (· ++ "\n"))) = lines ++ [""] ↔
      ∀ line ∈ lines, '\n' ∉ line.toList := by
  have hunlines : String.join (lines.map (· ++ "\n")) = unlines (lines ++ [""]) := by
    unfold unlines
    induction lines with
    | nil => rfl
    | cons line lines ih =>
      obtain ⟨next, rest, hnext⟩ := List.exists_cons_of_ne_nil (l := lines ++ [""]) (by simp)
      rw [List.map_cons, String.join_cons, ih, List.cons_append, List.map_cons, hnext,
        ← String.toList_inj]
      simp [joinWith]
  rw [hunlines, split_unlines_eq_iff (by simp)]
  simp [or_imp, forall_and]

theorem runBatch_lines_intact_iff (c : Converter) (policy : Policy) (d : Direction) (s : Selection)
    (b : Board) :
    let report := (runBatch c policy d s b).report
    Text.split '\n' (String.join (report.entries.map (· ++ "\n"))) = report.entries ++ [""] ↔
      ∀ file, ⟨file, .converted⟩ ∈ report.items → '\n' ∉ file.text.toList := by
  intro report
  rw [Text.split_join_eq_iff]
  constructor
  · intro hlines file hitem hbreak
    have hline : d.convertedLine file ∈ report.entries := by
      rw [runBatch_entries]
      exact List.mem_flatMap.mpr ⟨_, hitem, List.mem_singleton.mpr rfl⟩
    exact hlines _ hline ((newline_mem_convertedLine d file).mpr hbreak)
  · intro hpaths line hline hbreak
    obtain ⟨file, hitem, rfl⟩ | hnone := runBatch_line_cases hline
    · exact hpaths file hitem ((newline_mem_convertedLine d file).mp hbreak)
    · exact hnone hbreak

/-! ## Reports -/

namespace Report

/-- The text prints the report: a table from which a header and one row for every file can be read,
with its number, its path and what became of it, an empty line, and a line with the counts of the report
and the duration in whole milliseconds, followed by an empty line. -/
def PrintedAs (r : Report) (timing : Timing) (color : Bool) (text : String) : Prop :=
  ∃ table summary,
    Table.read table =
      (["#", "Input", "Result"] :: r.results.mapIdx fun k result =>
        [toString (k + 1), result.1.text, result.2]).map Table.shown ∧
    talliesOf summary = (r.direction.verb, r.converted) :: r.counts.filter (·.2 ≠ 0) ∧
    text = table ++ "\n\n  " ++ summary ++ " | " ++
      (if color then "\x1b[36m" ++ timing.elapsedWhole ++ "ms\x1b[0m"
        else timing.elapsedWhole ++ "ms") ++ "\n\n"

theorem rows_table (r : Report) :
    r.table.rows = ["#", "Input", "Result"] :: r.results.mapIdx fun k result =>
      [toString (k + 1), result.1.text, result.2] := by
  show _ :: r.fileRows = _
  congr 1
  apply List.ext_getElem?
  intro k
  rw [getElem?_fileRows, List.getElem?_mapIdx]

theorem printedAs_printed {r : Report} (h : r.results ≠ []) (timing : Timing) (color : Bool) :
    r.PrintedAs timing color (r.printed timing color) := by
  have hsome : (r.items.isEmpty && r.skipped.isEmpty) = false := by
    cases hitems : r.items with
    | nil =>
      cases hskipped : r.skipped with
      | nil => simp [results, hitems, hskipped] at h
      | cons => rfl
    | cons => rfl
  have hcells : ∀ row ∈ r.table.rows, row.length = 3 := by
    rw [rows_table, List.forall_mem_cons]
    refine ⟨rfl, ?_⟩
    intro row hrow
    obtain ⟨k, hk, rfl⟩ := List.mem_mapIdx.mp hrow
    rfl
  refine ⟨r.table.render, r.summary, ?_, r.talliesOf_summary, ?_⟩
  · rw [← rows_table]
    exact Table.read_render hcells (by decide) (by rw [rows_table]; exact List.cons_ne_nil _ _)
  · rw [printed, hsome]
    cases color <;> simp [String.append_assoc]

/-- The report tells of a batch of these files: it has an item for each file in order, up to those that
were skipped, with what the converter answered, and the status lines of the items. -/
structure Tells (r : Report) (c : Converter) (d : Direction) (files : List Path) (folder : Path) :
    Prop where
  direction : r.direction = d
  outputDir : r.outputDir = folder
  files : r.items.map Item.input ++ r.skipped = files
  items : r.items = (attempts c d folder 0 (r.items.map Item.input)).map Attempt.item
  entries : r.entries = r.items.flatMap (Item.lines d)

theorem tells_runBatch (c : Converter) (policy : Policy) (d : Direction) (s : Selection)
    (b : Board) : (runBatch c policy d s b).report.Tells c d s.inputs s.outputDir where
  direction := by rw [runBatch_report]
  outputDir := by rw [runBatch_report]
  files := runBatch_partition c policy d s b
  items := runBatch_items c policy d s b
  entries := runBatch_entries c policy d s b

theorem Tells.results_ne_nil {r : Report} {c : Converter} {d : Direction} {files : List Path}
    {folder : Path} (h : r.Tells c d files folder) (hfiles : files ≠ []) : r.results ≠ [] := by
  intro hnone
  apply hfiles
  have hfst : r.results.map Prod.fst = files := by
    rw [← h.files, results, List.map_append, List.map_map, List.map_map]
    simp [Function.comp_def]
  rw [← hfst, hnone]
  rfl

end Report

theorem Report.ofJson?_write (r : Report) (timing : Timing) :
    (Report.write r timing).bind ofJson? = some r := by
  unfold Report.write
  rw [Option.bind_some, ofJson?_json]

/-- The JSON document of a selection that was given up has its line. -/
theorem read?_cancelledJson (line : String) :
    Json.read? (cancelledJson line) =
      some (.object [("cancelled", .bool true), ("entries", .list [.string line])]) := by
  have hplain : (cancelledDocument line).Plain := by
    refine .object ?_
    rw [List.forall_mem_cons, List.forall_mem_cons]
    refine ⟨.bool true, .list ?_, nofun⟩
    rw [List.forall_mem_cons]
    exact ⟨.string line, nofun⟩
  exact Json.read?_pretty hplain

/-! ## Runs -/

namespace OneShot

/-- Standard output tells that the selection was given up: the one status line, which names what was not
selected, or a JSON document that has it. -/
def SaysCancelled (s : Settings) (d : Direction) (t : FileTree) (printed : String) : Prop :=
  ∃ line document,
    (line = "No file selected!" ∧ (∀ files, ExpandTo t d s.inputs files → files = []) ∨
      line = "No folder selected!" ∧ ∃ files, ExpandTo t d s.inputs files ∧ files ≠ []) ∧
    Json.read? document =
      some (.object [("cancelled", .bool true), ("entries", .list [.string line])]) ∧
    printed =
      if s.json then document ++ "\n" else if s.quiet then "" else line ++ "\n"

/-- Standard output tells of a batch that ran: its JSON document, if it can be written, or the status
lines, an empty line and the printed report. -/
def SaysReport (s : Settings) (write : ReportWriter) (timing : Timing) (r : Report)
    (printed : String) : Prop :=
  ∃ text, r.PrintedAs timing s.color text ∧
    printed =
      if s.json then ((write r timing).map (· ++ "\n")).getD ""
      else if s.quiet then ""
      else String.join (r.entries.map (· ++ "\n")) ++ "\n" ++ text

section Runs

variable (write : ReportWriter) {s : Settings} {d : Direction} {t : FileTree} (c : Converter)
  (timing : Timing)

theorem run_of_not_selected (h : ¬∃ files folder, s.Selects d t files folder) :
    (run write s d t c timing).step.report = none ∧
    (run write s d t c timing).trace.calls = [] ∧
    SaysCancelled s d t (run write s d t c timing).trace.printed := by
  obtain ⟨-, line, memory, prompts, records, hline, hstep⟩ |
    ⟨files, folder, -, -, -, hselects, -⟩ := step_run_cases write s d t c timing
  · refine ⟨by rw [hstep], ?_, line, _, hline, read?_cancelledJson line,
      printed_run_of_cancelled hstep⟩
    rw [calls_run, hstep]
    rfl
  · exact absurd ⟨files, folder, hselects⟩ h

theorem run_of_selected {files : List Path} {folder : Path} (h : s.Selects d t files folder) :
    ∃ report, (run write s d t c timing).step.report = some report ∧
      report.Tells c d files folder ∧
      (run write s d t c timing).trace.calls =
        report.items.map (fun item => ⟨d, item.input, folder⟩) ∧
      (statusOf (some report) = 0 ↔
        (run write s d t c timing).trace.calls = files.map (fun file => ⟨d, file, folder⟩) ∧
        ∀ k file, files[k]? = some file → (c.convert k ⟨d, file, folder⟩).result = .ok ()) ∧
      SaysReport s write timing report (run write s d t c timing).trace.printed ∧
      (Text.split '\n' (String.join (report.entries.map (· ++ "\n"))) = report.entries ++ [""] ↔
        ∀ file, ⟨file, .converted⟩ ∈ report.items → '\n' ∉ file.text.toList) := by
  obtain ⟨hnone, -⟩ | ⟨files', folder', session, prompts, records, hselects, hstep⟩ :=
    step_run_cases write s d t c timing
  · exact absurd ⟨files, folder, h⟩ hnone
  · obtain ⟨rfl, rfl⟩ := hselects.unique h
    let batch := runBatch c s.policy d ⟨files', folder'⟩ ⟨freshLog, display s⟩
    have hreport : (run write s d t c timing).step.report = some batch.report := by rw [hstep]
    have htells : batch.report.Tells c d files' folder' := Report.tells_runBatch c s.policy d _ _
    refine ⟨batch.report, hreport, htells, ?_, ?_, ⟨_, ?_, printed_run_of_selected hstep⟩,
      runBatch_lines_intact_iff c s.policy d _ _⟩
    · rw [calls_run, hstep]
      show batch.trace.calls = _
      simp only [batch, runBatch_calls, runBatch_report, List.map_map]
      rfl
    · obtain ⟨hzero, hcalls⟩ := statusOf_run_of_selected hstep
      rw [← hreport]
      exact ⟨fun h => ⟨hcalls h, hzero.mp h⟩, fun h => hzero.mpr h.2⟩
    · exact Report.printedAs_printed (htells.results_ne_nil h.2.1) timing s.color

theorem statusOf_run_eq_zero_iff :
    statusOf (run write s d t c timing).step.report = 0 ↔
      (¬∃ files folder, s.Selects d t files folder) ∨
      ∃ files folder, s.Selects d t files folder ∧
        (run write s d t c timing).trace.calls = files.map (fun file => ⟨d, file, folder⟩) ∧
        ∀ k file, files[k]? = some file → (c.convert k ⟨d, file, folder⟩).result = .ok () := by
  by_cases h : ∃ files folder, s.Selects d t files folder
  · obtain ⟨files, folder, hselects⟩ := h
    obtain ⟨report, hreport, -, -, hstatus, -⟩ := run_of_selected write c timing hselects
    rw [hreport, hstatus]
    constructor
    · intro hgood
      exact Or.inr ⟨files, folder, hselects, hgood⟩
    · rintro (hnone | ⟨files', folder', hselects', hgood⟩)
      · exact absurd ⟨files, folder, hselects⟩ hnone
      · obtain ⟨rfl, rfl⟩ := hselects'.unique hselects
        exact hgood
  · obtain ⟨hreport, -⟩ := run_of_not_selected write c timing h
    rw [hreport]
    exact ⟨fun _ => Or.inl h, fun _ => rfl⟩

end Runs

end OneShot

/-- **Exit status and standard output of a batch from the command line.** A run has no exit status if its
report is to be written as JSON and the writer refuses it; otherwise its exit status is zero or one. It
is zero if and only if the command line selects nothing, or the converter was asked about every selected
file, in order, and every answer was good.

If nothing is selected, the converter is asked nothing and standard output says so. Otherwise there is a
report of the selected files, and standard output has, if JSON is asked for, what the writer made of it
and a line feed, if only quiet is asked for, nothing, and otherwise its status lines, each followed by a
line feed, an empty line and the printed report. The printed status lines can be told apart if and only
if no converted file has a line break in its path. What the writer of the program makes of a report reads
back as that report. -/
theorem exit_status_and_output_of_one_shot (write : ReportWriter) (s : Settings) (d : Direction)
    (t : FileTree) (c : Converter) (timing : Timing) :
    let o := OneShot.run write s d t c timing
    let refused := OneShot.Refused s write o.step.report timing
    let cancelled := ¬∃ files folder, s.Selects d t files folder
    (o.exitStatus = none ↔ refused) ∧
    (o.exitStatus = none ∨ o.exitStatus = some 0 ∨ o.exitStatus = some 1) ∧
    (o.exitStatus = some 0 ↔ ¬refused ∧
      (cancelled ∨ ∃ files folder, s.Selects d t files folder ∧
        o.trace.calls = files.map (fun file => ⟨d, file, folder⟩) ∧
        ∀ k file, files[k]? = some file →
          (c.convert k ⟨d, file, folder⟩).result = .ok ())) ∧
    (cancelled → o.step.report = none ∧ o.trace.calls = [] ∧
      OneShot.SaysCancelled s d t o.trace.printed) ∧
    (∀ files folder, s.Selects d t files folder →
      ∃ report, o.step.report = some report ∧ report.Tells c d files folder ∧
        o.trace.calls = report.items.map (fun item => ⟨d, item.input, folder⟩) ∧
        OneShot.SaysReport s write timing report o.trace.printed ∧
        (Text.split '\n' (String.join (report.entries.map (· ++ "\n"))) = report.entries ++ [""] ↔
          ∀ file, ⟨file, .converted⟩ ∈ report.items → '\n' ∉ file.text.toList)) ∧
    (∀ report time, (Report.write report time).bind Report.ofJson? = some report) := by
  intro o refused cancelled
  have hend : (refused ∧ o.exitStatus = none) ∨
      (¬refused ∧ o.exitStatus = some (OneShot.statusOf o.step.report)) := OneShot.exitStatus_run
  have hzero : OneShot.statusOf o.step.report = 0 ↔ _ :=
    OneShot.statusOf_run_eq_zero_iff write c timing
  refine ⟨?_, ?_, ?_, OneShot.run_of_not_selected write c timing, ?_, Report.ofJson?_write⟩
  · obtain ⟨hrefused, hexit⟩ | ⟨hrefused, hexit⟩ := hend <;> simp [hrefused, hexit]
  · obtain ⟨-, hexit⟩ | ⟨-, hexit⟩ := hend
    · exact Or.inl hexit
    · right
      rw [hexit, Option.some.injEq, Option.some.injEq]
      exact OneShot.statusOf_eq_zero_or_one _
  · rw [← hzero]
    obtain ⟨hrefused, hexit⟩ | ⟨hrefused, hexit⟩ := hend <;> simp [hrefused, hexit]
  · intro files folder hselects
    obtain ⟨report, hreport, htells, hcalls, -, hsays, hlines⟩ :=
      OneShot.run_of_selected write c timing hselects
    exact ⟨report, hreport, htells, hcalls, hsays, hlines⟩

/-- A run over one file whose name has a break: it is converted, its one status line takes two lines of
standard output, and the run is a success. -/
theorem a_broken_path_is_printed_on_two_lines :
    let s : Settings :=
      { task := .batch .compile, inputs := [⟨"a\nb.txt"⟩], output := some ⟨"out"⟩ }
    let c := Converter.stateless "codec" fun _ => { result := .ok () }
    let o := OneShot.run Report.write s .compile ⟨.folder .full [], []⟩ c ⟨⟨0, 0⟩, 0⟩
    let report : Report :=
      { direction := .compile, outputDir := ⟨"out"⟩, items := [⟨⟨"a\nb.txt"⟩, .converted⟩]
        skipped := [], entries := ["File compiled: a\nb.txt"] }
    o.exitStatus = some 0 ∧ o.step.report = some report ∧
      o.trace.printed =
        "File compiled: a\nb.txt\n" ++ ("\n" ++ report.printed ⟨⟨0, 0⟩, 0⟩ false) ∧
      Text.split '\n' "File compiled: a\nb.txt\n" = ["File compiled: a", "b.txt", ""] := by
  intro s c o report
  have hreport : o.step.report = some report := by decide
  have hlines : o.step.trace.printed = "File compiled: a\nb.txt\n" := by decide
  have hclosing : OneShot.closing s Report.write o.step ⟨⟨0, 0⟩, 0⟩ =
      some ("\n" ++ report.printed ⟨⟨0, 0⟩, 0⟩ false) := by
    unfold OneShot.closing
    rw [hreport]
    rfl
  refine ⟨by decide, hreport, ?_, by decide⟩
  rw [OneShot.printed_run, hlines, hclosing]
  rfl

end BatchCodec
