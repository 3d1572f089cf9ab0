import BatchCodec.OneShot
import BatchCodec.Proofs.SessionRun
/-!
The exit status of a batch from the command line.

A report is clean exactly when every selected file was answered well (`runBatch_isClean_iff`): an
early end leaves files over, and the rejection that caused it is not a conversion. What the command
line selects is the concatenation of the expansions of its arguments, if all of them can be expanded,
there is a file among them and an output folder is named (`Selects`). A run either gives up or runs
the batch of what was selected (`step_run_cases`), and the exit status (`exitStatus_run`) and the text
on standard output (`printed_run_of_cancelled`, `printed_run_of_selected`) follow from the one or the
other. There is no exit status if a report is to be written as JSON and cannot be
(`OneShot.Refused`).
-/

namespace BatchCodec

/-! ## Clean reports -/

theorem getElem?_attempts (c : Converter) (d : Direction) (outputDir : Path) (k : Nat)
    (inputs : List Path) (i : Nat) :
    (attempts c d outputDir k inputs)[i]? = inputs[i]?.map (c.attempt d outputDir (k + i)) := by
  rw [attempts, List.getElem?_map, List.getElem?_zipIdx, Option.map_map]
  rfl

/-- Attempts without a rejection are all made. -/
theorem reached_of_no_rejection {keepGoing : Bool} {as : List Attempt}
    (h : ∀ a ∈ as, a.rejected = false) : reached keepGoing as = as := by
  induction as with
  | nil => rw [reached_nil]
  | cons a as ih =>
    have ha : a.rejected = false := h a List.mem_cons_self
    have has : ∀ x ∈ as, x.rejected = false := fun x hx => h x (List.mem_cons_of_mem a hx)
    rw [reached_cons, ha, ih has]
    rfl

/-- Every attempt was answered well exactly when every file was, at its place in the batch. -/
theorem forall_attempts_iff (c : Converter) (d : Direction) (outputDir : Path)
    (inputs : List Path) :
    (∀ a ∈ attempts c d outputDir 0 inputs, a.reply.result = .ok ()) ↔
      ∀ k file, inputs[k]? = some file → (c.convert k ⟨d, file, outputDir⟩).result = .ok () := by
  constructor
  · intro h k file hk
    have hget := getElem?_attempts c d outputDir 0 inputs k
    rw [hk, Option.map_some, Nat.zero_add] at hget
    exact h _ (List.mem_of_getElem? hget)
  · intro h a ha
    obtain ⟨k, hk⟩ := List.getElem?_of_mem ha
    rw [getElem?_attempts, Nat.zero_add, Option.map_eq_some_iff] at hk
    obtain ⟨file, hfile, rfl⟩ := hk
    exact h k file hfile

theorem Report.isClean_iff (r : Report) :
    r.isClean = true ↔ r.skipped = [] ∧ ∀ item ∈ r.items, item.outcome.isConverted = true := by
  rw [isClean, Bool.and_eq_true, List.isEmpty_iff, beq_iff_eq, converted, count,
    List.countP_eq_length]

/-- A report is clean exactly when the converter answers well about every selected file. -/
theorem runBatch_isClean_iff (c : Converter) (policy : Policy) (d : Direction) (s : Selection)
    (b : Board) :
    (runBatch c policy d s b).report.isClean = true ↔
      ∀ k file, s.inputs[k]? = some file →
        (c.convert k ⟨d, file, s.outputDir⟩).result = .ok () := by
  rw [← forall_attempts_iff, Report.isClean_iff, runBatch_report]
  dsimp only
  constructor
  · rintro ⟨hskipped, hconverted⟩ a ha
    -- nothing was skipped, so the attempts made are all of them
    have hlength : s.inputs.length ≤ (s.attempted c policy d).length :=
      List.drop_eq_nil_iff.mp hskipped
    rw [← length_attempts c d s.outputDir 0] at hlength
    have hall : s.attempted c policy d = attempts c d s.outputDir 0 s.inputs :=
      (isPrefix_reached _ _).eq_of_length_le hlength
    rw [← hall] at ha
    exact a.isConverted_item.mp (hconverted a.item (List.mem_map_of_mem ha))
  · intro hok
    have hall : s.attempted c policy d = attempts c d s.outputDir 0 s.inputs := by
      apply reached_of_no_rejection
      intro a ha
      rw [Attempt.rejected, hok a ha]
    rw [hall, length_attempts, List.drop_length]
    refine ⟨rfl, ?_⟩
    intro item hitem
    obtain ⟨a, ha, rfl⟩ := List.mem_map.mp hitem
    exact a.isConverted_item.mpr (hok a ha)

/-- With a clean report the converter was asked about every selected file. -/
theorem runBatch_calls_of_isClean {c : Converter} {policy : Policy} {d : Direction} {s : Selection}
    {b : Board} (h : (runBatch c policy d s b).report.isClean = true) :
    (runBatch c policy d s b).trace.calls = s.inputs.map fun file => ⟨d, file, s.outputDir⟩ := by
  have hskipped : (runBatch c policy d s b).report.skipped = [] := ((Report.isClean_iff _).mp h).1
  have hinputs := runBatch_partition c policy d s b
  rw [hskipped, List.append_nil, runBatch_report] at hinputs
  rw [runBatch_calls, ← hinputs, List.map_map, List.map_map]
  rfl

/-! ## What the command line selects -/

/-- Every argument can be expanded, and `files` are the expansions one behind the other. -/
def ExpandTo (t : FileTree) (d : Direction) (raws files : List Path) : Prop :=
  ∃ parts : List (List Path),
    raws.map (expandInput t d) = parts.map Except.ok ∧ files = parts.flatten

theorem expandInputs_eq_ok_iff {t : FileTree} {d : Direction} {raws files : List Path} :
    expandInputs t d raws = .ok files ↔ ExpandTo t d raws files := by
  induction raws generalizing files with
  | nil =>
    constructor
    · intro h
      cases h
      exact ⟨[], rfl, rfl⟩
    · rintro ⟨parts, hparts, rfl⟩
      rw [List.map_nil, eq_comm, List.map_eq_nil_iff] at hparts
      rw [hparts]
      rfl
  | cons raw raws ih =>
    constructor
    · intro h
      rw [expandInputs] at h
      split at h
      · cases h
      · rename_i first hfirst
        split at h
        · cases h
        · rename_i more hmore
          cases h
          obtain ⟨parts, hparts, rfl⟩ := ih.mp hmore
          exact ⟨first :: parts, by rw [List.map_cons, List.map_cons, hfirst, hparts], rfl⟩
    · rintro ⟨parts, hparts, rfl⟩
      cases parts with
      | nil => simp at hparts
      | cons first parts =>
        rw [List.map_cons, List.map_cons, List.cons.injEq] at hparts
        obtain ⟨hfirst, hrest⟩ := hparts
        rw [expandInputs, hfirst]
        dsimp only
        rw [ih.mpr ⟨parts, hrest, rfl⟩]
        rfl

namespace Picker

theorem files_preset_eq_some_iff {t : FileTree} {inputs files : List Path} {output : Option Path}
    {d : Direction} {start : Path} :
    ((preset t inputs output).files d start).result = .ok (some files) ↔
      ExpandTo t d inputs files ∧ files ≠ [] := by
  rw [← expandInputs_eq_ok_iff]
  show (expandInputs t d inputs).map someFiles = .ok (some files) ↔ _
  cases expandInputs t d inputs with
  | error e => simp [Except.map]
  | ok found => rw [Except.map, Except.ok.injEq, Except.ok.injEq, someFiles_eq_some_iff]

theorem chosenFiles?_preset {t : FileTree} {inputs files : List Path} {output : Option Path}
    {d : Direction} {start : Path} :
    (preset t inputs output).chosenFiles? d start = some files ↔
      ExpandTo t d inputs files ∧ files ≠ [] := by
  rw [chosenFiles?_eq_some_iff, files_preset_eq_some_iff, and_assoc, and_self]

theorem chosenFolder?_preset {t : FileTree} {inputs : List Path} {output : Option Path}
    {d : Direction} {start folder : Path} :
    (preset t inputs output).chosenFolder? d start = some folder ↔
      output = some folder ∧ folder.text ≠ "" := by
  unfold chosenFolder? preset
  dsimp only
  cases output with
  | none => simp
  | some out =>
    by_cases hout : out.text = ""
    · have hempty : out.text.isEmpty = true := by rw [hout]; rfl
      simp only [Option.filter, hempty, Bool.not_true, Bool.false_eq_true, if_false,
        Option.some.injEq]
      constructor
      · intro h
        cases h
      · rintro ⟨rfl, hne⟩
        exact absurd hout hne
    · have hempty : out.text.isEmpty = false := by simpa using hout
      simp only [Option.filter, hempty, Bool.not_false, if_true, Bool.false_eq_true, if_false,
        Option.some.injEq]
      constructor
      · rintro rfl
        exact ⟨rfl, hout⟩
      · exact fun h => h.1

end Picker

/-- The command line selects these files and this output folder. -/
def Settings.Selects (s : Settings) (d : Direction) (t : FileTree) (files : List Path)
    (folder : Path) : Prop :=
  ExpandTo t d s.inputs files ∧ files ≠ [] ∧ s.output = some folder ∧ folder.text ≠ ""

/-- The command line selects what it answers the two questions with. -/
theorem Settings.selects_iff {s : Settings} {d : Direction} {t : FileTree} {files : List Path}
    {folder : Path} (input output : Path) :
    s.Selects d t files folder ↔
      (Picker.preset t s.inputs s.output).chosenFiles? d input = some files ∧
      (Picker.preset t s.inputs s.output).chosenFolder? d output = some folder := by
  rw [Picker.chosenFiles?_preset, Picker.chosenFolder?_preset, Selects, and_assoc]

theorem Settings.Selects.unique {s : Settings} {d : Direction} {t : FileTree}
    {files files' : List Path} {folder folder' : Path} (h : s.Selects d t files folder)
    (h' : s.Selects d t files' folder') : files = files' ∧ folder = folder' := by
  obtain ⟨hfiles, hfolder⟩ := (selects_iff ⟨""⟩ ⟨""⟩).mp h
  obtain ⟨hfiles', hfolder'⟩ := (selects_iff ⟨""⟩ ⟨""⟩).mp h'
  exact ⟨Option.some.inj (hfiles.symm.trans hfiles'), Option.some.inj (hfolder.symm.trans hfolder')⟩

/-! ## Standard output -/

/-- Without JSON and without quiet, a batch from the command line prints its status lines. -/
theorem printed_announceAll_display (s : Settings) (log : StatusLog) (h : 0 < log.capacity)
    (lines : List String) :
    ((⟨log, OneShot.display s⟩ : Board).announceAll lines).2.printed =
      if s.json || s.quiet then "" else String.join (lines.map (· ++ "\n")) := by
  unfold OneShot.display
  split
  · exact Board.printed_announceAll_silent log lines
  · exact Board.printed_announceAll_line log lines h

namespace OneShot

/-- A log of the default size without lines. -/
def freshLog : StatusLog := StatusLog.empty StatusLog.defaultCapacity

section Runs

variable {write : ReportWriter} {s : Settings} {d : Direction} {t : FileTree} {c : Converter}
  {timing : Timing}

theorem calls_run :
    (run write s d t c timing).trace.calls = (run write s d t c timing).step.trace.calls :=
  List.append_nil _

theorem printed_run : (run write s d t c timing).trace.printed =
    (run write s d t c timing).step.trace.printed ++
      (closing s write (run write s d t c timing).step timing).getD "" := rfl

/-- Everything a run can do: it gives up at one of the two questions, because the command line selects
nothing, or it runs the batch of what the command line selects. -/
theorem step_run_cases (write : ReportWriter) (s : Settings) (d : Direction) (t : FileTree)
    (c : Converter) (timing : Timing) :
    ((¬∃ files folder, s.Selects d t files folder) ∧
      ∃ line memory prompts records,
        (line = "No file selected!" ∧ (∀ files, ExpandTo t d s.inputs files → files = []) ∨
          line = "No folder selected!" ∧ ∃ files, ExpandTo t d s.inputs files ∧ files ≠ []) ∧
        (run write s d t c timing).step =
          ⟨⟨memory, freshLog.push line⟩, none, { prompts := prompts, records := records } ++
            (Board.announce ⟨freshLog, display s⟩ (some line)).2⟩) ∨
    ∃ files folder session prompts records, s.Selects d t files folder ∧
      (run write s d t c timing).step =
        let batch := runBatch c s.policy d ⟨files, folder⟩ ⟨freshLog, display s⟩
        ⟨session, some batch.report,
          { prompts := prompts, records := records } ++ batch.trace⟩ := by
  let p := Picker.preset t s.inputs s.output
  let folders := (Session.start s.folders.input s.folders.output).memory.get d
  cases hfiles : p.chosenFiles? d folders.input with
  | none =>
    obtain ⟨records, hstep⟩ := step_of_no_files c s.policy (display s) hfiles
    have hnone : ∀ files, ExpandTo t d s.inputs files → files = [] := by
      intro files hexpand
      by_cases hne : files = []
      · exact hne
      · rw [Picker.chosenFiles?_preset.mpr ⟨hexpand, hne⟩] at hfiles
        cases hfiles
    left
    refine ⟨?_, _, _, _, records, Or.inl ⟨rfl, hnone⟩, hstep⟩
    rintro ⟨files, folder, hexpand, hne, -⟩
    exact hne (hnone files hexpand)
  | some files =>
    obtain ⟨first, more, rfl⟩ := Picker.exists_cons_of_chosenFiles? hfiles
    cases hfolder : p.chosenFolder? d folders.output with
    | none =>
      obtain ⟨records, hstep⟩ := step_of_no_folder c s.policy (display s) hfiles hfolder
      have hsome := Picker.chosenFiles?_preset.mp hfiles
      left
      refine ⟨?_, _, _, _, records, Or.inr ⟨rfl, _, hsome⟩, hstep⟩
      rintro ⟨files, folder, hselects⟩
      have hchosen := ((Settings.selects_iff folders.input folders.output).mp hselects).2
      rw [hfolder] at hchosen
      cases hchosen
    | some folder =>
      obtain ⟨records, hstep⟩ := step_of_folder c s.policy (display s) hfiles hfolder
      right
      exact ⟨_, _, _, _, records, (Settings.selects_iff _ _).mpr ⟨hfiles, hfolder⟩, hstep⟩

/-- The report of a run is to be written as JSON, and the writer refuses to. -/
def Refused (s : Settings) (write : ReportWriter) (report : Option Report) (timing : Timing) :
    Prop :=
  s.json = true ∧ ∃ r, report = some r ∧ write r timing = none

theorem closing_eq_none_iff {step : Step} :
    closing s write step timing = none ↔ Refused s write step.report timing := by
  unfold closing Refused Settings.presented
  cases step.report with
  | none =>
    -- the document of a selection that was given up can always be written
    cases s.json with
    | false => simp
    | true => cases step.session.log.newest? <;> simp
  | some report => cases s.json <;> cases s.quiet <;> simp

/-- A run has the exit status that its report calls for, unless it is aborted. -/
theorem exitStatus_run :
    (Refused s write (run write s d t c timing).step.report timing ∧
      (run write s d t c timing).exitStatus = none) ∨
    (¬Refused s write (run write s d t c timing).step.report timing ∧
      (run write s d t c timing).exitStatus =
        some (statusOf (run write s d t c timing).step.report)) := by
  have hexit : (run write s d t c timing).exitStatus =
      (closing s write (run write s d t c timing).step timing).map
        fun _ => statusOf (run write s d t c timing).step.report := rfl
  rw [hexit, ← closing_eq_none_iff]
  cases closing s write (run write s d t c timing).step timing with
  | none => exact Or.inl ⟨rfl, rfl⟩
  | some shown => exact Or.inr ⟨nofun, rfl⟩

theorem statusOf_eq_zero_or_one (report : Option Report) :
    statusOf report = 0 ∨ statusOf report = 1 := by
  unfold statusOf
  split
  · exact Or.inl rfl
  · exact Or.inr rfl

theorem statusOf_eq_zero_iff {report : Option Report} :
    statusOf report = 0 ↔ ∀ r, report = some r → r.isClean = true := by
  unfold statusOf
  cases report with
  | none => simp
  | some r => simp

/-- The line of a selection that is given up is all that is said. -/
theorem printed_run_of_cancelled {line : String} {memory : Memory} {prompts : List Path}
    {records : List Record}
    (h : (run write s d t c timing).step =
      ⟨⟨memory, freshLog.push line⟩, none, { prompts := prompts, records := records } ++
        (Board.announce ⟨freshLog, display s⟩ (some line)).2⟩) :
    (run write s d t c timing).trace.printed =
      if s.json then cancelledJson line ++ "\n" else if s.quiet then "" else line ++ "\n" := by
  have hcapacity : 0 < freshLog.capacity := by decide
  have hshown : (run write s d t c timing).step.trace.printed =
      if s.json || s.quiet then "" else line ++ "\n" := by
    have hlines := printed_announceAll_display s freshLog hcapacity [line]
    rw [List.map_cons, List.map_nil, String.join_cons, String.join_nil,
      String.append_empty] at hlines
    rw [h, ← hlines]
    show "" ++ _ = _ ++ ""
    rw [String.empty_append, String.append_empty]
  have hclosing : closing s write (run write s d t c timing).step timing =
      some (if s.json then cancelledJson line ++ "\n" else "") := by
    rw [h]
    simp only [closing, StatusLog.newest?_push freshLog line hcapacity]
    cases s.json <;> rfl
  rw [printed_run, hshown, hclosing]
  cases s.json <;> cases s.quiet <;> simp

/-- A batch that ran calls for success if every file was answered well, and then all were asked
about. -/
theorem statusOf_run_of_selected {selection : Selection} {session : Session}
    {prompts : List Path} {records : List Record}
    (h : (run write s d t c timing).step =
      let batch := runBatch c s.policy d selection ⟨freshLog, display s⟩
      ⟨session, some batch.report, { prompts := prompts, records := records } ++ batch.trace⟩) :
    (statusOf (run write s d t c timing).step.report = 0 ↔
      ∀ k file, selection.inputs[k]? = some file →
        (c.convert k ⟨d, file, selection.outputDir⟩).result = .ok ()) ∧
    (statusOf (run write s d t c timing).step.report = 0 →
      (run write s d t c timing).trace.calls =
        selection.inputs.map fun file => ⟨d, file, selection.outputDir⟩) := by
  let batch := runBatch c s.policy d selection ⟨freshLog, display s⟩
  have hclean : statusOf (run write s d t c timing).step.report = 0 ↔
      batch.report.isClean = true := by
    rw [statusOf_eq_zero_iff, h]
    constructor
    · intro hall
      exact hall batch.report rfl
    · intro hclean report hreport
      cases hreport
      exact hclean
  constructor
  · rw [hclean, runBatch_isClean_iff]
  · intro hexit
    rw [calls_run, h]
    exact runBatch_calls_of_isClean (hclean.mp hexit)

/-- A batch that ran says its status lines and its report, in the form that was asked for; if the report
is refused, it says nothing. -/
theorem printed_run_of_selected {selection : Selection} {session : Session} {prompts : List Path}
    {records : List Record}
    (h : (run write s d t c timing).step =
      let batch := runBatch c s.policy d selection ⟨freshLog, display s⟩
      ⟨session, some batch.report, { prompts := prompts, records := records } ++ batch.trace⟩) :
    let report := (runBatch c s.policy d selection ⟨freshLog, display s⟩).report
    (run write s d t c timing).trace.printed =
      if s.json then ((write report timing).map (· ++ "\n")).getD ""
      else if s.quiet then ""
      else String.join (report.entries.map (· ++ "\n")) ++ "\n" ++
        report.printed timing s.color := by
  intro report
  have hshown : (run write s d t c timing).step.trace.printed =
      if s.json || s.quiet then "" else String.join (report.entries.map (· ++ "\n")) := by
    have hbatch := (runBatch_announces c s.policy d selection ⟨freshLog, display s⟩).2
    rw [printed_announceAll_display s freshLog (by decide)] at hbatch
    rw [h, Trace.printed_append, hbatch]
    exact String.empty_append
  have hclosing : closing s write (run write s d t c timing).step timing =
      s.presented write report timing := by
    rw [h]
    rfl
  rw [printed_run, hshown, hclosing, Settings.presented]
  cases s.json <;> cases s.quiet <;> simp [String.append_assoc]

end Runs

end OneShot

end BatchCodec
