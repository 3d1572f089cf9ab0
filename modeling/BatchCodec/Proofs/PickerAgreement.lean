import BatchCodec.Proofs.SessionRun
/-!
A batch asked for at the prompts and the same batch given on the command line.

The two pickers decide differently whether there is anything to convert: the prompts look at the
text that was typed, the command line at the files it expands to and at whether a folder was named.
On one answer that is not blank they come to the same result, failures included
(`files_prompt_eq_preset`, `folder_prompt_eq_preset`), and a step depends on its picker through
these results only, so the two batches agree in full (`prompt_and_preset_batches_agree`).
-/

namespace BatchCodec

theorem expandInputs_singleton (t : FileTree) (d : Direction) (raw : Path) :
    expandInputs t d [raw] = expandInput t d raw := by
  unfold expandInputs
  cases expandInput t d raw with
  | error e => rfl
  | ok files => exact congrArg Except.ok (List.append_nil files)

namespace Picker

theorem chosenFiles?_congr {p q : Picker} {d : Direction} {start start' : Path}
    (h : (q.files d start').result = (p.files d start).result) :
    q.chosenFiles? d start' = p.chosenFiles? d start := by
  unfold chosenFiles?
  rw [h]

theorem chosenFolder?_congr {p q : Picker} {d : Direction} {start start' : Path}
    (h : (q.folder d start').result = (p.folder d start).result) :
    q.chosenFolder? d start' = p.chosenFolder? d start := by
  unfold chosenFolder?
  rw [h]

variable {t : FileTree} {answers : Answers} {d : Direction} {start : Path}

/-- An answer that is not blank stands for the files that it stands for as the only argument. -/
theorem files_prompt_eq_preset {answer : String} (h : answers.files (fileSeed start) = .ok answer)
    (hne : Text.trim answer ≠ "") (output : Option Path) :
    ((prompt t answers).files d start).result =
      ((preset t [⟨Text.trim answer⟩] output).files d start).result := by
  have hfull : (Text.trim answer).isEmpty = false := by simpa using hne
  simp only [prompt, preset, h, filesOfAnswer, hfull, expandInputs_singleton]
  rfl

/-- Any answer stands for the folder that it stands for as the output option. -/
theorem folder_prompt_eq_preset {answer : String}
    (h : answers.folder (folderSeed start) = .ok answer) (inputs : List Path) :
    ((prompt t answers).folder d start).result =
      ((preset t inputs (some ⟨Text.trim answer⟩)).folder d start).result := by
  simp only [prompt, preset, h, Except.map, folderOfAnswer, Option.filter]
  by_cases hempty : (Text.trim answer).isEmpty = true
  · simp [hempty]
  · simp [hempty]

end Picker

/-- **A batch asked for at the prompts and one given on the command line agree.** Where a user
answers the prompts of a session with texts of which the first is not blank, the step has the same
report, or none, makes the same requests and leaves the same remembered folders and the same status
log as the step whose one input argument and output option are these texts without the blanks around
them; neither the folders that the prompts are prefilled with nor the displays make a difference. -/
theorem prompt_and_preset_batches_agree (s : Session) (t : FileTree) (d : Direction)
    (c : Converter) (policy : Policy) (display display' : Display) (answers : Answers)
    (files folder : String) (hfiles : answers.files (fileSeed (s.memory.get d).input) = .ok files)
    (hfolder : answers.folder (folderSeed (s.memory.get d).output) = .ok folder)
    (hne : Text.trim files ≠ "") :
    let asked := s.step d (Picker.prompt t answers) c policy display
    let given := s.step d
      (Picker.preset t [⟨Text.trim files⟩] (some ⟨Text.trim folder⟩)) c policy display'
    asked.report = given.report ∧ asked.trace.calls = given.trace.calls ∧
      asked.session.memory = given.session.memory ∧ asked.session.log = given.session.log := by
  have hfiles' := Picker.chosenFiles?_congr
    (Picker.files_prompt_eq_preset (t := t) (d := d) hfiles hne (some ⟨Text.trim folder⟩))
  have hfolder' := Picker.chosenFolder?_congr
    (Picker.folder_prompt_eq_preset (t := t) (d := d) hfolder [⟨Text.trim files⟩])
  obtain ⟨hdealings, remember, lines, hgiven, hasked⟩ :=
    step_congr c policy display' display rfl hfiles' hfolder'
  rw [Step.dealings, Step.dealings, Dealings.mk.injEq] at hdealings
  dsimp only
  rw [hasked, hgiven]
  exact ⟨hdealings.2.2, hdealings.2.1, rfl, rfl⟩

/-- The prefilled folder taken over, with a blank behind it. -/
theorem prompt_and_preset_batches_agree_on_seed :
    let s := Session.start ⟨"data"⟩ ⟨"out"⟩
    let t : FileTree := ⟨.folder .full [("data", .folder .full [("a.txt", .file {})])], []⟩
    let answers : Answers := ⟨fun seed => .ok (seed ++ " "), fun _ => .ok "\tbuild"⟩
    let c := Converter.stateless "codec" fun _ => { result := .ok () }
    let asked := s.step .compile (Picker.prompt t answers) c Policy.default .silent
    let given := s.step .compile
      (Picker.preset t [⟨Text.trim "data/ "⟩] (some ⟨Text.trim "\tbuild"⟩)) c Policy.default .line
    Text.trim "data/ " ≠ "" ∧ given.trace.calls = [⟨.compile, ⟨"data/a.txt"⟩, ⟨"build"⟩⟩] ∧
    asked.report = given.report ∧ asked.trace.calls = given.trace.calls ∧
      asked.session.memory = given.session.memory ∧ asked.session.log = given.session.log := by
  have hne : Text.trim "data/ " ≠ "" := by decide
  have hseed : fileSeed ⟨"data"⟩ ++ " " = "data/ " := by decide
  refine ⟨hne, by decide +kernel, ?_⟩
  exact prompt_and_preset_batches_agree (Session.start ⟨"data"⟩ ⟨"out"⟩) _ .compile _
    Policy.default .silent .line ⟨fun seed => .ok (seed ++ " "), fun _ => .ok "\tbuild"⟩
    "data/ " "\tbuild" (congrArg Except.ok hseed) rfl hne

end BatchCodec
