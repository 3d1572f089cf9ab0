import BatchCodec.Proofs.ExitStatus
/-!
The input arguments of a command line count all together or not at all.

Arguments are expanded from left to right. What the first of them stand for is put in front of what
the rest stand for, as long as they can be expanded (`expandInputs_append`); so the arguments fail
exactly when one of them does, with the error of the first that does (`expandInputs_eq_error_iff`), and
nothing is left of those expanded before it. A picker with these arguments then has no files to offer,
and a step that gets no files leaves one status line and changes nothing else (`step_of_no_files`).

Main statement: `inputs_are_taken_all_or_not_at_all`.
-/

namespace BatchCodec

/-- The error of the first argument that cannot be expanded. -/
def FirstError (t : FileTree) (d : Direction) (raws : List Path) (e : PickError) : Prop :=
  ∃ before raw after, raws = before ++ raw :: after ∧ (∃ files, ExpandTo t d before files) ∧
    expandInput t d raw = .error e

section Arguments

variable {t : FileTree} {d : Direction}

theorem expandInputs_append {before files : List Path} (h : expandInputs t d before = .ok files)
    (rest : List Path) :
    expandInputs t d (before ++ rest) = (expandInputs t d rest).map (files ++ ·) := by
  induction before generalizing files with
  | nil =>
    cases h
    rw [List.nil_append]
    cases expandInputs t d rest <;> rfl
  | cons raw before ih =>
    rw [expandInputs] at h
    split at h
    · cases h
    · rename_i first hfirst
      split at h
      · cases h
      · rename_i more hmore
        cases h
        rw [List.cons_append, expandInputs, hfirst]
        dsimp only
        rw [ih hmore]
        cases expandInputs t d rest with
        | error e => rfl
        | ok files => exact congrArg Except.ok (List.append_assoc first more files).symm

theorem expandInputs_eq_error_iff {raws : List Path} {e : PickError} :
    expandInputs t d raws = .error e ↔ FirstError t d raws e := by
  constructor
  · intro h
    induction raws with
    | nil => cases h
    | cons raw raws ih =>
      rw [expandInputs] at h
      split at h
      · rename_i hraw
        cases h
        exact ⟨[], raw, raws, rfl, ⟨[], expandInputs_eq_ok_iff.mp rfl⟩, hraw⟩
      · rename_i first hfirst
        split at h
        · rename_i hraws
          cases h
          obtain ⟨before, failing, after, rfl, ⟨files, hbefore⟩, hfailing⟩ := ih hraws
          refine ⟨raw :: before, failing, after, rfl, ⟨first ++ files, ?_⟩, hfailing⟩
          rw [← expandInputs_eq_ok_iff] at hbefore ⊢
          rw [expandInputs, hfirst]
          dsimp only
          rw [hbefore]
        · cases h
  · rintro ⟨before, raw, after, rfl, ⟨files, hbefore⟩, hraw⟩
    rw [expandInputs_append (expandInputs_eq_ok_iff.mpr hbefore), expandInputs, hraw]
    rfl

/-- An argument that cannot be expanded fails all of them, wherever it stands. -/
theorem not_expandTo_of_error {raws : List Path} {raw : Path} {e : PickError} (hmem : raw ∈ raws)
    (h : expandInput t d raw = .error e) (files : List Path) : ¬ExpandTo t d raws files := by
  rintro ⟨parts, hparts, -⟩
  have hraw : expandInput t d raw ∈ parts.map Except.ok := by
    rw [← hparts]
    exact List.mem_map_of_mem hmem
  obtain ⟨part, -, hpart⟩ := List.mem_map.mp hraw
  rw [h] at hpart
  cases hpart

end Arguments

namespace Picker

variable {t : FileTree} {inputs : List Path} {output : Option Path} {d : Direction} {start : Path}

theorem files_preset_eq_none_iff :
    ((preset t inputs output).files d start).result = .ok none ↔ ExpandTo t d inputs [] := by
  rw [← expandInputs_eq_ok_iff]
  show (expandInputs t d inputs).map someFiles = .ok none ↔ _
  cases expandInputs t d inputs with
  | error e => simp [Except.map]
  | ok found => rw [Except.map, Except.ok.injEq, Except.ok.injEq, someFiles_eq_none_iff]

theorem files_preset_eq_error_iff {e : PickError} :
    ((preset t inputs output).files d start).result = .error e ↔ FirstError t d inputs e := by
  rw [← expandInputs_eq_error_iff]
  show (expandInputs t d inputs).map someFiles = .error e ↔ _
  cases expandInputs t d inputs <;> simp [Except.map]

end Picker

/-- **Input arguments are taken all together or not at all.** A picker with input arguments answers
with their expansions one behind the other if all of them can be expanded and there is a file among
these, with nothing if all can be expanded and there is none, and otherwise with the error of the first
that cannot. In the last two cases, wherever an argument stands that cannot be expanded, a step of any
session asks the converter for nothing, leaves the remembered folders of both directions as they were
and announces the one line that no file was selected. -/
theorem inputs_are_taken_all_or_not_at_all (t : FileTree) (inputs : List Path)
    (output : Option Path) (d : Direction) :
    let picker := Picker.preset t inputs output
    (∀ start,
      let answer := (picker.files d start).result
      (∀ files, answer = .ok (some files) ↔ ExpandTo t d inputs files ∧ files ≠ []) ∧
      (answer = .ok none ↔ ExpandTo t d inputs []) ∧
      ∀ e, answer = .error e ↔ FirstError t d inputs e) ∧
    ((ExpandTo t d inputs [] ∨ ∃ raw ∈ inputs, ∃ e, expandInput t d raw = .error e) →
      ∀ (s : Session) (c : Converter) (policy : Policy) (display : Display),
        let step := s.step d picker c policy display
        step.report = none ∧ step.trace.calls = [] ∧ step.trace.started = [] ∧
          step.session.memory = s.memory ∧ step.session.log = s.log.push "No file selected!" ∧
          step.trace.refreshes = [s.log.push "No file selected!"]) := by
  intro picker
  refine ⟨fun start => ⟨fun files => Picker.files_preset_eq_some_iff,
    Picker.files_preset_eq_none_iff, fun e => Picker.files_preset_eq_error_iff⟩, ?_⟩
  intro hcase s c policy display
  have hnone : picker.chosenFiles? d (s.memory.get d).input = none := by
    rw [Option.eq_none_iff_forall_ne_some]
    intro files hfiles
    obtain ⟨hexpand, hne⟩ := Picker.chosenFiles?_preset.mp hfiles
    obtain hempty | ⟨raw, hmem, e, he⟩ := hcase
    · rw [← expandInputs_eq_ok_iff] at hexpand hempty
      exact hne (Except.ok.inj (hexpand.symm.trans hempty))
    · exact not_expandTo_of_error hmem he files hexpand
  obtain ⟨records, hstep⟩ := step_of_no_files c policy display hnone
  dsimp only
  rw [hstep]
  exact ⟨rfl, rfl, rfl, rfl, rfl, rfl⟩

/-- A file that is there, then a pattern without an end, then a pattern that would find the file: the
file is not converted, and its folder not remembered. -/
theorem inputs_are_taken_all_or_not_at_all_behind_a_bad_pattern :
    let t : FileTree := ⟨.folder .full [("data", .folder .full [("a.txt", .file {})])], []⟩
    let inputs : List Path := [⟨"data/a.txt"⟩, ⟨"data/[z-a"⟩, ⟨"data/*"⟩]
    let e := PickError.pattern "data/[z-a" "invalid range pattern"
    let picker := Picker.preset t inputs (some ⟨"build"⟩)
    let s := Session.start ⟨"in"⟩ ⟨"out"⟩
    let c := Converter.stateless "codec" fun _ => { result := .ok () }
    let step := s.step .compile picker c Policy.default .line
    expandInput t .compile ⟨"data/a.txt"⟩ = .ok [⟨"data/a.txt"⟩] ∧
    expandInput t .compile ⟨"data/[z-a"⟩ = .error e ∧
    (picker.files .compile ⟨"in"⟩).result = .error e ∧
    step.report = none ∧ step.trace.calls = [] ∧ step.session.memory = s.memory ∧
      step.session.log = s.log.push "No file selected!" := by
  intro t inputs e picker s c step
  have hfirst : expandInput t .compile ⟨"data/a.txt"⟩ = .ok [⟨"data/a.txt"⟩] := rfl
  have hbad : expandInput t .compile ⟨"data/[z-a"⟩ = .error e := rfl
  obtain ⟨hanswer, hstep⟩ :=
    inputs_are_taken_all_or_not_at_all t inputs (some ⟨"build"⟩) .compile
  have herror : FirstError t .compile inputs e :=
    ⟨[⟨"data/a.txt"⟩], ⟨"data/[z-a"⟩, [⟨"data/*"⟩], rfl,
      ⟨[⟨"data/a.txt"⟩], [[⟨"data/a.txt"⟩]], by rw [List.map_singleton, hfirst]; rfl, rfl⟩, hbad⟩
  obtain ⟨hreport, hcalls, -, hmemory, hlog, -⟩ :=
    hstep (Or.inr ⟨⟨"data/[z-a"⟩, by simp [inputs], e, hbad⟩) s c Policy.default .line
  exact ⟨hfirst, hbad, ((hanswer ⟨"in"⟩).2.2 e).mpr herror, hreport, hcalls, hmemory, hlog⟩

end BatchCodec
