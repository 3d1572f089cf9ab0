import BatchCodec.Proofs.ExitStatus
import BatchCodec.Proofs.PathOrder
import BatchCodec.Proofs.PickerAgreement
/-!
Expanding what was expanded.

What an argument stands for is a list of files, or the argument itself (`expandInput_cases`). Either way
each path of the list stands for itself: a file is there, so that it is not read as a pattern whatever
characters its name has, and it is no folder (`standsForItself_of_isFile`); and an argument that was
taken as it is will be taken so again. A list of such paths is its own expansion
(`expandInputs_of_standsForItself`), and both pickers select nothing but such lists
(`exists_expandInputs`).

Main statement: `expansion_is_idempotent`.
-/

namespace BatchCodec

/-- A path that a direction expands to itself. -/
def StandsForItself (t : FileTree) (d : Direction) (p : Path) : Prop :=
  expandInput t d p = .ok [p]

section Expansions

variable {t : FileTree} {d : Direction}

theorem standsForItself_of_isFile {p : Path} (h : t.isFile p = true) : StandsForItself t d p := by
  unfold FileTree.isFile at h
  cases hfind : t.find p with
  | error e => rw [hfind] at h; cases h
  | ok node =>
    rw [hfind] at h
    have hhas : t.has p = true := by rw [FileTree.has, hfind]
    have hfolder : t.isFolder p = false := by
      rw [FileTree.isFolder, hfind]
      simpa using h
    simp [StandsForItself, expandInput, hhas, hfolder]

/-- An argument stands for files, or for itself. -/
theorem expandInput_cases {raw : Path} {files : List Path} (h : expandInput t d raw = .ok files) :
    (∀ p ∈ files, t.isFile p = true) ∨ files = [raw] := by
  unfold expandInput at h
  split at h
  · split at h
    · cases h
    · cases h
      left
      intro p hp
      exact (List.mem_filter.mp (Path.mem_sort.mp hp)).2
  · split at h
    · split at h
      · cases h
      · cases h
        left
        intro p hp
        have hkept := (List.mem_filter.mp (Path.mem_sort.mp hp)).2
        exact (Bool.and_eq_true_iff.mp hkept).1
    · cases h
      exact Or.inr rfl

theorem standsForItself_of_mem {raw : Path} {files : List Path}
    (h : expandInput t d raw = .ok files) {p : Path} (hp : p ∈ files) : StandsForItself t d p := by
  rcases expandInput_cases h with hfiles | rfl
  · exact standsForItself_of_isFile (hfiles p hp)
  · rw [List.mem_singleton] at hp
    exact hp ▸ h

theorem standsForItself_of_mem_expandInputs {raws files : List Path}
    (h : expandInputs t d raws = .ok files) {p : Path} (hp : p ∈ files) :
    StandsForItself t d p := by
  obtain ⟨parts, hparts, rfl⟩ := expandInputs_eq_ok_iff.mp h
  obtain ⟨part, hpart, hp⟩ := List.mem_flatten.mp hp
  have hmem : Except.ok part ∈ raws.map (expandInput t d) := by
    rw [hparts]
    exact List.mem_map_of_mem hpart
  obtain ⟨raw, -, hraw⟩ := List.mem_map.mp hmem
  exact standsForItself_of_mem hraw hp

theorem expandInputs_of_standsForItself {files : List Path}
    (h : ∀ p ∈ files, StandsForItself t d p) : expandInputs t d files = .ok files := by
  induction files with
  | nil => rfl
  | cons first more ih =>
    rw [List.forall_mem_cons] at h
    rw [expandInputs, h.1, ih h.2]
    rfl

end Expansions

/-! ## Selections -/

/-- What a choice selects is what its two questions were answered with. -/
theorem chosen_of_choose {p : Picker} {d : Direction} {m : Memory} {selection : Selection}
    (h : (choose p d m).result = .ok selection) :
    p.chosenFiles? d (m.get d).input = some selection.inputs ∧
      p.chosenFolder? d (m.get d).output = some selection.outputDir := by
  cases hfiles : p.chosenFiles? d (m.get d).input with
  | none =>
    obtain ⟨records, hchoose⟩ := choose_of_no_files hfiles
    rw [hchoose] at h
    cases h
  | some files =>
    obtain ⟨first, more, rfl⟩ := Picker.exists_cons_of_chosenFiles? hfiles
    cases hfolder : p.chosenFolder? d (m.get d).output with
    | none =>
      obtain ⟨records, hchoose⟩ := choose_of_no_folder hfiles hfolder
      rw [hchoose] at h
      cases h
    | some folder =>
      obtain ⟨records, hchoose⟩ := choose_of_folder hfiles hfolder
      rw [hchoose] at h
      cases h
      exact ⟨rfl, rfl⟩

theorem expandInput_of_filesOfAnswer {t : FileTree} {d : Direction} {answer : String}
    {files : List Path} (h : filesOfAnswer t d answer = .ok (some files)) :
    expandInput t d ⟨answer⟩ = .ok files := by
  unfold filesOfAnswer at h
  split at h
  · cases h
  · cases hexpand : expandInput t d ⟨answer⟩ with
    | error e => rw [hexpand] at h; cases h
    | ok found =>
      rw [hexpand] at h
      rw [(someFiles_eq_some_iff.mp (Except.ok.inj h)).1]

namespace Picker

/-- Whatever is chosen, on the command line or at the prompt, is the expansion of arguments. -/
theorem exists_expandInputs {t : FileTree} {raws : List Path} {output : Option Path}
    {answers : Answers} {p : Picker} (hp : p ∈ [preset t raws output, prompt t answers])
    {d : Direction} {start : Path} {files : List Path}
    (h : p.chosenFiles? d start = some files) :
    ∃ arguments, expandInputs t d arguments = .ok files := by
  rw [List.mem_cons, List.mem_singleton] at hp
  rcases hp with rfl | rfl
  · exact ⟨raws, expandInputs_eq_ok_iff.mpr (chosenFiles?_preset.mp h).1⟩
  · have hresult := (chosenFiles?_eq_some_iff.mp h).1
    dsimp only [prompt] at hresult
    cases hanswer : answers.files (fileSeed start) with
    | error e => rw [hanswer] at hresult; cases hresult
    | ok answer =>
      rw [hanswer] at hresult
      refine ⟨[⟨Text.trim answer⟩], ?_⟩
      rw [expandInputs_singleton]
      exact expandInput_of_filesOfAnswer hresult

end Picker

/-- Arguments that can be expanded to some files select them, with the output folder beside them. -/
theorem choose_preset {t : FileTree} {d : Direction} {raws files : List Path} {folder : Path}
    (hfiles : expandInputs t d raws = .ok files) (hne : files ≠ []) (hfolder : folder.text ≠ "")
    (m : Memory) :
    (choose (Picker.preset t raws (some folder)) d m).result = .ok ⟨files, folder⟩ := by
  obtain ⟨first, more, rfl⟩ := List.exists_cons_of_ne_nil hne
  have hchosen : (Picker.preset t raws (some folder)).chosenFiles? d (m.get d).input =
      some (first :: more) :=
    Picker.chosenFiles?_preset.mpr ⟨expandInputs_eq_ok_iff.mp hfiles, hne⟩
  have hnamed : (Picker.preset t raws (some folder)).chosenFolder? d (m.get d).output =
      some folder :=
    Picker.chosenFolder?_preset.mpr ⟨rfl, hfolder⟩
  obtain ⟨records, hchoose⟩ := choose_of_folder hchosen hnamed
  rw [hchoose]

/-- **Expansion is idempotent.** Whatever is in the file tree, if an argument can be expanded in a
direction, each path it stands for is expanded to just that path, and all of them as arguments to the
same list. So the files of any batch, selected from the command line or at the prompts, given as
arguments with its output folder, select the same batch, whatever is remembered by then. -/
theorem expansion_is_idempotent (t : FileTree) (d : Direction) :
    (∀ raw files, expandInput t d raw = .ok files →
      (∀ p ∈ files, expandInput t d p = .ok [p]) ∧ expandInputs t d files = .ok files) ∧
    ∀ raws output answers, ∀ p ∈ [Picker.preset t raws output, Picker.prompt t answers],
      ∀ m selection, (choose p d m).result = .ok selection →
        ∀ m', (choose (Picker.preset t selection.inputs (some selection.outputDir)) d m').result =
          .ok selection := by
  constructor
  · intro raw files h
    have hself : ∀ p ∈ files, StandsForItself t d p := fun p hp => standsForItself_of_mem h hp
    exact ⟨hself, expandInputs_of_standsForItself hself⟩
  · intro raws output answers p hp m selection h m'
    obtain ⟨hfiles, hfolder⟩ := chosen_of_choose h
    obtain ⟨arguments, harguments⟩ := Picker.exists_expandInputs hp hfiles
    have hself : expandInputs t d selection.inputs = .ok selection.inputs :=
      expandInputs_of_standsForItself fun p hp => standsForItself_of_mem_expandInputs harguments hp
    obtain ⟨first, more, hinputs⟩ := Picker.exists_cons_of_chosenFiles? hfiles
    exact choose_preset hself (by simp [hinputs]) (Picker.text_ne_of_chosenFolder? hfolder) m'

/-- A folder with two files, the name of the first a pattern for the second: each of them is expanded
to itself, and both as arguments select what the folder does. -/
theorem expansion_is_idempotent_on_a_name_like_a_pattern :
    let entries : List (String × Node) := [("a[b].txt", .file {}), ("ab.txt", .file {})]
    let t : FileTree := ⟨.folder .full [("w", .folder .full entries)], []⟩
    let files : List Path := [⟨"w/a[b].txt"⟩, ⟨"w/ab.txt"⟩]
    let selection : Selection := ⟨files, ⟨"build"⟩⟩
    let m := Memory.start ⟨"data"⟩ ⟨"out"⟩
    (expandInput t .compile ⟨"w"⟩ = .ok files ∧
      expandInput t .compile ⟨"w/a[b].txt"⟩ = .ok [⟨"w/a[b].txt"⟩] ∧
      expandInputs t .compile files = .ok files) ∧
    (choose (Picker.preset t [⟨"w"⟩] (some ⟨"build"⟩)) .compile m).result = .ok selection ∧
      ∀ m', (choose (Picker.preset t files (some ⟨"build"⟩)) .compile m').result =
        .ok selection := by
  intro entries t files selection m
  obtain ⟨hexpansion, hselection⟩ := expansion_is_idempotent t .compile
  have hsorted : folderFiles t ⟨"w"⟩ (entries.map Prod.fst) .compile = files := by
    have hkept : ((entries.map Prod.fst).map (Path.join ⟨"w"⟩)).filter
        (fun p => t.isFile p && Direction.compile.accepts p) = files := by decide
    rw [folderFiles, hkept]
    exact List.mergeSort_of_pairwise (by decide)
  have hexpand : expandInput t .compile ⟨"w"⟩ = .ok files := by
    have hhas : t.has ⟨"w"⟩ = true := by decide
    have hfolder : t.isFolder ⟨"w"⟩ = true := by decide
    have hnames : (t.names ⟨"w"⟩).toOption = some (entries.map Prod.fst) := by decide
    cases h : t.names ⟨"w"⟩ with
    | error e => rw [h] at hnames; cases hnames
    | ok names =>
      rw [h] at hnames
      rw [← hsorted, ← Option.some.inj hnames]
      simp [expandInput, hhas, hfolder, h]
  have hselected : (choose (Picker.preset t [⟨"w"⟩] (some ⟨"build"⟩)) .compile m).result =
      .ok selection := by
    apply choose_preset (by rw [expandInputs_singleton, hexpand]) (List.cons_ne_nil _ _)
    decide
  obtain ⟨hself, hall⟩ := hexpansion ⟨"w"⟩ files hexpand
  exact ⟨⟨hexpand, hself _ List.mem_cons_self, hall⟩, hselected,
    hselection [⟨"w"⟩] (some ⟨"build"⟩) ⟨fun _ => .ok "", fun _ => .ok ""⟩ _ List.mem_cons_self m
      selection hselected⟩

end BatchCodec
