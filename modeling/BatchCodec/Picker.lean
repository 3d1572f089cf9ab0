import BatchCodec.Expansion
import BatchCodec.Record
import BatchCodec.Text.Blank
/-!
Pickers: whatever answers the two questions for files and for an output folder.

Each question is put with a folder to start from. The answer is a value, nothing when the user backed
out, or a failure. A preset picker answers with what stood on the command line; a prompt picker asks
on the terminal, its prompts prefilled with the folder to start from.

A prompt is prefilled with the path as it is displayed. Displaying a path replaces what is no Unicode
text in it; paths are Unicode texts here, so nothing is replaced and the prefilled text is that of the
path (`fileSeed`, `folderSeed`).

Functions of the program: `PresetPicker` (`Picker.preset`), `PromptPicker` (`Picker.prompt`),
`initial_text` (`fileSeed`), `ask` (`filesOfAnswer` and `folderOfAnswer` of the trimmed answer).
-/

namespace BatchCodec

/-- The answer to one question, with what was recorded on the way. -/
structure Pick (α : Type) where
  /-- `none` when the user backed out. -/
  result : Except PickError (Option α)
  records : List Record := []

/-- A picker: both questions, each for a direction and from a folder. -/
structure Picker where
  files : Direction → Path → Pick (List Path)
  folder : Direction → Path → Pick Path

/-- No files is the same as backing out. -/
def someFiles (files : List Path) : Option (List Path) :=
  if files.isEmpty then none else some files

theorem someFiles_eq_some_iff {found files : List Path} :
    someFiles found = some files ↔ found = files ∧ files ≠ [] := by
  cases found with
  | nil =>
    constructor
    · nofun
    · rintro ⟨rfl, hne⟩
      exact absurd rfl hne
  | cons first more =>
    constructor
    · intro h
      cases h
      exact ⟨rfl, List.cons_ne_nil first more⟩
    · rintro ⟨rfl, -⟩
      rfl

theorem someFiles_eq_none_iff {found : List Path} : someFiles found = none ↔ found = [] := by
  cases found <;> simp [someFiles]

/-- The picker for input arguments and an output folder given beforehand. -/
def Picker.preset (t : FileTree) (inputs : List Path) (output : Option Path) : Picker where
  files := fun d _ => { result := (expandInputs t d inputs).map someFiles }
  folder := fun _ _ => { result := .ok (output.filter fun p => !p.text.isEmpty) }

/-- What a user types at the two prompts, each as a function of the prefilled text. -/
structure Answers where
  files : String → Except PickError String
  folder : String → Except PickError String

/-- The text the prompt for files is prefilled with: the folder with a separator behind it. -/
def fileSeed (folder : Path) : String :=
  if folder.text.toList.getLast? == some '/' then folder.text else folder.text ++ "/"

def folderSeed (folder : Path) : String := folder.text

def filesOfAnswer (t : FileTree) (d : Direction) (answer : String) :
    Except PickError (Option (List Path)) :=
  if answer.isEmpty then .ok none else (expandInput t d ⟨answer⟩).map someFiles

def folderOfAnswer (answer : String) : Option Path :=
  if answer.isEmpty then none else some ⟨answer⟩

/-- The picker that asks on the terminal. -/
def Picker.prompt (t : FileTree) (a : Answers) : Picker where
  files := fun d start =>
    { result :=
        match a.files (fileSeed start) with
        | .error e => .error e
        | .ok answer => filesOfAnswer t d (Text.trim answer)
      records := [⟨.info, .prompt, "opening file prompt"⟩] }
  folder := fun _ start =>
    { result := (a.folder (folderSeed start)).map fun answer => folderOfAnswer (Text.trim answer)
      records := [⟨.info, .prompt, "opening folder prompt"⟩] }

end BatchCodec
