import BatchCodec.Session
/-!
The two questions of a step, by how they were answered.

A question for files is answered when the picker gives some file, and one for a folder when it gives
a folder that is not the empty path (`chosenFiles?`, `chosenFolder?`). Backing out, an empty answer
and a failure are the same to all that follows. Which questions are put, what is remembered and what
is selected depends on these two answers alone, and there are three cases: no files, files but no
folder, and both. Each of the three lemmas says everything a choice comes to in its case, up to the
records for the operator.
-/

namespace BatchCodec

namespace Picker

/-- The files the question for files is answered with, if there are any. -/
def chosenFiles? (p : Picker) (d : Direction) (start : Path) : Option (List Path) :=
  match (p.files d start).result with
  | .ok (some (first :: more)) => some (first :: more)
  | _ => none

/-- The folder the question for a folder is answered with, unless it is the empty path. -/
def chosenFolder? (p : Picker) (d : Direction) (start : Path) : Option Path :=
  match (p.folder d start).result with
  | .ok (some folder) => if folder.text.isEmpty then none else some folder
  | _ => none

theorem chosenFiles?_eq_some_iff {p : Picker} {d : Direction} {start : Path}
    {files : List Path} :
    p.chosenFiles? d start = some files ↔
      (p.files d start).result = .ok (some files) ∧ files ≠ [] := by
  unfold chosenFiles?
  constructor
  · intro h
    split at h
    · rename_i hresult
      cases h
      exact ⟨hresult, List.cons_ne_nil _ _⟩
    · cases h
  · rintro ⟨hresult, hne⟩
    obtain ⟨first, more, rfl⟩ := List.exists_cons_of_ne_nil hne
    rw [hresult]

theorem exists_cons_of_chosenFiles? {p : Picker} {d : Direction} {start : Path}
    {files : List Path} (h : p.chosenFiles? d start = some files) :
    ∃ first more, files = first :: more :=
  List.exists_cons_of_ne_nil (chosenFiles?_eq_some_iff.mp h).2

theorem text_ne_of_chosenFolder? {p : Picker} {d : Direction} {start folder : Path}
    (h : p.chosenFolder? d start = some folder) : folder.text ≠ "" := by
  unfold chosenFolder? at h
  split at h
  · split at h
    · cases h
    · rename_i hne
      rw [Option.some.inj h] at hne
      exact fun htext => hne (by rw [htext]; rfl)
  · cases h

end Picker

namespace Memory

/-- Remembering where files came from touches the input folder of one direction only. -/
theorem get_rememberInput (m : Memory) (d e : Direction) (file : Path) :
    (m.rememberInput d file).get e =
      { input := if d = e then folderOf file else (m.get e).input
        output := (m.get e).output } := by
  unfold rememberInput
  by_cases h : d = e
  · subst h
    rw [PerDirection.get_set_same, if_pos rfl]
  · rw [PerDirection.get_set_of_ne m _ (Ne.symm h), if_neg h]

/-- Remembering where output went touches the output folder of one direction only. -/
theorem get_rememberOutput (m : Memory) (d e : Direction) (folder : Path) :
    (m.rememberOutput d folder).get e =
      { input := (m.get e).input
        output := if d = e then folder else (m.get e).output } := by
  unfold rememberOutput
  by_cases h : d = e
  · subst h
    rw [PerDirection.get_set_same, if_pos rfl]
  · rw [PerDirection.get_set_of_ne m _ (Ne.symm h), if_neg h]

end Memory

section Cases

variable {p : Picker} {d : Direction} {m : Memory}

/-- Without files no folder is asked for and nothing is remembered. -/
theorem choose_of_no_files (h : p.chosenFiles? d (m.get d).input = none) :
    ∃ records, choose p d m =
      ⟨.error .files, m, { prompts := [(m.get d).input], records := records }⟩ := by
  unfold Picker.chosenFiles? at h
  unfold choose
  dsimp only
  -- a failure, backing out and an empty list differ in the record only
  split
  · exact ⟨_, rfl⟩
  · exact ⟨_, rfl⟩
  · exact ⟨_, rfl⟩
  · rename_i hr
    rw [hr] at h
    cases h

/-- With files, the rest of the choice is the question for a folder. -/
theorem choose_of_files {first : Path} {more : List Path}
    (h : p.chosenFiles? d (m.get d).input = some (first :: more)) :
    ∃ records, choose p d m =
      let rest := chooseFolder p d (m.rememberInput d first) (first :: more)
      { rest with
        trace := { prompts := [(m.get d).input], records := records } ++ rest.trace } := by
  unfold Picker.chosenFiles? at h
  unfold choose
  dsimp only
  split at h
  · rename_i hr
    cases h
    rw [hr]
    exact ⟨_, rfl⟩
  · cases h

theorem chooseFolder_of_none (inputs : List Path)
    (h : p.chosenFolder? d (m.get d).output = none) :
    ∃ records, chooseFolder p d m inputs =
      ⟨.error .folder, m, { prompts := [(m.get d).output], records := records }⟩ := by
  unfold Picker.chosenFolder? at h
  unfold chooseFolder
  dsimp only
  split
  · exact ⟨_, rfl⟩
  · exact ⟨_, rfl⟩
  · rename_i folder hr
    rw [hr] at h
    dsimp only at h
    split at h
    · rename_i hempty
      rw [if_pos hempty]
      exact ⟨_, rfl⟩
    · cases h

theorem chooseFolder_of_some (inputs : List Path) {folder : Path}
    (h : p.chosenFolder? d (m.get d).output = some folder) :
    ∃ records, chooseFolder p d m inputs =
      ⟨.ok ⟨inputs, folder⟩, m.rememberOutput d folder,
        { prompts := [(m.get d).output], records := records }⟩ := by
  unfold Picker.chosenFolder? at h
  unfold chooseFolder
  dsimp only
  split at h
  · rename_i answer hr
    split at h
    · cases h
    · rename_i hne
      rw [hr]
      dsimp only
      rw [if_neg hne, Option.some.inj h]
      exact ⟨_, rfl⟩
  · cases h

/-- Files without a folder are remembered but not selected. -/
theorem choose_of_no_folder {first : Path} {more : List Path}
    (hfiles : p.chosenFiles? d (m.get d).input = some (first :: more))
    (hfolder : p.chosenFolder? d (m.get d).output = none) :
    ∃ records, choose p d m =
      ⟨.error .folder, m.rememberInput d first,
        { prompts := [(m.get d).input, (m.get d).output], records := records }⟩ := by
  obtain ⟨before, hchoose⟩ := choose_of_files hfiles
  have houtput : ((m.rememberInput d first).get d).output = (m.get d).output := by
    rw [Memory.get_rememberInput]
  rw [← houtput] at hfolder
  obtain ⟨after, hrest⟩ := chooseFolder_of_none (first :: more) hfolder
  exact ⟨before ++ after, by rw [hchoose, hrest, houtput]; rfl⟩

/-- Files and a folder are remembered and selected. -/
theorem choose_of_folder {first : Path} {more : List Path} {folder : Path}
    (hfiles : p.chosenFiles? d (m.get d).input = some (first :: more))
    (hfolder : p.chosenFolder? d (m.get d).output = some folder) :
    ∃ records, choose p d m =
      ⟨.ok ⟨first :: more, folder⟩, (m.rememberInput d first).rememberOutput d folder,
        { prompts := [(m.get d).input, (m.get d).output], records := records }⟩ := by
  obtain ⟨before, hchoose⟩ := choose_of_files hfiles
  have houtput : ((m.rememberInput d first).get d).output = (m.get d).output := by
    rw [Memory.get_rememberInput]
  rw [← houtput] at hfolder
  obtain ⟨after, hrest⟩ := chooseFolder_of_some (first :: more) hfolder
  exact ⟨before ++ after, by rw [hchoose, hrest, houtput]; rfl⟩

end Cases

end BatchCodec
