import BatchCodec.Proofs.SessionRun
/-!
The remembered folders of a session and the folders its questions are put with.

The two halves of a pair are committed at different moments: the input folder as soon as files were
chosen, the output folder only with a report. So the input folder is read off the last episode of
the direction that chose files, reported or not, and the output folder off the last that reported
(`remembered_folders_are_last_used`). Both are the last value written by the episodes of one
direction (`lastUsed`); an episode of the other direction writes nothing.
-/

namespace BatchCodec

namespace Episode

/-- The output folder of the report, if there is one. -/
def reportedFolder? (e : Episode) : Option Path :=
  e.step.report.map Report.outputDir

/-- The folder of the first file chosen, if files were chosen: its parent, or the current folder if
that is missing or empty. -/
def sourceFolder? (e : Episode) : Option Path :=
  (e.files?.bind List.head?).map fun first =>
    (first.parent?.filter fun parent => parent.text ≠ "").getD ⟨"."⟩

end Episode

/-- The last value that episodes of a direction have, the initial one if none has. -/
def lastUsed (value? : Episode → Option Path) (d : Direction) (initial : Path)
    (past : List Episode) : Path :=
  ((past.filter fun e => e.turn.direction = d).filterMap value?).getLastD initial

theorem lastUsed_cons (value? : Episode → Option Path) (d : Direction) (initial : Path)
    (e : Episode) (past : List Episode) :
    lastUsed value? d initial (e :: past) =
      lastUsed value? d (if e.turn.direction = d then (value? e).getD initial else initial)
        past := by
  unfold lastUsed
  by_cases hd : e.turn.direction = d
  · rw [List.filter_cons_of_pos (by simpa using hd), if_pos hd, List.filterMap_cons]
    cases value? e with
    | none => rfl
    | some value => rw [List.getLastD_cons, Option.getD_some]
  · rw [List.filter_cons_of_neg (by simpa using hd), if_neg hd]

namespace Memory

theorem folderOf_eq (file : Path) :
    folderOf file = (file.parent?.filter fun parent => parent.text ≠ "").getD ⟨"."⟩ := by
  unfold folderOf
  cases file.parent? with
  | none => rfl
  | some parent =>
    by_cases h : parent.text = ""
    · simp [h, Option.filter]
    · simp [h, Option.filter]

theorem folderOf_text_ne (file : Path) : (folderOf file).text ≠ "" := by
  unfold folderOf
  split
  · split
    · decide
    · rename_i h
      simpa using h
  · decide

/-- Neither folder of any direction is the empty path. -/
def Named (m : Memory) : Prop :=
  ∀ d, (m.get d).input.text ≠ "" ∧ (m.get d).output.text ≠ ""

theorem named_start {input output : Path} (hi : input.text ≠ "") (ho : output.text ≠ "") :
    (start input output).Named := by
  intro d
  rw [start, PerDirection.get_both]
  exact ⟨hi, ho⟩

theorem Named.rememberInput {m : Memory} (h : m.Named) (d : Direction) (file : Path) :
    (m.rememberInput d file).Named := by
  intro e
  rw [get_rememberInput]
  refine ⟨?_, (h e).2⟩
  dsimp only
  split
  · exact folderOf_text_ne file
  · exact (h e).1

theorem Named.rememberOutput {m : Memory} (h : m.Named) (d : Direction) {folder : Path}
    (hf : folder.text ≠ "") : (m.rememberOutput d folder).Named := by
  intro e
  rw [get_rememberOutput]
  refine ⟨(h e).1, ?_⟩
  dsimp only
  split
  · exact hf
  · exact (h e).2

end Memory

/-! ## One step -/

/-- A step of a direction writes the folder of the files it chose and the folder it reported; of the
other direction it writes nothing. -/
theorem memory_play (s : Session) (turn : Turn) (d : Direction) :
    let e : Episode := ⟨turn, s.play turn⟩
    let before := s.memory.get d
    (s.play turn).session.memory.get d =
      { input := if turn.direction = d then e.sourceFolder?.getD before.input else before.input
        output :=
          if turn.direction = d then e.reportedFolder?.getD before.output else before.output } := by
  intro e before
  have hsource : ∀ first more, e.files? = some (first :: more) →
      e.sourceFolder? = some (Memory.folderOf first) := by
    intro first more hfiles
    rw [Episode.sourceFolder?, hfiles, Memory.folderOf_eq]
    rfl
  obtain ⟨hfiles, -, hreport, hsession⟩ | ⟨first, more, hfiles, -, hstep⟩ := play_cases s turn
  · -- nothing was chosen, and nothing is remembered
    have hno : e.sourceFolder? = none := by rw [Episode.sourceFolder?, hfiles]; rfl
    have hno' : e.reportedFolder? = none := by rw [Episode.reportedFolder?, hreport]; rfl
    rw [hsession, hno, hno', Option.getD_none, Option.getD_none, ite_self, ite_self]
  · rw [hsource first more hfiles, Option.getD_some]
    obtain ⟨hreport, hsession⟩ | ⟨report, hreport, -, hsession⟩ := hstep
    · have hno' : e.reportedFolder? = none := by rw [Episode.reportedFolder?, hreport]; rfl
      rw [hsession, hno', Option.getD_none, ite_self, Memory.get_rememberInput]
    · have hsome : e.reportedFolder? = some report.outputDir := by
        rw [Episode.reportedFolder?, hreport]
        rfl
      rw [hsession, hsome, Option.getD_some, Memory.get_rememberOutput, Memory.get_rememberInput]

/-- A step asks for files from the remembered input folder and, once it has some, for a folder from
the remembered output folder. -/
theorem prompts_play (s : Session) (turn : Turn) :
    let folders := s.memory.get turn.direction
    (s.play turn).trace.prompts =
      folders.input ::
        if (Episode.files? ⟨turn, s.play turn⟩).isSome then [folders.output] else [] := by
  obtain ⟨hfiles, hprompts, -⟩ | ⟨first, more, hfiles, hprompts, -⟩ := play_cases s turn
  · rw [hfiles]
    exact hprompts
  · rw [hfiles]
    exact hprompts

theorem named_play {s : Session} (h : s.memory.Named) (turn : Turn) :
    (s.play turn).session.memory.Named := by
  obtain ⟨-, -, -, hsession⟩ | ⟨first, more, -, -, hstep⟩ := play_cases s turn
  · rw [hsession]
    exact h
  · obtain ⟨-, hsession⟩ | ⟨report, -, hne, hsession⟩ := hstep
    · rw [hsession]
      exact h.rememberInput _ first
    · rw [hsession]
      exact (h.rememberInput _ first).rememberOutput _ hne

/-! ## A run -/

theorem memory_after (s : Session) (turns : List Turn) (d : Direction) :
    (s.after turns).memory.get d =
      { input := lastUsed Episode.sourceFolder? d (s.memory.get d).input (s.episodes turns)
        output :=
          lastUsed Episode.reportedFolder? d (s.memory.get d).output (s.episodes turns) } := by
  induction turns generalizing s with
  | nil => rfl
  | cons turn turns ih =>
    -- what the first step writes is where the later ones start from
    rw [Session.after_cons, ih, Session.episodes_cons, lastUsed_cons, lastUsed_cons, memory_play]

theorem named_after {s : Session} (h : s.memory.Named) (turns : List Turn) :
    (s.after turns).memory.Named := by
  induction turns generalizing s with
  | nil => exact h
  | cons turn turns ih => exact ih (named_play h turn)

/-- **The remembered folders are the last ones used.** After any steps from a session with the
folders `input` and `output`, the remembered output folder of a direction is that of its last step
with a report, and the remembered input folder is that of the first file of its last step that was
given files, whether or not it was then given a folder; without such a step they are the ones the
session started from. Each step puts its question for files with the input folder remembered at that
moment and, if files were chosen and only then, its question for a folder with the output folder. A
session that starts from folders with a name never remembers the empty path. -/
theorem remembered_folders_are_last_used (input output : Path) (turns : List Turn) :
    let start := Session.start input output
    let past := start.episodes turns
    (∀ d,
      ((start.after turns).memory.get d).output = lastUsed Episode.reportedFolder? d output past ∧
      ((start.after turns).memory.get d).input = lastUsed Episode.sourceFolder? d input past) ∧
    (∀ k e, past[k]? = some e →
      e.step.trace.prompts =
        lastUsed Episode.sourceFolder? e.turn.direction input (past.take k) ::
          if e.files?.isSome then
            [lastUsed Episode.reportedFolder? e.turn.direction output (past.take k)]
          else []) ∧
    (input.text ≠ "" → output.text ≠ "" → ∀ n d,
      ((start.after (turns.take n)).memory.get d).input.text ≠ "" ∧
      ((start.after (turns.take n)).memory.get d).output.text ≠ "") := by
  intro start past
  have hstart : ∀ d, start.memory.get d = ⟨input, output⟩ := PerDirection.get_both _
  have hafter : ∀ turns d, (start.after turns).memory.get d =
      { input := lastUsed Episode.sourceFolder? d input (start.episodes turns)
        output := lastUsed Episode.reportedFolder? d output (start.episodes turns) } := by
    intro turns d
    rw [memory_after, hstart]
  refine ⟨?_, ?_, ?_⟩
  · intro d
    rw [hafter]
    exact ⟨rfl, rfl⟩
  · intro k e hk
    have hstep : e.step = (start.after (turns.take k)).play e.turn := Session.episodes_getElem? hk
    have hprompts := prompts_play (start.after (turns.take k)) e.turn
    rw [← hstep, hafter (turns.take k) e.turn.direction] at hprompts
    -- the episodes before the k-th are the run of the turns before it
    rw [Session.take_episodes]
    exact hprompts
  · intro hi ho n
    exact named_after (Memory.named_start hi ho) (turns.take n)

end BatchCodec
