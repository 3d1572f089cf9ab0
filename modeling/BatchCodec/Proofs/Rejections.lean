import BatchCodec.Codec.Command
import BatchCodec.Proofs.LossyReading
/-!
What the user is told when the codec program rejects a file.

The message is the trimmed error output, the trimmed output if the former is blank, or the exit status
if both are (`rejectionMessage_cases`). In each case it begins with a character that is not blank. A
line feed and a carriage return are blank, so the first line begins with that character as well and is
never empty, whatever the bytes that the program wrote (`rejection_gives_a_readable_line`).
-/

namespace BatchCodec

namespace Text

/-- A text that begins with a character that is not blank has a first line that does. -/
theorem head?_firstLineChars {cs : List Char} {c : Char} (h : cs.head? = some c)
    (hc : isBlank c = false) : (firstLineChars cs).head? = some c := by
  fun_cases firstLineChars cs with
  | case1 => cases h
  | case2 rest =>
    cases h
    exact absurd hc (by decide)
  | case3 rest =>
    cases h
    exact absurd hc (by decide)
  | case4 first rest => exact h

theorem newline_not_mem_toString (n : Int) : '\n' ∉ (toString n).toList := by
  have hdigits : ∀ m : Nat, '\n' ∉ m.repr.toList := by
    intro m hmem
    rw [Nat.toList_repr] at hmem
    exact absurd (Nat.isDigit_of_mem_toDigits (by decide) (by decide) hmem) (by decide)
  rw [Int.toString_eq_repr, Int.repr_eq_if]
  split
  · exact hdigits _
  · rw [String.toList_append, List.mem_append, not_or]
    exact ⟨by decide, hdigits _⟩

/-- A text that can stand on a line of its own and shows from its first character on. -/
structure ReadableLine (s : String) : Prop where
  nonempty : s ≠ ""
  single : '\n' ∉ s.toList
  first : ∃ c, s.toList.head? = some c ∧ isBlank c = false

theorem readableLine_firstLine {s : String}
    (h : ∃ c, s.toList.head? = some c ∧ isBlank c = false) : ReadableLine (firstLine s) := by
  obtain ⟨c, hc, hblank⟩ := h
  have hfirst : (firstLine s).toList.head? = some c := by
    rw [firstLine, String.toList_ofList]
    exact head?_firstLineChars hc hblank
  refine ⟨?_, newline_not_mem_firstLine s, c, hfirst, hblank⟩
  intro hempty
  rw [hempty] at hfirst
  cases hfirst

theorem IsFirstLine.isPrefix {line cs : List Char} (h : IsFirstLine line cs) : line <+: cs := by
  obtain ⟨-, rfl | ⟨rest, rfl⟩ | ⟨rest, rfl, -⟩⟩ := h
  · exact List.prefix_rfl
  · exact List.prefix_append line _
  · exact List.prefix_append line _

end Text

/-- What is said of a program that wrote nothing but blank characters. -/
theorem firstLine_status (n : Int) :
    Text.firstLine ("codec exited with status " ++ toString n) =
      "codec exited with status " ++ toString n := by
  have hnone : '\n' ∉ ("codec exited with status " ++ toString n).toList := by
    rw [String.toList_append, List.mem_append, not_or]
    exact ⟨by decide, Text.newline_not_mem_toString n⟩
  rw [Text.firstLine, Text.firstLineChars_of_not_mem hnone, String.ofList_toList]

theorem rejectionMessage_cases (stderr stdout : List UInt8) (status : Int) :
    let err := Text.decodeUtf8 stderr
    let out := Text.decodeUtf8 stdout
    let message := rejectionMessage stderr stdout status
    (¬Text.Blank err ∧ Text.Trimmed err message) ∨
    (Text.Blank err ∧ ¬Text.Blank out ∧ Text.Trimmed out message) ∨
    (Text.Blank err ∧ Text.Blank out ∧
      message = "codec exited with status " ++ toString status) := by
  intro err out message
  have hempty : ∀ s, (Text.trim s).isEmpty = true ↔ Text.Blank s := by
    intro s
    rw [String.isEmpty_iff, Text.trim_eq_empty_iff]
  have hmessage : message = if (Text.trim err).isEmpty then
      if (Text.trim out).isEmpty then "codec exited with status " ++ toString status
      else Text.trim out
    else Text.trim err := by
    simp only [message, rejectionMessage, err, out]
    cases (Text.trim (Text.decodeUtf8 stderr)).isEmpty <;>
      cases (Text.trim (Text.decodeUtf8 stdout)).isEmpty <;> rfl
  by_cases herr : Text.Blank err
  · rw [if_pos ((hempty err).mpr herr)] at hmessage
    by_cases hout : Text.Blank out
    · rw [if_pos ((hempty out).mpr hout)] at hmessage
      exact Or.inr (Or.inr ⟨herr, hout, hmessage⟩)
    · rw [if_neg (mt (hempty out).mp hout)] at hmessage
      exact Or.inr (Or.inl ⟨herr, hout, hmessage ▸ Text.trimmed_trim hout⟩)
  · rw [if_neg (mt (hempty err).mp herr)] at hmessage
    exact Or.inl ⟨herr, hmessage ▸ Text.trimmed_trim herr⟩

/-- The message of a rejection begins with a character that is not blank. -/
theorem head?_rejectionMessage (stderr stdout : List UInt8) (status : Int) :
    ∃ c, (rejectionMessage stderr stdout status).toList.head? = some c ∧
      Text.isBlank c = false := by
  obtain ⟨-, htrim⟩ | ⟨-, -, htrim⟩ | ⟨-, -, hstatus⟩ :=
    rejectionMessage_cases stderr stdout status
  · exact htrim.first
  · exact htrim.first
  · refine ⟨'c', ?_, by decide⟩
    rw [hstatus, String.toList_append]
    rfl

theorem result_of_nonzero_status {c : CodecCommand} {h : Host} {r : Request} {e : Execution}
    {n : Int} (hstart : h.start c.program (c.arguments r.direction r.input r.outputDir) = .ok e)
    (hstatus : e.status = some n) (hn : n ≠ 0) :
    (c.reply h r).result = .error (.rejected (rejectionMessage e.stderr e.stdout n)) := by
  simp only [CodecCommand.reply, hstart, judge, hstatus]

/-- **A rejection gives the user a readable line.** Let the codec program end with a status other than
zero, whatever bytes it wrote. Each of its two outputs has exactly one reading as text, and the
conversion fails with a message: the trimmed error output if that is not blank, else the trimmed
output if that is not blank, else the status. The summary is the first line of that message, with
which the message begins, and it is a readable line. -/
theorem rejection_gives_a_readable_line (c : CodecCommand) (h : Host) (r : Request) (e : Execution)
    (n : Int) (hstart : h.start c.program (c.arguments r.direction r.input r.outputDir) = .ok e)
    (hstatus : e.status = some n) (hn : n ≠ 0) :
    ∃ (err out message : String) (failure : Failure),
      (∀ text : String, Text.LossilyRead e.stderr text.toList ↔ err = text) ∧
      (∀ text : String, Text.LossilyRead e.stdout text.toList ↔ out = text) ∧
      (c.reply h r).result = .error failure ∧
      failure = .rejected message ∧
      (¬Text.Blank err ∧ Text.Trimmed err message ∨
        Text.Blank err ∧ ¬Text.Blank out ∧ Text.Trimmed out message ∨
        Text.Blank err ∧ Text.Blank out ∧ failure.summary = message ∧
          message = "codec exited with status " ++ toString n) ∧
      failure.message = message ∧
      Text.IsFirstLine failure.summary.toList message.toList ∧
      failure.summary.toList <+: message.toList ∧
      Text.ReadableLine failure.summary := by
  have hline : Text.IsFirstLine
      (Failure.rejected (rejectionMessage e.stderr e.stdout n)).summary.toList
      (rejectionMessage e.stderr e.stdout n).toList := by
    rw [Failure.summary, Failure.message, Text.firstLine, String.toList_ofList]
    exact Text.isFirstLine_firstLineChars _
  refine ⟨Text.decodeUtf8 e.stderr, Text.decodeUtf8 e.stdout, rejectionMessage e.stderr e.stdout n,
    .rejected (rejectionMessage e.stderr e.stdout n), Text.lossilyRead_iff e.stderr,
    Text.lossilyRead_iff e.stdout, result_of_nonzero_status hstart hstatus hn, rfl, ?_, rfl, hline,
    hline.isPrefix, Text.readableLine_firstLine (head?_rejectionMessage e.stderr e.stdout n)⟩
  obtain herr | hout | ⟨herr, hout, hmessage⟩ := rejectionMessage_cases e.stderr e.stdout n
  · exact Or.inl herr
  · exact Or.inr (Or.inl hout)
  · refine Or.inr (Or.inr ⟨herr, hout, ?_, hmessage⟩)
    rw [hmessage]
    exact firstLine_status n

/-- A blank line, a wide blank, a byte that begins no character, and then two lines. -/
def brokenOutput : Execution :=
  { stderr := [0x0D, 0x0A, 0xE3, 0x80, 0x80, 0xFF, 0x62, 0x61, 0x64, 0x0D, 0x0A, 0x31, 0x0A],
    status := some 3 }

/-- A host where the default codec ends so for every file. -/
def brokenCodec : Host :=
  ⟨⟨.folder .full [], []⟩, [(CodecCommand.defaultProgram, { program := some fun _ => brokenOutput })]⟩

theorem rejection_gives_a_readable_line_from_broken_bytes :
    (CodecCommand.default.reply brokenCodec ⟨.compile, ⟨"a"⟩, ⟨"out"⟩⟩).result =
        .error (.rejected "\uFFFDbad\r\n1") ∧
      (Failure.rejected "\uFFFDbad\r\n1").summary = "\uFFFDbad" ∧
      Text.ReadableLine "\uFFFDbad" := by
  have hresult : (CodecCommand.default.reply brokenCodec ⟨.compile, ⟨"a"⟩, ⟨"out"⟩⟩).result =
      .error (.rejected "\uFFFDbad\r\n1") := by rfl
  have hsummary : (Failure.rejected "\uFFFDbad\r\n1").summary = "\uFFFDbad" := by decide
  obtain ⟨-, -, -, failure, -, -, hfailure, -, -, -, -, -, hreadable⟩ :=
    rejection_gives_a_readable_line CodecCommand.default brokenCodec ⟨.compile, ⟨"a"⟩, ⟨"out"⟩⟩
      brokenOutput 3 rfl rfl (by decide)
  obtain rfl : failure = .rejected "\uFFFDbad\r\n1" :=
    Except.error.inj (hfailure.symm.trans hresult)
  rw [hsummary] at hreadable
  exact ⟨hresult, hsummary, hreadable⟩

end BatchCodec
