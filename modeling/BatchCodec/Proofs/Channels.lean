import BatchCodec.Proofs.Attempts
/-!
Where an attempted file is reported: by a status line, by a diagnostic, or by both.

A converted file has a status line and no diagnostic, a fault has a diagnostic and no status line, and
a rejected file has both, the line being the first of the message that the diagnostic has in full.
Said of one attempt (`line_eq`, `diagnostic_eq`), this goes over to the attempts of a batch because
they are one list: the lines, the diagnostics and the items are read off it in the same order.

The attempts are told from the report alone: they are those on the files of its items
(`attempted_eq`). So the diagnostics, each read as the item it is about (`Diagnostic.item`), are the
items that were not converted, none missing and none twice (`map_item_diagnostics`). The records of
a batch are these diagnostics between the first record and, if files are left, the last
(`records_runBatch`); what the converter records itself stands in between.
-/

namespace BatchCodec

/-- The status lines about an item of a report: one, or none for a fault. -/
def Item.lines (d : Direction) (item : Item) : List String :=
  match item.outcome with
  | .converted => [d.convertedLine item.input]
  | .failed summary => [summary]
  | .unexpected _ => []

def Diagnostic.item : Diagnostic → Item
  | rejected input message => ⟨input, .failed (Text.firstLine message)⟩
  | fault input f => ⟨input, .unexpected f.message⟩

namespace Attempt

/-- What the operator is told of an attempt: all that was said about a failure. -/
def told (a : Attempt) : List Diagnostic :=
  match a.reply.result with
  | .ok () => []
  | .error (.rejected message) => [.rejected a.input message]
  | .error (.fault f) => [.fault a.input f]

theorem line_eq (d : Direction) (a : Attempt) :
    (a.verdict d).line.toList = a.item.lines d := by
  unfold verdict item
  cases a.reply.result with
  | ok u => rfl
  | error f => cases f <;> rfl

theorem diagnostic_eq (d : Direction) (a : Attempt) :
    (a.verdict d).diagnostic.toList = a.told := by
  unfold verdict told
  cases a.reply.result with
  | ok u => rfl
  | error f => cases f <;> rfl

theorem records_eq (d : Direction) (a : Attempt) :
    a.records d = a.reply.records ++ a.told.map Diagnostic.record := by
  rw [records, diagnostic_eq]

theorem map_item_told (a : Attempt) :
    a.told.map Diagnostic.item = if a.item.outcome.isConverted then [] else [a.item] := by
  unfold told item
  cases a.reply.result with
  | ok u => rfl
  | error f => cases f <;> rfl

end Attempt

theorem map_item_diagnostics (as : List Attempt) :
    (as.flatMap Attempt.told).map Diagnostic.item =
      (as.map Attempt.item).filter fun item => !item.outcome.isConverted := by
  induction as with
  | nil => rfl
  | cons a as ih =>
    rw [List.flatMap_cons, List.map_append, ih, a.map_item_told, List.map_cons, List.filter_cons]
    cases a.item.outcome.isConverted <;> rfl

/-! ## The attempts of a batch, from its report -/

theorem attempts_take (c : Converter) (d : Direction) (outputDir : Path) (k n : Nat)
    (inputs : List Path) :
    attempts c d outputDir k (inputs.take n) = (attempts c d outputDir k inputs).take n := by
  induction inputs generalizing k n with
  | nil => simp
  | cons input rest ih =>
    cases n with
    | zero => rfl
    | succ n => rw [List.take_succ_cons, attempts_cons, attempts_cons, ih, List.take_succ_cons]

section Runs

variable (c : Converter) (policy : Policy) (d : Direction) (s : Selection) (b : Board)

theorem attempted_eq :
    s.attempted c policy d =
      attempts c d s.outputDir 0 ((runBatch c policy d s b).report.items.map Item.input) := by
  rw [map_input_items, attempts_take]
  exact List.prefix_iff_eq_take.mp (isPrefix_reached _ _)

theorem runBatch_items :
    let items := (runBatch c policy d s b).report.items
    items = (attempts c d s.outputDir 0 (items.map Item.input)).map Attempt.item := by
  intro items
  rw [← attempted_eq c policy d s b]
  simp only [items, runBatch_report]

theorem runBatch_entries :
    (runBatch c policy d s b).report.entries =
      (runBatch c policy d s b).report.items.flatMap (Item.lines d) := by
  rw [runBatch_report, List.flatMap_map]
  simp only [Attempt.line_eq]

theorem records_runBatch :
    (runBatch c policy d s b).trace.records =
      startRecord d s c.name :: (s.attempted c policy d).flatMap (Attempt.records d) ++
        (stopRecord? d (runBatch c policy d s b).report.skipped).toList := by
  simp only [runBatch, convertAll_eq, Trace.records_append]
  rfl

end Runs

/-! ## The records of the batch itself -/

theorem source_record (x : Diagnostic) : x.record.source = .runner := by
  cases x <;> rfl

/-- Between records of the converter, the diagnostics are what the batch itself recorded. -/
theorem filter_records {d : Direction} {as : List Attempt}
    (h : ∀ a ∈ as, ∀ r ∈ a.reply.records, r.source ≠ .runner) :
    (as.flatMap (Attempt.records d)).filter (fun r => r.source = .runner) =
      (as.flatMap Attempt.told).map Diagnostic.record := by
  rw [List.filter_flatMap, List.map_flatMap]
  induction as with
  | nil => rfl
  | cons a as ih =>
    rw [List.forall_mem_cons] at h
    have hnone : a.reply.records.filter (fun r => r.source = .runner) = [] := by
      rw [List.filter_eq_nil_iff]
      intro r hr
      simpa using h.1 r hr
    have hall : (a.told.map Diagnostic.record).filter (fun r => r.source = .runner) =
        a.told.map Diagnostic.record := by
      rw [List.filter_eq_self]
      intro r hr
      obtain ⟨x, -, rfl⟩ := List.mem_map.mp hr
      simp [source_record]
    rw [List.flatMap_cons, List.flatMap_cons, ih h.2, a.records_eq, List.filter_append, hnone,
      hall, List.nil_append]

/-- **Every attempted file is reported, once and in order.** Let `made` be the attempts on the files
of the items. The diagnostics are, in order, one rejection with the full message for each attempt the
converter rejected, one fault for each that failed unexpectedly and nothing for the others; read as
items, they are the items that were not converted. The status lines are, in order, the line about the
file for each converted item, the first line of the message for each rejected one and nothing for the
others. The records are the first one, what the converter recorded and these diagnostics, attempt by
attempt, and a warning with the number of files left over if there are any; without what the
converter recorded, they are the first one, the diagnostics and that warning. -/
theorem every_attempt_is_reported_once (c : Converter) (policy : Policy) (d : Direction)
    (s : Selection) (b : Board) :
    let result := runBatch c policy d s b
    let items := result.report.items
    let skipped := result.report.skipped
    let made := attempts c d s.outputDir 0 (items.map Item.input)
    let first : Record := ⟨.info, .runner, d.name ++ " batch: " ++ toString s.inputs.length ++
      " file(s) -> " ++ s.outputDir.text ++ " via " ++ c.name⟩
    let last : List Record := if skipped = [] then [] else
      [⟨.warn, .runner, d.name ++ " batch stopped after a codec failure; " ++
        toString skipped.length ++ " file(s) not attempted"⟩]
    items = made.map Attempt.item ∧
    result.trace.diagnostics = made.flatMap Attempt.told ∧
    result.trace.diagnostics.map Diagnostic.item =
      items.filter (fun item => !item.outcome.isConverted) ∧
    result.report.entries = items.flatMap (Item.lines d) ∧
    items.map Item.input ++ skipped = s.inputs ∧
    result.trace.records =
      first :: made.flatMap (fun a => a.reply.records ++ a.told.map Diagnostic.record) ++ last ∧
    ((∀ a ∈ made, ∀ r ∈ a.reply.records, r.source ≠ .runner) →
      result.trace.records.filter (fun r => r.source = .runner) =
        first :: result.trace.diagnostics.map Diagnostic.record ++ last) := by
  intro result items skipped made first last
  have hmade : s.attempted c policy d = made := attempted_eq c policy d s b
  have hitems : items = made.map Attempt.item := runBatch_items c policy d s b
  have hdiagnostics : result.trace.diagnostics = _ := runBatch_diagnostics c policy d s b
  have hrecords : result.trace.records = _ := records_runBatch c policy d s b
  rw [hmade] at hdiagnostics hrecords
  simp only [Attempt.diagnostic_eq] at hdiagnostics
  have hlast : (stopRecord? d skipped).toList = last := by
    unfold stopRecord?
    cases h : skipped <;> simp [last, h]
  rw [hlast] at hrecords
  refine ⟨hitems, hdiagnostics, ?_, runBatch_entries c policy d s b,
    runBatch_partition c policy d s b, ?_, ?_⟩
  · rw [hdiagnostics, hitems, map_item_diagnostics]
  · rw [hrecords, funext (Attempt.records_eq d)]
    rfl
  · intro hsource
    have hown : last.filter (fun r => r.source = .runner) = last := by
      by_cases h : skipped = [] <;> simp [last, h]
    rw [hrecords, hdiagnostics, List.filter_append, List.filter_cons_of_pos rfl,
      filter_records hsource, hown]
    rfl

/-- A batch that stops at its third file, one file left over: the program the converter starts
records something of its own for each file. -/
theorem every_attempt_is_reported_once_up_to_a_stop :
    let reply := fun r : Request =>
      let records : List Record := [⟨.debug, .command, "running"⟩]
      if r.input.text = "b.lin" then
        ({ result := .error (.fault (.notFound "codec")), records := records } : Reply)
      else if r.input.text = "c.lin" then
        { result := .error (.rejected "bad\r\nend"), records := records }
      else { result := .ok (), records := records }
    let c := Converter.stateless "codec" reply
    let s : Selection := ⟨[⟨"a.lin"⟩, ⟨"b.lin"⟩, ⟨"c.lin"⟩, ⟨"d.lin"⟩], ⟨"out"⟩⟩
    let result := runBatch c Policy.default .decompile s ⟨StatusLog.empty 12, .silent⟩
    (∀ a ∈ attempts c .decompile ⟨"out"⟩ 0 [⟨"a.lin"⟩, ⟨"b.lin"⟩, ⟨"c.lin"⟩],
      ∀ r ∈ a.reply.records, r.source ≠ .runner) ∧
    result.report.entries = ["File decompiled: a.lin", "bad"] ∧
    result.trace.diagnostics =
      [.fault ⟨"b.lin"⟩ (.notFound "codec"), .rejected ⟨"c.lin"⟩ "bad\r\nend"] ∧
    result.trace.records.filter (fun r => r.source = .runner) =
      [⟨.info, .runner, "decompile batch: 4 file(s) -> out via codec"⟩,
        ⟨.error, .runner, "unexpected failure on b.lin: Codec program not found: codec"⟩,
        ⟨.debug, .runner, "codec rejected c.lin:\nbad\r\nend"⟩,
        ⟨.warn, .runner,
          "decompile batch stopped after a codec failure; 1 file(s) not attempted"⟩] := by
  intro reply c s result
  have hsource : ∀ a ∈ attempts c .decompile ⟨"out"⟩ 0 [⟨"a.lin"⟩, ⟨"b.lin"⟩, ⟨"c.lin"⟩],
      ∀ r ∈ a.reply.records, r.source ≠ .runner := by
    decide
  obtain ⟨-, hdiagnostics, -, hentries, -, -, hrecords⟩ :=
    every_attempt_is_reported_once c Policy.default .decompile s ⟨StatusLog.empty 12, .silent⟩
  refine ⟨hsource, hentries.trans (by decide), hdiagnostics.trans (by decide), ?_⟩
  exact (hrecords hsource).trans (by decide)

end BatchCodec
