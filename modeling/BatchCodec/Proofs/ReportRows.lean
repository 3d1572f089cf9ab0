import BatchCodec.Proofs.ExitStatus
import BatchCodec.Proofs.ReportDecoding
/-!
What the printed report says about every selected file.

The table goes through the items and then through the skipped files, whose numbers begin where those of
the items end; so all rows together are numbered from one without a gap (`Report.rows_eq`). The attempts
of a batch are those on its first files and the skipped files are the others, so that the rows are
the selection in order, and a file has the row of its own place in it (`results_runBatch`): there stands
what the converter answered to the request of that place, or that there was no such request.

The summary line is read back as numbers with the word each of them stands before
(`talliesOf_summary`). The texts of the rows tell the four kinds of results apart, so that the numbers,
which are counted from the items, count the rows of each kind (`countResults_eq`).

Main statement: `printed_report_accounts_for_every_file`.
-/

namespace BatchCodec

/-! ## Reading a summary line -/

namespace Text

/-- The words of a text: its pieces between blanks, empty ones left out. -/
def words (cs : List Char) : List (List Char) := (splitOn ' ' cs).filter (· ≠ [])

theorem words_append_blank (cs rest : List Char) :
    words (cs ++ ' ' :: rest) = words cs ++ words rest := by
  rw [words, splitOn_append_sep, List.filter_append]
  rfl

theorem words_of_not_mem {cs : List Char} (hne : cs ≠ []) (h : ' ' ∉ cs) : words cs = [cs] := by
  rw [words, splitOn_of_not_mem h, List.filter_cons_of_pos (by simpa using hne)]
  rfl

/-- Parts without a comma, put together with commas and blanks, are found again, blanks apart. -/
theorem map_words_splitOn {parts : List (List Char)} (hne : parts ≠ [])
    (h : ∀ part ∈ parts, ',' ∉ part) :
    (splitOn ',' ([',', ' '].intercalate parts)).map words = parts.map words := by
  induction parts with
  | nil => exact absurd rfl hne
  | cons part parts ih =>
    rw [List.forall_mem_cons] at h
    cases parts with
    | nil => rw [List.intercalate_singleton, splitOn_of_not_mem h.1]
    | cons next parts =>
      let rest := [',', ' '].intercalate (next :: parts)
      have hrest : (splitOn ',' rest).map words = (next :: parts).map words :=
        ih (List.cons_ne_nil _ _) h.2
      -- the blank behind the comma begins the next piece and adds no word to it
      have hblank : (splitOn ',' (' ' :: rest)).map words = (splitOn ',' rest).map words := by
        obtain ⟨piece, pieces, hs⟩ := List.exists_cons_of_ne_nil (splitOn_ne_nil ',' rest)
        have hpiece : words (' ' :: piece) = words piece := words_append_blank [] piece
        simp [splitOn, hs, hpiece]
      calc (splitOn ',' ([',', ' '].intercalate (part :: next :: parts))).map words
          = (splitOn ',' (part ++ ',' :: ' ' :: rest)).map words := by
            rw [List.intercalate_cons_cons]
            simp [rest]
        _ = words part :: (splitOn ',' (' ' :: rest)).map words := by
            rw [splitOn_append_sep, splitOn_of_not_mem h.1]
            rfl
        _ = (part :: next :: parts).map words := by rw [hblank, hrest]; rfl

end Text

/-- What a part of a summary line counts, its last word, and the number in front. -/
def tallyOf (words : List (List Char)) : String × Nat :=
  (String.ofList (words.getLastD []), Nat.ofDigitChars 10 (words.headD []) 0)

/-- The parts of a summary line: what each of them counts, and the number. -/
def talliesOf (line : String) : List (String × Nat) :=
  ((Text.splitOn ',' line.toList).map Text.words).map tallyOf

/-- The number that a summary line gives of something, zero if it does not mention it. -/
def numberOf (line what : String) : Nat :=
  ((talliesOf line).lookup what).getD 0

/-- A number, a blank, and what it is the number of. -/
theorem tallyOf_part (n : Nat) {what : String} {word : List Char}
    (h : (Text.words what.toList).getLast? = some word) :
    tallyOf (Text.words (toString n ++ " " ++ what).toList) = (String.ofList word, n) := by
  have hdigit : ∀ c ∈ Nat.toDigits 10 n, c.isDigit = true := fun c hc =>
    Nat.isDigit_of_mem_toDigits (by decide) (by decide) hc
  have hblank : ' ' ∉ Nat.toDigits 10 n := fun hc => absurd (hdigit _ hc) (by decide)
  have hne : Nat.toDigits 10 n ≠ [] := List.ne_nil_of_length_pos Nat.length_toDigits_pos
  have htext : (toString n ++ " " ++ what).toList = Nat.toDigits 10 n ++ ' ' :: what.toList := by
    rw [String.toList_append, String.toList_append, Json.toList_toString, List.append_assoc]
    rfl
  rw [htext, Text.words_append_blank, Text.words_of_not_mem hne hblank]
  simp [tallyOf, List.getLast?_cons, h, Nat.ofDigitChars_toDigits]

theorem comma_not_mem_part (n : Nat) {what : String} (h : ',' ∉ what.toList) :
    ',' ∉ (toString n ++ " " ++ what).toList := by
  have hdigits : ',' ∉ Nat.toDigits 10 n := by
    intro hc
    have hdigit := Nat.isDigit_of_mem_toDigits (by decide) (by decide) hc
    exact absurd hdigit (by decide)
  rw [String.toList_append, String.toList_append, Json.toList_toString]
  simp [hdigits, h]

/-- Leaving out what counts nothing makes no difference where nothing is what is missing. -/
theorem lookup_nonzero {tallies : List (String × Nat)} (h : (tallies.map Prod.fst).Nodup)
    (what : String) :
    ((tallies.filter (·.2 ≠ 0)).lookup what).getD 0 = (tallies.lookup what).getD 0 := by
  induction tallies with
  | nil => rfl
  | cons tally tallies ih =>
    obtain ⟨word, n⟩ := tally
    obtain ⟨hfresh, hrest⟩ := List.nodup_cons.mp h
    have ih := ih hrest
    by_cases hn : n = 0
    · rw [List.filter_cons_of_neg (by simpa using hn), ih, List.lookup_cons]
      cases hword : what == word with
      | false => rfl
      | true =>
        -- the word is mentioned nowhere else
        have hnone : tallies.lookup what = none := by
          rw [List.lookup_eq_none_iff]
          rintro ⟨other, m⟩ hother
          rw [bne_iff_ne]
          rintro rfl
          exact hfresh (List.mem_map.mpr ⟨_, hother, (beq_iff_eq.mp hword)⟩)
        rw [hnone, hn]
        rfl
    · rw [List.filter_cons_of_pos (by simpa using hn), List.lookup_cons, List.lookup_cons]
      cases what == word with
      | false => exact ih
      | true => rfl

namespace Report

/-- The counts of a report, by the words that stand for them. -/
def counts (r : Report) : List (String × Nat) :=
  [("failed", r.failed), ("errored", r.unexpected), ("skipped", r.skipped.length)]

/-- The converted files as the summary line has them, the number apart. -/
def convertedFiles (r : Report) : String :=
  (if r.converted = 1 then "file " else "files ") ++ r.direction.verb

theorem summaryParts_eq (r : Report) :
    r.summaryParts =
      ((r.convertedFiles, r.converted) :: r.counts.filter (·.2 ≠ 0)).map
        fun x => toString x.2 ++ " " ++ x.1 := by
  have hfiles : plural r.converted "file" ++ " " ++ r.direction.verb =
      toString r.converted ++ " " ++ r.convertedFiles := by
    unfold plural convertedFiles
    split <;> simp [← String.toList_inj]
  simp only [summaryParts, hfiles, tally, counts, List.filter_cons, List.filter_nil]
  by_cases hf : r.failed = 0 <;> by_cases hu : r.unexpected = 0 <;>
    by_cases hs : r.skipped.length = 0 <;> simp [hf, hu, hs]

theorem convertedFiles_plain (r : Report) :
    ',' ∉ r.convertedFiles.toList ∧
      (Text.words r.convertedFiles.toList).getLast? = some r.direction.verb.toList := by
  unfold convertedFiles
  cases r.direction <;> by_cases h : r.converted = 1 <;> simp only [h, if_true, if_false] <;> decide

theorem counts_plain {r : Report} {x : String × Nat} (hx : x ∈ r.counts) :
    ',' ∉ x.1.toList ∧ (Text.words x.1.toList).getLast? = some x.1.toList := by
  simp only [counts, List.mem_cons, List.not_mem_nil, or_false] at hx
  rcases hx with rfl | rfl | rfl <;> dsimp only <;> decide

/-- The summary line is read as what it was made of. -/
theorem talliesOf_summary (r : Report) :
    talliesOf r.summary = (r.direction.verb, r.converted) :: r.counts.filter (·.2 ≠ 0) := by
  obtain ⟨hcomma, hverb⟩ := r.convertedFiles_plain
  have hcounts : ∀ x ∈ r.counts.filter (·.2 ≠ 0), ',' ∉ x.1.toList ∧
      (Text.words x.1.toList).getLast? = some x.1.toList :=
    fun x hx => counts_plain (List.mem_filter.mp hx).1
  have hparts : ∀ part ∈ r.summaryParts.map String.toList, ',' ∉ part := by
    rw [summaryParts_eq, List.map_map, List.forall_mem_map, List.forall_mem_cons]
    exact ⟨comma_not_mem_part _ hcomma, fun x hx => comma_not_mem_part _ (hcounts x hx).1⟩
  have hne : r.summaryParts.map String.toList ≠ [] := by simp [summaryParts_eq]
  calc talliesOf r.summary
      = ((Text.splitOn ',' ([',', ' '].intercalate (r.summaryParts.map String.toList))).map
          Text.words).map tallyOf := by
        rw [talliesOf, summary, String.toList_intercalate]
        rfl
    _ = ((r.convertedFiles, r.converted) :: r.counts.filter (·.2 ≠ 0)).map
          fun x => tallyOf (Text.words (toString x.2 ++ " " ++ x.1).toList) := by
        rw [Text.map_words_splitOn hne hparts, summaryParts_eq, List.map_map, List.map_map,
          List.map_map]
        rfl
    _ = (r.direction.verb, r.converted) :: r.counts.filter (·.2 ≠ 0) := by
        rw [List.map_cons, tallyOf_part _ hverb, String.ofList_toList]
        congr 1
        refine (List.map_congr_left fun x hx => ?_).trans (List.map_id _)
        rw [tallyOf_part _ (hcounts x hx).2, String.ofList_toList]
        rfl

/-- The numbers of the summary line are the counts of the report. -/
theorem numberOf_summary (r : Report) :
    numberOf r.summary r.direction.verb = r.converted ∧
    numberOf r.summary "failed" = r.failed ∧
    numberOf r.summary "errored" = r.unexpected ∧
    numberOf r.summary "skipped" = r.skipped.length := by
  have hnumber : ∀ what, (what == r.direction.verb) = false →
      numberOf r.summary what = (r.counts.lookup what).getD 0 := by
    intro what hwhat
    rw [numberOf, talliesOf_summary, List.lookup_cons, hwhat]
    exact lookup_nonzero (by simp [counts]) what
  refine ⟨?_, ?_, ?_, ?_⟩
  · rw [numberOf, talliesOf_summary, List.lookup_cons_self]
    rfl
  all_goals
    rw [hnumber _ (by cases r.direction <;> decide)]
    rfl

end Report

/-! ## Rows -/

/-- What the table says of a file that the converter answered about. -/
def answerResult (d : Direction) : Except Failure Unit → String
  | .ok () => d.verb
  | .error (.rejected message) => "failed: " ++ Text.firstLine message
  | .error (.fault _) => "error (see log)"

/-- What the table says of the file in the `k`-th place: what was answered to the `k`-th request, if
the converter got as many. -/
def resultAt (c : Converter) (d : Direction) (calls : List Request) (k : Nat) : String :=
  (calls[k]?.map fun request => answerResult d (c.convert k request).result).getD "skipped"

def saysFailed (result : String) : Bool := "failed: ".toList.isPrefixOf result.toList

def countResults (rows : List (List String)) (kind : String → Bool) : Nat :=
  rows.countP fun row => row.getLast?.any kind

theorem Attempt.result_item (d : Direction) (a : Attempt) :
    a.item.outcome.result d = answerResult d a.reply.result := by
  unfold item
  cases a.reply.result with
  | ok u => rfl
  | error f => cases f <;> rfl

namespace Report

/-- Every selected file with what became of it. -/
def results (r : Report) : List (Path × String) :=
  r.items.map (fun item => (item.input, item.outcome.result r.direction)) ++
    r.skipped.map (fun p => (p, "skipped"))

/-- The two lists of rows are one list, numbered from one. -/
theorem rows_eq (r : Report) :
    r.rows = r.results.zipIdx.map fun (result, k) => ⟨k + 1, result.1, result.2⟩ := by
  have hitems : r.itemRows = _ := rfl
  have hskipped : r.skippedRows = _ := rfl
  rw [rows, hitems, hskipped, results, List.zipIdx_append, List.map_append, List.zipIdx_map,
    List.zipIdx_map, List.map_map, List.map_map, List.length_map]
  congr 1
  -- the second list is numbered on from the length of the first
  rw [List.zipIdx_eq_map_add, List.map_map]
  apply List.map_congr_left
  intro p _
  simp [Nat.add_comm]

def fileRows (r : Report) : List (List String) := r.table.rows.tail

theorem getElem?_fileRows (r : Report) (k : Nat) :
    r.fileRows[k]? = r.results[k]?.map fun result =>
      [toString (k + 1), result.1.text, result.2] := by
  show (r.rows.map _)[k]? = _
  rw [rows_eq, List.map_map, List.getElem?_map, List.getElem?_zipIdx, Option.map_map,
    Nat.zero_add]
  rfl

end Report

section Runs

variable (c : Converter) (policy : Policy) (d : Direction) (s : Selection) (b : Board)

/-- An attempt that was made is the one on the file in its place. -/
theorem getElem?_attempted {k : Nat} (hk : k < (s.attempted c policy d).length) :
    (s.attempted c policy d)[k]? = s.inputs[k]?.map (c.attempt d s.outputDir k) := by
  have hprefix := isPrefix_reached (policy.get d) (attempts c d s.outputDir 0 s.inputs)
  have hget := getElem?_attempts c d s.outputDir 0 s.inputs k
  rw [Nat.zero_add] at hget
  rw [← hget, List.getElem?_eq_getElem hk]
  exact (List.prefix_iff_getElem?.mp hprefix k hk).symm

/-- Every selected file has its own place among the results. -/
theorem results_runBatch (k : Nat) :
    let result := runBatch c policy d s b
    result.report.results[k]? =
      s.inputs[k]?.map fun input => (input, resultAt c d result.trace.calls k) := by
  intro result
  have hcalls : result.trace.calls = _ := runBatch_calls c policy d s b
  have hreport : result.report = _ := runBatch_report c policy d s b
  rw [hreport, hcalls]
  unfold Report.results resultAt
  by_cases hk : k < (s.attempted c policy d).length
  · have hmade := getElem?_attempted c policy d s hk
    rw [List.getElem?_append_left (by simpa using hk), List.getElem?_map, List.getElem?_map,
      List.getElem?_map, hmade]
    cases s.inputs[k]? with
    | none => rfl
    | some input =>
      simp only [Option.map_some, Option.getD_some, Attempt.result_item]
      rfl
  · have hnone : (s.attempted c policy d)[k]? = none := List.getElem?_eq_none (by omega)
    have hplace : (s.attempted c policy d).length + (k - (s.attempted c policy d).length) = k := by
      omega
    rw [List.getElem?_append_right (by simpa using hk), List.getElem?_map, List.getElem?_drop,
      List.length_map, List.length_map, hplace, List.getElem?_map, hnone]
    rfl

end Runs

/-! ## Counts -/

/-- The texts of the results tell the kinds apart. -/
theorem kinds_of_result (d : Direction) (o : Outcome) :
    (o.result d == d.verb) = o.isConverted ∧ saysFailed (o.result d) = o.isFailed ∧
      (o.result d == "error (see log)") = o.isUnexpected ∧ (o.result d == "skipped") = false := by
  cases o with
  | converted => cases d <;> decide
  | failed summary =>
    have hne : ∀ text : String, text.toList.head? ≠ some 'f' →
        ("failed: " ++ summary == text) = false := by
      intro text htext
      rw [beq_eq_false_iff_ne]
      rintro rfl
      simp at htext
    refine ⟨hne _ (by cases d <;> decide), ?_, hne _ (by decide), hne _ (by decide)⟩
    simp [saysFailed, Outcome.result, Outcome.isFailed]
  | unexpected detail =>
    show ("error (see log)" == d.verb) = false ∧ saysFailed "error (see log)" = false ∧
      ("error (see log)" == "error (see log)") = true ∧ ("error (see log)" == "skipped") = false
    cases d <;> decide

namespace Report

/-- Counting rows of a kind is counting items and, if they are of the kind, skipped files. -/
theorem countResults_fileRows (r : Report) (kind : String → Bool) :
    countResults r.fileRows kind =
      r.count (fun o => kind (o.result r.direction)) +
        if kind "skipped" then r.skipped.length else 0 := by
  have hcells : countResults r.fileRows kind = r.results.countP fun result => kind result.2 := by
    calc countResults r.fileRows kind
        = r.results.zipIdx.countP ((fun result => kind result.2) ∘ Prod.fst) := by
          show List.countP _ (r.rows.map _) = _
          rw [rows_eq, List.map_map, List.countP_map]
          rfl
      _ = r.results.countP fun result => kind result.2 := by
          rw [← List.countP_map, List.zipIdx_map_fst]
  have hskipped : (r.skipped.map fun p => (p, "skipped")).countP (fun result => kind result.2) =
      if kind "skipped" then r.skipped.length else 0 := by
    rw [List.countP_map]
    show List.countP (fun _ => kind "skipped") r.skipped = _
    cases kind "skipped" <;> simp
  rw [hcells, results, List.countP_append, hskipped, List.countP_map]
  rfl

theorem countResults_eq (r : Report) :
    countResults r.fileRows (· == r.direction.verb) = r.converted ∧
    countResults r.fileRows saysFailed = r.failed ∧
    countResults r.fileRows (· == "error (see log)") = r.unexpected ∧
    countResults r.fileRows (· == "skipped") = r.skipped.length := by
  have hkinds := fun o => kinds_of_result r.direction o
  have hverb : ("skipped" == r.direction.verb) = false := by cases r.direction <;> decide
  refine ⟨?_, ?_, ?_, ?_⟩
  · rw [countResults_fileRows, funext fun o => (hkinds o).1, hverb]
    rfl
  · rw [countResults_fileRows, funext fun o => (hkinds o).2.1]
    rfl
  · rw [countResults_fileRows, funext fun o => (hkinds o).2.2.1]
    rfl
  · rw [countResults_fileRows, funext fun o => (hkinds o).2.2.2]
    simp [count]

end Report

/-- **The printed report accounts for every selected file.** Behind its header the table of a batch has
one row for each selected file, in order: its number, the file, and the result. The result of the
file in the `k`-th place is what the converter answered to the `k`-th request, which was about that
file: the verb of the direction, the first line of the message behind `failed: `, or `error (see log)`;
and it is `skipped` if the converter got fewer requests. The numbers of the summary line, zero where
a part is missing, are the numbers of the rows with each of the four results, and together they are
the number of selected files. -/
theorem printed_report_accounts_for_every_file (c : Converter) (policy : Policy) (d : Direction)
    (s : Selection) (b : Board) :
    let result := runBatch c policy d s b
    let calls := result.trace.calls
    let rows := result.report.table.rows.tail
    let summary := result.report.summary
    result.report.table.rows.head? = some ["#", "Input", "Result"] ∧
    rows.length = s.inputs.length ∧
    rows = s.inputs.mapIdx (fun k input =>
      [toString (k + 1), input.text, resultAt c d calls k]) ∧
    calls = (s.inputs.take calls.length).map (fun input => ⟨d, input, s.outputDir⟩) ∧
    numberOf summary d.verb = countResults rows (· == d.verb) ∧
    numberOf summary "failed" = countResults rows saysFailed ∧
    numberOf summary "errored" = countResults rows (· == "error (see log)") ∧
    numberOf summary "skipped" = countResults rows (· == "skipped") ∧
    numberOf summary d.verb + numberOf summary "failed" + numberOf summary "errored" +
      numberOf summary "skipped" = s.inputs.length := by
  intro result calls rows summary
  have hrows : rows = s.inputs.mapIdx (fun k input =>
      [toString (k + 1), input.text, resultAt c d calls k]) := by
    apply List.ext_getElem?
    intro k
    have hresult := results_runBatch c policy d s b k
    show result.report.fileRows[k]? = _
    rw [Report.getElem?_fileRows, hresult, Option.map_map, List.getElem?_mapIdx]
    rfl
  have hdirection : result.report.direction = d := by
    show (runBatch c policy d s b).report.direction = d
    rw [runBatch_report]
  have hnumbers := result.report.numberOf_summary
  have hcounts := result.report.countResults_eq
  have hitems := result.report.converted_add_failed_add_unexpected
  have hall : result.report.items.length + result.report.skipped.length = s.inputs.length := by
    have hpartition := congrArg List.length (runBatch_partition c policy d s b)
    rwa [List.length_append, List.length_map] at hpartition
  rw [hdirection] at hnumbers hcounts
  obtain ⟨hconverted, hfailed, herrored, hskipped⟩ := hnumbers
  obtain ⟨hconverted', hfailed', herrored', hskipped'⟩ := hcounts
  refine ⟨rfl, ?_, hrows, ?_, hconverted.trans hconverted'.symm, hfailed.trans hfailed'.symm,
    herrored.trans herrored'.symm, hskipped.trans hskipped'.symm, ?_⟩
  · rw [hrows, List.length_mapIdx]
  · have hcalls : calls = _ := runBatch_calls c policy d s b
    have hinputs := map_input_attempted c policy d s
    rw [hcalls, List.length_map, ← hinputs, List.map_map]
    rfl
  · show numberOf result.report.summary _ + _ + _ + _ = _
    rw [hconverted, hfailed, herrored, hskipped]
    omega

end BatchCodec
