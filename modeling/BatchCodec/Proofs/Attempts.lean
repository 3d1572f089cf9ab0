import BatchCodec.Proofs.Announce
/-!
A batch as a list of attempts: the files put to the converter, each with the reply it got.

`attempts` is the list in which every file is attempted. A batch reaches all of it or, when it is to
stop, the part through the first rejection (`reached`). Everything a batch comes to is read off the
attempts it reached: `convertAll_eq` says so for the items, the status lines, the board and every
kind of effect at once, and the files behind the last attempt are the skipped ones. No later
statement about a batch unfolds its loop.
-/

namespace BatchCodec

/-- What an answer of the converter makes of a file. -/
def Outcome.ofAnswer : Except Failure Unit → Outcome
  | .ok () => .converted
  | .error (.rejected message) => .failed (Text.firstLine message)
  | .error (.fault f) => .unexpected f.message

/-- A file put to the converter, with the reply. -/
structure Attempt where
  input : Path
  reply : Reply

namespace Attempt

def rejected (a : Attempt) : Bool :=
  match a.reply.result with
  | .error (.rejected _) => true
  | _ => false

def item (a : Attempt) : Item := ⟨a.input, Outcome.ofAnswer a.reply.result⟩

def request (d : Direction) (outputDir : Path) (a : Attempt) : Request := ⟨d, a.input, outputDir⟩

def verdict (d : Direction) (a : Attempt) : Verdict := Verdict.of d a.input a.reply.result

/-- The records of the attempt: the converter's own, then that of the diagnostic. -/
def records (d : Direction) (a : Attempt) : List Record :=
  a.reply.records ++ (a.verdict d).diagnostic.toList.map Diagnostic.record

theorem verdict_outcome (d : Direction) (a : Attempt) :
    (a.verdict d).outcome = a.item.outcome := by
  unfold verdict item
  cases a.reply.result with
  | ok u => rfl
  | error f => cases f <;> rfl

theorem isFailed_item (a : Attempt) : a.item.outcome.isFailed = a.rejected := by
  unfold item rejected
  cases a.reply.result with
  | ok u => rfl
  | error f => cases f <;> rfl

theorem isConverted_item (a : Attempt) :
    a.item.outcome.isConverted = true ↔ a.reply.result = .ok () := by
  unfold item
  cases a.reply.result with
  | ok u => exact ⟨fun _ => rfl, fun _ => rfl⟩
  | error f => cases f <;> simp [Outcome.ofAnswer, Outcome.isConverted]

theorem not_rejected_of_isUnexpected {a : Attempt} (h : a.item.outcome.isUnexpected = true) :
    a.rejected = false := by
  unfold item at h
  unfold rejected
  cases hr : a.reply.result with
  | ok u => rfl
  | error f =>
    cases f with
    | rejected message => rw [hr] at h; simp [Outcome.ofAnswer, Outcome.isUnexpected] at h
    | fault f => rfl

end Attempt

/-- A file put to the converter by the `k`-th request of a batch. -/
def Converter.attempt (c : Converter) (d : Direction) (outputDir : Path) (k : Nat) (input : Path) :
    Attempt :=
  ⟨input, c.convert k ⟨d, input, outputDir⟩⟩

/-- The attempts of a batch that leaves no file out, the first by the `k`-th request. -/
def attempts (c : Converter) (d : Direction) (outputDir : Path) (k : Nat) (inputs : List Path) :
    List Attempt :=
  (inputs.zipIdx k).map fun (input, i) => c.attempt d outputDir i input

/-- The attempts through the first rejection, all of them if there is none. -/
def throughRejection (as : List Attempt) : List Attempt :=
  as.take (as.findIdx Attempt.rejected + 1)

/-- The attempts a batch makes. -/
def reached (keepGoing : Bool) (as : List Attempt) : List Attempt :=
  if keepGoing then as else throughRejection as

/-! ## Attempts, one at a time -/

@[simp] theorem attempts_nil (c : Converter) (d : Direction) (outputDir : Path) (k : Nat) :
    attempts c d outputDir k [] = [] := rfl

@[simp] theorem attempts_cons (c : Converter) (d : Direction) (outputDir : Path) (k : Nat)
    (input : Path) (rest : List Path) :
    attempts c d outputDir k (input :: rest) =
      c.attempt d outputDir k input :: attempts c d outputDir (k + 1) rest := rfl

theorem length_attempts (c : Converter) (d : Direction) (outputDir : Path) (k : Nat)
    (inputs : List Path) : (attempts c d outputDir k inputs).length = inputs.length := by
  rw [attempts, List.length_map, List.length_zipIdx]

theorem map_input_attempts (c : Converter) (d : Direction) (outputDir : Path) (k : Nat)
    (inputs : List Path) : (attempts c d outputDir k inputs).map Attempt.input = inputs := by
  induction inputs generalizing k with
  | nil => rfl
  | cons input rest ih =>
    rw [attempts_cons, List.map_cons, ih (k + 1)]
    rfl

@[simp] theorem reached_nil (keepGoing : Bool) : reached keepGoing [] = [] := by
  cases keepGoing <;> rfl

/-- The first file is always attempted; the others are unless it ends the batch. -/
theorem reached_cons (keepGoing : Bool) (a : Attempt) (as : List Attempt) :
    reached keepGoing (a :: as) =
      a :: (if a.rejected && !keepGoing then [] else reached keepGoing as) := by
  cases keepGoing with
  | true => simp [reached]
  | false => cases hr : a.rejected <;> simp [reached, throughRejection, List.findIdx_cons, hr]

theorem isPrefix_reached (keepGoing : Bool) (as : List Attempt) : reached keepGoing as <+: as := by
  cases keepGoing with
  | true => exact List.prefix_rfl
  | false => exact List.take_prefix _ _

/-! ## The loop of a batch -/

/-- What attempts come to, the files in `skipped` left over. -/
def Progress.ofAttempts (d : Direction) (outputDir : Path) (b : Board) (as : List Attempt)
    (skipped : List Path) : Progress :=
  let entries := as.flatMap fun a => (a.verdict d).line.toList
  let shown := b.announceAll entries
  { items := as.map Attempt.item
    skipped := skipped
    entries := entries
    board := shown.1
    trace :=
      { calls := as.map (Attempt.request d outputDir)
        started := as.flatMap fun a => a.reply.started
        refreshes := shown.2.refreshes
        diagnostics := as.flatMap fun a => (a.verdict d).diagnostic.toList
        records := as.flatMap (Attempt.records d)
        printed := shown.2.printed } }

/-- An attempt on a board, and what `later` makes of the board it leaves. -/
def Progress.first (d : Direction) (outputDir : Path) (b : Board) (a : Attempt)
    (later : Board → Progress) : Progress :=
  let verdict := a.verdict d
  let asked : Trace :=
    { calls := [a.request d outputDir], started := a.reply.started
      diagnostics := verdict.diagnostic.toList, records := a.records d }
  let shown := b.announce verdict.line
  let later := later shown.1
  ⟨a.item :: later.items, later.skipped, verdict.line.toList ++ later.entries, later.board,
    asked ++ shown.2 ++ later.trace⟩

theorem Board.announceAll_toList_append (b : Board) (line : Option String) (lines : List String) :
    b.announceAll (line.toList ++ lines) =
      (((b.announce line).1.announceAll lines).1,
        (b.announce line).2 ++ ((b.announce line).1.announceAll lines).2) := by
  cases line with
  | none => simp [announce, Trace.empty_append]
  | some line => rfl

theorem Progress.ofAttempts_cons (d : Direction) (outputDir : Path) (b : Board) (a : Attempt)
    (as : List Attempt) (skipped : List Path) :
    ofAttempts d outputDir b (a :: as) skipped =
      first d outputDir b a fun b => ofAttempts d outputDir b as skipped := by
  have hshown := b.announceAll_toList_append (a.verdict d).line
    (as.flatMap fun a => (a.verdict d).line.toList)
  -- the announcement itself has no effects of the other kinds
  have hquiet : ∀ line, (b.announce line).2.calls = [] ∧ (b.announce line).2.started = [] ∧
      (b.announce line).2.diagnostics = [] ∧ (b.announce line).2.records = [] ∧
      (b.announce line).2.prompts = [] := by
    intro line
    cases line <;> exact ⟨rfl, rfl, rfl, rfl, rfl⟩
  obtain ⟨hcalls, hstarted, hdiagnostics, hrecords, hprompts⟩ := hquiet (a.verdict d).line
  simp only [ofAttempts, first, List.map_cons, List.flatMap_cons, hshown, mk.injEq, true_and]
  apply Trace.ext <;> simp [hcalls, hstarted, hdiagnostics, hrecords, hprompts]

/-- One round of the loop: the file is attempted, and the batch ends there or goes on. -/
theorem convertAll_cons (c : Converter) (keepGoing : Bool) (d : Direction) (outputDir : Path)
    (k : Nat) (b : Board) (input : Path) (rest : List Path) :
    convertAll c keepGoing d outputDir k b (input :: rest) =
      Progress.first d outputDir b (c.attempt d outputDir k input) fun b =>
        if (c.attempt d outputDir k input).rejected && !keepGoing then ⟨[], rest, [], b, {}⟩
        else convertAll c keepGoing d outputDir (k + 1) b rest := by
  have houtcome : (Verdict.of d input (c.convert k ⟨d, input, outputDir⟩).result).outcome =
      (c.attempt d outputDir k input).item.outcome :=
    (c.attempt d outputDir k input).verdict_outcome d
  simp only [convertAll, houtcome, Attempt.isFailed_item]
  by_cases hstop : ((c.attempt d outputDir k input).rejected && !keepGoing) = true
  · simp only [if_pos hstop, Progress.first, Trace.append_empty, List.append_nil]
    rfl
  · simp only [if_neg hstop, Progress.first]
    rfl

/-- A batch is what the attempts it reached come to, and it skips the files behind them. -/
theorem convertAll_eq (c : Converter) (keepGoing : Bool) (d : Direction) (outputDir : Path)
    (k : Nat) (b : Board) (inputs : List Path) :
    convertAll c keepGoing d outputDir k b inputs =
      let made := reached keepGoing (attempts c d outputDir k inputs)
      Progress.ofAttempts d outputDir b made (inputs.drop made.length) := by
  induction inputs generalizing k b with
  | nil => rw [attempts_nil, reached_nil]; rfl
  | cons input rest ih =>
    -- both sides are the first attempt and then something made of the board it leaves
    rw [convertAll_cons, attempts_cons, reached_cons, Progress.ofAttempts_cons, List.length_cons,
      List.drop_succ_cons]
    split
    · rfl
    · congr 1
      funext b
      exact ih (k + 1) b

/-! ## Which files a batch attempts -/

/-- The attempts a batch makes of a selection. -/
def Selection.attempted (s : Selection) (c : Converter) (policy : Policy) (d : Direction) :
    List Attempt :=
  reached (policy.get d) (attempts c d s.outputDir 0 s.inputs)

section Runs

variable (c : Converter) (policy : Policy) (d : Direction) (s : Selection) (b : Board)

theorem runBatch_report :
    (runBatch c policy d s b).report =
      ⟨d, s.outputDir, (s.attempted c policy d).map Attempt.item,
        s.inputs.drop (s.attempted c policy d).length,
        (s.attempted c policy d).flatMap fun a => (a.verdict d).line.toList⟩ := by
  simp only [runBatch, convertAll_eq]
  rfl

theorem runBatch_calls :
    (runBatch c policy d s b).trace.calls =
      (s.attempted c policy d).map (Attempt.request d s.outputDir) := by
  simp only [runBatch, convertAll_eq, Trace.calls_append]
  exact List.append_nil _

theorem runBatch_prompts : (runBatch c policy d s b).trace.prompts = [] := by
  simp only [runBatch, convertAll_eq]
  rfl

theorem runBatch_diagnostics :
    (runBatch c policy d s b).trace.diagnostics =
      (s.attempted c policy d).flatMap fun a => (a.verdict d).diagnostic.toList := by
  simp only [runBatch, convertAll_eq, Trace.diagnostics_append]
  exact List.append_nil _

/-- The status lines of the report are what the batch announced. -/
theorem runBatch_announces :
    (runBatch c policy d s b).board =
        (b.announceAll (runBatch c policy d s b).report.entries).1 ∧
      (runBatch c policy d s b).trace.printed =
        (b.announceAll (runBatch c policy d s b).report.entries).2.printed := by
  constructor
  · simp only [runBatch, convertAll_eq]
    rfl
  · simp only [runBatch, convertAll_eq, Trace.printed_append, Trace.ofRecord,
      String.empty_append, String.append_empty]
    rfl

/-- The display is shown the log for the announcements and at no other time. -/
theorem runBatch_refreshes :
    (runBatch c policy d s b).trace.refreshes =
      (b.announceAll (runBatch c policy d s b).report.entries).2.refreshes := by
  simp only [runBatch, convertAll_eq, Trace.refreshes_append]
  exact List.append_nil _

theorem runBatch_log :
    (runBatch c policy d s b).board.log =
      b.log.pushAll (runBatch c policy d s b).report.entries := by
  rw [(runBatch_announces c policy d s b).1, Board.announceAll_log]

/-- The attempted files are the selected ones up to a point. -/
theorem map_input_attempted :
    (s.attempted c policy d).map Attempt.input = s.inputs.take (s.attempted c policy d).length := by
  have hprefix := (isPrefix_reached (policy.get d) (attempts c d s.outputDir 0 s.inputs)).map
    Attempt.input
  rw [map_input_attempts] at hprefix
  have htake := List.prefix_iff_eq_take.mp hprefix
  rwa [List.length_map] at htake

theorem map_input_items :
    (runBatch c policy d s b).report.items.map Item.input =
      s.inputs.take (s.attempted c policy d).length := by
  rw [runBatch_report, ← map_input_attempted, List.map_map]
  rfl

/-- Attempted and skipped files together are the selection. -/
theorem runBatch_partition :
    (runBatch c policy d s b).report.items.map Item.input ++
      (runBatch c policy d s b).report.skipped = s.inputs := by
  rw [map_input_items, runBatch_report, List.take_append_drop]

end Runs

/-- Attempts end before the last file only with a rejection. -/
theorem exists_rejected_of_length_reached_lt {keepGoing : Bool} {as : List Attempt}
    (h : (reached keepGoing as).length < as.length) :
    ∃ a, (reached keepGoing as).getLast? = some a ∧ a.rejected = true := by
  induction as with
  | nil => simp at h
  | cons a as ih =>
    rw [reached_cons] at h ⊢
    by_cases hstop : (a.rejected && !keepGoing) = true
    · rw [if_pos hstop]
      rw [Bool.and_eq_true] at hstop
      exact ⟨a, rfl, hstop.1⟩
    · rw [if_neg hstop, List.length_cons, List.length_cons] at h
      obtain ⟨last, hlast, hrejected⟩ := ih (Nat.lt_of_succ_lt_succ h)
      refine ⟨last, ?_, hrejected⟩
      rw [if_neg hstop, List.getLast?_cons, hlast, Option.getD_some]

/-- An attempt that is no rejection is followed by the next one. -/
theorem succ_lt_length_reached {keepGoing : Bool} {as : List Attempt} {k : Nat} {a : Attempt}
    (hk : (reached keepGoing as)[k]? = some a) (ha : a.rejected = false)
    (hmore : k + 1 < as.length) : k + 1 < (reached keepGoing as).length := by
  obtain ⟨hlt, -⟩ := List.getElem?_eq_some_iff.mp hk
  rcases Nat.lt_or_ge (k + 1) (reached keepGoing as).length with hlater | hend
  · exact hlater
  · -- the attempt would be the last one, which is a rejection
    have hlength : (reached keepGoing as).length = k + 1 := by omega
    obtain ⟨last, hlast, hrejected⟩ :=
      exists_rejected_of_length_reached_lt (hlength ▸ hmore)
    rw [List.getLast?_eq_getElem?, hlength, Nat.add_sub_cancel, hk, Option.some.injEq] at hlast
    rw [← hlast, ha] at hrejected
    cases hrejected

/-- **A batch is attempted through the first rejection.** The converter is asked about the selected
files in order, each once, up to and including the first it rejects if the policy says stop, and
about all of them otherwise. The items of the report are these requests with what was answered, the
skipped files are the others, and a batch never ends at an unexpected failure while files are left. -/
theorem runBatch_attempts_through_first_rejection (c : Converter) (policy : Policy) (d : Direction)
    (s : Selection) (b : Board) :
    let result := runBatch c policy d s b
    let all := attempts c d s.outputDir 0 s.inputs
    let asked := if policy.get d then all else all.take (all.findIdx Attempt.rejected + 1)
    result.trace.calls = asked.map (fun a => ⟨d, a.input, s.outputDir⟩) ∧
    result.report.items = asked.map (fun a => ⟨a.input, Outcome.ofAnswer a.reply.result⟩) ∧
    result.report.skipped = s.inputs.drop asked.length ∧
    result.report.items.map Item.input ++ result.report.skipped = s.inputs ∧
    ∀ k item, result.report.items[k]? = some item → item.outcome.isUnexpected = true →
      k + 1 < s.inputs.length → k + 1 < result.report.items.length := by
  intro result all asked
  have hreport : result.report = _ := runBatch_report c policy d s b
  have hitems : result.report.items = asked.map Attempt.item := by rw [hreport]; rfl
  have hskipped : result.report.skipped = s.inputs.drop asked.length := by rw [hreport]; rfl
  refine ⟨runBatch_calls c policy d s b, hitems, hskipped, runBatch_partition c policy d s b, ?_⟩
  intro k item hk hunexpected hmore
  rw [hitems, List.getElem?_map, Option.map_eq_some_iff] at hk
  obtain ⟨a, ha, rfl⟩ := hk
  rw [hitems, List.length_map]
  apply succ_lt_length_reached ha (Attempt.not_rejected_of_isUnexpected hunexpected)
  rwa [length_attempts]

end BatchCodec
