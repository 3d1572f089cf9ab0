import BatchCodec.Proofs.Attempts
/-!
What a fault leaves behind: an item of the report and a record for the operator, and nothing that
the user is shown.

A converter that answers a request the same way wherever it stands makes, of a selection with some
files removed, the same attempts less those on these files. The two batches are out of step from the
first removed file on, so they are not compared file by file: a fault never ends a batch, hence the
attempts reached without the faults are the attempts reached, without the faults (`reached_filter`),
and the position of the stop needs no mention. Since a fault has no status line and no rejection to
tell of, everything read off the two lists of attempts agrees (`unexpected_failures_are_invisible`).
-/

namespace BatchCodec

def Reply.isFault (r : Reply) : Bool :=
  match r.result with
  | .error (.fault _) => true
  | _ => false

/-- The file and the full message of a rejection; a fault is none. -/
def Diagnostic.rejection? : Diagnostic → Option (Path × String)
  | .rejected input message => some (input, message)
  | .fault _ _ => none

namespace Attempt

/-- A fault is no rejection, has no status line and tells of no rejection. -/
theorem silent_of_isFault {a : Attempt} (h : a.reply.isFault = true) (d : Direction) :
    a.rejected = false ∧ (a.verdict d).line = none ∧
      (a.verdict d).diagnostic.toList.filterMap Diagnostic.rejection? = [] := by
  unfold Reply.isFault at h
  unfold rejected verdict
  split at h
  · rename_i f hf
    rw [hf]
    exact ⟨rfl, rfl, rfl⟩
  · cases h

end Attempt

/-! ## Removing elements that add nothing -/

section Lists

variable {α β : Type} {p : α → Bool}

theorem flatMap_filter_of_silent {l : List α} {f : α → List β}
    (h : ∀ a ∈ l, p a = false → f a = []) : (l.filter p).flatMap f = l.flatMap f := by
  induction l with
  | nil => rfl
  | cons a l ih =>
    have hl : (l.filter p).flatMap f = l.flatMap f :=
      ih fun x hx => h x (List.mem_cons_of_mem a hx)
    cases hp : p a with
    | true => rw [List.filter_cons_of_pos hp, List.flatMap_cons, List.flatMap_cons, hl]
    | false =>
      rw [List.filter_cons_of_neg (by simp [hp]), List.flatMap_cons, h a List.mem_cons_self hp, hl,
        List.nil_append]

/-- What is left behind a beginning, filtered, is what is left behind the filtered beginning. -/
theorem drop_length_filter_of_prefix {pre l : List α} (h : pre <+: l) :
    (l.filter p).drop (pre.filter p).length = (l.drop pre.length).filter p := by
  obtain ⟨rest, rfl⟩ := h
  rw [List.filter_append, List.drop_left, List.drop_left]

end Lists

/-! ## Attempts with some files removed -/

theorem attempts_stateless (name : String) (reply : Request → Reply) (d : Direction)
    (outputDir : Path) (k : Nat) (inputs : List Path) :
    attempts (Converter.stateless name reply) d outputDir k inputs =
      inputs.map fun input => ⟨input, reply ⟨d, input, outputDir⟩⟩ := by
  induction inputs generalizing k with
  | nil => rfl
  | cons input rest ih =>
    rw [attempts_cons, ih, List.map_cons]
    rfl

/-- Attempts that end no batch may be removed before or after the batch is cut. -/
theorem reached_filter {keepGoing : Bool} {as : List Attempt} {p : Attempt → Bool}
    (h : ∀ a ∈ as, p a = false → a.rejected = false) :
    reached keepGoing (as.filter p) = (reached keepGoing as).filter p := by
  induction as with
  | nil => rw [List.filter_nil, reached_nil, List.filter_nil]
  | cons a as ih =>
    have has : reached keepGoing (as.filter p) = (reached keepGoing as).filter p :=
      ih fun x hx => h x (List.mem_cons_of_mem a hx)
    cases hp : p a with
    | true =>
      rw [List.filter_cons_of_pos hp, reached_cons, reached_cons, List.filter_cons_of_pos hp, has]
      split
      · rfl
      · rfl
    | false =>
      have hgo : (a.rejected && !keepGoing) = false := by
        rw [h a List.mem_cons_self hp, Bool.false_and]
      rw [List.filter_cons_of_neg (by simp [hp]), reached_cons, hgo, has,
        List.filter_cons_of_neg (by simp [hp])]
      rfl

section Stateless

variable (name : String) (reply : Request → Reply) (policy : Policy) (d : Direction) (s : Selection)

/-- Every attempt on a selection has the reply to its request. -/
theorem reply_of_mem_attempts {a : Attempt} {inputs : List Path}
    (h : a ∈ attempts (Converter.stateless name reply) d s.outputDir 0 inputs) :
    a.reply = reply ⟨d, a.input, s.outputDir⟩ := by
  rw [attempts_stateless, List.mem_map] at h
  obtain ⟨input, -, rfl⟩ := h
  rfl

/-- Without files whose conversion is a fault, the attempts are those on the other files. -/
theorem attempted_filter {keep : Path → Bool}
    (h : ∀ input, keep input = false → (reply ⟨d, input, s.outputDir⟩).isFault = true) :
    (Selection.mk (s.inputs.filter keep) s.outputDir).attempted
        (Converter.stateless name reply) policy d =
      (s.attempted (Converter.stateless name reply) policy d).filter fun a => keep a.input := by
  have hall : attempts (Converter.stateless name reply) d s.outputDir 0 (s.inputs.filter keep) =
      (attempts (Converter.stateless name reply) d s.outputDir 0 s.inputs).filter
        fun a => keep a.input := by
    rw [attempts_stateless, attempts_stateless, List.filter_map]
    rfl
  unfold Selection.attempted
  dsimp only
  rw [hall]
  apply reached_filter
  intro a ha hkeep
  have hfault := h a.input hkeep
  rw [← reply_of_mem_attempts name reply d s ha] at hfault
  exact (Attempt.silent_of_isFault hfault d).1

end Stateless

/-- Batches that report the same status lines show the same: the log, the states of it that the
display is given and what is printed depend on nothing else. -/
theorem shown_of_entries_eq (c : Converter) (policy : Policy) (d : Direction) {s s' : Selection}
    (b : Board)
    (h : (runBatch c policy d s' b).report.entries = (runBatch c policy d s b).report.entries) :
    (runBatch c policy d s' b).board = (runBatch c policy d s b).board ∧
    (runBatch c policy d s' b).trace.refreshes = (runBatch c policy d s b).trace.refreshes ∧
    (runBatch c policy d s' b).trace.printed = (runBatch c policy d s b).trace.printed := by
  refine ⟨?_, ?_, ?_⟩
  · rw [(runBatch_announces c policy d s' b).1, (runBatch_announces c policy d s b).1, h]
  · rw [runBatch_refreshes c policy d s' b, runBatch_refreshes c policy d s b, h]
  · rw [(runBatch_announces c policy d s' b).2, (runBatch_announces c policy d s b).2, h]

/-- **Unexpected failures are invisible to the user.** Take a converter whose answer is a function
of the request, and compare a batch with the batch of the same selection without the files whose
conversion fails unexpectedly. Both announce the same status lines, leave the same log and display,
show the display the same states of the log in the same order, print the same and report the same
rejections to the operator. The items and the skipped files of the second are those of the first
without the removed files. -/
theorem unexpected_failures_are_invisible (name : String) (reply : Request → Reply)
    (policy : Policy) (d : Direction) (s : Selection) (b : Board) :
    let c := Converter.stateless name reply
    let settled := fun input => !(reply ⟨d, input, s.outputDir⟩).isFault
    let full := runBatch c policy d s b
    let rest := runBatch c policy d ⟨s.inputs.filter settled, s.outputDir⟩ b
    rest.report.entries = full.report.entries ∧
    rest.board = full.board ∧
    rest.trace.refreshes = full.trace.refreshes ∧
    rest.trace.printed = full.trace.printed ∧
    rest.trace.diagnostics.filterMap Diagnostic.rejection? =
      full.trace.diagnostics.filterMap Diagnostic.rejection? ∧
    rest.report.items = full.report.items.filter (fun item => settled item.input) ∧
    rest.report.skipped = full.report.skipped.filter settled := by
  intro c settled full rest
  let made := s.attempted c policy d
  have hmade : made <+: attempts c d s.outputDir 0 s.inputs := isPrefix_reached _ _
  have hrest : (Selection.mk (s.inputs.filter settled) s.outputDir).attempted c policy d =
      made.filter fun a => settled a.input := by
    apply attempted_filter
    intro input h
    simpa [settled] using h
  have hsilent : ∀ a ∈ made, settled a.input = false → (a.verdict d).line = none ∧
      (a.verdict d).diagnostic.toList.filterMap Diagnostic.rejection? = [] := by
    intro a ha h
    refine (Attempt.silent_of_isFault ?_ d).2
    rw [reply_of_mem_attempts name reply d s (hmade.subset ha)]
    simpa [settled] using h
  have hreport : rest.report = _ := runBatch_report c policy d _ b
  have hreport' : full.report = _ := runBatch_report c policy d s b
  rw [hrest] at hreport
  have hentries : rest.report.entries = full.report.entries := by
    rw [hreport, hreport']
    apply flatMap_filter_of_silent
    intro a ha h
    rw [(hsilent a ha h).1]
    rfl
  obtain ⟨hboard, hrefreshes, hprinted⟩ := shown_of_entries_eq c policy d b hentries
  refine ⟨hentries, hboard, hrefreshes, hprinted, ?_, ?_, ?_⟩
  · rw [runBatch_diagnostics c policy d _ b, runBatch_diagnostics c policy d s b, hrest,
      List.filterMap_flatMap, List.filterMap_flatMap]
    exact flatMap_filter_of_silent fun a ha h => (hsilent a ha h).2
  · rw [hreport, hreport']
    dsimp only
    rw [List.filter_map]
    rfl
  · -- the files in front of the skipped ones are the attempted ones, in both batches
    have hinputs : made.map Attempt.input <+: s.inputs := by
      have hprefix := hmade.map Attempt.input
      rwa [map_input_attempts] at hprefix
    have hskipped := drop_length_filter_of_prefix (p := settled) hinputs
    rw [List.filter_map, List.length_map, List.length_map] at hskipped
    rw [hreport, hreport']
    exact hskipped

end BatchCodec
