import BatchCodec.Proofs.SilentFaults
/-!
A batch over one list of files and then another.

The loop of a batch distributes over the two lists (`convertAll_append`): what the first list came to
is followed by what the second comes to on the board left behind, unless the first ended the batch,
in which case the second is skipped as a whole. `andThen` is that way of going on. Whether the first
list ended the batch is read off its last item (`Progress.stopped`) and not off its skipped files:
there are none when the very last file was rejected, and the second list is skipped all the same.

A converter that does not look at the number of the request makes the two halves batches of their
own (`batch_splits`).
-/

namespace BatchCodec

theorem Trace.append_assoc (a b c : Trace) : a ++ b ++ c = a ++ (b ++ c) := by
  apply Trace.ext <;> simp [String.append_assoc]

namespace Progress

/-- Whether the files ended the batch: the last attempt was rejected, and the batch is to stop. -/
def stopped (keepGoing : Bool) (p : Progress) : Bool :=
  !keepGoing && p.items.getLast?.any fun item => item.outcome.isFailed

/-- Goes on with more files on the board that is left, or skips them if the batch has ended. -/
def andThen (keepGoing : Bool) (p : Progress) (more : List Path) (later : Board → Progress) :
    Progress :=
  if p.stopped keepGoing then { p with skipped := p.skipped ++ more }
  else
    let q := later p.board
    ⟨p.items ++ q.items, q.skipped, p.entries ++ q.entries, q.board, p.trace ++ q.trace⟩

section First

variable {keepGoing : Bool} (d : Direction) (outputDir : Path) (b : Board) {a : Attempt}
  (more : List Path) (later : Board → Progress)

/-- Behind a first attempt that ends the batch nothing is attempted. -/
theorem first_andThen_of_stop (h : (a.rejected && !keepGoing) = true) (rest : List Path) :
    (first d outputDir b a fun b => ⟨[], rest, [], b, {}⟩).andThen keepGoing more later =
      first d outputDir b a fun b => ⟨[], rest ++ more, [], b, {}⟩ := by
  have hstopped : (first d outputDir b a fun b => ⟨[], rest, [], b, {}⟩).stopped keepGoing = true := by
    simp only [stopped, first, List.getLast?_singleton, Option.any_some, a.isFailed_item]
    rwa [Bool.and_comm]
  rw [andThen, if_pos hstopped]
  rfl

/-- Any other first attempt leaves the decision to those behind it. -/
theorem first_andThen_of_go (h : (a.rejected && !keepGoing) = false) (rest : Board → Progress) :
    (first d outputDir b a rest).andThen keepGoing more later =
      first d outputDir b a fun b => (rest b).andThen keepGoing more later := by
  have hstopped : (first d outputDir b a rest).stopped keepGoing =
      (rest (b.announce (a.verdict d).line).1).stopped keepGoing := by
    simp only [stopped, first, List.getLast?_cons]
    cases (rest (b.announce (a.verdict d).line).1).items.getLast? with
    | none =>
      -- the first attempt is the last one as well
      simp only [Option.getD_none, Option.any_some, Option.any_none, a.isFailed_item, Bool.and_false]
      rwa [Bool.and_comm]
    | some item => rfl
  unfold andThen
  rw [hstopped]
  cases hrest : (rest (b.announce (a.verdict d).line).1).stopped keepGoing with
  | true => simp [first, hrest]
  | false => simp [first, hrest, Trace.append_assoc]

end First

end Progress

/-- **The loop of a batch distributes over a list of files and another behind it.** -/
theorem convertAll_append (c : Converter) (keepGoing : Bool) (d : Direction) (outputDir : Path)
    (k : Nat) (b : Board) (xs ys : List Path) :
    convertAll c keepGoing d outputDir k b (xs ++ ys) =
      (convertAll c keepGoing d outputDir k b xs).andThen keepGoing ys fun b =>
        convertAll c keepGoing d outputDir (k + xs.length) b ys := by
  induction xs generalizing k b with
  | nil =>
    simp [convertAll, Progress.andThen, Progress.stopped, Trace.empty_append]
  | cons x xs ih =>
    rw [List.cons_append, convertAll_cons, convertAll_cons]
    by_cases hstop : ((c.attempt d outputDir k x).rejected && !keepGoing) = true
    · simp only [if_pos hstop]
      rw [Progress.first_andThen_of_stop d outputDir b ys _ hstop]
    · simp only [if_neg hstop]
      rw [Progress.first_andThen_of_go d outputDir b ys _ (Bool.eq_false_iff.mpr hstop)]
      congr 1
      funext b
      rw [ih, List.length_cons, Nat.add_right_comm, Nat.add_assoc]

/-! ## Two batches in place of one -/

def Trace.unrecorded (t : Trace) : Trace := { t with records := [] }

theorem Trace.unrecorded_append (a b : Trace) :
    (a ++ b).unrecorded = a.unrecorded ++ b.unrecorded := rfl

/-- A batch is its loop, and around it records that it begins and that it ended early. -/
theorem runBatch_unrecorded (c : Converter) (policy : Policy) (d : Direction) (s : Selection)
    (b : Board) :
    (runBatch c policy d s b).trace.unrecorded =
      (convertAll c (policy.get d) d s.outputDir 0 b s.inputs).trace.unrecorded := by
  apply Trace.ext <;> simp [runBatch, Trace.ofRecord, Trace.unrecorded]

theorem convertAll_stateless (name : String) (reply : Request → Reply) (keepGoing : Bool)
    (d : Direction) (outputDir : Path) (k : Nat) (b : Board) (inputs : List Path) :
    convertAll (Converter.stateless name reply) keepGoing d outputDir k b inputs =
      convertAll (Converter.stateless name reply) keepGoing d outputDir 0 b inputs := by
  simp only [convertAll_eq, attempts_stateless]

/-- A batch that did not end early skipped nothing. -/
theorem skipped_of_not_stopped {c : Converter} {keepGoing : Bool} {d : Direction} {outputDir : Path}
    {k : Nat} {b : Board} {inputs : List Path}
    (h : (convertAll c keepGoing d outputDir k b inputs).stopped keepGoing = false) :
    (convertAll c keepGoing d outputDir k b inputs).skipped = [] := by
  rw [convertAll_eq] at h ⊢
  apply List.drop_eq_nil_of_le
  rw [← length_attempts c d outputDir k inputs]
  cases keepGoing with
  | true => exact Nat.le_refl _
  | false =>
    apply Nat.le_of_not_lt
    intro hlt
    obtain ⟨a, hlast, hrejected⟩ := exists_rejected_of_length_reached_lt hlt
    simp [Progress.stopped, Progress.ofAttempts, List.getLast?_map, hlast, a.isFailed_item,
      hrejected] at h

theorem stopped_iff (keepGoing : Bool) (p : Progress) :
    p.stopped keepGoing = true ↔
      keepGoing = false ∧ ∃ item, p.items.getLast? = some item ∧ item.outcome.isFailed = true := by
  simp [Progress.stopped, Option.any_eq_true]

/-- **A batch splits.** Take a converter whose answer is a function of the request, and compare the
batch of `xs ++ ys` with the batch of `xs` and then that of `ys` on the board the first one left.
Unless the first batch ended on a rejection at which it is to stop, items, status lines and all
effects but records are those of the two batches one after the other, and the skipped files, the log
and the display are those of the second. If it did, everything is that of the first batch alone and
`ys` is skipped behind the files it skipped, be there any or none. -/
theorem batch_splits (name : String) (reply : Request → Reply) (policy : Policy) (d : Direction)
    (outputDir : Path) (xs ys : List Path) (b : Board) :
    let c := Converter.stateless name reply
    let whole := runBatch c policy d ⟨xs ++ ys, outputDir⟩ b
    let first := runBatch c policy d ⟨xs, outputDir⟩ b
    let second := runBatch c policy d ⟨ys, outputDir⟩ first.board
    let stopped := policy.get d = false ∧
      ∃ item, first.report.items.getLast? = some item ∧ item.outcome.isFailed = true
    (¬stopped →
      whole.report.items = first.report.items ++ second.report.items ∧
      whole.report.entries = first.report.entries ++ second.report.entries ∧
      first.report.skipped = [] ∧ whole.report.skipped = second.report.skipped ∧
      whole.board = second.board ∧
      whole.trace.refreshes = first.trace.refreshes ++ second.trace.refreshes ∧
      whole.trace.unrecorded = first.trace.unrecorded ++ second.trace.unrecorded) ∧
    (stopped →
      whole.report.items = first.report.items ∧
      whole.report.entries = first.report.entries ∧
      whole.report.skipped = first.report.skipped ++ ys ∧
      whole.board = first.board ∧
      whole.trace.refreshes = first.trace.refreshes ∧
      whole.trace.unrecorded = first.trace.unrecorded) := by
  intro c whole first second stopped
  let p := convertAll c (policy.get d) d outputDir 0 b xs
  let q := convertAll c (policy.get d) d outputDir 0 p.board ys
  let r := convertAll c (policy.get d) d outputDir 0 b (xs ++ ys)
  have hr : r = p.andThen (policy.get d) ys fun b =>
      convertAll c (policy.get d) d outputDir 0 b ys := by
    simp only [r, convertAll_append]
    congr 1
    funext b
    exact convertAll_stateless name reply _ d outputDir _ b ys
  have hstopped : p.stopped (policy.get d) = true ↔ stopped := stopped_iff _ p
  have hwhole : whole.trace.unrecorded = r.trace.unrecorded := runBatch_unrecorded c policy d _ b
  have hfirst : first.trace.unrecorded = p.trace.unrecorded := runBatch_unrecorded c policy d _ b
  have hsecond : second.trace.unrecorded = q.trace.unrecorded :=
    runBatch_unrecorded c policy d _ first.board
  constructor
  · intro hgo
    have hnot : p.stopped (policy.get d) = false := Bool.eq_false_iff.mpr (mt hstopped.mp hgo)
    rw [Progress.andThen, hnot] at hr
    have htrace : whole.trace.unrecorded = first.trace.unrecorded ++ second.trace.unrecorded := by
      rw [hwhole, hfirst, hsecond, hr]
      exact Trace.unrecorded_append p.trace q.trace
    have hrefreshes := congrArg Trace.refreshes htrace
    show r.items = p.items ++ q.items ∧ r.entries = p.entries ++ q.entries ∧
      p.skipped = [] ∧ r.skipped = q.skipped ∧ r.board = q.board ∧ _ ∧ _
    rw [hr]
    exact ⟨rfl, rfl, skipped_of_not_stopped hnot, rfl, rfl, hrefreshes, htrace⟩
  · intro hstop
    rw [Progress.andThen, if_pos (hstopped.mpr hstop)] at hr
    have htrace : whole.trace.unrecorded = first.trace.unrecorded := by
      rw [hwhole, hfirst, hr]
    have hrefreshes := congrArg Trace.refreshes htrace
    show r.items = p.items ∧ r.entries = p.entries ∧ r.skipped = p.skipped ++ ys ∧
      r.board = p.board ∧ _ ∧ _
    rw [hr]
    exact ⟨rfl, rfl, rfl, rfl, hrefreshes, htrace⟩

/-- A rejection of the last of the first files leaves none of them over and still ends the batch;
a batch that goes on converts the file behind it. -/
theorem batch_splits_behind_a_rejected_last_file :
    let reply := fun r : Request =>
      if r.input.text = "b.txt" then ({ result := .error (.rejected "bad\nend") } : Reply)
      else { result := .ok () }
    let run := fun policy inputs =>
      runBatch (Converter.stateless "codec" reply) policy .compile ⟨inputs, ⟨"out"⟩⟩
        ⟨StatusLog.empty 12, .line⟩
    let stopping : Policy := PerDirection.both false
    let going : Policy := PerDirection.both true
    let files : List Path := [⟨"a.txt"⟩, ⟨"b.txt"⟩]
    ((run stopping files).report.skipped = [] ∧
      (run stopping (files ++ [⟨"c.txt"⟩])).report.skipped = [⟨"c.txt"⟩]) ∧
    (run going (files ++ [⟨"c.txt"⟩])).report.entries =
      ["File compiled: a.txt", "bad", "File compiled: c.txt"] := by
  intro reply run stopping going files
  have hsplit := fun policy => batch_splits "codec" reply policy .compile ⟨"out"⟩ files [⟨"c.txt"⟩]
    ⟨StatusLog.empty 12, .line⟩
  refine ⟨⟨by decide, ?_⟩, ?_⟩
  · obtain ⟨-, -, hskipped, -⟩ := (hsplit stopping).2 (by decide)
    exact hskipped
  · obtain ⟨-, hentries, -⟩ := (hsplit going).1 (by decide)
    exact hentries.trans (by decide)

end BatchCodec
