import BatchCodec.Proofs.Attempts
/-!
A batch that stops at a rejection against the same batch that goes on.

Both put the same files to the converter in the same order, so the attempts of the one are a
beginning of the attempts of the other (`throughRejection`). Items, status lines and skipped files are
cut at three different positions, since a fault has an item and no line; all three are read off that
one beginning. The two batches are the same batch exactly when the cut leaves nothing out, which is
when no file before the last was rejected (`throughRejection_eq_self_iff`).
-/

namespace BatchCodec

/-! ## The cut -/

theorem findIdx_items (as : List Attempt) :
    (as.map Attempt.item).findIdx (fun item => item.outcome.isFailed) =
      as.findIdx Attempt.rejected := by
  rw [List.findIdx_map]
  congr 1
  funext a
  exact a.isFailed_item

theorem throughRejection_eq_self_iff (as : List Attempt) :
    throughRejection as = as ↔ ∀ a ∈ as.dropLast, a.rejected = false := by
  induction as with
  | nil => simp [throughRejection]
  | cons a as ih =>
    have hcons : throughRejection (a :: as) =
        a :: if a.rejected then [] else throughRejection as := by
      have h := reached_cons false a as
      simpa [reached] using h
    rw [hcons]
    cases as with
    | nil => simp [throughRejection]
    | cons b bs =>
      -- with a file behind it, the first attempt is one of those before the last
      rw [List.dropLast_cons_cons, List.forall_mem_cons, ← ih, List.cons.injEq]
      cases hr : a.rejected <;> simp

/-! ## Status lines against items -/

theorem Attempt.length_line (d : Direction) (a : Attempt) :
    (a.verdict d).line.toList.length = if a.item.outcome.isUnexpected then 0 else 1 := by
  unfold verdict item
  cases a.reply.result with
  | ok u => rfl
  | error f => cases f <;> rfl

/-- Attempts have as many status lines as items that are no faults. -/
theorem length_lines (d : Direction) (as : List Attempt) :
    (as.flatMap fun a => (a.verdict d).line.toList).length =
      (as.map Attempt.item).countP fun item => !item.outcome.isUnexpected := by
  induction as with
  | nil => rfl
  | cons a as ih =>
    rw [List.flatMap_cons, List.length_append, ih, a.length_line, List.map_cons, List.countP_cons]
    cases a.item.outcome.isUnexpected with
    | true => simp
    | false => simp [Nat.add_comm]

/-- The lines of a beginning are a beginning of the lines, as long as its items ask for. -/
theorem lines_take (d : Direction) (as : List Attempt) (n : Nat) :
    ((as.take n).flatMap fun a => (a.verdict d).line.toList) =
      (as.flatMap fun a => (a.verdict d).line.toList).take
        (((as.map Attempt.item).take n).countP fun item => !item.outcome.isUnexpected) := by
  have hsplit : (as.flatMap fun a => (a.verdict d).line.toList) =
      ((as.take n).flatMap fun a => (a.verdict d).line.toList) ++
        (as.drop n).flatMap fun a => (a.verdict d).line.toList := by
    rw [← List.flatMap_append, List.take_append_drop]
  rw [hsplit, ← List.map_take, ← length_lines d, List.take_left]

/-! ## The two batches -/

section Batches

variable (c : Converter) (stopping going : Policy) (d : Direction) (s : Selection) (b : Board)

theorem attempted_going :
    s.attempted c (going.set d true) d = attempts c d s.outputDir 0 s.inputs := by
  rw [Selection.attempted, PerDirection.get_set_same]
  rfl

theorem attempted_stopping :
    s.attempted c (stopping.set d false) d =
      throughRejection (attempts c d s.outputDir 0 s.inputs) := by
  rw [Selection.attempted, PerDirection.get_set_same]
  rfl

/-- Policies under which the same attempts are made make the same batch. -/
theorem runBatch_congr {policy policy' : Policy}
    (h : s.attempted c policy d = s.attempted c policy' d) :
    runBatch c policy d s b = runBatch c policy' d s b := by
  unfold Selection.attempted at h
  simp only [runBatch, convertAll_eq, h]

end Batches

/-- **Stopping is truncation.** Run one selection under a policy that stops and under one that goes
on. Cut the items of the second batch directly behind its first rejection: the items of the first are
what stands before the cut, its status lines are as many of the other's as these items have, and the
files it skips are those of the items behind the cut. The two agree in items, status lines, an empty
list of skipped files, the log and what the display is shown if and only if no item of the second
before its last is a rejection, and then in everything else as well. -/
theorem stopping_is_truncation (c : Converter) (stopping going : Policy) (d : Direction)
    (s : Selection) (b : Board) :
    let short := runBatch c (stopping.set d false) d s b
    let full := runBatch c (going.set d true) d s b
    let cut := full.report.items.findIdx (fun item => item.outcome.isFailed) + 1
    let kept := full.report.items.take cut
    let unbroken := ∀ item ∈ full.report.items.dropLast, item.outcome.isFailed = false
    short.report.items = kept ∧
    short.report.entries =
      full.report.entries.take (kept.countP fun item => !item.outcome.isUnexpected) ∧
    short.report.skipped = (full.report.items.drop cut).map Item.input ∧
    (short.report.items = full.report.items ∧ short.report.entries = full.report.entries ∧
      short.report.skipped = [] ∧ full.report.skipped = [] ∧
      short.board.log = full.board.log ∧ short.trace.refreshes = full.trace.refreshes ↔ unbroken) ∧
    (unbroken → short = full) := by
  intro short full cut kept unbroken
  let all := attempts c d s.outputDir 0 s.inputs
  have hshort : short.report = _ := runBatch_report c (stopping.set d false) d s b
  have hfull : full.report = _ := runBatch_report c (going.set d true) d s b
  rw [attempted_stopping] at hshort
  rw [attempted_going] at hfull
  have hitems : full.report.items = all.map Attempt.item := by rw [hfull]
  have hcut : cut = all.findIdx Attempt.rejected + 1 := by
    rw [← findIdx_items, ← hitems]
  have hkept : throughRejection all = all.take cut := by rw [hcut, throughRejection]
  have hunbroken : unbroken ↔ throughRejection all = all := by
    rw [throughRejection_eq_self_iff]
    simp only [unbroken, hitems, ← List.map_dropLast, List.forall_mem_map, Attempt.isFailed_item]
  have hsame : unbroken → short = full := by
    intro h
    apply runBatch_congr
    rw [attempted_stopping, attempted_going, hunbroken.mp h]
  refine ⟨?_, ?_, ?_, ⟨?_, ?_⟩, hsame⟩
  · rw [hshort, hkept, List.map_take, ← hitems]
  · simp only [kept, hitems]
    rw [hshort, hfull, hkept]
    exact lines_take d all cut
  · -- the selection is the inputs of the attempts before the cut and of those behind it
    have hparts : s.inputs =
        (all.take cut).map Attempt.input ++ (all.drop cut).map Attempt.input := by
      rw [← List.map_append, List.take_append_drop, map_input_attempts]
    rw [hshort, hitems, hkept, ← List.map_drop, List.map_map]
    dsimp only
    rw [hparts, List.drop_left' (List.length_map _)]
    rfl
  · rintro ⟨hall, -⟩
    rw [hshort, hitems] at hall
    have hlength : (throughRejection all).length = all.length := by
      simpa using congrArg List.length hall
    rw [hunbroken]
    exact (List.take_prefix _ _).eq_of_length hlength
  · intro h
    have hnone : full.report.skipped = [] := by
      rw [hfull]
      dsimp only
      rw [length_attempts, List.drop_length]
    rw [hsame h]
    exact ⟨rfl, rfl, hnone, hnone, rfl, rfl⟩

end BatchCodec
