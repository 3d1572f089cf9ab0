import BatchCodec.Proofs.SessionRun
import BatchCodec.Shell
/-!
Looking at the log in the shell.

A look keeps the session as it is and has no effect but the text it prints (`actOn_of_looks`), so a visit
without its looks goes through the same sessions and takes the same steps (`actAll_filter`), and its
trace lacks nothing but what the looks printed (`unprinted_traceOf_conversions`).

What a look prints is said without the log: a step of the shell shows which status lines it came with
by its report and by the questions it put (`ShellStep.lines`). One step pushes exactly these
(`log_actOn`), so before every move the log is the newest part of the lines of all moves before it
(`log_actAll`), whatever the displays printed of them.

Main statement: `looking_at_the_log_changes_nothing`.
-/

namespace BatchCodec

namespace Trace

def unprinted (t : Trace) : Trace := { t with printed := "" }

theorem unprinted_append (a b : Trace) : (a ++ b).unprinted = a.unprinted ++ b.unprinted := rfl

end Trace

def Move.looks (m : Move) : Bool :=
  match m.choice with
  | .showLog => true
  | .convert _ _ => false

/-- The status lines a step came with: those of the report or, without one, the line about the
question that was not answered. A look at the log puts no question. -/
def ShellStep.lines (step : ShellStep) : List String :=
  match step.report, step.trace.prompts with
  | some report, _ => report.entries
  | none, [] => []
  | none, [_] => ["No file selected!"]
  | none, _ :: _ :: _ => ["No folder selected!"]

namespace Shell

/-- The steps of a visit that are no looks at the log. -/
def conversions (moves : List Move) (steps : List ShellStep) : List ShellStep :=
  ((moves.zip steps).filter fun x => !x.1.looks).map Prod.snd

/-- What the panel shows of status lines given in order of time: the newest twelve, newest first. -/
def panelOf (past : List String) : String :=
  if past = [] then "(no status yet)" else Text.unlines (past.reverse.take 12)

theorem panelText_history (past : List String) :
    (StatusLog.history 12 past).panelText = panelOf past := by
  unfold StatusLog.panelText panelOf
  cases past with
  | nil => rfl
  | cons line past =>
    have hne : ((line :: past).reverse.take 12).isEmpty = false := by simp
    rw [if_neg (List.cons_ne_nil line past)]
    simp only [StatusLog.history, hne]
    rfl

/-! ## One move -/

section Moves

variable (s : Settings) (session : Session)

def actOn (m : Move) : ShellStep := act s m.tree m.converter m.timing session m.choice

theorem actOn_of_looks {m : Move} (h : m.looks = true) :
    actOn s session m = ⟨session, none, Trace.ofPrinted (session.log.panelText ++ "\n")⟩ := by
  unfold Move.looks at h
  unfold actOn
  split at h
  · rename_i hchoice
    rw [hchoice]
    rfl
  · cases h

/-- A move that is no look plays a turn of the session and prints the report behind it. -/
theorem actOn_of_not_looks {m : Move} (h : m.looks = false) :
    ∃ turn shown, actOn s session m =
      ⟨(session.play turn).session, (session.play turn).report,
        (session.play turn).trace ++ Trace.ofPrinted shown⟩ := by
  unfold Move.looks at h
  unfold actOn
  split at h
  · cases h
  · rename_i d answers hchoice
    rw [hchoice]
    exact ⟨⟨d, Picker.prompt m.tree answers, m.converter, s.policy, display s⟩, _, rfl⟩

theorem log_actOn (m : Move) :
    (actOn s session m).session.log = session.log.pushAll (actOn s session m).lines := by
  cases h : m.looks with
  | true =>
    rw [actOn_of_looks s session h]
    rfl
  | false =>
    obtain ⟨turn, shown, hact⟩ := actOn_of_not_looks s session h
    rw [hact]
    -- the questions of the turn tell which of them was not answered
    have hlines : ShellStep.lines ⟨(session.play turn).session, (session.play turn).report,
        (session.play turn).trace ++ Trace.ofPrinted shown⟩ =
        Episode.lines ⟨turn, session.play turn⟩ := by
      unfold ShellStep.lines Episode.lines
      simp only [Trace.prompts_append, Trace.ofPrinted, List.append_nil]
      obtain ⟨hfiles, hprompts, hreport, -⟩ | ⟨first, more, hfiles, hprompts, hstep⟩ :=
        play_cases session turn
      · rw [hreport, hprompts, hfiles]
        rfl
      · obtain ⟨hreport, -⟩ | ⟨report, hreport, -⟩ := hstep
        · rw [hreport, hprompts, hfiles]
          rfl
        · rw [hreport]
    rw [hlines]
    exact log_play session turn

end Moves

/-! ## A visit -/

section Visits

variable (s : Settings)

@[simp] theorem actAll_nil (session : Session) : actAll s session [] = (session, []) := rfl

@[simp] theorem actAll_cons (session : Session) (m : Move) (moves : List Move) :
    actAll s session (m :: moves) =
      ((actAll s (actOn s session m).session moves).1,
        actOn s session m :: (actAll s (actOn s session m).session moves).2) := rfl

theorem length_actAll (session : Session) (moves : List Move) :
    (actAll s session moves).2.length = moves.length := by
  induction moves generalizing session with
  | nil => rfl
  | cons m moves ih => rw [actAll_cons, List.length_cons, List.length_cons, ih]

/-- The first steps of a visit are the steps of the first moves. -/
theorem take_actAll (session : Session) (moves : List Move) (k : Nat) :
    (actAll s session moves).2.take k = (actAll s session (moves.take k)).2 := by
  induction moves generalizing session k with
  | nil => simp
  | cons m moves ih =>
    cases k with
    | zero => rfl
    | succ k =>
      rw [actAll_cons, List.take_succ_cons, List.take_succ_cons, ih, actAll_cons]

/-- Every move is carried out in the session that the moves before it left. -/
theorem getElem?_actAll {session : Session} {moves : List Move} {k : Nat} {m : Move}
    (h : moves[k]? = some m) :
    (actAll s session moves).2[k]? = some (actOn s (actAll s session (moves.take k)).1 m) := by
  induction moves generalizing session k with
  | nil => simp at h
  | cons first moves ih =>
    cases k with
    | zero =>
      rw [List.getElem?_cons_zero, Option.some.injEq] at h
      rw [h]
      rfl
    | succ k =>
      rw [List.getElem?_cons_succ] at h
      rw [actAll_cons, List.getElem?_cons_succ, List.take_succ_cons, actAll_cons]
      exact ih h

/-- A log that is a cut of some past is, after moves, one of the past with their lines. -/
theorem log_actAll {capacity : Nat} {session : Session} (past : List String)
    (h : session.log = StatusLog.history capacity past) (moves : List Move) :
    (actAll s session moves).1.log =
      StatusLog.history capacity
        (past ++ (actAll s session moves).2.flatMap ShellStep.lines) := by
  induction moves generalizing session past with
  | nil => rw [actAll_nil, List.flatMap_nil, List.append_nil, h]
  | cons m moves ih =>
    have hstep : (actOn s session m).session.log =
        StatusLog.history capacity (past ++ (actOn s session m).lines) := by
      rw [log_actOn, h, StatusLog.history_pushAll]
    rw [actAll_cons, ih _ hstep, List.flatMap_cons, List.append_assoc]

/-- Without its looks a visit takes the other steps as before. -/
theorem actAll_filter (session : Session) (moves : List Move) :
    actAll s session (moves.filter fun m => !m.looks) =
      ((actAll s session moves).1, conversions moves (actAll s session moves).2) := by
  induction moves generalizing session with
  | nil => rfl
  | cons m moves ih =>
    cases h : m.looks with
    | true =>
      have hsession : (actOn s session m).session = session := by rw [actOn_of_looks s session h]
      rw [List.filter_cons_of_neg (by simp [h]), ih session, actAll_cons, hsession]
      simp [conversions, h]
    | false =>
      rw [List.filter_cons_of_pos (by simp [h]), actAll_cons, ih, actAll_cons]
      simp [conversions, h]

end Visits

/-! ## The effects of a visit -/

theorem traceOf_cons (step : ShellStep) (steps : List ShellStep) :
    traceOf (step :: steps) = step.trace ++ traceOf steps := rfl

theorem printed_traceOf (steps : List ShellStep) :
    (traceOf steps).printed = String.join (steps.map fun step => step.trace.printed) := by
  induction steps with
  | nil => rfl
  | cons step steps ih =>
    rw [traceOf_cons, Trace.printed_append, ih, List.map_cons, String.join_cons]

theorem printed_visit (s : Settings) (moves : List Move) (failure : Option PickError) :
    (visit s moves failure).trace.printed =
      String.join ((visit s moves failure).steps.map fun step => step.trace.printed) := by
  rw [← printed_traceOf]
  exact String.empty_append

theorem unprinted_traceOf_conversions (s : Settings) (session : Session) (moves : List Move) :
    (traceOf (conversions moves (actAll s session moves).2)).unprinted =
      (traceOf (actAll s session moves).2).unprinted := by
  induction moves generalizing session with
  | nil => rfl
  | cons m moves ih =>
    rw [actAll_cons, traceOf_cons, Trace.unprinted_append, ← ih]
    cases h : m.looks with
    | true =>
      have hnothing : (actOn s session m).trace.unprinted = {} := by
        rw [actOn_of_looks s session h]
        rfl
      rw [hnothing, Trace.empty_append]
      simp [conversions, h]
    | false => simp [conversions, h, traceOf_cons, Trace.unprinted_append]

end Shell

/-- **Looking at the log changes nothing.** Take a visit to the shell and the same visit without the
looks at the log. Every other move comes to the same step in both, with the same requests, questions,
report, remembered folders and text on standard output; the session that is left is the same, and so
are all effects but the text that the looks printed. A look leaves the session as it was and prints
the newest twelve, newest first, of all status lines of the moves before it, or that there are none. -/
theorem looking_at_the_log_changes_nothing (s : Settings) (moves : List Move)
    (failure : Option PickError) :
    let shell := Shell.visit s moves failure
    let without := Shell.visit s (moves.filter fun m => !m.looks) failure
    let others := Shell.conversions moves shell.steps
    shell.steps.length = moves.length ∧
    without.steps = others ∧
    without.session = shell.session ∧
    shell.trace.printed = String.join (shell.steps.map fun step => step.trace.printed) ∧
    without.trace =
      { shell.trace with printed := String.join (others.map fun step => step.trace.printed) } ∧
    ∀ k m, moves[k]? = some m → m.looks = true →
      let before := (Shell.visit s (moves.take k) none).session
      let past := (shell.steps.take k).flatMap ShellStep.lines
      shell.steps[k]? = some ⟨before, none, Trace.ofPrinted (Shell.panelOf past ++ "\n")⟩ := by
  intro shell without others
  let start := Session.start s.folders.input s.folders.output
  have hfilter : Shell.actAll s start (moves.filter fun m => !m.looks) =
      ((Shell.actAll s start moves).1, others) := Shell.actAll_filter s start moves
  have hsession := congrArg Prod.fst hfilter
  have hsteps : without.steps = others := congrArg Prod.snd hfilter
  refine ⟨Shell.length_actAll s start moves, hsteps, hsession,
    Shell.printed_visit s moves failure, ?_, ?_⟩
  · -- up to what is printed the traces agree, and a visit prints what its steps print
    have hunprinted : without.trace.unprinted = shell.trace.unprinted := by
      simp only [without, shell, Shell.visit, start, hfilter, Trace.unprinted_append]
      exact congrArg _ (Shell.unprinted_traceOf_conversions s start moves)
    have hprinted : without.trace.printed =
        String.join (others.map fun step => step.trace.printed) := by
      rw [← hsteps]
      exact Shell.printed_visit s _ failure
    rw [← hprinted]
    exact congrArg (fun t : Trace => { t with printed := without.trace.printed }) hunprinted
  · intro k m hk hlooks before past
    have hpast : (Shell.actAll s start (moves.take k)).2.flatMap ShellStep.lines = past := by
      rw [← Shell.take_actAll]
      rfl
    have hlog : before.log = StatusLog.history 12 past := by
      rw [← hpast]
      exact Shell.log_actAll s [] rfl (moves.take k)
    have hstep : shell.steps[k]? = some (Shell.actOn s before m) := Shell.getElem?_actAll s hk
    rw [hstep, Shell.actOn_of_looks s before hlooks, hlog, Shell.panelText_history]

/-- A look before the first batch, a quiet batch with a JSON report, and a look after it. -/
theorem looking_at_the_log_changes_nothing_around_a_quiet_batch :
    let s : Settings := { task := .shell, json := true, quiet := true }
    let c := Converter.stateless "codec" fun _ => { result := .error (.rejected "bad\nend") }
    let move := fun choice : MenuChoice => (⟨choice, ⟨⟨0, 0⟩, 0⟩, ⟨.folder .full [], []⟩, c⟩ : Move)
    let answers : Answers := ⟨fun seed => .ok (seed ++ "a.txt"), .ok⟩
    let moves := [move .showLog, move (.convert .compile answers), move .showLog]
    let shell := Shell.visit s moves none
    (moves[0]? = some (move .showLog) ∧ moves[2]? = some (move .showLog) ∧
      (move .showLog).looks = true) ∧
    shell.steps[0]?.map (fun step => step.trace) = some (Trace.ofPrinted "(no status yet)\n") ∧
    shell.steps[2]?.map (fun step => step.trace) = some (Trace.ofPrinted "bad\n") ∧
    (Shell.visit s [move (.convert .compile answers)] none).trace.calls =
      [⟨.compile, ⟨"./data/a.txt"⟩, ⟨"./output"⟩⟩] := by
  intro s c move answers moves shell
  obtain ⟨-, -, -, -, -, hlook⟩ := looking_at_the_log_changes_nothing s moves none
  refine ⟨⟨rfl, rfl, rfl⟩, ?_, ?_, by decide⟩
  · rw [hlook 0 _ rfl rfl]
    decide
  · rw [hlook 2 _ rfl rfl]
    decide

end BatchCodec
