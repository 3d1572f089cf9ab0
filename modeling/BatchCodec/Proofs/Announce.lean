import BatchCodec.Batch
/-!
Announcing status lines: what the log holds afterwards and what the display printed meanwhile.

A log that holds the newest lines of some past still does after a push, of the past with that line
behind it (`history_push`). So a log is never compared with the log before it: it is the cut of a
past that only grows, and the past of several pushes is the past of one after the other.

Announcing several lines pushes each of them (`announceAll_log`) and shows the display every state of
the log on the way, whatever display it is (`refreshes_announceAll`). A line display prints exactly the
lines announced, in order (`printed_announceAll_line`), as long as the log can hold a line at all; a
silent display prints nothing.
-/

namespace BatchCodec

attribute [ext] Trace

theorem Trace.empty_append (t : Trace) : ({} : Trace) ++ t = t := by
  apply Trace.ext <;> simp

theorem Trace.append_empty (t : Trace) : t ++ ({} : Trace) = t := by
  apply Trace.ext <;> simp

namespace StatusLog

@[simp] theorem pushAll_nil (log : StatusLog) : log.pushAll [] = log := rfl

@[simp] theorem pushAll_cons (log : StatusLog) (line : String) (lines : List String) :
    log.pushAll (line :: lines) = (log.push line).pushAll lines := rfl

/-- A line just pushed is the newest, unless the log holds no lines. -/
theorem newest?_push (log : StatusLog) (line : String) (h : 0 < log.capacity) :
    (log.push line).newest? = some line := by
  obtain ⟨n, hn⟩ := Nat.exists_eq_succ_of_ne_zero (Nat.ne_of_gt h)
  simp [newest?, push, hn]

/-- A cut of the past, pushed on, is a cut of the longer past. -/
theorem history_push (capacity : Nat) (past : List String) (line : String) :
    (history capacity past).push line = history capacity (past ++ [line]) := by
  cases capacity with
  | zero => simp [history, push]
  | succ n =>
    -- dropping the oldest of the kept lines first makes no difference to the newest n
    have hcut : (past.reverse.take (n + 1)).take n = past.reverse.take n := by
      rw [List.take_take, Nat.min_eq_left (Nat.le_succ n)]
    simp [history, push, hcut]

theorem history_pushAll (capacity : Nat) (past lines : List String) :
    (history capacity past).pushAll lines = history capacity (past ++ lines) := by
  induction lines generalizing past with
  | nil => rw [pushAll_nil, List.append_nil]
  | cons line lines ih =>
    rw [pushAll_cons, history_push, ih, List.append_assoc, List.singleton_append]

/-- The states a log goes through while lines are pushed. -/
def states : StatusLog → List String → List StatusLog
  | _, [] => []
  | log, line :: lines => log.push line :: (log.push line).states lines

theorem length_history_le (capacity : Nat) (past : List String) :
    (history capacity past).lines.length ≤ capacity :=
  List.length_take_le _ _

end StatusLog

namespace Board

def announceAll : Board → List String → Board × Trace
  | b, [] => (b, {})
  | b, line :: lines =>
    let first := b.announce (some line)
    let later := first.1.announceAll lines
    (later.1, first.2 ++ later.2)

@[simp] theorem announceAll_nil (b : Board) : b.announceAll [] = (b, {}) := rfl

@[simp] theorem announce_log (b : Board) (line : String) :
    (b.announce (some line)).1.log = b.log.push line := rfl

/-- An announcement shows the log once and does nothing else but print. -/
theorem announce_trace (b : Board) (line : String) :
    (b.announce (some line)).2 =
      { refreshes := [b.log.push line], printed := (b.display.refresh (b.log.push line)).2 } := rfl

theorem announceAll_log (b : Board) (lines : List String) :
    (b.announceAll lines).1.log = b.log.pushAll lines := by
  induction lines generalizing b with
  | nil => rfl
  | cons line lines ih =>
    have hlater := ih (b.announce (some line)).1
    rw [announce_log] at hlater
    exact hlater

theorem refreshes_announceAll (b : Board) (lines : List String) :
    (b.announceAll lines).2.refreshes = b.log.states lines := by
  induction lines generalizing b with
  | nil => rfl
  | cons line lines ih =>
    simp only [announceAll, Trace.refreshes_append, ih, announce_log, announce_trace]
    rfl

/-- A line display prints the lines announced, each on a line of its own. -/
theorem printed_announceAll_line (log : StatusLog) (lines : List String) (h : 0 < log.capacity) :
    ((⟨log, .line⟩ : Board).announceAll lines).2.printed =
      String.join (lines.map (· ++ "\n")) := by
  induction lines generalizing log with
  | nil => simp
  | cons line lines ih =>
    have hfirst : ((⟨log, .line⟩ : Board).announce (some line)).2.printed = line ++ "\n" := by
      simp only [announce_trace, Display.refresh, StatusLog.newest?_push log line h]
    -- a push leaves the capacity alone, so the later lines are shown as well
    have hlater := ih (log.push line) h
    simp only [announceAll, Trace.printed_append, hfirst, List.map_cons, String.join_cons]
    exact congrArg (line ++ "\n" ++ ·) hlater

theorem printed_announceAll_silent (log : StatusLog) (lines : List String) :
    ((⟨log, .silent⟩ : Board).announceAll lines).2.printed = "" := by
  induction lines generalizing log with
  | nil => rfl
  | cons line lines ih =>
    have hlater := ih (log.push line)
    simp only [announceAll, Trace.printed_append, announce_trace, Display.refresh]
    exact hlater

end Board

end BatchCodec
