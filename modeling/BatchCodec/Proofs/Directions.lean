import BatchCodec.Proofs.RememberedFolders
/-!
The two directions of a session side by side.

What a session remembers for one direction is all that a step of that direction depends on: its
questions are put with these folders, its picker answers what it is asked, and the status log, which
both directions share, is only written to. So two sessions that remember the same for a direction
stay alike under a step of it (`play_of_alike`), and under steps of the other direction taken by one
of them only (`memory_play_of_ne`). A run and the run without the steps of the other direction are
compared by these two facts and an induction on the turns (`dealt_episodes_filter`,
`memory_after_filter`).
-/

namespace BatchCodec

/-- A step of another direction leaves the remembered folders alone. -/
theorem memory_play_of_ne {s : Session} {turn : Turn} {d : Direction} (h : turn.direction ≠ d) :
    (s.play turn).session.memory.get d = s.memory.get d := by
  rw [memory_play, if_neg h, if_neg h]

/-- Sessions that remember the same for the direction of a turn deal alike on it, and remember the
same for that direction afterwards. -/
theorem play_of_alike {s s' : Session} {turn : Turn}
    (h : s'.memory.get turn.direction = s.memory.get turn.direction) :
    (s'.play turn).dealings = (s.play turn).dealings ∧
      (s'.play turn).session.memory.get turn.direction =
        (s.play turn).session.memory.get turn.direction := by
  have hdealings : (s'.play turn).dealings = (s.play turn).dealings :=
    (step_congr turn.converter turn.policy turn.display turn.display h (by rw [h])
      (by rw [h])).1
  refine ⟨hdealings, ?_⟩
  rw [Step.dealings, Step.dealings, Dealings.mk.injEq] at hdealings
  obtain ⟨hprompts, -, hreport⟩ := hdealings
  -- what is remembered is read off the questions put and the report given
  have hsource : Episode.sourceFolder? ⟨turn, s'.play turn⟩ =
      Episode.sourceFolder? ⟨turn, s.play turn⟩ := by
    simp only [Episode.sourceFolder?, Episode.files?, hprompts]
  have hreported : Episode.reportedFolder? ⟨turn, s'.play turn⟩ =
      Episode.reportedFolder? ⟨turn, s.play turn⟩ := by
    simp only [Episode.reportedFolder?, hreport]
  rw [memory_play, memory_play, hsource, hreported, h]

section Runs

variable {s s' : Session} {d : Direction}

/-- Turns of the other direction make no difference to what is remembered for `d`. -/
theorem memory_after_filter (h : s'.memory.get d = s.memory.get d) (turns : List Turn) :
    (s'.after (turns.filter fun turn => turn.direction = d)).memory.get d =
      (s.after turns).memory.get d := by
  induction turns generalizing s s' with
  | nil => exact h
  | cons turn turns ih =>
    by_cases hd : turn.direction = d
    · subst hd
      rw [List.filter_cons_of_pos (by simp)]
      exact ih (play_of_alike h).2
    · -- only the longer run takes this step
      rw [List.filter_cons_of_neg (by simpa using hd)]
      exact ih (h.trans (memory_play_of_ne hd).symm)

/-- Turns of the other direction make no difference to what is dealt on the turns of `d`. -/
theorem dealt_episodes_filter (h : s'.memory.get d = s.memory.get d) (turns : List Turn) :
    (s'.episodes (turns.filter fun turn => turn.direction = d)).map
        (fun e => (e.turn, e.step.dealings)) =
      ((s.episodes turns).filter fun e => e.turn.direction = d).map
        (fun e => (e.turn, e.step.dealings)) := by
  induction turns generalizing s s' with
  | nil => rfl
  | cons turn turns ih =>
    by_cases hd : turn.direction = d
    · subst hd
      obtain ⟨hdealings, hmemory⟩ := play_of_alike h
      rw [List.filter_cons_of_pos (by simp), Session.episodes_cons, Session.episodes_cons,
        List.filter_cons_of_pos (by simp), List.map_cons, List.map_cons, hdealings, ih hmemory]
    · rw [List.filter_cons_of_neg (by simpa using hd), Session.episodes_cons,
        List.filter_cons_of_neg (by simpa using hd)]
      exact ih (h.trans (memory_play_of_ne hd).symm)

end Runs

/-- **Directions do not interfere.** Delete from any run of a session the steps of the other
direction. The steps of direction `d` that remain put their questions with the same folders, make
the same requests and give the same reports as before, one by one, and what the session remembers
for `d` in the end is the same. -/
theorem directions_do_not_interfere (s : Session) (turns : List Turn) (d : Direction) :
    let own := turns.filter fun turn => turn.direction = d
    (s.episodes own).map (fun e => (e.turn, e.step.dealings)) =
      ((s.episodes turns).filter fun e => e.turn.direction = d).map
        (fun e => (e.turn, e.step.dealings)) ∧
    (s.after own).memory.get d = (s.after turns).memory.get d := by
  intro own
  have hsame : s.memory.get d = s.memory.get d := rfl
  exact ⟨dealt_episodes_filter hsame turns, memory_after_filter hsame turns⟩

end BatchCodec
