import SplTyping.Check
import SplTyping.Proofs.Growth

namespace SplTyping

/-!
# Accepted programs

A check goes through the global variables and then through the functions. The
program is accepted if no error was recorded on the way and no call is left
waiting at the end.
-/

/-- A program is accepted by the check. -/
def Program.Accepted (program : Program) : Prop :=
  program.infer.state.Clean

theorem foldl_report_errors
    {waiting : List PendingCall}
    {explain : PendingCall → TypeError}
    {diagnostics : Diagnostics} :
    (waiting.foldl
        (fun diagnostics unanswered =>
          diagnostics.report (explain unanswered))
        diagnostics).errors =
      diagnostics.errors ++ waiting.map explain := by
  induction waiting generalizing diagnostics with
  | nil => simp
  | cons unanswered rest inductionHypothesis =>
      rw [List.foldl_cons, inductionHypothesis, List.map_cons,
        Diagnostics.report, List.append_assoc, List.singleton_append]

/-- The error about a call whose callee is declared nowhere. -/
def Call.unknownFunction (call : Call) : TypeError :=
  .unknownFunction call.callee.text call.mark.span

/-- Reporting adds one error for each call that waits, and nothing else. -/
theorem reportWaiting_errors
    {before after : State}
    (run : Runs reportWaiting before () after) :
    after.diagnostics.errors =
      before.diagnostics.errors ++
        (before.pending.queues.flatMap CallQueue.calls).map fun pending =>
          pending.call.unknownFunction := by
  rw [reportWaiting, runs_modify] at run
  rw [run]
  exact foldl_report_errors

/-- Every call that waits at the end is an error. -/
theorem runs_reportWaiting
    {before after : State}
    (run : Runs reportWaiting before () after) :
    after.resolved = before.resolved ∧
      (after.Clean ↔
        before.Clean ∧ before.pending.queues.flatMap CallQueue.calls = []) := by
  refine ⟨?_, ?_⟩
  · rw [reportWaiting, runs_modify] at run
    rw [run]
  · rw [State.Clean, reportWaiting_errors run, List.append_eq_nil_iff,
      List.map_eq_nil_iff, State.Clean]

/-- A program is inferred by going through its variables and its functions. -/
theorem Program.infer_runs (program : Program) :
    ∃ globals context middle last,
      Runs (inferGlobals program.decls .empty) .initial (globals, context)
          middle ∧
        Runs (inferFunctions globals context) middle
          (program.infer.program.decls, program.infer.context) last ∧
        program.infer.found = last.settled ∧
        Runs reportWaiting last () program.infer.state :=
  ⟨_, _, _, _, rfl, rfl, rfl, rfl⟩

/-- An accepted program is inferred without an error on the way. -/
theorem Program.Accepted.runs
    {program : Program}
    (accepted : program.Accepted) :
    ∃ globals context middle last,
      Runs (inferGlobals program.decls .empty) .initial (globals, context)
          middle ∧
        Runs (inferFunctions globals context) middle
          (program.infer.program.decls, program.infer.context) last ∧
        program.infer.found = last.settled ∧
        last.Clean := by
  obtain ⟨globals, context, middle, last, globalsRun, functionsRun, foundEq,
    reportRun⟩ := program.infer_runs
  have lastClean := ((runs_reportWaiting reportRun).2.mp accepted).1
  exact ⟨globals, context, middle, last, globalsRun, functionsRun, foundEq,
    lastClean⟩

/-- A check succeeds if the program is accepted. -/
theorem typeCheck_ok_iff
    {program : Program}
    {source : String}
    {config : ReportConfig} :
    (∃ checked, (typeCheck program source config).2 = .ok checked) ↔
      program.Accepted := by
  simp only [typeCheck, Diagnostics.finish, Program.Accepted, State.Clean,
    List.isEmpty_iff]
  split
  · rename_i clean
    exact ⟨fun _ => clean, fun _ => ⟨_, rfl⟩⟩
  · rename_i failed
    refine ⟨?_, fun clean => absurd clean failed⟩
    rintro ⟨checked, isOk⟩
    cases isOk

/-- A check fails with all recorded errors, if there are any. -/
theorem typeCheck_error_iff
    {program : Program}
    {source : String}
    {config : ReportConfig}
    {failure : Failure} :
    (typeCheck program source config).2 = .error failure ↔
      program.infer.state.diagnostics.errors ≠ [] ∧
        failure =
          { errors := program.infer.state.diagnostics.errors
            report := program.infer.state.diagnostics.render source config } := by
  simp only [typeCheck, Diagnostics.finish, List.isEmpty_iff]
  split
  · rename_i clean
    simp [clean, Except.map]
  · rename_i failed
    simp [failed, Except.map, eq_comm]

/-- A check with recorded errors fails with these. -/
theorem typeCheck_fails
    {program : Program}
    {errors : List TypeError}
    (isErrors : program.infer.state.diagnostics.errors = errors)
    (notEmpty : errors ≠ [])
    (source : String)
    (config : ReportConfig) :
    ∃ failure,
      (typeCheck program source config).2 = .error failure ∧
        failure.errors = errors := by
  subst isErrors
  exact ⟨_, typeCheck_error_iff.mpr ⟨notEmpty, rfl⟩, rfl⟩

/-- The check of an accepted program returns a tree and a context. -/
theorem Program.Accepted.exists_annotated
    {program : Program}
    (accepted : program.Accepted)
    (source : String)
    (config : ReportConfig) :
    ∃ annotated checked,
      typeCheck program source config = (annotated, .ok checked) := by
  obtain ⟨checked, isOk⟩ :
      ∃ checked, (typeCheck program source config).2 = .ok checked :=
    typeCheck_ok_iff.mpr accepted
  refine ⟨(typeCheck program source config).1, checked, ?_⟩
  rw [← isOk]

/-- What is known of a check that succeeded. -/
theorem typeCheck_ok
    {program annotated : Program}
    {source : String}
    {config : ReportConfig}
    {checked : Checked}
    (accepted : typeCheck program source config = (annotated, .ok checked)) :
    program.Accepted ∧ annotated = program.infer.writeBack.1 ∧
      checked.context = program.infer.context := by
  have isOk : (typeCheck program source config).2 = .ok checked := by
    rw [accepted]
  have isAccepted := typeCheck_ok_iff.mp ⟨checked, isOk⟩
  refine ⟨isAccepted, ?_, ?_⟩
  · rw [typeCheck, Prod.mk.injEq] at accepted
    exact accepted.1.symm
  · simp only [Program.Accepted, State.Clean] at isAccepted
    simp only [typeCheck, Diagnostics.finish, isAccepted,
      List.isEmpty_nil] at isOk
    cases isOk
    rfl

end SplTyping
