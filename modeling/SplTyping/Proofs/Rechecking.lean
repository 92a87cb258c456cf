import SplTyping.Proofs.Blank
import SplTyping.Proofs.TwinRuns
import SplTyping.Proofs.WriteBack

namespace SplTyping

/-!
# Checking an annotated program again

An annotated program differs from the blank one in slots only, so a second check
goes through the same steps as the first. It finds the same, records the same
errors in the same places, and hands out the same numbers; each call that it
sets aside already has its final form. So its copies become these forms again,
and the tree ends up as it was.
-/

theorem TypeError.erased_slots (error : TypeError) :
    error.erased .slots = error := by
  cases error <;> rfl

theorem Forecast.CopiedAgain.exists_entry
    {erasure : Erasure}
    {forecast : Forecast erasure}
    {entries entries' : List (CallId × Call)}
    {again : CallId × Call}
    (copied : List.Forall₂ forecast.CopiedAgain entries entries')
    (isAgain : again ∈ entries') :
    ∃ entry ∈ entries, forecast.CopiedAgain entry again := by
  induction copied with
  | nil => cases isAgain
  | cons isCopied _ inductionHypothesis =>
      rcases List.mem_cons.mp isAgain with rfl | inRest
      · exact ⟨_, List.mem_cons_self, isCopied⟩
      · obtain ⟨entry, isEntry, isSame⟩ := inductionHypothesis inRest
        exact ⟨entry, List.mem_cons_of_mem _ isEntry, isSame⟩

theorem Forecast.CopiedAgain.renumbers
    {erasure : Erasure}
    {forecast : Forecast erasure}
    {entries entries' : List (CallId × Call)}
    (copied : List.Forall₂ forecast.CopiedAgain entries entries') :
    forecast.Renumbers []
      (entries.flatMap fun entry => Expr.numberedAll entry.2.args)
      (entries'.flatMap fun entry => Expr.numberedAll entry.2.args) := by
  induction copied with
  | nil => exact .nil
  | cons isCopied _ inductionHypothesis =>
      exact isCopied.inside.append inductionHypothesis

/-- If the copies of the first check finish a tree, so do those of the second. -/
theorem Supplies.again
    {erasure : Erasure}
    {forecast : Forecast erasure}
    {copies copies' : ResolvedCalls}
    {setAside owed owed' : List Call}
    (supplies : Supplies forecast.outcome copies owed)
    (renumbers : forecast.Renumbers setAside owed owed')
    (copied :
      List.Forall₂ forecast.CopiedAgain copies.entries copies'.entries) :
    Supplies forecast.outcome copies' owed' := by
  have sameKeys : copies'.keys = copies.keys :=
    Forecast.CopiedAgain.keys copied
  have all :
      forecast.Renumbers (setAside ++ []) (owed ++ copies.numbered)
        (owed' ++ copies'.numbered) :=
    renumbers.append (Forecast.CopiedAgain.renumbers copied)
  constructor
  · rw [sameKeys]
    exact supplies.keys
  · rw [all.numbers]
    exact supplies.distinct
  · intro again isAgain
    obtain ⟨entry, isEntry, isCopied⟩ :=
      Forecast.CopiedAgain.exists_entry copied isAgain
    rw [isCopied.id, isCopied.final]
    exact supplies.finals entry isEntry
  · intro call isOwed id isNumber notKey
    have isOld : some id ∈ (owed ++ copies.numbered).map Call.waiting := by
      rw [← all.numbers]
      exact List.mem_map.mpr ⟨call, isOwed, isNumber⟩
    obtain ⟨old, wasOwed, oldNumber⟩ := List.mem_map.mp isOld
    rw [sameKeys] at notKey
    have noFinal := (supplies.lost old wasOwed id oldNumber notKey).1
    exact ⟨noFinal, all.lost call isOwed id isNumber noFinal⟩
  · intro id isKey
    rw [sameKeys] at isKey
    rw [all.numbers]
    exact supplies.needed id isKey
  · intro again isAgain call isInner id isNumber
    obtain ⟨entry, isEntry, isCopied⟩ :=
      Forecast.CopiedAgain.exists_entry copied isAgain
    have isOld :
        some id ∈ (Expr.numberedAll entry.2.args).map Call.waiting := by
      rw [← isCopied.inside.numbers]
      exact List.mem_map.mpr ⟨call, isInner, isNumber⟩
    obtain ⟨old, isOldInner, oldNumber⟩ := List.mem_map.mp isOld
    rw [isCopied.id]
    exact supplies.later entry isEntry old isOldInner id oldNumber

/-- Copies carry the numbers of their calls, and so do the final forms. -/
theorem Drafts.numbered
    {queued placed : List Call}
    {state : State}
    {outcome : Outcome}
    {ty : Ty → Ty}
    (drafts : Drafts queued placed state)
    (finishes : outcome.Finishes state.resolved ty) :
    ∀ id, ∀ final ∈ outcome.call id, final.waiting = some id := by
  intro id final isFinal
  rw [finishes.call] at isFinal
  obtain ⟨copy, found, rfl⟩ := Option.map_eq_some_iff.mp isFinal
  exact (drafts.copies _ (Table.mem_of_get? found)).stamped

/-- The final form of a copy is what becomes of it. -/
theorem Outcome.Finishes.final
    {outcome : Outcome}
    {copies : ResolvedCalls}
    {ty : Ty → Ty}
    {entry : CallId × Call}
    (finishes : outcome.Finishes copies ty)
    (distinct : copies.keys.Nodup)
    (isEntry : entry ∈ copies.entries) :
    outcome.call entry.1 = some (entry.2.innerUnder outcome) := by
  rw [finishes.call, Table.get?_of_mem distinct isEntry]
  rfl

/-- Slots say nothing to inference, so that it reports the same again. -/
theorem Program.infer_diagnostics_slots (program : Program) :
    (program.erased .slots).infer.state.diagnostics =
      program.infer.state.diagnostics := by
  have sameErrors (errors : List TypeError) :
      errors.map (TypeError.erased .slots) = errors := by
    rw [funext TypeError.erased_slots, List.map_id']
  rw [Program.infer_diagnostics_erased, sameErrors]

/--
If an old program stands, the same is made of it as of the program without its
slots.
-/
theorem Program.writeBack_renewed
    {program : Program}
    {queued : List Call}
    {forecast : Forecast .slots}
    {found : Substitution}
    (drafts :
      Drafts queued (program.erased .slots).infer.program.numbered
        (program.erased .slots).inferredState)
    (finishes :
      forecast.outcome.Finishes (program.erased .slots).inferredState.resolved
        found.apply)
    (stands :
      forecast.Stands Decl.kind.each program.decls
        (program.erased .slots).infer.program.decls)
    (settles :
      forecast.Settles (program.erased .slots).inferredState.resolved) :
    (program.infer.program.writeBack found).run program.inferredState.resolved =
      ((program.erased .slots).infer.program.under forecast.outcome, .empty) := by
  obtain ⟨_, _, _, setAside, renews, foresees⟩ := program.twins .slots
  have distinct := (program.erased .slots).inferredState_keys
  obtain ⟨tree, renumbers⟩ := renews forecast stands
  have repeats := foresees forecast renumbers.expected settles
  have supplies :
      Supplies forecast.outcome program.inferredState.resolved
        program.infer.program.numbered :=
    (drafts.supplies distinct finishes).again renumbers repeats.copies
  have sameUnder :
      program.infer.program.under forecast.outcome =
        (program.erased .slots).infer.program.under forecast.outcome :=
    congrArg Program.mk tree
  rw [← sameUnder]
  exact Program.writeBack_run supplies finishes.ty

/-- A tree that an inference has finished is what the next one makes of it. -/
theorem Program.writeBack_again
    {program : Program}
    {queued : List Call}
    {outcome : Outcome}
    (drafts :
      Drafts queued (program.erased .slots).infer.program.numbered
        (program.erased .slots).inferredState)
    (finishes :
      outcome.Finishes (program.erased .slots).inferredState.resolved
        (program.erased .slots).infer.found.apply)
    (isFinished :
      program = (program.erased .slots).infer.program.under outcome) :
    program.infer.writeBack.1 = program := by
  let forecast : Forecast .slots :=
    ⟨outcome, drafts.numbered finishes, .again .slots⟩
  have distinct := (program.erased .slots).inferredState_keys
  have settles :
      forecast.Settles (program.erased .slots).inferredState.resolved :=
    fun _ isEntry => ⟨finishes.final distinct isEntry, trivial⟩
  have stands :
      forecast.Stands Decl.kind.each program.decls
        (program.erased .slots).infer.program.decls :=
    congrArg Program.decls isFinished
  have written := Program.writeBack_renewed drafts finishes stands settles
  rw [(program.twins .slots).found] at written
  exact (congrArg Prod.fst written).trans isFinished.symm

/--
Checking a blank program and then the tree that the check leaves gives the same
answer twice, and the second check leaves that tree as it is.
-/
theorem typeCheck_again
    {program : Program}
    (blank : program.Blank)
    (source : String)
    (config : ReportConfig) :
    typeCheck (typeCheck program source config).1 source config =
      typeCheck program source config := by
  obtain ⟨queued, drafts⟩ := program.inferredState_drafts blank.unstamped
  obtain ⟨outcome, finishes⟩ :=
    drafts.nest.exists_finishes program.infer.found.apply
  have isErased := (Program.writeBack_erased drafts finishes).trans blank
  have isFinished := congrArg Prod.fst (Program.infer_writeBack drafts finishes)
  rw [typeCheck_tree]
  obtain ⟨annotated, isAnnotated⟩ :
      ∃ annotated, program.infer.writeBack.1 = annotated :=
    ⟨_, rfl⟩
  rw [isAnnotated] at isErased isFinished ⊢
  subst isErased
  have sameTree :
      annotated.infer.writeBack.1 =
        (annotated.erased .slots).infer.writeBack.1 :=
    (Program.writeBack_again drafts finishes isFinished).trans isAnnotated.symm
  have sameContext := (annotated.twins .slots).context
  have sameReports := annotated.infer_diagnostics_slots
  simp only [typeCheck, sameTree, sameContext, sameReports]

theorem lostProgram_blank : lostProgram.Blank :=
  rfl

/-- The first check leaves numbers on a call, on one inside of it and so on. -/
theorem lostProgram_checked_again :
    lostProgram.Blank ∧
      (typeCheck lostProgram "" .plain).1.calls.map Call.waiting =
        [some 0, some 1, some 2] ∧
      typeCheck (typeCheck lostProgram "" .plain).1 "" .plain =
        typeCheck lostProgram "" .plain := by
  refine ⟨lostProgram_blank, ?_, typeCheck_again lostProgram_blank "" .plain⟩
  rw [typeCheck_tree]
  cbv

end SplTyping
