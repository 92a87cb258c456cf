import SplTyping.Proofs.FullAnnotation
import SplTyping.Proofs.Rechecking
import SplTyping.Proofs.Settling
import SplTyping.Proofs.SlotRewriting

namespace SplTyping

/-!
# Slots that were filled before

Inference that records no error writes into every slot that is left in the end,
so an accepted program is checked as if its slots were empty. This is so as long
as its calls carry no numbers: these would be taken for numbers of the check.
-/

/-- If no call of a program carries a number, nothing numbered stands in it. -/
theorem Program.numbered_eq_nil
    {program : Program}
    (unstamped : Unstamped program.calls) :
    program.numbered = [] := by
  refine List.flatMap_eq_nil_iff.mpr fun decl isDecl => ?_
  have declUnstamped : Unstamped decl.calls := fun call isCall =>
    unstamped call (List.mem_flatMap.mpr ⟨decl, isDecl, isCall⟩)
  cases decl with
  | var decl => exact decl.value.numbered_eq_nil declUnstamped
  | fn decl => exact decl.numbered_eq_nil declUnstamped

/-- Copies at the end have final forms for all numbers inside of them. -/
theorem Drafts.covers
    {queued placed : List Call}
    {state : State}
    {outcome : Outcome}
    {ty : Ty → Ty}
    (drafts : Drafts queued placed state)
    (finishes : outcome.Finishes state.resolved ty)
    (copied :
      ∀ id < state.pending.nextId, ∃ copy, state.resolved.get? id = some copy) :
    outcome.Covers (placed ++ state.resolved.numbered) := by
  intro call isPlaced id isNumber
  obtain ⟨copy, isCopy⟩ := drafts.exists_copy copied isPlaced isNumber
  refine ⟨copy.innerUnder outcome, ?_⟩
  rw [finishes.call, isCopy]
  rfl

section Program

variable {program : Program}

/-- Whether a program is accepted does not depend on its slots. -/
theorem Program.Accepted.erased (accepted : program.Accepted) :
    (program.erased .slots).Accepted := by
  rw [Program.Accepted, State.Clean, program.infer_diagnostics_slots]
  exact accepted

/-- What is made of an accepted program does not depend on its slots. -/
theorem Program.Accepted.writeBack_erased
    (accepted : program.Accepted)
    (unstamped : Unstamped program.calls)
    (found : Substitution) :
    (program.infer.program.writeBack found).run program.inferredState.resolved =
      ((program.erased .slots).infer.program.writeBack found).run
        (program.erased .slots).inferredState.resolved := by
  have isAccepted := accepted.erased
  obtain ⟨filled, copiesChecked⟩ := isAccepted.fills
  obtain ⟨queued, drafts⟩ :=
    (program.erased .slots).inferredState_drafts program.blank_erased.2
  obtain ⟨outcome, finishes⟩ := drafts.nest.exists_finishes found.apply
  have distinct := (program.erased .slots).inferredState_keys
  have covers := drafts.covers finishes isAccepted.copied
  let forecast : Forecast .slots := ⟨outcome, drafts.numbered finishes, .anew⟩
  have stands :
      forecast.Stands Decl.kind.each program.decls
        (program.erased .slots).infer.program.decls :=
    ⟨Program.numbered_eq_nil unstamped, filled,
      (List.forall_mem_append.mp covers).1⟩
  have settles :
      forecast.Settles (program.erased .slots).inferredState.resolved := by
    intro entry isEntry
    have isCopy := Table.get?_of_mem distinct isEntry
    refine ⟨finishes.final distinct isEntry, copiesChecked _ _ isCopy, ?_⟩
    exact fun call isInner =>
      covers call (List.mem_append_right _
        (drafts.nest.later _ _ isCopy call isInner).1)
  rw [Program.writeBack_renewed drafts finishes stands settles]
  exact (Program.writeBack_run (drafts.supplies distinct finishes)
    finishes.ty).symm

theorem Program.mapTypes_apply_nil (program : Program) :
    program.mapTypes (Substitution.apply []) = program := by
  have retyped := program.mapTypes_retyped (Substitution.apply [])
  have sameSlots :
      program.slots.map (Option.map (Substitution.apply [])) = program.slots := by
    rw [funext Substitution.apply_nil]
    simp
  exact Program.determined retyped.erased (retyped.slots.trans sameSlots)
    retyped.numbers

/-- The tree of an accepted program before its types are narrowed again. -/
theorem Program.Accepted.tree_erased
    (accepted : program.Accepted)
    (unstamped : Unstamped program.calls) :
    program.infer.tree = (program.erased .slots).infer.tree := by
  have same :
      program.infer.tree.mapTypes (Substitution.apply []) =
        (program.erased .slots).infer.tree.mapTypes (Substitution.apply []) :=
    congrArg Prod.fst (accepted.writeBack_erased unstamped [])
  rw [Program.mapTypes_apply_nil, Program.mapTypes_apply_nil] at same
  exact same

/-- In the tree of an accepted program, every call and every value is good. -/
theorem Program.Accepted.tree_good
    (accepted : program.Accepted)
    (unstamped : Unstamped program.calls) :
    NodesGood anyCall program.infer.tree.calls program.infer.tree.values ∧
      ∀ decl ∈ program.infer.tree.varDecls, decl.SlotVoidFree := by
  rw [accepted.tree_erased unstamped]
  exact Program.infer_tree_good program.blank_erased.1 accepted.erased

/--
If no call of an accepted program carries a number, the program is checked as if
all of its slots were empty.
-/
theorem Program.Accepted.typeCheck_erased
    (accepted : program.Accepted)
    (unstamped : Unstamped program.calls)
    (source : String)
    (config : ReportConfig) :
    typeCheck program source config =
      typeCheck (program.erased .slots) source config := by
  have twins := program.twins .slots
  have sameTree :
      program.infer.writeBack.1 = (program.erased .slots).infer.writeBack.1 := by
    rw [Inferred.writeBack, Inferred.writeBack, twins.found]
    exact congrArg Prod.fst (accepted.writeBack_erased unstamped _)
  simp only [typeCheck, sameTree, twins.context, program.infer_diagnostics_slots]

end Program

end SplTyping
