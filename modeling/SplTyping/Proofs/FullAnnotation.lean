import SplTyping.Proofs.Filled
import SplTyping.Proofs.WriteBack

namespace SplTyping

/-!
# Accepted programs are fully annotated

The tree that inference leaves is filled but for numbered calls, and so is every
checked copy. If the program is accepted, no call waits at the end, so there is
a copy for every number: each numbered call is replaced by a copy, and so are
the numbered calls inside of the copy. Narrowing the types afterwards empties no
slot.
-/

/-- The copies recorded so far are checked. -/
def State.CopiesChecked (state : State) : Prop :=
  ∀ id copy, state.resolved.get? id = some copy → copy.Checked

namespace State.CopiesChecked

variable {before after : State}

theorem change
    (checked : before.CopiesChecked)
    (sameResolved : after.resolved = before.resolved) :
    after.CopiesChecked := by
  intro id copy
  rw [sameResolved]
  exact checked id copy

/-- A checked copy is recorded. -/
theorem resolve
    {id : CallId}
    {copy : Call}
    (checked : before.CopiesChecked)
    (copyChecked : copy.Checked) :
    (before.resolve id copy).CopiesChecked := by
  intro other found recorded
  simp only [State.resolve, Table.get?_insert] at recorded
  split at recorded
  · cases recorded
    exact copyChecked
  · exact checked other found recorded

end State.CopiesChecked

/-- The calls that waited for a function are checked once it is known. -/
theorem inferWaiting_checksCopies
    {function : String}
    {waiting : List PendingCall}
    {context context' : Context}
    {found extended : Substitution}
    {before after : State}
    (run :
      Runs (inferWaiting function waiting context found) before
        (context', extended) after)
    (clean : after.Clean)
    (isKnown : context.funs.contains function = true)
    (callees : ∀ pending ∈ waiting, pending.call.callee.text = function)
    (checked : before.CopiesChecked) :
    after.CopiesChecked := by
  induction waiting generalizing context found before with
  | nil =>
      cases waitingRun_of_runs run
      exact checked
  | cons pending rest inductionHypothesis =>
      obtain ⟨isCallee, restCallees⟩ := List.forall_mem_cons.mp callees
      cases waitingRun_of_runs run with
      | void _ _ _ _ restRun =>
          have recordedClean := (inferWaiting_advances restRun).clean clean
          exact absurd recordedClean (State.not_clean_record _ _)
      | @next _ _ call _ _ _ _ middle _ _ callRun _ restRun =>
          have middleClean : middle.Clean :=
            (inferWaiting_advances restRun).clean clean
          have callChecked : call.Checked :=
            (inferCall_fills callRun middleClean).2 (isCallee ▸ isKnown)
          have middleChecked : middle.CopiesChecked :=
            checked.change (inferCall_grows callRun).resolved
          refine inductionHypothesis restRun ?_ restCallees
            (middleChecked.resolve callChecked)
          rw [Context.narrow_contains]
          exact isKnown

/-- A function is filled, and the calls that waited for it are checked. -/
theorem inferFunDecl_fills
    {decl decl' : FunDecl}
    {context context' : Context}
    {expected : Ty}
    {found : Substitution}
    {before after : State}
    (run :
      Runs (inferFunDecl decl context expected) before
        (decl', context', found) after)
    (clean : after.Clean)
    (accounts : Accounts context [] before)
    (checked : before.CopiesChecked) :
    decl'.Filled true ∧ after.CopiesChecked := by
  cases funDeclRun_of_runs run with
  | taken | repeated => exact absurd clean (State.not_clean_record _ _)
  | @bound _ _ _ _ _ _ _ _ _ _ _ _ _ compared _
      _ _ shapeEq localsRun bodyRun asked signatureRun waitingRun =>
      subst shapeEq
      have comparedRun := ComparedRun.intro localsRun bodyRun asked signatureRun
      have comparedClean : compared.Clean :=
        (inferWaiting_advances waitingRun).clean clean
      obtain ⟨localsFilled, bodyFilled⟩ := comparedRun.fills comparedClean
      have waits := (accounts.compare comparedRun).unknown
      refine ⟨⟨rfl, localsFilled, bodyFilled⟩, ?_⟩
      refine inferWaiting_checksCopies waitingRun clean ?_
        (fun pending isTaken => (waits.taken isTaken).1)
        (checked.change comparedRun.declares.resolved)
      rw [Context.narrow_knows, decl.bindFun_knows, FunDecl.knows]
      simp

/-- The pass over globals fills the slots, except where calls wait. -/
theorem inferGlobals_fills
    {decls decls' : List Decl}
    {context context' : Context}
    {before after : State}
    (run :
      Runs (inferGlobals decls context) before (decls', context') after)
    (clean : after.Clean)
    (checked : before.CopiesChecked) :
    (∀ decl ∈ decls'.filterMap Decl.var?, decl.Filled true) ∧
      after.CopiesChecked := by
  induction decls generalizing decls' context before with
  | nil =>
      cases globalsRun_of_runs run
      exact ⟨List.forall_mem_nil _, checked⟩
  | cons decl rest inductionHypothesis =>
      cases globalsRun_of_runs run with
      | fn restRun =>
          have restFilled := inductionHypothesis restRun checked
          exact restFilled
      | @var decl _ _ _ _ _ _ middle _ declRun restRun =>
          have middleClean : middle.Clean :=
            (inferGlobals_settles restRun).clean clean
          obtain ⟨restFilled, restChecked⟩ :=
            inductionHypothesis restRun
              (checked.change (inferVarDecl_declares declRun).resolved)
          have declFilled := inferVarDecl_fills declRun middleClean
          exact ⟨List.forall_mem_cons.mpr ⟨declFilled, restFilled⟩, restChecked⟩

/-- The pass over functions fills the slots, and those of all copies. -/
theorem inferFunctions_fills
    {decls decls' : List Decl}
    {context context' : Context}
    {before after : State}
    (run :
      Runs (inferFunctions decls context) before (decls', context') after)
    (clean : after.Clean)
    (accounts : Accounts context [] before)
    (checked : before.CopiesChecked) :
    (∀ decl ∈ decls'.filterMap Decl.fn?, decl.Filled true) ∧
      after.CopiesChecked := by
  induction decls generalizing decls' context before with
  | nil =>
      cases functionsRun_of_runs run
      exact ⟨List.forall_mem_nil _, checked⟩
  | cons decl rest inductionHypothesis =>
      cases functionsRun_of_runs run with
      | var restRun =>
          have restFilled := inductionHypothesis restRun accounts checked
          exact restFilled
      | @fn decl _ _ _ _ _ _ middle _ declRun restRun =>
          have middleClean : middle.Clean :=
            (inferFunctions_settles restRun).clean clean
          have started : Accounts context [] (before.draw 1) :=
            accounts.change rfl rfl rfl
          obtain ⟨declFilled, declChecked⟩ :=
            inferFunDecl_fills declRun middleClean started checked
          obtain ⟨restFilled, restChecked⟩ :=
            inductionHypothesis restRun
              ((inferFunDecl_accounts declRun started).change rfl rfl
                (Context.narrow_knows _ _))
              declChecked
          exact ⟨List.forall_mem_cons.mpr ⟨declFilled, restFilled⟩, restChecked⟩

theorem Mark.isSome_mapTypes
    {mark : Mark}
    (change : Ty → Ty)
    (filled : mark.ty.isSome = true) :
    (mark.mapTypes change).ty.isSome = true := by
  rw [Mark.mapTypes, Option.isSome_map]
  exact filled

/-- Narrowing keeps the number of parameters. -/
theorem Mark.FilledFor.apply
    {mark : Mark}
    {arity : Nat}
    (filled : mark.FilledFor arity)
    (found : Substitution) :
    (mark.mapTypes found.apply).FilledFor arity := by
  obtain ⟨params, result, recorded, sameLength⟩ := filled
  refine ⟨params.map found.apply, found.apply result, ?_, ?_⟩
  · rw [Mark.mapTypes, recorded, Option.map_some, Substitution.apply,
      Ty.instantiate, Ty.instantiateAll_eq_map]
    rfl
  · rw [List.length_map, sameLength]

/-- Types are narrowed, and what takes the place of some calls is filled. -/
structure Outcome.Completes
    (outcome : Outcome)
    (found : Substitution)
    (calls : List Call) :
    Prop where
  ty : outcome.ty = found.apply
  call :
    ∀ call ∈ calls, ∀ id ∈ call.waiting,
      ∃ final, outcome.call id = some final ∧ final.Filled false

namespace Outcome.Completes

variable {outcome : Outcome} {found : Substitution} {calls more : List Call}

theorem of_append
    (completes : outcome.Completes found (calls ++ more)) :
    outcome.Completes found calls ∧ outcome.Completes found more := by
  obtain ⟨here, there⟩ := List.forall_mem_append.mp completes.call
  exact ⟨⟨completes.ty, here⟩, ⟨completes.ty, there⟩⟩

theorem of_mem
    {α : Type}
    {numbered : α → List Call}
    {items : List α}
    {item : α}
    (completes : outcome.Completes found (items.flatMap numbered))
    (isItem : item ∈ items) :
    outcome.Completes found (numbered item) where
  ty := completes.ty
  call := fun call isCall =>
    completes.call call (List.mem_flatMap.mpr ⟨item, isItem, isCall⟩)

end Outcome.Completes

section Completed

variable {outcome : Outcome} {found : Substitution}

theorem Expr.length_underAll (exprs : List Expr) :
    (Expr.underAll outcome exprs).length = exprs.length := by
  induction exprs with
  | nil => rfl
  | cons expr rest inductionHypothesis =>
      exact congrArg Nat.succ inductionHypothesis

mutual

/-- What is filled up to numbered calls is filled once these are completed. -/
theorem Expr.filled_under
    (expr : Expr)
    (filled : expr.Filled true)
    (completes : outcome.Completes found expr.numbered) :
    (expr.under outcome).Filled false := by
  cases expr with
  | int | bool | char | nil => exact Mark.isSome_mapTypes _ filled
  | read place => exact Place.filled_under place filled completes
  | pair first second | range first second | binary _ first second =>
      obtain ⟨slot, firstFilled, secondFilled⟩ := filled
      obtain ⟨firstCompletes, secondCompletes⟩ := completes.of_append
      exact ⟨Mark.isSome_mapTypes _ slot,
        Expr.filled_under first firstFilled firstCompletes,
        Expr.filled_under second secondFilled secondCompletes⟩
  | unary _ operand =>
      exact ⟨Mark.isSome_mapTypes _ filled.1,
        Expr.filled_under operand filled.2 completes⟩
  | call made => exact Call.filled_under made filled completes
termination_by structural expr

/-- An outcome that completes the numbered calls completes a place. -/
theorem Place.filled_under
    (place : Place)
    (filled : place.Filled true)
    (completes : outcome.Completes found place.numbered) :
    (place.under outcome).Filled false := by
  rcases place with ⟨name, fields, mark⟩
  exact ⟨Mark.isSome_mapTypes _ filled.1,
    Field.filledAll_under fields filled.2 completes⟩
termination_by structural place

/-- An outcome that completes the numbered calls completes a field. -/
theorem Field.filled_under
    (field : Field)
    (filled : field.Filled true)
    (completes : outcome.Completes found field.numbered) :
    (field.under outcome).Filled false := by
  cases field with
  | hd | tl | fst | snd => trivial
  | index position => exact Expr.filled_under position filled completes
termination_by structural field

theorem Field.filledAll_under
    (fields : List Field)
    (filled : Field.FilledAll true fields)
    (completes : outcome.Completes found (Field.numberedAll fields)) :
    Field.FilledAll false (Field.underAll outcome fields) := by
  cases fields with
  | nil => trivial
  | cons field rest =>
      obtain ⟨fieldCompletes, restCompletes⟩ := completes.of_append
      exact ⟨Field.filled_under field filled.1 fieldCompletes,
        Field.filledAll_under rest filled.2 restCompletes⟩
termination_by structural fields

/-- A numbered call gives way to a filled one; any other is filled itself. -/
theorem Call.filled_under
    (call : Call)
    (filled : call.Filled true)
    (completes : outcome.Completes found call.numbered) :
    (call.under outcome).Filled false := by
  rcases call with ⟨callee, args, mark, waiting⟩
  cases waiting with
  | some id =>
      obtain ⟨final, isFinal, finalFilled⟩ :=
        completes.call _ List.mem_cons_self id rfl
      rw [Call.under, Option.bind_some, isFinal, Option.getD_some]
      exact finalFilled
  | none =>
      rcases filled with ⟨_, isSome⟩ | ⟨slot, argsFilled⟩
      · cases isSome
      · refine Or.inr ⟨?_, Expr.filledAll_under args argsFilled completes⟩
        rw [Expr.length_underAll, completes.ty]
        exact slot.apply found
termination_by structural call

theorem Expr.filledAll_under
    (exprs : List Expr)
    (filled : Expr.FilledAll true exprs)
    (completes : outcome.Completes found (Expr.numberedAll exprs)) :
    Expr.FilledAll false (Expr.underAll outcome exprs) := by
  cases exprs with
  | nil => trivial
  | cons expr rest =>
      obtain ⟨exprCompletes, restCompletes⟩ := completes.of_append
      exact ⟨Expr.filled_under expr filled.1 exprCompletes,
        Expr.filledAll_under rest filled.2 restCompletes⟩
termination_by structural exprs

end

/-- A checked copy is filled once the numbered calls inside are completed. -/
theorem Call.Checked.filled_innerUnder
    {copy : Call}
    (checked : copy.Checked)
    (completes : outcome.Completes found (Expr.numberedAll copy.args)) :
    (copy.innerUnder outcome).Filled false := by
  refine Or.inr ⟨?_, Expr.filledAll_under copy.args checked.args completes⟩
  rw [Expr.length_underAll, completes.ty]
  exact checked.slot.apply found

mutual

/-- An outcome that completes the numbered calls completes a statement. -/
theorem Stmt.filled_under
    (stmt : Stmt)
    (filled : stmt.Filled true)
    (completes : outcome.Completes found stmt.numbered) :
    (stmt.under outcome).Filled false := by
  match stmt with
  | .ifElse condition thenBody elseBody _ =>
      obtain ⟨conditionFilled, thenFilled, elseFilled⟩ := filled
      obtain ⟨conditionCompletes, bodiesComplete⟩ := completes.of_append
      obtain ⟨thenCompletes, elseCompletes⟩ := bodiesComplete.of_append
      exact ⟨condition.filled_under conditionFilled conditionCompletes,
        Stmt.filledAll_under thenBody thenFilled thenCompletes,
        Stmt.filledAll_under elseBody elseFilled elseCompletes⟩
  | .whileDo head body _ | .forIn _ head body _ =>
      obtain ⟨headCompletes, bodyCompletes⟩ := completes.of_append
      exact ⟨head.filled_under filled.1 headCompletes,
        Stmt.filledAll_under body filled.2 bodyCompletes⟩
  | .assign target value _ =>
      obtain ⟨targetCompletes, valueCompletes⟩ := completes.of_append
      exact ⟨target.filled_under filled.1 targetCompletes,
        value.filled_under filled.2 valueCompletes⟩
  | .call made => exact made.filled_under filled completes
  | .ret none _ => trivial
  | .ret (some value) _ => exact value.filled_under filled completes
termination_by structural stmt

theorem Stmt.filledAll_under
    (stmts : List Stmt)
    (filled : Stmt.FilledAll true stmts)
    (completes : outcome.Completes found (Stmt.numberedAll stmts)) :
    Stmt.FilledAll false (Stmt.underAll outcome stmts) := by
  cases stmts with
  | nil => trivial
  | cons stmt rest =>
      obtain ⟨stmtCompletes, restCompletes⟩ := completes.of_append
      exact ⟨Stmt.filled_under stmt filled.1 stmtCompletes,
        Stmt.filledAll_under rest filled.2 restCompletes⟩
termination_by structural stmts

end

/-- An outcome that completes the numbered calls completes a declaration. -/
theorem VarDecl.filled_under
    (decl : VarDecl)
    (filled : decl.Filled true)
    (completes : outcome.Completes found decl.numbered) :
    (decl.under outcome).Filled false :=
  ⟨Mark.isSome_mapTypes _ filled.1,
    decl.value.filled_under filled.2 completes⟩

theorem Decl.filled_under
    (decl : Decl)
    (filled : decl.Filled true)
    (completes : outcome.Completes found decl.numbered) :
    (decl.under outcome).Filled false := by
  cases decl with
  | var decl => exact decl.filled_under filled completes
  | fn decl =>
      obtain ⟨slot, localsFilled, bodyFilled⟩ := filled
      obtain ⟨localsComplete, bodyCompletes⟩ := completes.of_append
      refine ⟨Mark.isSome_mapTypes _ slot, ?_,
        Stmt.filledAll_under decl.body bodyFilled bodyCompletes⟩
      intro item' isItem'
      obtain ⟨item, isItem, rfl⟩ := List.mem_map.mp isItem'
      exact item.filled_under (localsFilled item isItem)
        (localsComplete.of_mem isItem)

/-- A program that is filled up to numbered calls is filled by an outcome. -/
theorem Program.filled_under
    {program : Program}
    (filled : program.Filled true)
    (completes : outcome.Completes found program.numbered) :
    (program.under outcome).Filled false := by
  intro decl' isDecl'
  obtain ⟨decl, isDecl, rfl⟩ := List.mem_map.mp isDecl'
  exact decl.filled_under (filled decl isDecl) (completes.of_mem isDecl)

end Completed

namespace Drafts

variable {queued placed : List Call} {state : State}

/-- If every number that was handed out has a copy, so has every numbered call. -/
theorem exists_copy
    {call : Call}
    {id : CallId}
    (drafts : Drafts queued placed state)
    (copied :
      ∀ id < state.pending.nextId, ∃ copy, state.resolved.get? id = some copy)
    (isPlaced : call ∈ placed ++ state.resolved.numbered)
    (isNumber : call.waiting = some id) :
    ∃ copy, state.resolved.get? id = some copy :=
  copied id (drafts.number_lt (drafts.nodes.mem_iff.mp isPlaced) isNumber)

/-- If every number has a checked copy, the copies complete the tree. -/
theorem completes
    {outcome : Outcome}
    {found : Substitution}
    (drafts : Drafts queued placed state)
    (finishes : outcome.Finishes state.resolved found.apply)
    (checked : state.CopiesChecked)
    (copied :
      ∀ id < state.pending.nextId, ∃ copy, state.resolved.get? id = some copy) :
    outcome.Completes found placed := by
  -- Copies are filled from the inside: what stands in one has greater numbers.
  have finalFilled (id : CallId) :
      ∀ copy, state.resolved.get? id = some copy →
        ∃ final, outcome.call id = some final ∧ final.Filled false := by
    induction id using drafts.nest.inward with | step id inner
    intro copy isCopy
    refine ⟨copy.innerUnder outcome, ?_, ?_⟩
    · rw [finishes.call, isCopy, Option.map_some]
    · refine (checked id copy isCopy).filled_innerUnder
        ⟨finishes.ty, fun call isInner number isNumber => ?_⟩
      have isPlaced :=
        List.mem_append_right placed
          (drafts.nest.later id copy isCopy call isInner).1
      obtain ⟨part, isPart⟩ := drafts.exists_copy copied isPlaced isNumber
      exact inner copy isCopy call isInner number isNumber part isPart
  refine ⟨finishes.ty, fun call isPlaced id isNumber => ?_⟩
  obtain ⟨copy, isCopy⟩ :=
    drafts.exists_copy copied (List.mem_append_left _ isPlaced) isNumber
  exact finalFilled id copy isCopy

end Drafts

/--
Every slot of a program holds a type, and that of a call the type of a function
with as many parameters as the call has arguments.
-/
def Program.Annotated (program : Program) : Prop :=
  program.Filled false

namespace Program.Accepted

variable {program : Program}

/-- If a program is accepted, nothing was reported and no call waits. -/
theorem inferredState (accepted : program.Accepted) :
    program.inferredState.Clean ∧ program.inferredState.pending.calls = [] := by
  have noErrors : program.infer.state.diagnostics.errors = [] := accepted
  rw [program.infer_errors, List.append_eq_nil_iff, List.map_eq_nil_iff]
    at noErrors
  exact noErrors

/-- Every number that was handed out has a copy in the end. -/
theorem copied (accepted : program.Accepted) :
    ∀ id < program.inferredState.pending.nextId,
      ∃ copy, program.inferredState.resolved.get? id = some copy := by
  intro id isNumber
  have ids := program.inferredState_accounts.ids
  rw [accepted.inferredState.2, List.append_nil, List.map_nil, List.append_nil]
    at ids
  obtain ⟨copy, isCopy, _⟩ :=
    Table.perm_erase program.inferredState_keys
      (ids.mem_iff.mpr (List.mem_range.mpr isNumber))
  exact ⟨copy, isCopy⟩

/-- The tree and the copies are filled up to numbered calls. -/
theorem fills (accepted : program.Accepted) :
    program.infer.program.Filled true ∧ program.inferredState.CopiesChecked := by
  obtain ⟨clean, _⟩ := accepted.inferredState
  obtain ⟨globals, context, middle, globalsRun, functionsRun⟩ :=
    program.inferredState_runs
  have noCopies : State.initial.CopiesChecked := fun _ _ recorded => by
    cases recorded
  obtain ⟨globalsFilled, globalsChecked⟩ :=
    inferGlobals_fills globalsRun
      ((inferFunctions_settles functionsRun).clean clean) noCopies
  obtain ⟨functionsFilled, checked⟩ :=
    inferFunctions_fills functionsRun clean
      (inferGlobals_accounts globalsRun .initial) globalsChecked
  rw [← inferFunctions_globals functionsRun] at globalsFilled
  refine ⟨fun decl isDecl => ?_, checked⟩
  cases decl with
  | var decl =>
      exact globalsFilled decl (List.mem_filterMap.mpr ⟨_, isDecl, rfl⟩)
  | fn decl =>
      exact functionsFilled decl (List.mem_filterMap.mpr ⟨_, isDecl, rfl⟩)

end Program.Accepted

/--
If no call of a program carries a number yet, then every slot of the accepted
program is filled, and all but the slots is as it was.
-/
theorem typeCheck_annotates
    {program annotated : Program}
    {source : String}
    {config : ReportConfig}
    {checked : Checked}
    (unstamped : ∀ call ∈ program.calls, call.waiting = none)
    (accepted : typeCheck program source config = (annotated, .ok checked)) :
    annotated.Annotated ∧ annotated.erased .slots = program.erased .slots := by
  obtain ⟨isAccepted, isWritten, _⟩ := typeCheck_ok accepted
  obtain ⟨filled, copiesChecked⟩ := isAccepted.fills
  obtain ⟨queued, drafts⟩ := program.inferredState_drafts unstamped
  obtain ⟨outcome, finishes⟩ :=
    drafts.nest.exists_finishes program.infer.found.apply
  have isErased := typeCheck_tree_erased unstamped source config
  rw [accepted] at isErased
  refine ⟨?_, isErased⟩
  rw [isWritten, Program.infer_writeBack drafts finishes]
  exact Program.filled_under filled
    (drafts.completes finishes copiesChecked isAccepted.copied)

/-- Calls that wait for their callees, one of them in an argument of the other. -/
def forwardProgram : Program where
  decls :=
    [.fn (.ofBody "main" []
        [.call (.ofText "outer" [.call (.ofText "inner" [])])]),
      .fn (.ofBody "outer" ["x"] [.ret none .unknown]),
      .fn (.ofBody "inner" [] [.ret (some (.int 1 .blank)) .unknown])]

theorem forwardProgram_annotated :
    (∀ call ∈ forwardProgram.calls, call.waiting = none) ∧
      ∃ annotated checked,
        typeCheck forwardProgram "" .plain = (annotated, .ok checked) ∧
          annotated.calls.map (fun call => call.mark.ty) =
            [some (.fn [.int] .void), some (.fn [] .int)] ∧
          annotated.Annotated ∧
          annotated.erased .slots = forwardProgram.erased .slots := by
  have unstamped : ∀ call ∈ forwardProgram.calls, call.waiting = none := by
    have calls :
        forwardProgram.calls =
          [.ofText "outer" [.call (.ofText "inner" [])], .ofText "inner" []] := by
      cbv
    simp [calls, Call.ofText]
  have isAccepted : forwardProgram.Accepted := by
    cbv
  have callTypes :
      (typeCheck forwardProgram "" .plain).1.calls.map
          (fun call => call.mark.ty) =
        [some (.fn [.int] .void), some (.fn [] .int)] := by
    cbv
  obtain ⟨annotated, checked, accepted⟩ := isAccepted.exists_annotated "" .plain
  rw [accepted] at callTypes
  exact ⟨unstamped, annotated, checked, accepted, callTypes,
    typeCheck_annotates unstamped accepted⟩

/-- A call that carries a number although it never waits, and one that waits. -/
def staleProgram : Program where
  decls :=
    [.fn (.ofBody "ready" [] [.ret none .unknown]),
      .fn (.ofBody "main" []
        [.call { Call.ofText "ready" [] with waiting := some 0 },
          .call (.ofText "later" [])]),
      .fn (.ofBody "later" [] [.ret none .unknown])]

/-- The copy of the call that waited is put in for the other one. -/
theorem typeCheck_slot_left_empty :
    (∃ checked, (typeCheck staleProgram "" .plain).2 = .ok checked) ∧
      (typeCheck staleProgram "" .plain).1.calls.map
          (fun call => (call.callee.text, call.mark.ty)) =
        [("later", some (.fn [] .void)), ("later", none)] := by
  rw [typeCheck_ok_iff]
  constructor
  · cbv
  · cbv

end SplTyping
