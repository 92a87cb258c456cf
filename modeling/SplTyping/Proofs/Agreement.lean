import SplTyping.Proofs.Heads
import SplTyping.Proofs.Settlement

namespace SplTyping

/-!
# The context agrees with the annotated tree

The context is narrowed step by step, after every declaration and after every
call that waited, while the tree is narrowed once at the end by all findings in
their order. Since the findings are settled, both come to the same: what a
declaration has recorded mentions no variable that was bound before, so only
later findings matter to it. The main result is `typeCheck_context_matches`.
-/

theorem Context.narrow_narrow
    {found : Substitution}
    (settled : found.Settled)
    (context : Context) :
    (context.narrow found).narrow found = context.narrow found := by
  simp only [narrow, Table.map, List.map_map, Function.comp_def,
    Signature.narrow, settled.apply_apply]

theorem Signature.narrow_of_unbound
    {found : Substitution}
    {signature : Signature}
    (within :
      signature.Within fun id => ∀ binding ∈ found, id ≠ binding.var) :
    signature.narrow found = signature := by
  obtain ⟨params, result⟩ := signature
  have sameParams : params.map found.apply = params.map id :=
    List.map_congr_left fun param member =>
      Substitution.apply_of_unbound (within.1 param member)
  rw [narrow, sameParams, List.map_id,
    Substitution.apply_of_unbound within.2]

theorem Signature.toTy_narrow (signature : Signature) (found : Substitution) :
    (signature.narrow found).toTy = found.apply signature.toTy := by
  simp only [narrow, toTy, Substitution.apply, Ty.instantiate,
    Ty.instantiateAll_eq_map]
  rfl

/-- The calls that waited add findings, and the context is narrowed by them. -/
theorem inferWaiting_narrows
    {function : String}
    {waiting : List PendingCall}
    {context context' : Context}
    {found extended : Substitution}
    {before after : State}
    (run :
      Runs (inferWaiting function waiting context found) before
        (context', extended) after) :
    ∃ added, extended = found ++ added ∧ context' = context.narrow added := by
  induction waiting generalizing context found before with
  | nil =>
      cases waitingRun_of_runs run
      exact ⟨[], (List.append_nil _).symm, (Context.narrow_nil _).symm⟩
  | cons pending rest inductionHypothesis =>
      cases waitingRun_of_runs run with
      | void _ _ _ _ restRun => exact inductionHypothesis restRun
      | @next _ _ _ _ more _ _ _ _ _ _ _ restRun =>
          obtain ⟨added, rfl, rfl⟩ := inductionHypothesis restRun
          exact ⟨more ++ added, List.append_assoc .., (context.narrow_append ..).symm⟩

/-- How a function is declared if no error is recorded. -/
inductive DeclaredRun
    (decl : FunDecl)
    (context : Context)
    (expected : Ty)
    (before : State) :
    FunDecl → Context → Substitution → Prop where
  | intro
      {locals : List VarDecl}
      {body : List Stmt}
      {found added : Substitution}
      {compared : State}
      (free : context.funs.contains decl.name.text = false)
      (comparedRun :
        ComparedRun decl context expected before locals body found compared)
      (clean : compared.Clean) :
      DeclaredRun decl context expected before
        { decl with
          locals
          body
          mark :=
            decl.mark.withTy
              ((freshShape before.nextVar decl.args.length).narrow found).toTy }
        ((context.bindFun decl.name.text
          (freshShape before.nextVar decl.args.length)).narrow (found ++ added))
        (found ++ added)

/-- A function without errors is declared in these steps. -/
theorem declaredRun_of_runs
    {decl decl' : FunDecl}
    {context context' : Context}
    {expected : Ty}
    {found : Substitution}
    {before after : State}
    (run :
      Runs (inferFunDecl decl context expected) before
        (decl', context', found) after)
    (clean : after.Clean) :
    DeclaredRun decl context expected before decl' context' found := by
  cases funDeclRun_of_runs run with
  | taken | repeated => exact absurd clean (State.not_clean_record _ _)
  | bound free _ shapeEq localsRun bodyRun asked signatureRun waitingRun =>
      subst shapeEq
      have comparedClean := (inferWaiting_advances waitingRun).clean clean
      obtain ⟨added, rfl, rfl⟩ := inferWaiting_narrows waitingRun
      rw [← Context.narrow_append]
      exact .intro free (.intro localsRun bodyRun asked signatureRun)
        comparedClean

/-- What is bound stays bound, narrowed by all that has been settled since. -/
structure Carries
    (before : State)
    (context : Context)
    (after : State)
    (context' : Context) :
    Prop where
  vars :
    ∀ name ty, context.vars.get? name = some (before.settled.apply ty) →
      context'.vars.get? name = some (after.settled.apply ty)
  funs :
    ∀ name (signature : Signature),
      context.funs.get? name = some (signature.narrow before.settled) →
        context'.funs.get? name = some (signature.narrow after.settled)

namespace Carries

variable {before middle after : State} {context between context' : Context}

theorem refl (state : State) (context : Context) :
    Carries state context state context where
  vars := fun _ _ => id
  funs := fun _ _ => id

/-- What is carried over one part of a run is carried over the next. -/
theorem trans
    (first : Carries before context middle between)
    (second : Carries middle between after context') :
    Carries before context after context' where
  vars := fun name ty bound => second.vars name ty (first.vars name ty bound)
  funs := fun name signature bound =>
    second.funs name signature (first.funs name signature bound)

/-- A declaration is finished: names are only added, and all types narrowed. -/
theorem narrow
    {found : Substitution}
    (settledEq : middle.settled = before.settled)
    (vars :
      ∀ name ty, context.vars.get? name = some ty →
        between.vars.get? name = some ty)
    (funs :
      ∀ name signature, context.funs.get? name = some signature →
        between.funs.get? name = some signature) :
    Carries before context (middle.settle found) (between.narrow found) where
  vars := by
    intro name ty bound
    rw [Context.narrow, Table.get?_map, vars name _ bound, Option.map_some,
      State.settle, settledEq, Substitution.apply_append]
  funs := by
    intro name signature bound
    rw [Context.narrow, Table.get?_map, funs name _ bound, Option.map_some,
      State.settle, settledEq, Signature.narrow_append]

end Carries

/-- A variable is bound at its recorded type, narrowed by what is settled. -/
def VarDecl.BoundIn (state : State) (context : Context) (decl : VarDecl) : Prop :=
  ∃ ty, decl.mark.ty = some ty ∧
    context.vars.get? decl.name.text = some (state.settled.apply ty)

/-- A function is bound at its recorded type, narrowed by what is settled. -/
def FunDecl.BoundIn (state : State) (context : Context) (decl : FunDecl) : Prop :=
  ∃ signature : Signature, decl.mark.ty = some signature.toTy ∧
    context.funs.get? decl.name.text = some (signature.narrow state.settled)

section Bound

variable {before after : State} {context context' : Context}

/-- A variable stays bound to its type while others are declared. -/
theorem VarDecl.BoundIn.carried
    {decl : VarDecl}
    (bound : decl.BoundIn before context)
    (carries : Carries before context after context') :
    decl.BoundIn after context' := by
  obtain ⟨ty, recorded, known⟩ := bound
  exact ⟨ty, recorded, carries.vars _ ty known⟩

/-- A function stays bound to its type while others are declared. -/
theorem FunDecl.BoundIn.carried
    {decl : FunDecl}
    (bound : decl.BoundIn before context)
    (carries : Carries before context after context') :
    decl.BoundIn after context' := by
  obtain ⟨signature, recorded, known⟩ := bound
  exact ⟨signature, recorded, carries.funs _ signature known⟩

/-- In the tree that is narrowed by all that is settled, the types agree. -/
theorem VarDecl.BoundIn.recorded
    {source decl : VarDecl}
    (bound : source.BoundIn after context)
    (sameHead : source.head.mapTypes after.settled.apply = decl.head) :
    ∃ ty, decl.mark.ty = some ty ∧
      context.vars.get? decl.name.text = some ty := by
  obtain ⟨ty, recorded, known⟩ := bound
  have sameName : source.name = decl.name := congrArg VarHead.name sameHead
  have sameTy : source.mark.ty.map after.settled.apply = decl.mark.ty :=
    congrArg VarHead.ty sameHead
  refine ⟨after.settled.apply ty, ?_, ?_⟩
  · rw [← sameTy, recorded, Option.map_some]
  · rw [← sameName, known]

/-- The type recorded for a function is that of its signature in the context. -/
theorem FunDecl.BoundIn.recorded
    {source decl : FunDecl}
    (bound : source.BoundIn after context)
    (sameHead : source.head.mapTypes after.settled.apply = decl.head) :
    ∃ signature : Signature, decl.mark.ty = some signature.toTy ∧
      context.funs.get? decl.name.text = some signature := by
  obtain ⟨signature, recorded, known⟩ := bound
  have sameName : source.name = decl.name := congrArg FunHead.name sameHead
  have sameTy : source.mark.ty.map after.settled.apply = decl.mark.ty :=
    congrArg FunHead.ty sameHead
  refine ⟨signature.narrow after.settled, ?_, ?_⟩
  · rw [← sameTy, recorded, Option.map_some, Signature.toTy_narrow]
  · rw [← sameName, known]

end Bound

/-- The declaration of a variable carries over what is bound. -/
theorem inferVarDecl_carries
    {decl decl' : VarDecl}
    {context between : Context}
    {expected : Ty}
    {found : Substitution}
    {before start middle : State}
    (run :
      Runs (inferVarDecl decl context expected) start
        (decl', between, found) middle)
    (settledEq : start.settled = before.settled) :
    Carries before context (middle.settle found) (between.narrow found) := by
  have sameSettled :=
    (inferVarDecl_declares run).settled.trans settledEq
  cases varDeclRun_of_runs run with
  | taken | void => exact .narrow sameSettled (fun _ _ => id) fun _ _ => id
  | bound free =>
      exact .narrow sameSettled
        (fun _ _ bound => Table.get?_insert_of_free free bound) fun _ _ => id

/-- A global variable is bound at the type that is recorded for it. -/
theorem SettledScene.global_bound
    {decl decl' : VarDecl}
    {context between : Context}
    {found : Substitution}
    {before middle : State}
    (settledScene : SettledScene before context)
    (run :
      Runs (inferVarDecl decl context (.var before.nextVar))
        (before.draw 1).unnamed (decl', between, found) middle)
    (clean : middle.Clean) :
    decl'.BoundIn (middle.settle found) (between.narrow found) := by
  obtain ⟨foundKeeps, after⟩ := settledScene.global run
  cases varDeclRun_of_runs run with
  | taken | void => exact absurd clean (State.not_clean_record _ _)
  | @bound declared _ found final _ _ _ =>
      have known :
          ((context.bindVar decl.name.text
            ((found ++ final).apply declared)).narrow
              (found ++ final)).vars.get? decl.name.text =
            some ((found ++ final).apply declared) := by
        rw [Context.narrow_bindVar, Context.bindVar, Table.get?_insert,
          if_pos rfl, foundKeeps.settled.apply_apply]
      -- The type is in the context now, so nothing settled narrows it.
      have within := after.scene.context.vars _ _ known
      refine ⟨(found ++ final).apply declared, rfl, known.trans ?_⟩
      rw [Substitution.apply_of_unbound
        (within.mono fun _ isBelow => isBelow.1.2)]

/-- After the pass over globals, each one is bound to its recorded type. -/
theorem inferGlobals_bound
    {decls decls' : List Decl}
    {context context' : Context}
    {before after : State}
    (run : Runs (inferGlobals decls context) before (decls', context') after)
    (settledScene : SettledScene before context)
    (clean : after.Clean) :
    Carries before context after context' ∧
      ∀ decl ∈ decls'.filterMap Decl.var?, decl.BoundIn after context' := by
  induction decls generalizing decls' context before with
  | nil =>
      cases globalsRun_of_runs run
      exact ⟨.refl _ _, nofun⟩
  | cons decl rest inductionHypothesis =>
      cases globalsRun_of_runs run with
      | fn restRun =>
          have restBound := inductionHypothesis restRun settledScene
          exact restBound
      | @var _ _ _ _ between _ found middle _ declRun restRun =>
          have declClean : middle.Clean :=
            (inferGlobals_settles restRun).clean clean
          have declCarries :
              Carries before context (middle.settle found)
                (between.narrow found) :=
            inferVarDecl_carries declRun rfl
          have declBound := settledScene.global_bound declRun declClean
          obtain ⟨restCarries, restBound⟩ :=
            inductionHypothesis restRun (settledScene.global declRun).2
          exact ⟨declCarries.trans restCarries,
            List.forall_mem_cons.mpr
              ⟨declBound.carried restCarries, restBound⟩⟩

/-- Nothing is bound but what is declared. -/
theorem inferGlobals_contains_only
    {decls decls' : List Decl}
    {context context' : Context}
    {before after : State}
    {name : String}
    (run : Runs (inferGlobals decls context) before (decls', context') after)
    (bound : context'.vars.contains name = true) :
    context.vars.contains name = true ∨
      ∃ decl ∈ decls'.filterMap Decl.var?, decl.name.text = name := by
  induction decls generalizing decls' context before with
  | nil =>
      cases globalsRun_of_runs run
      exact Or.inl bound
  | cons decl rest inductionHypothesis =>
      cases globalsRun_of_runs run with
      | fn restRun =>
          have restOnly := inductionHypothesis restRun
          exact restOnly
      | var declRun restRun =>
          rcases inductionHypothesis restRun with inBetween | ⟨other, member, same⟩
          · rw [Context.narrow_contains_var] at inBetween
            cases varDeclRun_of_runs declRun with
            | taken | void => exact Or.inl inBetween
            | bound =>
                rw [Context.bindVar, Table.contains, Table.get?_insert] at inBetween
                split at inBetween
                · rename_i isDecl
                  exact Or.inr ⟨_, List.mem_cons_self, isDecl.symm⟩
                · exact Or.inl inBetween
          · exact Or.inr ⟨other, List.mem_cons_of_mem _ member, same⟩

theorem inferFunctions_contains_var
    {decls decls' : List Decl}
    {context context' : Context}
    {before after : State}
    (run : Runs (inferFunctions decls context) before (decls', context') after)
    (clean : after.Clean)
    (name : String) :
    context'.vars.contains name = context.vars.contains name := by
  induction decls generalizing decls' context before with
  | nil =>
      cases functionsRun_of_runs run
      rfl
  | cons decl rest inductionHypothesis =>
      cases functionsRun_of_runs run with
      | var restRun => exact inductionHypothesis restRun
      | fn declRun restRun =>
          have declClean := (inferFunctions_settles restRun).clean clean
          rw [inductionHypothesis restRun, Context.narrow_contains_var]
          cases declaredRun_of_runs declRun declClean with
          | intro => rw [Context.narrow_contains_var, Context.bindFun]

/-- A function is bound at the type that is recorded for it. -/
theorem SettledScene.function_bound
    {decl decl' : FunDecl}
    {context between : Context}
    {found : Substitution}
    {before middle : State}
    (settledScene : SettledScene before context)
    (run :
      Runs (inferFunDecl decl context (.var before.nextVar)) (before.draw 1)
        (decl', between, found) middle)
    (unnamed : decl.LocalsUnnamed)
    (waiting : before.WaitingDrawn)
    (clean : middle.Clean) :
    Carries before context (middle.settle found) (between.narrow found) ∧
      decl'.BoundIn (middle.settle found) (between.narrow found) := by
  have answering := settledScene.function run unnamed waiting
  have sameSettled : middle.settled = before.settled :=
    (inferFunDecl_advances run).settled
  cases declaredRun_of_runs run clean with
  | @intro locals body found added compared free comparedRun _ =>
      have narrowedOnce :=
        Context.narrow_narrow answering.keeps.settled
          (context.bindFun decl.name.text
            (freshShape (before.draw 1).nextVar decl.args.length))
      rw [narrowedOnce]
      refine ⟨.narrow sameSettled (fun _ _ => id) fun _ _ bound =>
        Table.get?_insert_of_free free bound, ?_⟩
      obtain ⟨_, outer⟩ :=
        comparedRun.keepsTo unnamed (settledScene.scene.grow (.draw _ _))
          (settledScene.scene.within_next 0)
      -- The recorded signature was in the context when the calls that waited
      -- were taken, so neither `found` nor what was settled before narrows it.
      have within :=
        outer.context.funs decl.name.text
          ((freshShape (before.draw 1).nextVar decl.args.length).narrow found)
          (by rw [Context.narrow_bindFun, Context.bindFun, Table.get?_insert,
            if_pos rfl])
      have unsettled :=
        Signature.narrow_of_unbound
          (within.mono fun _ isBelow => isBelow.1.1.2)
      have unfound :=
        Signature.narrow_of_unbound (within.mono fun _ isBelow => isBelow.1.2)
      refine ⟨_, rfl, ?_⟩
      simp only [State.settle, sameSettled]
      rw [Context.narrow_bindFun, Context.bindFun, Table.get?_insert,
        if_pos rfl, Signature.narrow_append, Signature.narrow_append, unsettled,
        Signature.narrow_append, unfound]

/-- After the pass over functions, each one is bound to its recorded type. -/
theorem inferFunctions_bound
    {decls decls' : List Decl}
    {context context' : Context}
    {before after : State}
    (run : Runs (inferFunctions decls context) before (decls', context') after)
    (unnamed : ∀ decl ∈ decls.filterMap Decl.fn?, decl.LocalsUnnamed)
    (settledScene : SettledScene before context)
    (waiting : before.WaitingDrawn)
    (clean : after.Clean) :
    Carries before context after context' ∧
      ∀ decl ∈ decls'.filterMap Decl.fn?, decl.BoundIn after context' := by
  induction decls generalizing decls' context before with
  | nil =>
      cases functionsRun_of_runs run
      exact ⟨.refl _ _, nofun⟩
  | cons decl rest inductionHypothesis =>
      cases functionsRun_of_runs run with
      | var restRun =>
          have restBound :=
            inductionHypothesis restRun unnamed settledScene waiting
          exact restBound
      | fn declRun restRun =>
          obtain ⟨declUnnamed, restUnnamed⟩ := List.forall_mem_cons.mp unnamed
          have declClean := (inferFunctions_settles restRun).clean clean
          have answering := settledScene.function declRun declUnnamed waiting
          obtain ⟨declCarries, declBound⟩ :=
            settledScene.function_bound declRun declUnnamed waiting declClean
          obtain ⟨restCarries, restBound⟩ :=
            inductionHypothesis restRun restUnnamed answering.settle
              (answering.waiting.change (Nat.le_refl _) rfl)
          exact ⟨declCarries.trans restCarries,
            List.forall_mem_cons.mpr
              ⟨declBound.carried restCarries, restBound⟩⟩

/--
A context binds the variables and functions that a tree declares and no others,
each at the type that is recorded for it.
-/
structure Context.Matches (context : Context) (tree : Program) : Prop where
  globals :
    ∀ decl ∈ tree.globals, ∃ ty,
      decl.mark.ty = some ty ∧ context.vars.get? decl.name.text = some ty
  functions :
    ∀ decl ∈ tree.functions, ∃ signature : Signature,
      decl.mark.ty = some signature.toTy ∧
        context.funs.get? decl.name.text = some signature
  onlyGlobals :
    ∀ name, context.vars.contains name = true →
      ∃ decl ∈ tree.globals, decl.name.text = name
  onlyFunctions :
    ∀ name, context.funs.contains name = true →
      ∃ decl ∈ tree.functions, decl.name.text = name

/-- In an accepted program, all that is declared is bound. -/
theorem Program.Accepted.bound
    {program : Program}
    (accepted : program.Accepted)
    (unnamed : ∀ decl ∈ program.functions, decl.LocalsUnnamed) :
    ∃ state : State,
      program.infer.found = state.settled ∧
        (∀ decl ∈ program.infer.program.globals,
          decl.BoundIn state program.infer.context) ∧
        ∀ decl ∈ program.infer.program.functions,
          decl.BoundIn state program.infer.context := by
  obtain ⟨globals, context, middle, last, globalsRun, functionsRun, foundEq,
    lastClean⟩ := accepted.runs
  have middleClean := (inferFunctions_settles functionsRun).clean lastClean
  have settledScene := inferGlobals_settledScene globalsRun .initial
  have waiting := inferGlobals_waiting globalsRun .initial .initial
  obtain ⟨_, globalsBound⟩ :=
    inferGlobals_bound globalsRun .initial middleClean
  obtain ⟨carries, functionsBound⟩ :=
    inferFunctions_bound functionsRun
      (by rwa [inferGlobals_functions globalsRun]) settledScene waiting
      lastClean
  refine ⟨last, foundEq, fun decl member => ?_, functionsBound⟩
  rw [Program.globals, inferFunctions_globals functionsRun] at member
  exact (globalsBound decl member).carried carries

/-- In an accepted program, nothing is bound but what is declared. -/
theorem Program.Accepted.bound_only
    {program : Program}
    (accepted : program.Accepted)
    (name : String) :
    (program.infer.context.vars.contains name = true →
        ∃ decl ∈ program.infer.program.globals, decl.name.text = name) ∧
      (program.infer.context.funs.contains name = true →
        ∃ decl ∈ program.infer.program.functions, decl.name.text = name) := by
  obtain ⟨globals, context, middle, last, globalsRun, functionsRun, _,
    lastClean⟩ := accepted.runs
  constructor
  · intro bound
    rw [inferFunctions_contains_var functionsRun lastClean] at bound
    rw [Program.globals, inferFunctions_globals functionsRun]
    rcases inferGlobals_contains_only globalsRun bound with unbound | declared
    · cases unbound
    · exact declared
  · intro bound
    obtain ⟨_, _, only⟩ := inferFunctions_contains functionsRun lastClean
    rcases only name bound with unbound | declared
    · rw [inferGlobals_contains globalsRun] at unbound
      cases unbound
    · exact declared

/--
If a program whose local variables are declared without naming type variables is
accepted, then the returned context binds exactly what the program declares, at
the types that the annotated tree records.
-/
theorem typeCheck_context_matches
    {program annotated : Program}
    {source : String}
    {config : ReportConfig}
    {checked : Checked}
    (unnamed : ∀ decl ∈ program.functions, decl.LocalsUnnamed)
    (accepted : typeCheck program source config = (annotated, .ok checked)) :
    annotated.outline = program.outline ∧
      checked.context.Matches annotated := by
  obtain ⟨isAccepted, rfl, contextEq⟩ := typeCheck_ok accepted
  obtain ⟨last, foundEq, globalsBound, functionsBound⟩ :=
    isAccepted.bound unnamed
  have only := isAccepted.bound_only
  have globalHeads := program.annotated_globals
  have functionHeads := program.annotated_functions
  rw [contextEq]
  refine ⟨program.annotated_outline, ?_, ?_, ?_, ?_⟩
  · intro decl member
    obtain ⟨source, isSource, sameHead⟩ :=
      exists_mem_of_map_eq globalHeads member
    exact (globalsBound source isSource).recorded (foundEq ▸ sameHead)
  · intro decl member
    obtain ⟨source, isSource, sameHead⟩ :=
      exists_mem_of_map_eq functionHeads member
    exact (functionsBound source isSource).recorded (foundEq ▸ sameHead)
  · intro name bound
    obtain ⟨source, isSource, rfl⟩ := (only name).1 bound
    obtain ⟨decl, member, sameHead⟩ :=
      exists_mem_of_map_eq globalHeads.symm isSource
    exact ⟨decl, member, congrArg (fun head => head.name.text) sameHead⟩
  · intro name bound
    obtain ⟨source, isSource, rfl⟩ := (only name).2 bound
    obtain ⟨decl, member, sameHead⟩ :=
      exists_mem_of_map_eq functionHeads.symm isSource
    exact ⟨decl, member, congrArg (fun head => head.name.text) sameHead⟩

/--
A program whose types are found late: `tag` is called by `record` before it is
declared, and only then `x` and the elements of `seen` turn out to be numbers.
-/
def taggingProgram : Program where
  decls :=
    [.fn
        { name := .ofText "record"
          args := [.ofText "x"]
          written := none
          locals := []
          body :=
            [.assign (.ofFields "seen" [])
              (.binary .cons
                (.call ⟨.ofText "tag", [.ofText "x"], .blank, none⟩)
                (.ofText "seen") .blank)
              .unknown]
          mark := .blank },
      .var
        { written := none
          name := .ofText "seen"
          value := .nil .blank
          mark := .blank },
      .fn
        { name := .ofText "tag"
          args := [.ofText "n"]
          written := none
          locals := []
          body :=
            [.ret (some (.binary .add (.ofText "n") (.int 1 .blank) .blank))
              .unknown]
          mark := .blank }]

theorem taggingProgram_context_matches :
    ∃ annotated checked,
      (∀ decl ∈ taggingProgram.functions, decl.LocalsUnnamed) ∧
        typeCheck taggingProgram "" .plain = (annotated, .ok checked) ∧
        annotated.outline = taggingProgram.outline ∧
        checked.context.Matches annotated := by
  have isAccepted : taggingProgram.Accepted := by cbv
  obtain ⟨annotated, checked, accepted⟩ :=
    isAccepted.exists_annotated "" .plain
  have unnamed : ∀ decl ∈ taggingProgram.functions, decl.LocalsUnnamed := by
    simp [taggingProgram, Program.functions, Decl.fn?, FunDecl.LocalsUnnamed]
  exact ⟨annotated, checked, unnamed, accepted,
    typeCheck_context_matches unnamed accepted⟩

end SplTyping
