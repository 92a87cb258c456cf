import Mathlib
import SplTyping.Proofs.Snapshots

namespace SplTyping

/-!
# The findings of a program are settled

Suppose that the written types of local variables mention no names. Then every
declaration is inferred with variables that no earlier finding has bound, and
its own findings bind and mention such variables only. This includes the calls
that waited for a function: they are checked in contexts from the past, but these
are narrowed first by all that has been settled and found since. So the findings
of a whole program are settled, whether or not it is accepted. The main result
is `inferProgram_settled`.
-/

theorem inferVarDecl_unnamed
    {decl decl' : VarDecl}
    {context context' : Context}
    {expected : Ty}
    {found : Substitution}
    {before after : State}
    (run :
      Runs (inferVarDecl decl context expected) before
        (decl', context', found) after)
    (unnamed : ∀ ty ∈ decl.written, ty.names = []) :
    after.names = before.names := by
  have declaredKept
      {declared : Ty}
      {middle : State}
      (declaredRun : Runs (declaredTy decl.written) before declared middle) :
      middle.names = before.names := by
    cases written : decl.written with
    | some ty =>
        rw [written] at declaredRun
        rw [writtenTy_unnamed declaredRun (unnamed ty written)]
    | none =>
        rw [written] at declaredRun
        obtain ⟨_, rfl⟩ := runs_fresh.mp declaredRun
        rfl
  cases varDeclRun_of_runs run with
  | taken => rfl
  | void _ declaredRun valueRun =>
      exact (inferExpr_grows valueRun).names.trans (declaredKept declaredRun)
  | bound _ declaredRun valueRun _ asked =>
      exact (unifyOrReport_grows asked).names.trans
        ((inferExpr_grows valueRun).names.trans (declaredKept declaredRun))

theorem inferLocals_unnamed
    {decls decls' : List VarDecl}
    {context context' : Context}
    {found : Substitution}
    {before after : State}
    (run :
      Runs (inferLocals decls context) before (decls', context', found)
        after)
    (unnamed : ∀ decl ∈ decls, ∀ ty ∈ decl.written, ty.names = []) :
    after.names = before.names := by
  induction decls generalizing decls' context found before with
  | nil =>
      obtain ⟨_, _, _, rfl⟩ := runs_inferLocals_nil run
      rfl
  | cons decl rest inductionHypothesis =>
      obtain ⟨declUnnamed, restUnnamed⟩ := List.forall_mem_cons.mp unnamed
      obtain ⟨_, _, _, _, _, _, declRun, restRun, _, _⟩ :=
        runs_inferLocals_cons run
      have declKept := inferVarDecl_unnamed declRun declUnnamed
      exact (inductionHypothesis restRun restUnnamed).trans declKept

/-- The written types of the local variables mention no names. -/
def FunDecl.LocalsUnnamed (decl : FunDecl) : Prop :=
  ∀ item ∈ decl.locals, ∀ ty ∈ item.written, ty.names = []

/-- How a function is inferred up to the comparison with its written signature. -/
inductive ComparedRun
    (decl : FunDecl)
    (context : Context)
    (expected : Ty)
    (before : State) :
    List VarDecl → List Stmt → Substitution → State → Prop where
  | intro
      {locals : List VarDecl}
      {body : List Stmt}
      {inner : Context}
      {found more shaped written : Substitution}
      {middle last asked' compared : State}
      (localsRun :
        Runs
          (inferLocals decl.locals
            (decl.inner context (freshShape before.nextVar decl.args.length)))
          (before.unnamed.draw (decl.args.length + 1)) (locals, inner, found)
          middle)
      (bodyRun :
        Runs
          (inferBlock decl.body inner
            (found.apply
              (freshShape before.nextVar decl.args.length).result))
          middle (body, more) last)
      (asked :
        Runs
          (constrain ((found ++ more).apply expected)
            ((found ++ more).apply
              (freshShape before.nextVar decl.args.length).toTy)
            .general decl.mark.span)
          last shaped asked')
      (signatureRun :
        Runs
          (signatureFindings decl.name decl.written
            ((found ++ more ++ shaped).apply
              (freshShape before.nextVar decl.args.length).toTy))
          asked' written compared) :
      ComparedRun decl context expected before locals body
        (found ++ more ++ shaped ++ written) compared

namespace ComparedRun

variable {decl : FunDecl} {locals : List VarDecl} {body : List Stmt}
variable {context : Context} {expected : Ty} {found : Substitution}
variable {before compared : State}

theorem declares
    (run : ComparedRun decl context expected before locals body found compared) :
    before.unnamed.Declares compared := by
  cases run with
  | intro localsRun bodyRun asked signatureRun =>
      exact comparedFunDecl_declares localsRun bodyRun asked signatureRun

/-- The findings keep to live variables if no local variable mentions a name. -/
theorem keepsTo
    {live : TypeVar → Prop}
    (run : ComparedRun decl context expected before locals body found compared)
    (unnamed : decl.LocalsUnnamed)
    (scene : Scene live before context)
    (expectedWithin : expected.Within (Below live before.nextVar)) :
    found.KeepsTo live compared.nextVar ∧
      Scene (found.leaves live) compared
        ((context.bindFun decl.name.text
          (freshShape before.nextVar decl.args.length)).narrow found) := by
  cases run with
  | @intro _ found more shaped written middle last asked' _
      localsRun bodyRun asked signatureRun =>
      have startLe :
          before.nextVar ≤
            (before.unnamed.draw (decl.args.length + 1)).nextVar :=
        Nat.le_add_right _ _
      have shapeWithin := freshShape_within scene.supply decl.args.length
      have localsLe := (inferLocals_declares localsRun).nextVar
      have bodyGrows := inferBlock_grows bodyRun
      obtain ⟨localsKeep, innerScene⟩ :=
        inferLocals_keepsTo localsRun unnamed (decl.inner_scene scene)
      have bodyKeeps :=
        inferBlock_keepsTo bodyRun innerScene
          (localsKeep.apply (shapeWithin.2.mono (Below.mono localsLe)))
      have bothKeep := localsKeep.append bodyKeeps bodyGrows.nextVar
      have bodyLe := Nat.le_trans localsLe bodyGrows.nextVar
      have shapeTy := shapeWithin.toTy.mono (Below.mono bodyLe)
      have shapedKeep :=
        bothKeep.unified asked
          (bothKeep.apply
            (expectedWithin.mono (Below.mono (Nat.le_trans startLe bodyLe))))
          (bothKeep.apply shapeTy)
      have askedGrows := unifyOrReport_grows asked
      have unnamedAfter (name : String) : asked'.names.get? name = none := by
        rw [askedGrows.names, bodyGrows.names,
          inferLocals_unnamed localsRun unnamed]
        rfl
      have askedLe := Nat.le_trans bodyLe askedGrows.nextVar
      have writtenKeeps :=
        signatureFindings_keepsTo signatureRun
          (shapedKeep.supply scene.supply (Nat.le_trans startLe askedLe))
          (fun name _ known => by
            rw [unnamedAfter name] at known
            cases known)
          (shapedKeep.apply (shapeTy.grow askedGrows))
      have writtenLe := (signatureFindings_declares signatureRun).nextVar
      have allKeep := shapedKeep.append writtenKeeps writtenLe
      have allLe := Nat.le_trans askedLe writtenLe
      have comparedLe := Nat.le_trans startLe allLe
      refine ⟨allKeep, allKeep.supply scene.supply comparedLe, ?_⟩
      exact allKeep.narrow
        ((scene.context.mono (Below.mono comparedLe)).bindFun decl.name.text
          (shapeWithin.mono (Below.mono allLe)))

/-- Calls wait with drawn variables, those set aside by the body included. -/
theorem waiting
    (run : ComparedRun decl context expected before locals body found compared)
    (scene : Scene anyVar before context)
    (waiting : before.WaitingDrawn) :
    compared.WaitingDrawn := by
  cases run with
  | intro localsRun bodyRun asked signatureRun =>
      have shapeWithin := freshShape_within scene.supply decl.args.length
      have innerScene := decl.inner_scene scene
      have startDrawn :
          (before.unnamed.draw (decl.args.length + 1)).NamesDrawn :=
        fun _ _ known => by cases known
      have localsLe := (inferLocals_declares localsRun).nextVar
      obtain ⟨localsWithin, bodyScene⟩ :=
        inferLocals_drawn localsRun startDrawn innerScene
      have localsWaiting :=
        inferLocals_waiting localsRun startDrawn innerScene
          (waiting.change (Nat.le_add_right _ _) rfl)
      have bodyWaiting :=
        inferBlock_waiting bodyRun
          ⟨localsWaiting, bodyScene,
            localsWithin.apply (shapeWithin.2.mono (Below.mono localsLe))⟩
      exact (bodyWaiting.unified asked).change
        (signatureFindings_declares signatureRun).nextVar
        (signatureFindings_pending signatureRun)

end ComparedRun

/-- What is known while the calls that waited for a function are checked. -/
structure Answering
    (waiting : List PendingCall)
    (state : State)
    (context : Context)
    (found : Substitution) :
    Prop where
  settled : state.settled.KeepsTo anyVar state.nextVar
  keeps : found.KeepsTo (state.settled.leaves anyVar) state.nextVar
  scene : Scene (found.leaves (state.settled.leaves anyVar)) state context
  taken : ∀ pending ∈ waiting, pending.Drawn state.nextVar
  waiting : state.WaitingDrawn

namespace Answering

variable {pending : PendingCall} {rest : List PendingCall}
variable {before after : State} {context : Context}
variable {found more : Substitution}

/-- A call from the past is checked with variables that are still live. -/
theorem reached
    (answering : Answering (pending :: rest) before context found) :
    Scene (found.leaves (before.settled.leaves anyVar)) before
        (pending.reached before.settled found context) ∧
      (found.apply (before.settled.apply pending.expected)).Within
        (Below (found.leaves (before.settled.leaves anyVar))
          before.nextVar) := by
  have drawn := answering.taken pending List.mem_cons_self
  have narrowed :=
    answering.keeps.narrow (answering.settled.narrow drawn.context)
  refine ⟨⟨answering.scene.supply, ?_⟩, ?_⟩
  · exact { vars := narrowed.vars, funs := answering.scene.context.funs }
  · exact answering.keeps.apply (answering.settled.apply drawn.expected)

/-- A call has been checked, and its findings are dropped. -/
theorem skip
    (answering : Answering (pending :: rest) before context found)
    (advances : before.Advances after)
    (waiting : after.WaitingDrawn) :
    Answering rest after context found where
  settled := by
    rw [advances.settled]
    exact answering.settled.mono advances.nextVar
  keeps := by
    rw [advances.settled]
    exact answering.keeps.mono advances.nextVar
  scene := by
    rw [advances.settled]
    exact ⟨answering.scene.supply.mono advances.nextVar,
      answering.scene.context.mono (Below.mono advances.nextVar)⟩
  taken := fun other member =>
    (answering.taken other (List.mem_cons_of_mem _ member)).mono
      advances.nextVar
  waiting := waiting

/-- A call has been checked, and its findings are added to the others. -/
theorem next
    (answering : Answering (pending :: rest) before context found)
    (advances : before.Advances after)
    (waiting : after.WaitingDrawn)
    (moreKeeps :
      more.KeepsTo (found.leaves (before.settled.leaves anyVar))
        after.nextVar) :
    Answering rest after (context.narrow more) (found ++ more) := by
  have skipped := answering.skip advances waiting
  rw [← advances.settled] at moreKeeps
  refine { skipped with keeps := ?_, scene := ?_ }
  · exact skipped.keeps.append moreKeeps (Nat.le_refl _)
  · rw [Substitution.leaves_append]
    exact skipped.scene.narrow (.refl _) moreKeeps

end Answering

theorem inferWaiting_answering
    {function : String}
    {waiting : List PendingCall}
    {context context' : Context}
    {found extended : Substitution}
    {before after : State}
    (run :
      Runs (inferWaiting function waiting context found) before
        (context', extended) after)
    (answering : Answering waiting before context found) :
    Answering [] after context' extended := by
  induction waiting generalizing context found before with
  | nil =>
      cases waitingRun_of_runs run
      exact answering
  | cons pending rest inductionHypothesis =>
      obtain ⟨scene, expectedWithin⟩ := answering.reached
      have posed :=
        Posed.mk answering.waiting scene.any
          (expectedWithin.mono fun _ ⟨_, seen⟩ => ⟨trivial, seen⟩)
      cases waitingRun_of_runs run with
      | void expectedEq callRun _ _ restRun =>
          have callAdvances := (inferCall_grows callRun).declares.advances
          have callWaiting := inferCall_waiting callRun (expectedEq ▸ posed)
          refine inductionHypothesis restRun (answering.skip ?_ ?_)
          · exact ⟨callAdvances.nextVar, callAdvances.settled, fun isClean =>
              absurd isClean (State.not_clean_record _ _)⟩
          · exact callWaiting.change (Nat.le_refl _) rfl
      | next expectedEq callRun _ restRun =>
          have callAdvances := (inferCall_grows callRun).declares.advances
          have callWaiting := inferCall_waiting callRun (expectedEq ▸ posed)
          have callKeeps :=
            inferCall_keepsTo callRun scene (expectedEq ▸ expectedWithin)
          refine inductionHypothesis restRun (answering.next ?_ ?_ ?_)
          · exact ⟨callAdvances.nextVar, callAdvances.settled,
              callAdvances.clean⟩
          · exact callWaiting.change (Nat.le_refl _) rfl
          · exact callKeeps

/-- What is settled so far keeps to drawn variables, and the context to the rest. -/
structure SettledScene (state : State) (context : Context) : Prop where
  keeps : state.settled.KeepsTo anyVar state.nextVar
  scene : Scene (state.settled.leaves anyVar) state context

namespace SettledScene

theorem initial : SettledScene .initial .empty where
  keeps := .nil
  scene := ⟨fun _ _ => ⟨trivial, by simp [State.initial]⟩, Context.within_empty⟩

/-- A declaration adds its findings to what is settled. -/
theorem finish
    {before middle : State}
    {context between : Context}
    {found : Substitution}
    (settledScene : SettledScene before context)
    (advances : before.Advances middle)
    (foundKeeps :
      found.KeepsTo (before.settled.leaves anyVar) middle.nextVar)
    (scene : Scene (before.settled.leaves anyVar) middle between) :
    SettledScene (middle.settle found) (between.narrow found) where
  keeps := by
    simp only [State.settle, advances.settled]
    exact settledScene.keeps.append foundKeeps advances.nextVar
  scene := by
    simp only [State.settle, advances.settled, Substitution.leaves_append]
    have narrowed := scene.narrow (.refl _) foundKeeps
    exact ⟨narrowed.supply, narrowed.context⟩

end SettledScene

/-- A global variable is declared, and its findings are settled. -/
theorem SettledScene.global
    {decl decl' : VarDecl}
    {context between : Context}
    {found : Substitution}
    {before middle : State}
    (settledScene : SettledScene before context)
    (run :
      Runs (inferVarDecl decl context (.var before.nextVar))
        (before.draw 1).unnamed (decl', between, found) middle) :
    found.KeepsTo (before.settled.leaves anyVar) middle.nextVar ∧
      SettledScene (middle.settle found) (between.narrow found) := by
  have drawn : before.Advances (before.draw 1).unnamed :=
    ⟨Nat.le_succ _, rfl, id⟩
  have scene := settledScene.scene.grow (.draw before 1)
  obtain ⟨foundKeeps, betweenScene⟩ :=
    inferVarDecl_keepsTo run ⟨scene.supply, scene.context⟩
      (settledScene.scene.within_next 0)
      fun _ _ declaredRun =>
        declaredTy_within declaredRun scene.supply
          fun _ _ _ _ _ known => by cases known
  have advances := drawn.trans (inferVarDecl_declares run).advances
  exact ⟨foundKeeps, settledScene.finish advances foundKeeps betweenScene⟩

theorem inferGlobals_settledScene
    {decls decls' : List Decl}
    {context context' : Context}
    {before after : State}
    (run : Runs (inferGlobals decls context) before (decls', context') after)
    (settledScene : SettledScene before context) :
    SettledScene after context' := by
  induction decls generalizing decls' context before with
  | nil =>
      cases globalsRun_of_runs run
      exact settledScene
  | cons decl rest inductionHypothesis =>
      cases globalsRun_of_runs run with
      | fn restRun => exact inductionHypothesis restRun settledScene
      | var declRun restRun =>
          exact inductionHypothesis restRun (settledScene.global declRun).2

theorem inferGlobals_waiting
    {decls decls' : List Decl}
    {context context' : Context}
    {before after : State}
    (run : Runs (inferGlobals decls context) before (decls', context') after)
    (settledScene : SettledScene before context)
    (waiting : before.WaitingDrawn) :
    after.WaitingDrawn := by
  induction decls generalizing decls' context before with
  | nil =>
      cases globalsRun_of_runs run
      exact waiting
  | cons decl rest inductionHypothesis =>
      cases globalsRun_of_runs run with
      | fn restRun => exact inductionHypothesis restRun settledScene waiting
      | var declRun restRun =>
          have scene := (settledScene.scene.grow (.draw before 1)).any
          have declWaiting :=
            inferVarDecl_waiting declRun (fun _ _ known => by cases known)
              ⟨scene.supply, scene.context⟩
              (waiting.change (Nat.le_succ _) rfl)
          exact inductionHypothesis restRun (settledScene.global declRun).2
            (declWaiting.change (Nat.le_refl _) rfl)

/-- All calls that waited for a function have been checked. -/
theorem inferFunDecl_answering
    {decl decl' : FunDecl}
    {context context' : Context}
    {expected : Ty}
    {found : Substitution}
    {before after : State}
    (run :
      Runs (inferFunDecl decl context expected) before
        (decl', context', found) after)
    (unnamed : decl.LocalsUnnamed)
    (settledScene : SettledScene before context)
    (waiting : before.WaitingDrawn)
    (expectedWithin :
      expected.Within
        (Below (before.settled.leaves anyVar) before.nextVar)) :
    Answering [] after context' found := by
  cases funDeclRun_of_runs run with
  | taken | repeated =>
      have scene := settledScene.scene
      refine ⟨settledScene.keeps, .nil, ?_, nofun, waiting.mono ?_ rfl⟩
      · rw [Substitution.leaves_nil]
        exact ⟨scene.supply, scene.context⟩
      · exact fun _ _ => id
  | bound _ _ shapeEq localsRun bodyRun asked signatureRun waitingRun =>
      subst shapeEq
      have compared := ComparedRun.intro localsRun bodyRun asked signatureRun
      have declares := compared.declares
      obtain ⟨keeps, outer⟩ :=
        compared.keepsTo unnamed settledScene.scene expectedWithin
      have comparedWaiting := compared.waiting settledScene.scene.any waiting
      refine inferWaiting_answering waitingRun ?_
      have sameSettled := declares.settled
      exact
        { settled := by
            simp only [State.without, sameSettled]
            exact settledScene.keeps.mono declares.nextVar
          keeps := by
            simp only [State.without, sameSettled]
            exact keeps
          scene := by
            simp only [State.without, sameSettled]
            exact ⟨outer.supply, outer.context⟩
          taken := fun pending isTaken =>
            State.AllWaiting.taken comparedWaiting isTaken
          waiting := comparedWaiting.without _ }

/-- The findings of a function are settled once its calls are answered. -/
theorem Answering.settle
    {state : State}
    {context : Context}
    {found : Substitution}
    (answering : Answering [] state context found) :
    SettledScene (state.settle found) (context.narrow found) := by
  have outer := answering.scene.widen fun _ isLeft => isLeft.1
  exact SettledScene.finish ⟨answering.settled, outer⟩
    ⟨Nat.le_refl _, rfl, id⟩ answering.keeps outer

/-- A function is declared where everything so far is settled. -/
theorem SettledScene.function
    {decl decl' : FunDecl}
    {context between : Context}
    {found : Substitution}
    {before middle : State}
    (settledScene : SettledScene before context)
    (run :
      Runs (inferFunDecl decl context (.var before.nextVar)) (before.draw 1)
        (decl', between, found) middle)
    (unnamed : decl.LocalsUnnamed)
    (waiting : before.WaitingDrawn) :
    Answering [] middle between found :=
  inferFunDecl_answering run unnamed
    ⟨settledScene.keeps.mono (Nat.le_succ _),
      settledScene.scene.grow (.draw _ _)⟩
    (waiting.change (Nat.le_succ _) rfl) (settledScene.scene.within_next 0)

/-- Functions leave a settled state and a live context. -/
theorem inferFunctions_settlement
    {decls decls' : List Decl}
    {context context' : Context}
    {before after : State}
    (run : Runs (inferFunctions decls context) before (decls', context') after)
    (unnamed : ∀ decl ∈ decls.filterMap Decl.fn?, decl.LocalsUnnamed)
    (settledScene : SettledScene before context)
    (waiting : before.WaitingDrawn) :
    SettledScene after context' := by
  induction decls generalizing decls' context before with
  | nil =>
      cases functionsRun_of_runs run
      exact settledScene
  | cons decl rest inductionHypothesis =>
      cases functionsRun_of_runs run with
      | var restRun =>
          exact inductionHypothesis restRun unnamed settledScene waiting
      | fn declRun restRun =>
          obtain ⟨declUnnamed, restUnnamed⟩ := List.forall_mem_cons.mp unnamed
          have answering :=
            settledScene.function declRun declUnnamed waiting
          exact inductionHypothesis restRun restUnnamed answering.settle
            (answering.waiting.change (Nat.le_refl _) rfl)

/--
Started with nothing, inference of a program whose local variables are declared
without naming type variables ends with settled findings: no variable is bound
twice, and no bound type mentions a variable that is bound by its own binding or
an earlier one. So narrowing twice is narrowing once, and the context mentions no
variable that is bound.
-/
theorem inferProgram_settled
    {program program' : Program}
    {context : Context}
    {found : Substitution}
    {after : State}
    (run :
      Runs (inferProgram program .empty) .initial (program', context, found)
        after)
    (unnamed : ∀ decl ∈ program.functions, decl.LocalsUnnamed) :
    found.Settled ∧
      (∀ ty, found.apply (found.apply ty) = found.apply ty) ∧
      context.Within fun id => ∀ binding ∈ found, id ≠ binding.var := by
  simp only [inferProgram, runs_bind, runs_get, runs_pure, Prod.exists,
    Prod.mk.injEq] at run
  obtain ⟨globals, between, middle, globalsRun, _, _, last, functionsRun, _, _,
    ⟨rfl, rfl⟩, ⟨_, rfl, rfl⟩, rfl⟩ := run
  have sameFunctions := inferGlobals_functions globalsRun
  have settledScene := inferGlobals_settledScene globalsRun .initial
  have waiting := inferGlobals_waiting globalsRun .initial .initial
  have final :=
    inferFunctions_settlement functionsRun (by rwa [sameFunctions])
      settledScene waiting
  refine ⟨final.keeps.settled, final.keeps.settled.apply_apply, ?_⟩
  exact final.scene.context.mono fun _ isBelow => isBelow.1.2

/--
A program that is not accepted: `twice` is called before it is declared, and the
sum is compared with a truth value.
-/
def misusedSum : Program where
  decls :=
    [.fn
        { name := .ofText "grows"
          args := [.ofText "x"]
          written := none
          locals := []
          body :=
            [.ret
              (some
                (.binary .eq (.bool true .blank)
                  (.binary .add
                    (.call ⟨.ofText "twice", [.ofText "x"], .blank, none⟩)
                    (.int 1 .blank) .blank)
                  .blank))
              .unknown]
          mark := .blank },
      .fn
        { name := .ofText "twice"
          args := [.ofText "n"]
          written := none
          locals := []
          body :=
            [.ret (some (.binary .add (.ofText "n") (.ofText "n") .blank))
              .unknown]
          mark := .blank }]

theorem misusedSum_settled :
    ∃ program' context found after,
      (∀ decl ∈ misusedSum.functions, decl.LocalsUnnamed) ∧
        Runs (inferProgram misusedSum .empty) .initial
          (program', context, found) after ∧
        after.diagnostics.errors.length = 1 ∧
        found.Settled ∧
        (∀ ty, found.apply (found.apply ty) = found.apply ty) ∧
        context.Within fun id => ∀ binding ∈ found, id ≠ binding.var := by
  have unnamed : ∀ decl ∈ misusedSum.functions, decl.LocalsUnnamed := by
    simp [misusedSum, Program.functions, Decl.fn?, FunDecl.LocalsUnnamed]
  exact ⟨_, _, _, _, unnamed, rfl, by cbv, inferProgram_settled rfl unnamed⟩

end SplTyping
