import SplTyping.Proofs.Acceptance
import SplTyping.Proofs.CallFree
import SplTyping.Proofs.Settlement
import SplTyping.Proofs.Soundness
import SplTyping.Proofs.WriteBack

namespace SplTyping

/-!
# Accepted programs without calls are well typed

The findings of all declarations together are settled, as long as the written
types of local variables mention no names. So they describe an assignment that
solves them, and the tree that they are written back into is well typed by
`inferExpr_sound` and `inferStmt_sound`. The main result is
`typeCheck_wellTyped`.
-/

section Declarations

variable {assign : Assignment} {named : String → Ty} {scope : Scope}

/-- A declaration without calls is well typed, if there is no error. -/
theorem inferVarDecl_sound
    {decl decl' : VarDecl}
    {context context' : Context}
    {expected : Ty}
    {found : Substitution}
    {before after : State}
    (run :
      Runs (inferVarDecl decl context expected) before
        (decl', context', found) after)
    (callFree : decl.calls = [])
    (clean : after.Clean)
    (solved : found.SolvedBy assign)
    (vars : context.VarsModel assign scope)
    (agree : after.NamesAgree assign named) :
    ∃ ty,
      VarDeclTyped .annotated scope named
          (decl'.mapTypes (Ty.instantiate assign)) ty ∧
        context'.VarsModel assign (scope.bindVar decl'.name.text ty) := by
  cases varDeclRun_of_runs run with
  | taken | void => exact absurd clean (State.not_clean_record _ _)
  | @bound declared _ found final _ _ _ free declaredRun valueRun _ asked =>
      obtain ⟨valueSolved, _⟩ := Substitution.solvedBy_append.mp solved
      have valueClean := (unifyOrReport_grows asked).clean clean
      have valueHas :=
        inferExpr_sound valueRun callFree valueClean valueSolved vars
      have declaredAgree :=
        agree.of_declares
          ((inferExpr_grows valueRun).trans
            (unifyOrReport_grows asked)).declares
      refine ⟨declared.instantiate assign, ?_, ?_⟩
      · exact
          { free := (vars.eq_none_iff _).mpr free
            written := declaredTy_meaning declaredRun declaredAgree
            valueHas := valueHas
            isValue := trivial
            recorded :=
              Rules.annotated_withTy _ (solved.instantiate_apply _) }
      · have bound :=
          vars.bindVar decl.name.text ((found ++ final).apply declared)
        rwa [solved.instantiate_apply] at bound

/-- Locals without calls are well typed in turn, if there is no error. -/
theorem inferLocals_sound
    {decls decls' : List VarDecl}
    {context context' : Context}
    {found : Substitution}
    {before after : State}
    (run :
      Runs (inferLocals decls context) before (decls', context', found)
        after)
    (callFree : ∀ decl ∈ decls, decl.calls = [])
    (clean : after.Clean)
    (solved : found.SolvedBy assign)
    (vars : context.VarsModel assign scope)
    (agree : after.NamesAgree assign named) :
    ∃ inner,
      LocalsTyped .annotated named scope
          (decls'.map (VarDecl.mapTypes (Ty.instantiate assign))) inner ∧
        context'.VarsModel assign inner := by
  induction decls generalizing decls' context found before scope with
  | nil =>
      obtain ⟨rfl, rfl, _, _⟩ := runs_inferLocals_nil run
      exact ⟨scope, .nil, vars⟩
  | cons decl rest inductionHypothesis =>
      obtain ⟨declFree, restFree⟩ := List.forall_mem_cons.mp callFree
      obtain ⟨decl', rest', between, first, more, middle, declRun, restRun, rfl,
        rfl⟩ := runs_inferLocals_cons run
      obtain ⟨firstSolved, restSolved⟩ := Substitution.solvedBy_append.mp solved
      have restDeclares := inferLocals_declares restRun
      obtain ⟨ty, declTyped, betweenVars⟩ :=
        inferVarDecl_sound declRun declFree (restDeclares.clean clean)
          firstSolved vars (agree.of_declares restDeclares)
      obtain ⟨inner, restTyped, innerVars⟩ :=
        inductionHypothesis restRun restFree restSolved
          (betweenVars.narrow firstSolved)
      exact ⟨inner, .cons declTyped restTyped, innerVars⟩

/-- A function that is accepted has the signature that is written for it. -/
theorem signatureFindings_sound
    {name : Name}
    {written : Option WrittenSignature}
    {signature : Signature}
    {inferred : Ty}
    {found : Substitution}
    {before after : State}
    (run : Runs (signatureFindings name written inferred) before found after)
    (clean : after.Clean)
    (solved : found.SolvedBy assign)
    (agree : after.NamesAgree assign named)
    (isSignature : inferred.instantiate assign = signature.toTy) :
    ∀ ty ∈ written, ty.meaning named = signature := by
  rintro ty ⟨⟩
  cases signatureRun_of_runs run with
  | unshared _ _ asked =>
      have recorded := (unifyOrReport_grows asked).clean clean
      exact absurd recorded (State.not_clean_record _ _)
  | shared signatureRun _ asked =>
      have same := instantiate_eq_of_unifyOrReport asked clean solved
      have declaredAgree :=
        agree.of_declares (unifyOrReport_grows asked).declares
      have meant := signatureTy_meaning signatureRun declaredAgree
      rw [same, isSignature] at meant
      simp only [Signature.toTy, Ty.fn.injEq] at meant
      obtain ⟨⟩ := signature
      simp only [WrittenSignature.meaning, Signature.mk.injEq] at meant ⊢
      exact meant

end Declarations

/-- A declaration without calls sets none aside. -/
theorem inferVarDecl_callFree
    {decl decl' : VarDecl}
    {context context' : Context}
    {expected : Ty}
    {found : Substitution}
    {before after : State}
    (run :
      Runs (inferVarDecl decl context expected) before
        (decl', context', found) after)
    (callFree : decl.calls = []) :
    decl'.calls = [] ∧ after.pending = before.pending := by
  cases varDeclRun_of_runs run with
  | taken => exact ⟨callFree, rfl⟩
  | void _ declaredRun valueRun =>
      obtain ⟨valueFree, valueKept⟩ := inferExpr_callFree valueRun callFree
      exact ⟨valueFree, valueKept.trans (declaredTy_pending declaredRun)⟩
  | bound _ declaredRun valueRun _ asked =>
      obtain ⟨valueFree, valueKept⟩ := inferExpr_callFree valueRun callFree
      exact ⟨valueFree, (unifyOrReport_pending asked).trans
        (valueKept.trans (declaredTy_pending declaredRun))⟩

/-- Locals without calls set none aside. -/
theorem inferLocals_callFree
    {decls decls' : List VarDecl}
    {context context' : Context}
    {found : Substitution}
    {before after : State}
    (run :
      Runs (inferLocals decls context) before (decls', context', found)
        after)
    (callFree : ∀ decl ∈ decls, decl.calls = []) :
    (∀ decl ∈ decls', decl.calls = []) ∧ after.pending = before.pending := by
  induction decls generalizing decls' context found before with
  | nil =>
      obtain ⟨rfl, _, _, rfl⟩ := runs_inferLocals_nil run
      exact ⟨by simp, rfl⟩
  | cons decl rest inductionHypothesis =>
      obtain ⟨declFree, restFree⟩ := List.forall_mem_cons.mp callFree
      obtain ⟨_, _, _, _, _, _, declRun, restRun, rfl, _⟩ :=
        runs_inferLocals_cons run
      obtain ⟨declFree, declKept⟩ := inferVarDecl_callFree declRun declFree
      obtain ⟨restFree, restKept⟩ := inductionHypothesis restRun restFree
      exact ⟨List.forall_mem_cons.mpr ⟨declFree, restFree⟩,
        restKept.trans declKept⟩

/-- Inside a function without calls, nothing is set aside. -/
theorem pending_of_callFree
    {decl : FunDecl}
    {locals : List VarDecl}
    {body : List Stmt}
    {context inner : Context}
    {expected left right inferred : Ty}
    {demand : Demand}
    {span : Span}
    {found more shaped written : Substitution}
    {start middle last asked' compared : State}
    (localsRun :
      Runs (inferLocals decl.locals context) start (locals, inner, found)
        middle)
    (bodyRun :
      Runs (inferBlock decl.body inner expected) middle (body, more) last)
    (asked : Runs (constrain left right demand span) last shaped asked')
    (signatureRun :
      Runs (signatureFindings decl.name decl.written inferred) asked' written
        compared)
    (callFree : decl.calls = []) :
    (∀ decl ∈ locals, decl.calls = []) ∧ Stmt.callsAll body = [] ∧
      compared.pending = start.pending := by
  rw [FunDecl.calls, List.append_eq_nil_iff,
    List.flatMap_eq_nil_iff] at callFree
  obtain ⟨localsFree, localsKept⟩ := inferLocals_callFree localsRun callFree.1
  obtain ⟨bodyFree, bodyKept⟩ := inferBlock_callFree bodyRun callFree.2
  refine ⟨localsFree, bodyFree, ?_⟩
  calc compared.pending
    _ = asked'.pending := signatureFindings_pending signatureRun
    _ = last.pending := unifyOrReport_pending asked
    _ = middle.pending := bodyKept
    _ = start.pending := localsKept

theorem take_of_empty
    {pending : PendingCalls}
    (empty : pending.queues = [])
    (function : String) :
    (pending.take function).1 = [] ∧ (pending.take function).2.queues = [] := by
  simp [PendingCalls.take, empty]

/--
How a function without calls is inferred while no call waits: once its signature
is compared, nothing is left to do.
-/
inductive QuietRun
    (decl : FunDecl)
    (context : Context)
    (expected : Ty)
    (before : State) :
    FunDecl → Context → Substitution → State → Prop where
  | bound
      {shape : Signature}
      {locals : List VarDecl}
      {body : List Stmt}
      {inner : Context}
      {found more shaped written : Substitution}
      {middle last asked' compared : State}
      (free : context.funs.contains decl.name.text = false)
      (distinct : firstRepeated? [] decl.args = none)
      (shapeEq : shape = freshShape before.nextVar decl.args.length)
      (localsRun :
        Runs (inferLocals decl.locals (decl.inner context shape))
          (before.unnamed.draw (decl.args.length + 1))
          (locals, inner, found) middle)
      (bodyRun :
        Runs (inferBlock decl.body inner (found.apply shape.result)) middle
          (body, more) last)
      (asked :
        Runs
          (constrain ((found ++ more).apply expected)
            ((found ++ more).apply shape.toTy) .general decl.mark.span)
          last shaped asked')
      (signatureRun :
        Runs
          (signatureFindings decl.name decl.written
            ((found ++ more ++ shaped).apply shape.toTy))
          asked' written compared) :
      QuietRun decl context expected before
        { decl with
          locals
          body
          mark :=
            decl.mark.withTy
              (shape.narrow (found ++ more ++ shaped ++ written)).toTy }
        ((context.bindFun decl.name.text shape).narrow
          (found ++ more ++ shaped ++ written))
        (found ++ more ++ shaped ++ written)
        (compared.without decl.name.text)

/--
A function without calls is inferred in these steps, if there is no error.
-/
theorem quietRun_of_runs
    {decl decl' : FunDecl}
    {context context' : Context}
    {expected : Ty}
    {found : Substitution}
    {before after : State}
    (run :
      Runs (inferFunDecl decl context expected) before
        (decl', context', found) after)
    (callFree : decl.calls = [])
    (nothingWaits : before.pending.queues = [])
    (clean : after.Clean) :
    QuietRun decl context expected before decl' context' found after ∧
      decl'.calls = [] ∧ after.pending.queues = [] := by
  cases funDeclRun_of_runs run with
  | taken | repeated => exact absurd clean (State.not_clean_record _ _)
  | bound free distinct shapeEq localsRun bodyRun asked signatureRun waitingRun =>
      obtain ⟨localsFree, bodyFree, kept⟩ :=
        pending_of_callFree localsRun bodyRun asked signatureRun callFree
      have empty := (congrArg PendingCalls.queues kept).trans nothingWaits
      obtain ⟨noneTaken, noneLeft⟩ := take_of_empty empty decl.name.text
      rw [noneTaken] at waitingRun
      cases waitingRun_of_runs waitingRun
      refine ⟨.bound free distinct shapeEq localsRun bodyRun asked signatureRun,
        ?_, noneLeft⟩
      rw [FunDecl.calls, List.append_eq_nil_iff, List.flatMap_eq_nil_iff]
      exact ⟨localsFree, bodyFree⟩

/-- An accepted function without calls is declared at its recorded type. -/
theorem QuietRun.sound
    {assign : Assignment}
    {scope : Scope}
    {decl decl' : FunDecl}
    {context context' : Context}
    {expected : Ty}
    {found : Substitution}
    {before after : State}
    (run : QuietRun decl context expected before decl' context' found after)
    (callFree : decl.calls = [])
    (clean : after.Clean)
    (solved : found.SolvedBy assign)
    (vars : context.VarsModel assign scope)
    (funs : context'.FunsModel assign scope) :
    ∃ signature named inner,
      FunDeclTyped .annotated scope (decl'.mapTypes (Ty.instantiate assign))
        signature named inner := by
  cases run with
  | @bound shape _ _ _ found more shaped written _ _ _ compared
      _ distinct shapeEq localsRun bodyRun asked signatureRun =>
      rw [FunDecl.calls, List.append_eq_nil_iff,
        List.flatMap_eq_nil_iff] at callFree
      obtain ⟨shapedSolved, writtenSolved⟩ :=
        Substitution.solvedBy_append.mp solved
      obtain ⟨bothSolved, _⟩ := Substitution.solvedBy_append.mp shapedSolved
      obtain ⟨localsSolved, bodySolved⟩ :=
        Substitution.solvedBy_append.mp bothSolved
      have askedClean := (signatureFindings_declares signatureRun).clean clean
      have bodyClean := (unifyOrReport_grows asked).clean askedClean
      have localsClean := (inferBlock_grows bodyRun).clean bodyClean
      -- The names of the function are given the types of their variables.
      obtain ⟨named, agree⟩ :
          ∃ named, compared.NamesAgree assign named :=
        ⟨fun name => (compared.names.get? name).elim .int assign,
          fun name id known => by simp only [known, Option.elim_some]⟩
      have askedAgree :=
        agree.of_declares (signatureFindings_declares signatureRun)
      have localsAgree :=
        askedAgree.of_declares
          ((inferBlock_grows bodyRun).trans
            (unifyOrReport_grows asked)).declares
      have innerVars := vars.bindArgs decl.args shape.params
      obtain ⟨inner, localsTyped, bodyVars⟩ :=
        inferLocals_sound localsRun callFree.1 localsClean localsSolved
          innerVars localsAgree
      have known :=
        funs decl.name.text (shape.narrow (found ++ more ++ shaped ++ written))
          (by simp [Context.narrow, Context.bindFun, Table.get?_map,
            Table.get?_insert])
      rw [Signature.instantiate_narrow solved] at known
      refine ⟨shape.instantiate assign, named, inner, ?_⟩
      exact
        { known := known
          distinct := (firstRepeated?_eq_none.mp distinct).1
          sameLength := by
            simp [FunDecl.mapTypes, Signature.instantiate, shapeEq, freshShape,
              drawnTys_length]
          localsTyped := localsTyped
          bodyTyped :=
            inferBlock_sound bodyRun callFree.2 bodyClean bodySolved bodyVars
              (localsSolved.instantiate_apply _)
          written :=
            signatureFindings_sound signatureRun clean writtenSolved agree
              (by rw [shapedSolved.instantiate_apply,
                Signature.toTy_instantiate])
          recorded := by
            refine Rules.annotated_withTy _ ?_
            rw [Signature.toTy_instantiate,
              Signature.instantiate_narrow solved] }

/-- The findings of a function without calls keep to live variables. -/
theorem QuietRun.keepsTo
    {live : TypeVar → Prop}
    {decl decl' : FunDecl}
    {context context' : Context}
    {expected : Ty}
    {found : Substitution}
    {before after : State}
    (run : QuietRun decl context expected before decl' context' found after)
    (unnamed : ∀ item ∈ decl.locals, ∀ ty ∈ item.written, ty.names = [])
    (scene : Scene live before context)
    (expectedWithin : expected.Within (Below live before.nextVar)) :
    found.KeepsTo live after.nextVar ∧ Scene live after context' := by
  cases run with
  | bound _ _ shapeEq localsRun bodyRun asked signatureRun =>
      subst shapeEq
      obtain ⟨keeps, narrowed⟩ :=
        (ComparedRun.intro localsRun bodyRun asked signatureRun).keepsTo unnamed
          scene expectedWithin
      have outer := narrowed.widen fun _ isLeft => isLeft.1
      exact ⟨keeps, outer.supply, outer.context⟩

/-- Functions without calls leave a settled state and a live context. -/
theorem inferFunctions_settledScene
    {decls decls' : List Decl}
    {context context' : Context}
    {before after : State}
    (run : Runs (inferFunctions decls context) before (decls', context') after)
    (callFree : ∀ decl ∈ decls, decl.calls = [])
    (unnamed : ∀ decl, .fn decl ∈ decls → decl.LocalsUnnamed)
    (clean : after.Clean)
    (nothingWaits : before.pending.queues = [])
    (settledScene : SettledScene before context) :
    SettledScene after context' := by
  induction decls generalizing decls' context before with
  | nil =>
      cases functionsRun_of_runs run
      exact settledScene
  | cons decl rest inductionHypothesis =>
      obtain ⟨declFree, restFree⟩ := List.forall_mem_cons.mp callFree
      have restUnnamed (decl : FunDecl) (member : .fn decl ∈ rest) :=
        unnamed decl (List.mem_cons_of_mem _ member)
      cases functionsRun_of_runs run with
      | var restRun =>
          exact inductionHypothesis restRun restFree restUnnamed nothingWaits
            settledScene
      | fn declRun restRun =>
          have drawn : before.Grows (before.draw 1) := .draw _ _
          have declClean := (inferFunctions_settles restRun).clean clean
          obtain ⟨quiet, _, noneLeft⟩ :=
            quietRun_of_runs declRun declFree nothingWaits declClean
          obtain ⟨foundKeeps, betweenScene⟩ :=
            quiet.keepsTo (unnamed _ List.mem_cons_self)
              (settledScene.scene.grow drawn)
              (settledScene.scene.within_next 0)
          exact inductionHypothesis restRun restFree restUnnamed noneLeft
            (settledScene.finish
              (drawn.declares.advances.trans (inferFunDecl_advances declRun))
              foundKeeps betweenScene)

/-- Globals without calls set none aside. -/
theorem inferGlobals_callFree
    {decls decls' : List Decl}
    {context context' : Context}
    {before after : State}
    (run : Runs (inferGlobals decls context) before (decls', context') after)
    (callFree : ∀ decl ∈ decls, decl.calls = []) :
    (∀ decl ∈ decls', decl.calls = []) ∧ after.pending = before.pending ∧
      ∀ decl, .fn decl ∈ decls' → .fn decl ∈ decls := by
  induction decls generalizing decls' context before with
  | nil =>
      cases globalsRun_of_runs run
      exact ⟨by simp, rfl, by simp⟩
  | cons decl rest inductionHypothesis =>
      obtain ⟨declFree, restFree⟩ := List.forall_mem_cons.mp callFree
      cases globalsRun_of_runs run with
      | var declRun restRun =>
          obtain ⟨declFree, declKept⟩ := inferVarDecl_callFree declRun declFree
          obtain ⟨restFree, restKept, sameFns⟩ :=
            inductionHypothesis restRun restFree
          refine ⟨List.forall_mem_cons.mpr ⟨declFree, restFree⟩,
            restKept.trans declKept, fun decl member => ?_⟩
          simp only [List.mem_cons, reduceCtorEq, false_or] at member ⊢
          exact sameFns decl member
      | fn restRun =>
          obtain ⟨restFree, restKept, sameFns⟩ :=
            inductionHypothesis restRun restFree
          refine ⟨List.forall_mem_cons.mpr ⟨declFree, restFree⟩, restKept,
            fun decl member => ?_⟩
          rw [List.mem_cons] at member ⊢
          exact member.imp_right (sameFns decl)

/-- Global variables without calls are declared one after the other. -/
theorem inferGlobals_sound
    {assign : Assignment}
    {scope : Scope}
    {decls decls' : List Decl}
    {context context' : Context}
    {before after : State}
    (run : Runs (inferGlobals decls context) before (decls', context') after)
    (callFree : ∀ decl ∈ decls, decl.calls = [])
    (clean : after.Clean)
    (solved : after.settled.SolvedBy assign)
    (vars : context.VarsModel assign scope) :
    ∃ outer,
      GlobalsTyped .annotated scope
          ((decls'.filterMap Decl.var?).map
            (VarDecl.mapTypes (Ty.instantiate assign)))
          outer ∧
        context'.VarsModel assign outer ∧ outer.funs = scope.funs := by
  induction decls generalizing decls' context before scope with
  | nil =>
      cases globalsRun_of_runs run
      exact ⟨scope, .nil, vars, rfl⟩
  | cons decl rest inductionHypothesis =>
      obtain ⟨declFree, restFree⟩ := List.forall_mem_cons.mp callFree
      cases globalsRun_of_runs run with
      | fn restRun =>
          obtain ⟨outer, restTyped, rest⟩ :=
            inductionHypothesis restRun restFree vars
          exact ⟨outer, restTyped, rest⟩
      | @var _ _ _ _ _ _ found middle _ declRun restRun =>
          have restSettles := inferGlobals_settles restRun
          have foundSolved : found.SolvedBy assign := fun binding member =>
            solved binding
              (restSettles.settled.subset (List.mem_append_right _ member))
          -- The names of the declaration are given the types of their
          -- variables.
          obtain ⟨named, agree⟩ : ∃ named, middle.NamesAgree assign named :=
            ⟨fun name => (middle.names.get? name).elim .int assign,
              fun name id known => by simp only [known, Option.elim_some]⟩
          obtain ⟨ty, declTyped, betweenVars⟩ :=
            inferVarDecl_sound declRun declFree (restSettles.clean clean)
              foundSolved vars agree
          obtain ⟨outer, restTyped, outerVars, outerFuns⟩ :=
            inductionHypothesis restRun restFree
              (betweenVars.narrow foundSolved)
          exact ⟨outer, .cons declTyped restTyped, outerVars, outerFuns⟩

namespace Context.FunsModel

variable {assign : Assignment} {context : Context} {scope : Scope}

/-- Functions mean what they did before solved findings. -/
theorem of_narrow
    {found : Substitution}
    (funs : (context.narrow found).FunsModel assign scope)
    (solved : found.SolvedBy assign) :
    context.FunsModel assign scope := by
  intro name signature known
  have narrowed := funs name (signature.narrow found)
    (by rw [Context.narrow, Table.get?_map, known]; rfl)
  rwa [Signature.instantiate_narrow solved] at narrowed

/-- Functions mean what they did before another one was bound. -/
theorem of_bindFun
    {name : String}
    {signature : Signature}
    (funs : (context.bindFun name signature).FunsModel assign scope)
    (free : context.funs.contains name = false) :
    context.FunsModel assign scope := by
  intro other otherSignature known
  refine funs other otherSignature ?_
  have differ : other ≠ name := by
    rintro rfl
    rw [Table.contains, known] at free
    cases free
  rw [Context.bindFun, Table.get?_insert, if_neg differ]
  exact known

end Context.FunsModel

/-- Functions without calls are declared at the signatures of the last context. -/
theorem inferFunctions_sound
    {assign : Assignment}
    {scope : Scope}
    {decls decls' : List Decl}
    {context context' : Context}
    {before after : State}
    (run : Runs (inferFunctions decls context) before (decls', context') after)
    (callFree : ∀ decl ∈ decls, decl.calls = [])
    (clean : after.Clean)
    (nothingWaits : before.pending.queues = [])
    (solved : after.settled.SolvedBy assign)
    (vars : context.VarsModel assign scope)
    (funs : context'.FunsModel assign scope) :
    context.FunsModel assign scope ∧ context'.VarsModel assign scope ∧
      (∀ decl ∈ decls', decl.calls = []) ∧
      decls'.filterMap Decl.var? = decls.filterMap Decl.var? ∧
      ∀ decl ∈ decls'.filterMap Decl.fn?,
        ∃ signature named inner,
          FunDeclTyped .annotated scope (decl.mapTypes (Ty.instantiate assign))
            signature named inner := by
  induction decls generalizing decls' context before with
  | nil =>
      cases functionsRun_of_runs run
      exact ⟨funs, vars, by simp, rfl, by simp⟩
  | cons decl rest inductionHypothesis =>
      obtain ⟨declFree, restFree⟩ := List.forall_mem_cons.mp callFree
      cases functionsRun_of_runs run with
      | @var decl _ _ _ _ restRun =>
          obtain ⟨restFuns, restVars, restCalls, sameVars, restTyped⟩ :=
            inductionHypothesis restRun restFree nothingWaits vars
          exact ⟨restFuns, restVars,
            List.forall_mem_cons.mpr ⟨declFree, restCalls⟩,
            congrArg (decl :: ·) sameVars, restTyped⟩
      | @fn decl decl' _ _ between _ found middle _ declRun restRun =>
          have restSettles := inferFunctions_settles restRun
          have declClean := restSettles.clean clean
          have foundSolved : found.SolvedBy assign := fun binding member =>
            solved binding
              (restSettles.settled.subset (List.mem_append_right _ member))
          obtain ⟨quiet, declCalls, noneLeft⟩ :=
            quietRun_of_runs declRun declFree nothingWaits declClean
          have betweenVars : between.VarsModel assign scope := by
            cases quiet with
            | @bound shape =>
                have bound :
                    (context.bindFun decl.name.text shape).VarsModel assign
                      scope :=
                  vars
                exact bound.narrow foundSolved
          obtain ⟨restFuns, restVars, restCalls, sameVars, restTyped⟩ :=
            inductionHypothesis restRun restFree noneLeft
              (betweenVars.narrow foundSolved)
          have betweenFuns := restFuns.of_narrow foundSolved
          have declTyped :=
            quiet.sound declFree declClean foundSolved vars betweenFuns
          have contextFuns : context.FunsModel assign scope := by
            cases quiet with
            | bound free =>
                exact (betweenFuns.of_narrow foundSolved).of_bindFun free
          exact ⟨contextFuns, restVars,
            List.forall_mem_cons.mpr ⟨declCalls, restCalls⟩, sameVars,
            List.forall_mem_cons.mpr ⟨declTyped, restTyped⟩⟩

/-- The instances of a context under an assignment that changes none of its types. -/
theorem Context.scope_model
    {assign : Assignment}
    {live : TypeVar → Prop}
    {context : Context}
    (within : context.Within live)
    (keeps : ∀ ty : Ty, ty.Within live → ty.instantiate assign = ty) :
    context.VarsModel assign context.scope ∧
      context.FunsModel assign context.scope := by
  constructor
  · intro name
    cases known : context.vars.get? name with
    | none => exact known
    | some ty =>
        rw [Option.map_some, keeps ty (within.vars name ty known)]
        exact known
  · intro name signature known
    obtain ⟨paramsWithin, resultWithin⟩ := within.funs name signature known
    have same : signature.instantiate assign = signature := by
      obtain ⟨params, result⟩ := signature
      have sameParams : params.map (Ty.instantiate assign) = params.map id :=
        List.map_congr_left fun param member =>
          keeps param (paramsWithin param member)
      rw [Signature.instantiate, sameParams, List.map_id,
        keeps result resultWithin]
    rw [same]
    exact known

namespace Program

variable (program : Program) (change : Ty → Ty)

theorem globals_mapTypes :
    (program.mapTypes change).globals =
      program.globals.map (VarDecl.mapTypes change) := by
  simp only [globals, mapTypes, List.filterMap_map, List.map_filterMap]
  congr 1
  funext decl
  cases decl <;> rfl

theorem functions_mapTypes :
    (program.mapTypes change).functions =
      program.functions.map (FunDecl.mapTypes change) := by
  simp only [functions, mapTypes, List.filterMap_map, List.map_filterMap]
  congr 1
  funext decl
  cases decl <;> rfl

end Program

/-- A tree without calls is written back by narrowing its slots. -/
theorem Inferred.writeBack_of_callFree
    {inferred : Inferred}
    (callFree : inferred.program.calls = []) :
    inferred.writeBack.1 = inferred.program.mapTypes inferred.found.apply := by
  have settled :=
    Program.settle_of_callFree callFree inferred.state.resolved
  simp only [writeBack, Program.writeBack, StateT.run_bind, settled]
  rfl

/--
If a program without calls, whose local variables are declared without naming
type variables, is accepted, then the annotated tree is well typed, with the
globals at the types of the returned context. It is the program up to slots.
-/
theorem typeCheck_wellTyped
    {program annotated : Program}
    {source : String}
    {config : ReportConfig}
    {checked : Checked}
    (callFree : program.calls = [])
    (unnamed : ∀ decl ∈ program.functions, decl.LocalsUnnamed)
    (accepted : typeCheck program source config = (annotated, .ok checked)) :
    ProgramTyped .annotated checked.context.scope annotated ∧
      annotated.erased .slots = program.erased .slots := by
  have unstamped : ∀ call ∈ program.calls, call.waiting = none := by
    rw [callFree]
    exact List.forall_mem_nil _
  have isErased := typeCheck_tree_erased unstamped source config
  rw [accepted] at isErased
  refine ⟨?_, isErased⟩
  obtain ⟨isAccepted, rfl, contextEq⟩ := typeCheck_ok accepted
  obtain ⟨globals, context, middle, last, globalsRun, functionsRun, foundEq,
    reportRun⟩ := program.infer_runs
  have lastClean := ((runs_reportWaiting reportRun).2.mp isAccepted).1
  have functionsSettle := inferFunctions_settles functionsRun
  rw [Program.calls, List.flatMap_eq_nil_iff] at callFree
  obtain ⟨globalsFree, kept, sameFns⟩ :=
    inferGlobals_callFree globalsRun callFree
  have nothingWaits : middle.pending.queues = [] := by
    rw [kept]
    rfl
  have globalsUnnamed (decl : FunDecl) (member : .fn decl ∈ globals) :=
    unnamed decl
      (List.mem_filterMap.mpr ⟨.fn decl, sameFns decl member, rfl⟩)
  -- All findings together are settled, so they describe a solution of
  -- themselves; the last context mentions no variable that they bind.
  have settledScene :=
    inferFunctions_settledScene functionsRun globalsFree globalsUnnamed
      lastClean nothingWaits
      (inferGlobals_settledScene globalsRun .initial)
  have solved := settledScene.keeps.settled.solvedBy_image
  obtain ⟨scopeVars, scopeFuns⟩ :=
    Context.scope_model settledScene.scene.context
      fun ty within => Substitution.apply_of_unbound
        (within.mono fun _ isBelow => isBelow.1.2)
  have emptyVars :
      Context.empty.VarsModel last.settled.image
        ⟨fun _ => none, program.infer.context.scope.funs⟩ :=
    fun _ => rfl
  obtain ⟨outer, globalsTyped, outerVars, outerFuns⟩ :=
    inferGlobals_sound globalsRun callFree (functionsSettle.clean lastClean)
      (fun binding member =>
        solved binding (functionsSettle.settled.subset member))
      emptyVars
  obtain ⟨_, lastVars, lastFree, sameVars, functionsTyped⟩ :=
    inferFunctions_sound functionsRun globalsFree lastClean nothingWaits solved
      outerVars
      fun name signature known =>
        (congrFun outerFuns name).trans (scopeFuns name signature known)
  have sameScope : outer = program.infer.context.scope := by
    have sameOuter : outer.vars = program.infer.context.scope.vars :=
      funext fun name => (lastVars name).trans (scopeVars name).symm
    cases outer
    cases sameOuter
    cases outerFuns
    rfl
  subst sameScope
  have treeFree : program.infer.program.calls = [] := by
    rw [Program.calls, List.flatMap_eq_nil_iff]
    exact lastFree
  obtain ⟨distinct, _, contains⟩ :=
    inferFunctions_contains functionsRun lastClean
  rw [contextEq, Inferred.writeBack_of_callFree treeFree, foundEq]
  refine ⟨?_, ?_, ?_, ?_⟩
  · rw [Program.globals_mapTypes, Program.globals, sameVars]
    exact globalsTyped
  · rw [Program.functions_mapTypes]
    intro decl member
    obtain ⟨source, isSource, rfl⟩ := List.mem_map.mp member
    exact functionsTyped source isSource
  · rw [Program.functions_mapTypes, List.map_map]
    exact distinct
  · intro name signature bound
    have isBound : program.infer.context.funs.contains name = true :=
      Option.isSome_iff_exists.mpr ⟨signature, bound⟩
    rcases contains name isBound with inGlobals | ⟨decl, member, same⟩
    · rw [inferGlobals_contains globalsRun] at inGlobals
      cases inGlobals
    · refine ⟨decl.mapTypes last.settled.apply, ?_, same⟩
      rw [Program.functions_mapTypes]
      exact List.mem_map_of_mem member

/--
A program with a generic signature and a generic global: `swap` exchanges the
components of a pair, and `count` adds up the numbers to a bound and collects
them in `seen`, which is declared after `swap`.
-/
def countingProgram : Program where
  decls :=
    [.fn
        { name := .ofText "swap"
          args := [.ofText "p"]
          written :=
            some
              { params := [.pair (.named "a") (.named "b")]
                result := .pair (.named "b") (.named "a")
                span := .unknown }
          locals :=
            [{ written := none
               name := .ofText "q"
               value :=
                .pair (.read (.ofFields "p" [.snd]))
                  (.read (.ofFields "p" [.fst])) .blank
               mark := .blank }]
          body := [.ret (some (.ofText "q")) .unknown]
          mark := .blank },
      .var
        { written := some (.list (.named "a"))
          name := .ofText "seen"
          value := .nil .blank
          mark := .blank },
      .fn
        { name := .ofText "count"
          args := [.ofText "n"]
          written := none
          locals :=
            [{ written := some .int
               name := .ofText "sum"
               value := .int 0 .blank
               mark := .blank }]
          body :=
            [.forIn (.ofText "i")
                (.range (.int 1 .blank) (.ofText "n") .blank)
                [.assign (.ofFields "sum" [])
                    (.binary .add (.ofText "sum") (.ofText "i") .blank)
                    .unknown,
                  .assign (.ofFields "seen" [])
                    (.binary .cons (.ofText "i") (.ofText "seen") .blank)
                    .unknown]
                .unknown,
              .ret none .unknown]
          mark := .blank }]

theorem countingProgram_wellTyped :
    ∃ annotated checked,
      countingProgram.calls = [] ∧
        (∀ decl ∈ countingProgram.functions, decl.LocalsUnnamed) ∧
        typeCheck countingProgram "" .plain = (annotated, .ok checked) ∧
        ProgramTyped .annotated checked.context.scope annotated ∧
        annotated.erased .slots = countingProgram.erased .slots := by
  have isAccepted : countingProgram.Accepted := by cbv
  obtain ⟨annotated, checked, accepted⟩ :=
    isAccepted.exists_annotated "" .plain
  have unnamed : ∀ decl ∈ countingProgram.functions, decl.LocalsUnnamed := by
    simp [countingProgram, Program.functions, Decl.fn?, FunDecl.LocalsUnnamed,
      WrittenTy.names]
  exact ⟨_, checked, rfl, unnamed, accepted,
    typeCheck_wellTyped rfl unnamed accepted⟩

end SplTyping
