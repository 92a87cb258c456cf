import SplTyping.Program.Slots
import SplTyping.Proofs.Models

namespace SplTyping

/-!
# Inferred trees are well typed

Take any assignment that solves what inference has found. If no error was
recorded, the tree with its slots filled in by that assignment is well typed.
Nothing has to be known about how the findings were made: an equation that was
asked for holds under every solution, and narrowing is invisible to it.
-/

/-- What is asked of a tree with types in its slots. -/
def Rules.annotated : Rules where
  recorded := fun mark ty => mark.ty = some ty
  bound := fun _ ty => ty = .int ∨ ty = .char
  value := fun _ => True

/-- A slot that was just written shows its type. -/
theorem Rules.annotated_withTy
    {assign : Assignment}
    {ty shown : Ty}
    (mark : Mark)
    (same : ty.instantiate assign = shown) :
    Rules.annotated.recorded
      ((mark.withTy ty).mapTypes (Ty.instantiate assign)) shown :=
  congrArg some same

/-- The bounds of a range have the type of its first bound. -/
theorem BoundRun.sound
    {assign : Assignment}
    {found extended : Substitution}
    {first bound : Ty}
    {before after : State}
    (run : BoundRun found before first bound extended after)
    (clean : after.Clean)
    (solved : extended.SolvedBy assign) :
    found.SolvedBy assign ∧ first.instantiate assign = bound ∧
      bound.instantiate assign = bound ∧ (bound = .int ∨ bound = .char) := by
  cases run with
  | int => exact ⟨solved, rfl, rfl, Or.inl rfl⟩
  | char => exact ⟨solved, rfl, rfl, Or.inr rfl⟩
  | unknown =>
      obtain ⟨foundSolved, pushed⟩ := Substitution.solvedBy_append.mp solved
      have isInt := pushed _ List.mem_cons_self
      exact ⟨foundSolved, isInt, rfl, Or.inl rfl⟩
  | other => exact absurd clean (State.not_clean_record _ _)

section Expressions

variable {assign : Assignment} {scope : Scope}

mutual

/--
If no error is recorded, an expression has the expected type under each solution
of the findings.
-/
theorem inferExpr_sound
    {expr expr' : Expr}
    {context : Context}
    {expected : Ty}
    {demand : Demand}
    {guard : Option ValueGuard}
    {found : Substitution}
    {before after : State}
    (run :
      Runs (inferExpr expr context expected demand guard) before (expr', found)
        after)
    (callFree : expr.calls = [])
    (clean : after.Clean)
    (solved : found.SolvedBy assign)
    (vars : context.VarsModel assign scope) :
    HasType .annotated scope (expr'.mapTypes (Ty.instantiate assign))
      (expected.instantiate assign) := by
  cases exprRun_of_runs run with
  | int asked =>
      rw [instantiate_eq_of_unifyOrReport asked clean solved, Expr.mapTypes]
      exact .int rfl
  | bool asked =>
      rw [instantiate_eq_of_unifyOrReport asked clean solved, Expr.mapTypes]
      exact .bool rfl
  | char asked =>
      rw [instantiate_eq_of_unifyOrReport asked clean solved, Expr.mapTypes]
      exact .char rfl
  | read placeRun =>
      rw [Expr.calls] at callFree
      rw [Expr.mapTypes]
      exact .read (inferPlace_sound placeRun callFree clean solved vars)
  | pairVoid | binaryLeftVoid | binaryRightVoid =>
      exact absurd clean (State.not_clean_record _ _)
  | pair firstRun secondRun _ _ asked =>
      rw [Expr.calls, List.append_eq_nil_iff] at callFree
      obtain ⟨firstFree, secondFree⟩ := callFree
      have secondClean := (unifyOrReport_grows asked).clean clean
      have firstClean := (inferExpr_grows secondRun).clean secondClean
      obtain ⟨bothSolved, finalSolved⟩ :=
        Substitution.solvedBy_append.mp solved
      obtain ⟨firstSolved, secondSolved⟩ :=
        Substitution.solvedBy_append.mp bothSolved
      have same := instantiate_eq_of_unifyOrReport asked clean finalSolved
      have firstHas :=
        inferExpr_sound firstRun firstFree firstClean firstSolved vars
      have secondHas :=
        inferExpr_sound secondRun secondFree secondClean secondSolved
          (vars.narrow firstSolved)
      simp only [bothSolved.instantiate_apply, Ty.instantiate] at same
      rw [same, Expr.mapTypes]
      refine .pair firstHas secondHas trivial trivial
        (Rules.annotated_withTy _ ?_)
      simp only [solved.instantiate_apply, Ty.instantiate,
        bothSolved.instantiate_apply]
  | nil asked =>
      have same := instantiate_eq_of_unifyOrReport asked clean solved
      rw [same, Expr.mapTypes]
      exact .nil (Rules.annotated_withTy _ (solved.instantiate_apply _))
  | range firstRun boundRun lastRun asked =>
      rw [Expr.calls, List.append_eq_nil_iff] at callFree
      obtain ⟨firstFree, lastFree⟩ := callFree
      have lastClean := (unifyOrReport_grows asked).clean clean
      have boundClean := (inferExpr_grows lastRun).clean lastClean
      have firstClean := boundRun.grows.clean boundClean
      obtain ⟨bothSolved, finalSolved⟩ :=
        Substitution.solvedBy_append.mp solved
      obtain ⟨boundSolved, lastSolved⟩ :=
        Substitution.solvedBy_append.mp bothSolved
      obtain ⟨firstSolved, firstIs, closed, isBound⟩ :=
        boundRun.sound boundClean boundSolved
      have same := instantiate_eq_of_unifyOrReport asked clean finalSolved
      rw [firstSolved.instantiate_apply] at firstIs
      have firstHas :=
        inferExpr_sound firstRun firstFree firstClean firstSolved vars
      have lastHas :=
        inferExpr_sound lastRun lastFree lastClean lastSolved
          (vars.narrow boundSolved)
      simp only [bothSolved.instantiate_apply, Ty.instantiate, closed] at same
      rw [firstIs] at firstHas
      rw [closed] at lastHas
      rw [same, Expr.mapTypes]
      refine .range isBound firstHas lastHas (Rules.annotated_withTy _ ?_)
      rw [Ty.instantiate, closed]
  | binary operatorRun leftRun _ rightRun _ asked =>
      rw [Expr.calls, List.append_eq_nil_iff] at callFree
      obtain ⟨leftFree, rightFree⟩ := callFree
      have rightClean := (unifyOrReport_grows asked).clean clean
      have leftClean := (inferExpr_grows rightRun).clean rightClean
      obtain ⟨bothSolved, finalSolved⟩ :=
        Substitution.solvedBy_append.mp solved
      obtain ⟨leftSolved, rightSolved⟩ :=
        Substitution.solvedBy_append.mp bothSolved
      have same := instantiate_eq_of_unifyOrReport asked clean finalSolved
      have leftHas :=
        inferExpr_sound leftRun leftFree leftClean leftSolved vars
      have rightHas :=
        inferExpr_sound rightRun rightFree rightClean rightSolved
          (vars.narrow leftSolved)
      simp only [bothSolved.instantiate_apply] at same
      rw [leftSolved.instantiate_apply] at rightHas
      rw [same, Expr.mapTypes]
      refine .binary (operatorRun.hasTypes assign) leftHas rightHas trivial
        trivial (Rules.annotated_withTy _ ?_)
      rw [solved.instantiate_apply, bothSolved.instantiate_apply]
  | @unary op _ _ _ _ _ _ _ operandRun asked =>
      rw [Expr.calls] at callFree
      have operandClean := (unifyOrReport_grows asked).clean clean
      obtain ⟨operandSolved, finalSolved⟩ :=
        Substitution.solvedBy_append.mp solved
      have same := instantiate_eq_of_unifyOrReport asked clean finalSolved
      have operandHas :=
        inferExpr_sound operandRun callFree operandClean operandSolved vars
      rw [operandSolved.instantiate_apply, op.ty_instantiate] at same
      rw [op.ty_instantiate] at operandHas
      rw [same, Expr.mapTypes]
      exact .unary operandHas
        (Rules.annotated_withTy _ (op.ty_instantiate assign))
  | @call made =>
      obtain ⟨callee, args, mark, waiting⟩ := made
      rw [Expr.calls, Call.calls] at callFree
      cases callFree
termination_by structural expr

/-- If no error is recorded, a place has the expected type. -/
theorem inferPlace_sound
    {place place' : Place}
    {context : Context}
    {expected : Ty}
    {demand : Demand}
    {found : Substitution}
    {before after : State}
    (run :
      Runs (inferPlace place context expected demand) before (place', found)
        after)
    (callFree : place.calls = [])
    (clean : after.Clean)
    (solved : found.SolvedBy assign)
    (vars : context.VarsModel assign scope) :
    PlaceHasType .annotated scope (place'.mapTypes (Ty.instantiate assign))
      (expected.instantiate assign) := by
  cases placeRun_of_runs run with
  | unknown => exact absurd clean (State.not_clean_record _ _)
  | @known name _ _ _ base current _ _ _ _ bound fieldsRun asked =>
      rw [Place.calls] at callFree
      obtain ⟨fieldsSolved, finalSolved⟩ :=
        Substitution.solvedBy_append.mp solved
      have fieldsClean := (unifyOrReport_grows asked).clean clean
      have same := instantiate_eq_of_unifyOrReport asked clean finalSolved
      obtain ⟨_, selects⟩ :=
        inferFields_sound fieldsRun callFree fieldsClean fieldsSolved vars
      have inScope : scope.vars name.text = some (base.instantiate assign) := by
        rw [vars name.text, bound]
        rfl
      rw [fieldsSolved.instantiate_apply] at same
      rw [same, Place.mapTypes]
      exact .select inScope selects
        (Rules.annotated_withTy _ (solved.instantiate_apply _))
termination_by structural place

/-- If no error is recorded, fields select the type that was found. -/
theorem inferFields_sound
    {fields fields' : List Field}
    {name : String}
    {span : Span}
    {context : Context}
    {current selected : Ty}
    {found extended : Substitution}
    {before after : State}
    (run :
      Runs (inferFields fields name span context current found) before
        (fields', selected, extended) after)
    (callFree : Field.callsAll fields = [])
    (clean : after.Clean)
    (solved : extended.SolvedBy assign)
    (vars : context.VarsModel assign scope) :
    found.SolvedBy assign ∧
      FieldsSelect .annotated scope
        (Field.mapTypesAll (Ty.instantiate assign) fields')
        (current.instantiate assign) (selected.instantiate assign) := by
  cases fields with
  | nil =>
      obtain ⟨rfl, rfl, rfl, rfl⟩ := runs_inferFields_nil run
      exact ⟨solved, .nil⟩
  | cons field rest =>
      rw [Field.callsAll, List.append_eq_nil_iff] at callFree
      obtain ⟨fieldFree, restFree⟩ := callFree
      obtain ⟨_, _, _, _, _, fieldRun, restRun, rfl⟩ :=
        runs_inferFields_cons run
      obtain ⟨passedSolved, restSelects⟩ :=
        inferFields_sound restRun restFree clean solved vars
      have fieldClean := (inferFields_grows restRun).clean clean
      obtain ⟨foundSolved, selects⟩ :=
        inferField_sound fieldRun fieldFree fieldClean passedSolved vars
      rw [Field.mapTypesAll]
      exact ⟨foundSolved, .cons selects restSelects⟩
termination_by structural fields

/-- If no error is recorded, a field selects the type that was found. -/
theorem inferField_sound
    {field field' : Field}
    {name : String}
    {span : Span}
    {context : Context}
    {current selected : Ty}
    {found extended : Substitution}
    {before after : State}
    (run :
      Runs (inferField field name span context current found) before
        (field', selected, extended) after)
    (callFree : field.calls = [])
    (clean : after.Clean)
    (solved : extended.SolvedBy assign)
    (vars : context.VarsModel assign scope) :
    found.SolvedBy assign ∧
      FieldSelects .annotated scope
        (field'.mapTypes (Ty.instantiate assign))
        (current.instantiate assign) (selected.instantiate assign) := by
  cases fieldRun_of_runs run with
  | hd asked | tl asked | fst asked | snd asked =>
      obtain ⟨foundSolved, moreSolved⟩ := Substitution.solvedBy_append.mp solved
      have same := instantiate_eq_of_unifyOrReport asked clean moreSolved
      rw [← same, solved.instantiate_apply, Field.mapTypes]
      refine ⟨foundSolved, ?_⟩
      constructor
  | index asked positionRun =>
      rw [Field.calls] at callFree
      obtain ⟨bothSolved, positionSolved⟩ :=
        Substitution.solvedBy_append.mp solved
      obtain ⟨foundSolved, moreSolved⟩ :=
        Substitution.solvedBy_append.mp bothSolved
      have askedClean := (inferExpr_grows positionRun).clean clean
      have same := instantiate_eq_of_unifyOrReport asked askedClean moreSolved
      have positionHas :=
        inferExpr_sound positionRun callFree clean positionSolved
          (vars.narrow bothSolved)
      rw [← same, solved.instantiate_apply, Field.mapTypes]
      exact ⟨foundSolved, .index positionHas⟩
termination_by structural field

end

end Expressions

section Statements

variable {assign : Assignment} {result : Ty}

mutual

/-- If no error is recorded, a statement is well typed. -/
theorem inferStmt_sound
    {scope : Scope}
    {stmt stmt' : Stmt}
    {context : Context}
    {expected : Ty}
    {found : Substitution}
    {before after : State}
    (run : Runs (inferStmt stmt context expected) before (stmt', found) after)
    (callFree : stmt.calls = [])
    (clean : after.Clean)
    (solved : found.SolvedBy assign)
    (vars : context.VarsModel assign scope)
    (isResult : expected.instantiate assign = result) :
    StmtTyped .annotated result scope
      (stmt'.mapTypes (Ty.instantiate assign)) := by
  cases stmtRun_of_runs run with
  | ifElse thenRun elseRun conditionRun =>
      simp only [Stmt.calls, List.append_eq_nil_iff] at callFree
      obtain ⟨⟨conditionFree, thenFree⟩, elseFree⟩ := callFree
      obtain ⟨bothSolved, conditionSolved⟩ :=
        Substitution.solvedBy_append.mp solved
      obtain ⟨thenSolved, elseSolved⟩ :=
        Substitution.solvedBy_append.mp bothSolved
      have elseClean := (inferExpr_grows conditionRun).clean clean
      have thenClean := (inferBlock_grows elseRun).clean elseClean
      rw [Stmt.mapTypes]
      refine .ifElse ?_ ?_ ?_
      · exact inferExpr_sound conditionRun conditionFree clean conditionSolved
          (vars.narrow bothSolved)
      · exact inferBlock_sound thenRun thenFree thenClean thenSolved vars
          isResult
      · refine inferBlock_sound elseRun elseFree elseClean elseSolved
          (vars.narrow thenSolved) ?_
        rw [thenSolved.instantiate_apply, isResult]
  | whileDo bodyRun conditionRun =>
      rw [Stmt.calls, List.append_eq_nil_iff] at callFree
      obtain ⟨conditionFree, bodyFree⟩ := callFree
      obtain ⟨bodySolved, conditionSolved⟩ :=
        Substitution.solvedBy_append.mp solved
      have bodyClean := (inferExpr_grows conditionRun).clean clean
      rw [Stmt.mapTypes]
      refine .whileDo ?_ ?_
      · exact inferExpr_sound conditionRun conditionFree clean conditionSolved
          (vars.narrow bodySolved)
      · exact inferBlock_sound bodyRun bodyFree bodyClean bodySolved vars
          isResult
  | forTaken | assignVoid | returnVoid =>
      exact absurd clean (State.not_clean_record _ _)
  | @forIn element _ _ _ _ _ found _ _ _ iterableRun free bodyRun =>
      rw [Stmt.calls, List.append_eq_nil_iff] at callFree
      obtain ⟨iterableFree, bodyFree⟩ := callFree
      obtain ⟨iterableSolved, bodySolved⟩ :=
        Substitution.solvedBy_append.mp solved
      have iterableClean := (inferBlock_grows bodyRun).clean clean
      have inner := vars.narrow iterableSolved
      have iterableHas :=
        inferExpr_sound iterableRun iterableFree iterableClean iterableSolved
          vars
      rw [Stmt.mapTypes]
      refine .forIn ((inner.eq_none_iff _).mpr free) iterableHas ?_
      refine inferBlock_sound bodyRun bodyFree clean bodySolved ?_ ?_
      · have bound :=
          inner.bindVar element.text (found.apply (.var before.nextVar))
        rwa [iterableSolved.instantiate_apply] at bound
      · rw [iterableSolved.instantiate_apply, isResult]
  | assign valueRun targetRun _ _ asked =>
      rw [Stmt.calls, List.append_eq_nil_iff] at callFree
      obtain ⟨targetFree, valueFree⟩ := callFree
      obtain ⟨bothSolved, finalSolved⟩ :=
        Substitution.solvedBy_append.mp solved
      obtain ⟨valueSolved, targetSolved⟩ :=
        Substitution.solvedBy_append.mp bothSolved
      have targetClean := (unifyOrReport_grows asked).clean clean
      have valueClean := (inferPlace_grows targetRun).clean targetClean
      have same := instantiate_eq_of_unifyOrReport asked clean finalSolved
      rw [bothSolved.instantiate_apply, bothSolved.instantiate_apply] at same
      have targetHas :=
        inferPlace_sound targetRun targetFree targetClean targetSolved
          (vars.narrow valueSolved)
      have valueHas :=
        inferExpr_sound valueRun valueFree valueClean valueSolved vars
      rw [Stmt.mapTypes]
      rw [same] at targetHas
      exact .assign targetHas valueHas trivial
  | @call made =>
      obtain ⟨callee, args, mark, waiting⟩ := made
      rw [Stmt.calls, Call.calls] at callFree
      cases callFree
  | returnValue valueRun _ asked =>
      rw [Stmt.calls] at callFree
      obtain ⟨valueSolved, finalSolved⟩ :=
        Substitution.solvedBy_append.mp solved
      have valueClean := (unifyOrReport_grows asked).clean clean
      have same := instantiate_eq_of_unifyOrReport asked clean finalSolved
      rw [valueSolved.instantiate_apply, valueSolved.instantiate_apply,
        isResult] at same
      have valueHas :=
        inferExpr_sound valueRun callFree valueClean valueSolved vars
      rw [← same] at valueHas
      exact .returnValue valueHas trivial
  | returnNothing asked =>
      have same := instantiate_eq_of_unifyOrReport asked clean solved
      exact .returnNothing (isResult.symm.trans same)
termination_by structural stmt

/-- If no error is recorded, statements are well typed one after the other. -/
theorem inferBlock_sound
    {scope : Scope}
    {stmts stmts' : List Stmt}
    {context : Context}
    {expected : Ty}
    {found : Substitution}
    {before after : State}
    (run :
      Runs (inferBlock stmts context expected) before (stmts', found) after)
    (callFree : Stmt.callsAll stmts = [])
    (clean : after.Clean)
    (solved : found.SolvedBy assign)
    (vars : context.VarsModel assign scope)
    (isResult : expected.instantiate assign = result) :
    BlockTyped .annotated result scope
      (Stmt.mapTypesAll (Ty.instantiate assign) stmts') := by
  cases stmts with
  | nil =>
      obtain ⟨rfl, _, _⟩ := runs_inferBlock_nil run
      exact .nil
  | cons stmt rest =>
      rw [Stmt.callsAll, List.append_eq_nil_iff] at callFree
      obtain ⟨_, _, _, _, _, stmtRun, restRun, rfl, rfl⟩ :=
        runs_inferBlock_cons run
      obtain ⟨stmtSolved, restSolved⟩ := Substitution.solvedBy_append.mp solved
      have stmtClean := (inferBlock_grows restRun).clean clean
      rw [Stmt.mapTypesAll]
      refine .cons ?_ ?_
      · exact inferStmt_sound stmtRun callFree.1 stmtClean stmtSolved vars
          isResult
      · refine inferBlock_sound restRun callFree.2 clean restSolved
          (vars.narrow stmtSolved) ?_
        rw [stmtSolved.instantiate_apply, isResult]
termination_by structural stmts

end

end Statements

end SplTyping
