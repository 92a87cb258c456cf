import SplTyping.Proofs.Runs.Call

namespace SplTyping

/-!
# Runs over statements

The ways through a statement, and through a block as the run of its first
statement followed by that of the others.
-/

/-- How the inference of a statement runs. -/
inductive StmtRun
    (context : Context)
    (expected : Ty)
    (before : State) :
    Stmt → Stmt → Substitution → State → Prop where
  | ifElse
      {condition condition' : Expr}
      {thenBody thenBody' elseBody elseBody' : List Stmt}
      {span : Span}
      {found more last : Substitution}
      {middle joined after : State}
      (thenRun :
        Runs (inferBlock thenBody context expected) before (thenBody', found)
          middle)
      (elseRun :
        Runs
          (inferBlock elseBody (context.narrow found) (found.apply expected))
          middle (elseBody', more) joined)
      (conditionRun :
        Runs
          (inferExpr condition (context.narrow (found ++ more)) .bool
            .ifCondition none)
          joined (condition', last) after) :
      StmtRun context expected before
        (.ifElse condition thenBody elseBody span)
        (.ifElse condition' thenBody' elseBody' span)
        (found ++ more ++ last) after
  | whileDo
      {condition condition' : Expr}
      {body body' : List Stmt}
      {span : Span}
      {found last : Substitution}
      {middle after : State}
      (bodyRun :
        Runs (inferBlock body context expected) before (body', found) middle)
      (conditionRun :
        Runs
          (inferExpr condition (context.narrow found) .bool .whileCondition
            none)
          middle (condition', last) after) :
      StmtRun context expected before
        (.whileDo condition body span) (.whileDo condition' body' span)
        (found ++ last) after
  | forTaken
      {element : Name}
      {iterable iterable' : Expr}
      {body : List Stmt}
      {span : Span}
      {found : Substitution}
      {middle : State}
      {error : TypeError}
      (iterableRun :
        Runs
          (inferExpr iterable context (.list (.var before.nextVar)) .forIterable
            none)
          (before.draw 1) (iterable', found) middle)
      (taken : (context.narrow found).vars.contains element.text = true)
      (plain : error.types = []) :
      StmtRun context expected before
        (.forIn element iterable body span)
        (.forIn element iterable' body span)
        found (middle.record error)
  | forIn
      {element : Name}
      {iterable iterable' : Expr}
      {body body' : List Stmt}
      {span : Span}
      {found more : Substitution}
      {middle after : State}
      (iterableRun :
        Runs
          (inferExpr iterable context (.list (.var before.nextVar)) .forIterable
            none)
          (before.draw 1) (iterable', found) middle)
      (free : (context.narrow found).vars.contains element.text = false)
      (bodyRun :
        Runs
          (inferBlock body
            ((context.narrow found).bindVar element.text
              (found.apply (.var before.nextVar)))
            (found.apply expected))
          middle (body', more) after) :
      StmtRun context expected before
        (.forIn element iterable body span)
        (.forIn element iterable' body' span)
        (found ++ more) after
  | assignVoid
      {target target' : Place}
      {value value' : Expr}
      {span : Span}
      {found more : Substitution}
      {middle last : State}
      {error : TypeError}
      (valueRun :
        Runs
          (inferExpr value context (.var before.nextVar) .general
            (some ⟨.assignment target.name.text, span⟩))
          (before.draw 1) (value', found) middle)
      (targetRun :
        Runs
          (inferPlace target (context.narrow found) (.var middle.nextVar)
            (.assignment target.name.text))
          (middle.draw 1) (target', more) last)
      (isVoid :
        ((found ++ more).apply (.var before.nextVar)).contains .void = true ∨
          ((found ++ more).apply (.var middle.nextVar)).contains .void = true)
      (plain : error.types = []) :
      StmtRun context expected before
        (.assign target value span) (.assign target' value' span) []
        (last.record error)
  | assign
      {target target' : Place}
      {value value' : Expr}
      {span : Span}
      {found more final : Substitution}
      {middle last after : State}
      (valueRun :
        Runs
          (inferExpr value context (.var before.nextVar) .general
            (some ⟨.assignment target.name.text, span⟩))
          (before.draw 1) (value', found) middle)
      (targetRun :
        Runs
          (inferPlace target (context.narrow found) (.var middle.nextVar)
            (.assignment target.name.text))
          (middle.draw 1) (target', more) last)
      (valueValue :
        ((found ++ more).apply (.var before.nextVar)).contains .void = false)
      (targetValue :
        ((found ++ more).apply (.var middle.nextVar)).contains .void = false)
      (asked :
        Runs
          (constrain ((found ++ more).apply (.var middle.nextVar))
            ((found ++ more).apply (.var before.nextVar))
            (.assignment target.name.text) span)
          last final after) :
      StmtRun context expected before
        (.assign target value span) (.assign target' value' span)
        (found ++ more ++ final) after
  | call
      {made made' : Call}
      {found : Substitution}
      {after : State}
      (callRun :
        Runs
          (inferCall made context (.var before.nextVar)
            (.callResult made.callee.text) none)
          (before.draw 1) (made', found) after) :
      StmtRun context expected before (.call made) (.call made') found after
  | returnVoid
      {value value' : Expr}
      {span : Span}
      {found : Substitution}
      {middle : State}
      {error : TypeError}
      (valueRun :
        Runs
          (inferExpr value context (.var before.nextVar) .general
            (some ⟨.returned, span⟩))
          (before.draw 1) (value', found) middle)
      (isVoid : (found.apply (.var before.nextVar)).contains .void = true)
      (plain : error.types = []) :
      StmtRun context expected before
        (.ret (some value) span) (.ret (some value') span) []
        (middle.record error)
  | returnValue
      {value value' : Expr}
      {span : Span}
      {found final : Substitution}
      {middle after : State}
      (valueRun :
        Runs
          (inferExpr value context (.var before.nextVar) .general
            (some ⟨.returned, span⟩))
          (before.draw 1) (value', found) middle)
      (isValue : (found.apply (.var before.nextVar)).contains .void = false)
      (asked :
        Runs
          (constrain (found.apply expected) (found.apply (.var before.nextVar))
            .returned span)
          middle final after) :
      StmtRun context expected before
        (.ret (some value) span) (.ret (some value') span) (found ++ final)
        after
  | returnNothing
      {span : Span}
      {found : Substitution}
      {after : State}
      (asked :
        Runs (constrain expected .void .returned span) before found after) :
      StmtRun context expected before (.ret none span) (.ret none span) found
        after

/-- Every run of inference on a statement is of one of the listed forms. -/
theorem stmtRun_of_runs
    {stmt stmt' : Stmt}
    {context : Context}
    {expected : Ty}
    {found : Substitution}
    {before after : State}
    (run : Runs (inferStmt stmt context expected) before (stmt', found) after) :
    StmtRun context expected before stmt stmt' found after := by
  cases stmt with
  | ifElse condition thenBody elseBody span =>
      simp only [inferStmt, runs_bind, runs_pure, Prod.exists,
        Prod.mk.injEq] at run
      obtain ⟨_, _, _, thenRun, _, _, _, elseRun, _, _, _, conditionRun,
        ⟨rfl, rfl⟩, rfl⟩ := run
      exact .ifElse thenRun elseRun conditionRun
  | whileDo condition body span =>
      simp only [inferStmt, runs_bind, runs_pure, Prod.exists,
        Prod.mk.injEq] at run
      obtain ⟨_, _, _, bodyRun, _, _, _, conditionRun, ⟨rfl, rfl⟩, rfl⟩ := run
      exact .whileDo bodyRun conditionRun
  | forIn element iterable body span =>
      simp only [inferStmt, runs_bind, runs_fresh, runs_pure, runs_ite,
        runs_report, Prod.exists, Prod.mk.injEq] at run
      obtain ⟨_, _, ⟨rfl, rfl⟩, _, _, _, iterableRun, outcome⟩ := run
      rcases outcome with
        ⟨taken, _, _, rfl, ⟨rfl, rfl⟩, rfl⟩ |
          ⟨free, _, _, _, bodyRun, ⟨rfl, rfl⟩, rfl⟩
      · exact .forTaken iterableRun taken rfl
      · exact .forIn iterableRun (by simpa using free) bodyRun
  | assign target value span =>
      simp only [inferStmt, inferAssign, runs_bind, runs_fresh, runs_pure,
        runs_ite, runs_report, Prod.exists, Prod.mk.injEq] at run
      obtain ⟨_, _, ⟨rfl, rfl⟩, _, _, _, valueRun, _, _, ⟨rfl, rfl⟩, _, _, _,
        targetRun, outcome⟩ := run
      rcases outcome with
        ⟨isVoid, _, _, rfl, ⟨rfl, rfl⟩, rfl⟩ |
          ⟨values, _, _, asked, ⟨rfl, rfl⟩, rfl⟩
      · rw [Bool.or_eq_true] at isVoid
        exact .assignVoid valueRun targetRun isVoid rfl
      · simp only [Bool.or_eq_true, not_or, Bool.not_eq_true] at values
        exact .assign valueRun targetRun values.1 values.2 asked
  | call made =>
      simp only [inferStmt, runs_bind, runs_fresh, runs_pure, Prod.exists,
        Prod.mk.injEq] at run
      obtain ⟨_, _, ⟨rfl, rfl⟩, _, _, _, callRun, ⟨rfl, rfl⟩, rfl⟩ := run
      exact .call callRun
  | ret value span =>
      cases value with
      | none =>
          simp only [inferStmt, runs_bind, runs_pure, Prod.mk.injEq] at run
          obtain ⟨_, _, asked, ⟨rfl, rfl⟩, rfl⟩ := run
          exact .returnNothing asked
      | some value =>
          simp only [inferStmt, inferReturn, runs_bind, runs_fresh, runs_pure,
            runs_ite, runs_report, Prod.exists, Prod.mk.injEq] at run
          obtain ⟨_, _, ⟨rfl, rfl⟩, _, _, _, valueRun, outcome⟩ := run
          rcases outcome with
            ⟨isVoid, _, _, rfl, ⟨rfl, rfl⟩, rfl⟩ |
              ⟨isValue, _, _, asked, ⟨rfl, rfl⟩, rfl⟩
          · exact .returnVoid valueRun isVoid rfl
          · exact .returnValue valueRun (by simpa using isValue) asked

/-- Without statements, nothing is found. -/
theorem runs_inferBlock_nil
    {stmts' : List Stmt}
    {context : Context}
    {expected : Ty}
    {found : Substitution}
    {before after : State}
    (run : Runs (inferBlock [] context expected) before (stmts', found) after) :
    stmts' = [] ∧ found = [] ∧ after = before := by
  simp only [inferBlock, runs_pure, Prod.mk.injEq] at run
  obtain ⟨⟨rfl, rfl⟩, rfl⟩ := run
  exact ⟨rfl, rfl, rfl⟩

/-- The findings of a statement narrow all that comes after it. -/
theorem runs_inferBlock_cons
    {stmt : Stmt}
    {rest stmts' : List Stmt}
    {context : Context}
    {expected : Ty}
    {found : Substitution}
    {before after : State}
    (run :
      Runs (inferBlock (stmt :: rest) context expected) before (stmts', found)
        after) :
    ∃ stmt' rest' first more middle,
      Runs (inferStmt stmt context expected) before (stmt', first) middle ∧
        Runs
          (inferBlock rest (context.narrow first) (first.apply expected))
          middle (rest', more) after ∧
        stmts' = stmt' :: rest' ∧ found = first ++ more := by
  simp only [inferBlock, runs_bind, runs_pure, Prod.exists,
    Prod.mk.injEq] at run
  obtain ⟨stmt', first, middle, stmtRun, rest', more, _, restRun, ⟨rfl, rfl⟩,
    rfl⟩ := run
  exact ⟨stmt', rest', first, more, middle, stmtRun, restRun, rfl, rfl⟩

end SplTyping
