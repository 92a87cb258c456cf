import SplTyping.Proofs.Runs.Program

namespace SplTyping

/-!
# What inference keeps

Whatever inference does with an expression or a statement, type variables are
only drawn, errors are only added, and what belongs to whole declarations (the
written type variables, the checked copies and the settled findings) is left
alone.
-/

namespace State

/-- No error has been recorded. -/
def Clean (state : State) : Prop :=
  state.diagnostics.errors = []

/-- How a state may change while an expression or a statement is inferred. -/
structure Grows (before after : State) : Prop where
  nextVar : before.nextVar ≤ after.nextVar
  names : after.names = before.names
  resolved : after.resolved = before.resolved
  settled : after.settled = before.settled
  clean : after.Clean → before.Clean

/-- A state is not clean after an error has been recorded. -/
theorem not_clean_record (state : State) (error : TypeError) :
    ¬ (state.record error).Clean := by
  simp [Clean, record, Diagnostics.report]

namespace Grows

/-- A state grows by nothing. -/
theorem refl (state : State) : state.Grows state where
  nextVar := Nat.le_refl _
  names := rfl
  resolved := rfl
  settled := rfl
  clean := id

/-- Growing twice is growing. -/
theorem trans
    {before middle after : State}
    (first : before.Grows middle)
    (second : middle.Grows after) :
    before.Grows after where
  nextVar := Nat.le_trans first.nextVar second.nextVar
  names := second.names.trans first.names
  resolved := second.resolved.trans first.resolved
  settled := second.settled.trans first.settled
  clean := fun isClean => first.clean (second.clean isClean)

/-- Drawing variables lets a state grow. -/
theorem draw (state : State) (count : Nat) : state.Grows (state.draw count) where
  nextVar := Nat.le_add_right _ _
  names := rfl
  resolved := rfl
  settled := rfl
  clean := id

/-- Recording an error lets a state grow. -/
theorem record (state : State) (error : TypeError) :
    state.Grows (state.record error) where
  nextVar := Nat.le_refl _
  names := rfl
  resolved := rfl
  settled := rfl
  clean := fun isClean => absurd isClean (not_clean_record state error)

/-- Setting a call aside lets a state grow, as it may wait. -/
theorem setAside
    (state : State)
    (call : Call)
    (context : Context)
    (expected : Ty)
    (guard : Option ValueGuard) :
    state.Grows (state.setAside call context expected guard) where
  nextVar := Nat.le_refl _
  names := rfl
  resolved := rfl
  settled := rfl
  clean := id

end Grows

end State

/-- Unification draws nothing, and it may add an error. -/
theorem unifyOrReport_grows
    {left right : Ty}
    {flow : Flow}
    {explain : UnifyError → TypeError}
    {found : Substitution}
    {before after : State}
    (run : Runs (unifyOrReport left right flow explain) before found after) :
    before.Grows after := by
  rcases runs_unifyOrReport run with ⟨_, rfl⟩ | ⟨_, _, _, rfl⟩
  · exact .refl _
  · exact .record _ _

/-- Unification leaves waiting calls alone. -/
theorem unifyOrReport_pending
    {left right : Ty}
    {flow : Flow}
    {explain : UnifyError → TypeError}
    {found : Substitution}
    {before after : State}
    (run : Runs (unifyOrReport left right flow explain) before found after) :
    after.pending = before.pending := by
  rcases runs_unifyOrReport run with ⟨_, rfl⟩ | ⟨_, _, _, rfl⟩ <;> rfl

/-- If no error is recorded, the two types have been unified. -/
theorem unifyOrReport_clean
    {left right : Ty}
    {flow : Flow}
    {explain : UnifyError → TypeError}
    {found : Substitution}
    {before after : State}
    (run : Runs (unifyOrReport left right flow explain) before found after)
    (clean : after.Clean) :
    unify left right flow = .ok found ∧ after = before := by
  rcases runs_unifyOrReport run with unified | ⟨_, _, _, rfl⟩
  · exact unified
  · exact absurd clean (State.not_clean_record _ _)

/-- Finding the types of an operator draws variables at most. -/
theorem OperatorRun.grows
    {op : BinOp}
    {left right result : Ty}
    {before after : State}
    (run : OperatorRun before op left right result after) :
    before.Grows after := by
  cases run with
  | cons | compared => exact .draw _ _
  | arithmetic | ordered | logical => exact .refl _

/-- Looking at the bound of a range adds an error at most. -/
theorem BoundRun.grows
    {found extended : Substitution}
    {first bound : Ty}
    {before after : State}
    (run : BoundRun found before first bound extended after) :
    before.Grows after := by
  cases run with
  | int | char | unknown => exact .refl _
  | other => exact .record _ _

mutual

/-- Inference of an expression lets the state grow. -/
theorem inferExpr_grows
    {expr expr' : Expr}
    {context : Context}
    {expected : Ty}
    {demand : Demand}
    {guard : Option ValueGuard}
    {found : Substitution}
    {before after : State}
    (run :
      Runs (inferExpr expr context expected demand guard) before (expr', found)
        after) :
    before.Grows after := by
  cases exprRun_of_runs run with
  | int asked | bool asked | char asked =>
      exact unifyOrReport_grows asked
  | read placeRun => exact inferPlace_grows placeRun
  | pairVoid firstRun secondRun =>
      exact (((State.Grows.draw _ _).trans (inferExpr_grows firstRun)).trans
        (inferExpr_grows secondRun)).trans (.record _ _)
  | pair firstRun secondRun _ _ asked =>
      exact (((State.Grows.draw _ _).trans (inferExpr_grows firstRun)).trans
        (inferExpr_grows secondRun)).trans (unifyOrReport_grows asked)
  | nil asked => exact (State.Grows.draw _ _).trans (unifyOrReport_grows asked)
  | range firstRun boundRun lastRun asked =>
      exact ((((State.Grows.draw _ _).trans (inferExpr_grows firstRun)).trans
        boundRun.grows).trans (inferExpr_grows lastRun)).trans
          (unifyOrReport_grows asked)
  | binaryLeftVoid operatorRun leftRun =>
      exact (operatorRun.grows.trans (inferExpr_grows leftRun)).trans
        (.record _ _)
  | binaryRightVoid operatorRun leftRun rightRun =>
      exact ((operatorRun.grows.trans (inferExpr_grows leftRun)).trans
        (inferExpr_grows rightRun)).trans (.record _ _)
  | binary operatorRun leftRun _ rightRun _ asked =>
      exact ((operatorRun.grows.trans (inferExpr_grows leftRun)).trans
        (inferExpr_grows rightRun)).trans (unifyOrReport_grows asked)
  | unary operandRun asked =>
      exact (inferExpr_grows operandRun).trans (unifyOrReport_grows asked)
  | call callRun => exact inferCall_grows callRun
termination_by structural expr

/-- Inference of a place lets the state grow. -/
theorem inferPlace_grows
    {place place' : Place}
    {context : Context}
    {expected : Ty}
    {demand : Demand}
    {found : Substitution}
    {before after : State}
    (run :
      Runs (inferPlace place context expected demand) before (place', found)
        after) :
    before.Grows after := by
  cases placeRun_of_runs run with
  | unknown => exact .record _ _
  | known _ fieldsRun asked =>
      exact (inferFields_grows fieldsRun).trans (unifyOrReport_grows asked)
termination_by structural place

/-- Inference of several fields lets the state grow. -/
theorem inferFields_grows
    {fields fields' : List Field}
    {name : String}
    {span : Span}
    {context : Context}
    {current selected : Ty}
    {found extended : Substitution}
    {before after : State}
    (run :
      Runs (inferFields fields name span context current found) before
        (fields', selected, extended) after) :
    before.Grows after := by
  cases fields with
  | nil =>
      obtain ⟨_, _, _, rfl⟩ := runs_inferFields_nil run
      exact .refl _
  | cons field rest =>
      obtain ⟨_, _, _, _, _, fieldRun, restRun, _⟩ := runs_inferFields_cons run
      exact (inferField_grows fieldRun).trans (inferFields_grows restRun)
termination_by structural fields

/-- Inference of a field lets the state grow. -/
theorem inferField_grows
    {field field' : Field}
    {name : String}
    {span : Span}
    {context : Context}
    {current selected : Ty}
    {found extended : Substitution}
    {before after : State}
    (run :
      Runs (inferField field name span context current found) before
        (field', selected, extended) after) :
    before.Grows after := by
  cases fieldRun_of_runs run with
  | hd asked | tl asked | fst asked | snd asked =>
      exact (State.Grows.draw _ _).trans (unifyOrReport_grows asked)
  | index asked positionRun =>
      exact ((State.Grows.draw _ _).trans (unifyOrReport_grows asked)).trans
        (inferExpr_grows positionRun)
termination_by structural field

/-- Inference of a call lets the state grow, whether or not it waits. -/
theorem inferCall_grows
    {call call' : Call}
    {context : Context}
    {expected : Ty}
    {demand : Demand}
    {guard : Option ValueGuard}
    {found : Substitution}
    {before after : State}
    (run :
      Runs (inferCall call context expected demand guard) before (call', found)
        after) :
    before.Grows after := by
  cases callRun_of_runs run with
  | waits => exact .setAside _ _ _ _ _
  | arity => exact .record _ _
  | void _ _ argsRun => exact inferArgs_grows argsRun
  | checked _ _ argsRun asked =>
      exact (inferArgs_grows argsRun).trans (unifyOrReport_grows asked)
termination_by structural call

/-- Inference of arguments lets the state grow, whether or not it is aborted. -/
theorem inferArgs_grows
    {args args' : List Expr}
    {params : List Ty}
    {function : String}
    {number : Nat}
    {progress : CallProgress}
    {outcome : Option CallProgress}
    {before after : State}
    (run :
      Runs (inferArgs args params function number progress) before
        (args', outcome) after) :
    before.Grows after := by
  cases argsRun_of_runs run with
  | done => exact .refl _
  | void argRun =>
      exact ((State.Grows.draw _ _).trans (inferExpr_grows argRun)).trans
        (.record _ _)
  | next argRun _ _ asked restRun =>
      exact (((State.Grows.draw _ _).trans (inferExpr_grows argRun)).trans
        (unifyOrReport_grows asked)).trans (inferArgs_grows restRun)
termination_by structural args

end

/-- A call whose arguments were not all looked at has failed. -/
theorem inferArgs_aborted
    {args args' : List Expr}
    {params : List Ty}
    {function : String}
    {number : Nat}
    {progress : CallProgress}
    {before after : State}
    (run :
      Runs (inferArgs args params function number progress) before (args', none)
        after) :
    ¬ after.Clean := by
  induction args generalizing args' params number progress before with
  | nil => cases argsRun_of_runs run
  | cons arg args inductionHypothesis =>
      cases argsRun_of_runs run with
      | void => exact State.not_clean_record _ _
      | next _ _ _ _ restRun => exact inductionHypothesis restRun

mutual

/-- Inference of a statement lets the state grow. -/
theorem inferStmt_grows
    {stmt stmt' : Stmt}
    {context : Context}
    {expected : Ty}
    {found : Substitution}
    {before after : State}
    (run : Runs (inferStmt stmt context expected) before (stmt', found) after) :
    before.Grows after := by
  cases stmtRun_of_runs run with
  | ifElse thenRun elseRun conditionRun =>
      exact ((inferBlock_grows thenRun).trans (inferBlock_grows elseRun)).trans
        (inferExpr_grows conditionRun)
  | whileDo bodyRun conditionRun =>
      exact (inferBlock_grows bodyRun).trans (inferExpr_grows conditionRun)
  | forTaken iterableRun =>
      exact ((State.Grows.draw _ _).trans (inferExpr_grows iterableRun)).trans
        (.record _ _)
  | forIn iterableRun _ bodyRun =>
      exact ((State.Grows.draw _ _).trans (inferExpr_grows iterableRun)).trans
        (inferBlock_grows bodyRun)
  | assignVoid valueRun targetRun =>
      exact ((((State.Grows.draw _ _).trans (inferExpr_grows valueRun)).trans
        (.draw _ _)).trans (inferPlace_grows targetRun)).trans (.record _ _)
  | assign valueRun targetRun _ _ asked =>
      exact ((((State.Grows.draw _ _).trans (inferExpr_grows valueRun)).trans
        (.draw _ _)).trans (inferPlace_grows targetRun)).trans
          (unifyOrReport_grows asked)
  | call callRun => exact (State.Grows.draw _ _).trans (inferCall_grows callRun)
  | returnVoid valueRun =>
      exact ((State.Grows.draw _ _).trans (inferExpr_grows valueRun)).trans
        (.record _ _)
  | returnValue valueRun _ asked =>
      exact ((State.Grows.draw _ _).trans (inferExpr_grows valueRun)).trans
        (unifyOrReport_grows asked)
  | returnNothing asked => exact unifyOrReport_grows asked
termination_by structural stmt

/-- Inference of several statements lets the state grow. -/
theorem inferBlock_grows
    {stmts stmts' : List Stmt}
    {context : Context}
    {expected : Ty}
    {found : Substitution}
    {before after : State}
    (run :
      Runs (inferBlock stmts context expected) before (stmts', found) after) :
    before.Grows after := by
  cases stmts with
  | nil =>
      obtain ⟨_, _, rfl⟩ := runs_inferBlock_nil run
      exact .refl _
  | cons stmt rest =>
      obtain ⟨_, _, _, _, _, stmtRun, restRun, _, _⟩ := runs_inferBlock_cons run
      exact (inferStmt_grows stmtRun).trans (inferBlock_grows restRun)
termination_by structural stmts

end

end SplTyping
