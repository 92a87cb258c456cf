import SplTyping.Proofs.Runs.Program

namespace SplTyping

/-!
# Trees that stand by themselves

A call is checked against what is known about its callee, or set aside. Without
calls, the state of inference is only a supply of type variables and a list of
errors: a step draws the variables that come next and adds errors, and what it
returns depends on the next variable alone (`Isolated`).

Two more kinds of node are left out of basic trees. The bounds of a range are
taken to be numbers as long as nothing is known about them, and `return` without
a value says that the result is `Void`.
-/

mutual

/-- Whether an expression has neither calls nor ranges. -/
def Expr.isBasic : Expr → Bool
  | .int _ _ | .bool _ _ | .char _ _ | .nil _ => true
  | .read place => place.isBasic
  | .pair first second _ => first.isBasic && second.isBasic
  | .binary _ left right _ => left.isBasic && right.isBasic
  | .unary _ operand _ => operand.isBasic
  | .range _ _ _ | .call _ => false

/-- Whether a place has neither calls nor ranges. -/
def Place.isBasic : Place → Bool
  | ⟨_, fields, _⟩ => Field.allBasic fields

/-- Whether a field has neither calls nor ranges. -/
def Field.isBasic : Field → Bool
  | .hd | .tl | .fst | .snd => true
  | .index position => position.isBasic

/-- Whether several fields have neither calls nor ranges. -/
def Field.allBasic : List Field → Bool
  | [] => true
  | field :: rest => field.isBasic && Field.allBasic rest

end

mutual

/-- Whether a statement has neither calls nor ranges, and returns values only. -/
def Stmt.isBasic : Stmt → Bool
  | .ifElse condition thenBody elseBody _ =>
      condition.isBasic && Stmt.allBasic thenBody && Stmt.allBasic elseBody
  | .whileDo condition body _ => condition.isBasic && Stmt.allBasic body
  | .forIn _ iterable body _ => iterable.isBasic && Stmt.allBasic body
  | .assign target value _ => target.isBasic && value.isBasic
  | .ret (some value) _ => value.isBasic
  | .ret none _ | .call _ => false

/-- Whether several statements have neither calls nor ranges, and return values only. -/
def Stmt.allBasic : List Stmt → Bool
  | [] => true
  | stmt :: rest => stmt.isBasic && Stmt.allBasic rest

end

/-- The state with another variable to draw next and with more errors. -/
def State.advance
    (state : State)
    (nextVar : TypeVar)
    (errors : List TypeError) :
    State :=
  { state with
    nextVar
    diagnostics :=
      { state.diagnostics with errors := state.diagnostics.errors ++ errors } }

/-- A step that sees nothing of the state but the next type variable. -/
def Isolated {α : Type} (step : InferM α) : Prop :=
  ∀ nextVar, ∃ result last errors, ∀ state : State,
    state.nextVar = nextVar →
      Runs step state result (state.advance last errors)

namespace Isolated

variable {α β : Type}

/-- A step that does nothing is isolated. -/
theorem pure (value : α) : Isolated (Pure.pure value) := by
  intro nextVar
  refine ⟨value, nextVar, [], ?_⟩
  rintro state rfl
  rw [State.advance, List.append_nil]
  rfl

/-- Isolated steps may follow each other. -/
theorem bind
    {step : InferM α}
    {next : α → InferM β}
    (first : Isolated step)
    (second : ∀ value, Isolated (next value)) :
    Isolated (step >>= next) := by
  intro nextVar
  obtain ⟨value, middle, errors, firstRun⟩ := first nextVar
  obtain ⟨result, last, more, secondRun⟩ := second value middle
  refine ⟨result, last, errors ++ more, fun state isNext => ?_⟩
  have whole := secondRun (state.advance middle errors) rfl
  rw [State.advance, State.advance, List.append_assoc] at whole
  exact runs_bind.mpr ⟨value, _, firstRun state isNext, whole⟩

/-- A choice between isolated steps is isolated. -/
theorem ite
    {condition : Prop}
    [Decidable condition]
    {yes no : InferM α}
    (yesIsolated : Isolated yes)
    (noIsolated : Isolated no) :
    Isolated (if condition then yes else no) := by
  split
  · exact yesIsolated
  · exact noIsolated

end Isolated

/-- Drawing a variable changes nothing but the next one. -/
theorem fresh_isolated : Isolated fresh := by
  intro nextVar
  refine ⟨.var nextVar, nextVar + 1, [], ?_⟩
  rintro state rfl
  rw [State.advance, List.append_nil]
  rfl

/-- Reporting adds to the errors, whatever they are. -/
theorem report_isolated (error : TypeError) : Isolated (report error) := by
  intro nextVar
  refine ⟨(), nextVar, [error], ?_⟩
  rintro state rfl
  rfl

/-- Asking for a type does not look at the state. -/
theorem constrain_isolated
    (expected found : Ty)
    (demand : Demand)
    (span : Span) :
    Isolated (constrain expected found demand span) := by
  unfold constrain unifyOrReport
  split
  · exact .pure _
  · exact (report_isolated _).bind fun _ => .pure _

/-- The types of an operator do not depend on the state. -/
theorem operatorTypes_isolated (op : BinOp) : Isolated (operatorTypes op) := by
  cases op <;> unfold operatorTypes
  case cons | eq | ne => exact fresh_isolated.bind fun _ => .pure _
  all_goals exact .pure _

mutual

/-- Inference of a basic expression sees nothing but the next variable. -/
theorem inferExpr_isolated
    (expr : Expr)
    (basic : expr.isBasic = true)
    (context : Context)
    (expected : Ty)
    (demand : Demand)
    (guard : Option ValueGuard) :
    Isolated (inferExpr expr context expected demand guard) := by
  cases expr with
  | int value mark | bool value mark | char value mark =>
      rw [inferExpr]
      exact (constrain_isolated _ _ _ _).bind fun _ => .pure _
  | read place =>
      rw [inferExpr]
      exact (inferPlace_isolated place basic _ _ _).bind fun _ => .pure _
  | pair first second mark =>
      rw [Expr.isBasic, Bool.and_eq_true] at basic
      rw [inferExpr]
      refine fresh_isolated.bind fun _ => fresh_isolated.bind fun _ =>
        (inferExpr_isolated first basic.1 _ _ _ _).bind fun _ =>
          (inferExpr_isolated second basic.2 _ _ _ _).bind fun _ => .ite ?_ ?_
      · exact (report_isolated _).bind fun _ => .pure _
      · exact (constrain_isolated _ _ _ _).bind fun _ => .pure _
  | nil mark =>
      rw [inferExpr]
      exact fresh_isolated.bind fun _ =>
        (constrain_isolated _ _ _ _).bind fun _ => .pure _
  | range | call => cases basic
  | binary op left right mark =>
      rw [Expr.isBasic, Bool.and_eq_true] at basic
      rw [inferExpr]
      refine (operatorTypes_isolated op).bind fun _ =>
        (inferExpr_isolated left basic.1 _ _ _ _).bind fun _ => .ite ?_ ?_
      · exact (report_isolated _).bind fun _ => .pure _
      · refine (inferExpr_isolated right basic.2 _ _ _ _).bind fun _ =>
          .ite ?_ ?_
        · exact (report_isolated _).bind fun _ => .pure _
        · exact (constrain_isolated _ _ _ _).bind fun _ => .pure _
  | unary op operand mark =>
      rw [inferExpr]
      exact (inferExpr_isolated operand basic _ _ _ _).bind fun _ =>
        (constrain_isolated _ _ _ _).bind fun _ => .pure _
termination_by structural expr

/-- Inference of a place with basic positions is isolated. -/
theorem inferPlace_isolated
    (place : Place)
    (basic : place.isBasic = true)
    (context : Context)
    (expected : Ty)
    (demand : Demand) :
    Isolated (inferPlace place context expected demand) := by
  rcases place with ⟨name, fields, mark⟩
  rw [inferPlace]
  split
  · exact (report_isolated _).bind fun _ => .pure _
  · exact (inferFields_isolated fields basic _ _ _ _ _).bind fun _ =>
      (constrain_isolated _ _ _ _).bind fun _ => .pure _
termination_by structural place

/-- Inference of fields with basic positions is isolated. -/
theorem inferFields_isolated
    (fields : List Field)
    (basic : Field.allBasic fields = true)
    (name : String)
    (span : Span)
    (context : Context)
    (current : Ty)
    (found : Substitution) :
    Isolated (inferFields fields name span context current found) := by
  cases fields with
  | nil => exact .pure _
  | cons field rest =>
      rw [Field.allBasic, Bool.and_eq_true] at basic
      rw [inferFields]
      exact (inferField_isolated field basic.1 _ _ _ _ _).bind fun _ =>
        (inferFields_isolated rest basic.2 _ _ _ _ _).bind fun _ => .pure _
termination_by structural fields

/-- Inference of a field with a basic position is isolated. -/
theorem inferField_isolated
    (field : Field)
    (basic : field.isBasic = true)
    (name : String)
    (span : Span)
    (context : Context)
    (current : Ty)
    (found : Substitution) :
    Isolated (inferField field name span context current found) := by
  cases field with
  | hd | tl =>
      rw [inferField]
      exact fresh_isolated.bind fun _ =>
        (constrain_isolated _ _ _ _).bind fun _ => .pure _
  | fst | snd =>
      rw [inferField]
      exact fresh_isolated.bind fun _ => fresh_isolated.bind fun _ =>
        (constrain_isolated _ _ _ _).bind fun _ => .pure _
  | index position =>
      rw [inferField]
      exact fresh_isolated.bind fun _ =>
        (constrain_isolated _ _ _ _).bind fun _ =>
          (inferExpr_isolated position basic _ _ _ _).bind fun _ => .pure _
termination_by structural field

end

mutual

/-- Inference of a basic statement is isolated. -/
theorem inferStmt_isolated
    (stmt : Stmt)
    (basic : stmt.isBasic = true)
    (context : Context)
    (expected : Ty) :
    Isolated (inferStmt stmt context expected) := by
  cases stmt with
  | ifElse condition thenBody elseBody span =>
      simp only [Stmt.isBasic, Bool.and_eq_true] at basic
      obtain ⟨⟨conditionBasic, thenBasic⟩, elseBasic⟩ := basic
      rw [inferStmt]
      exact (inferBlock_isolated thenBody thenBasic _ _).bind fun _ =>
        (inferBlock_isolated elseBody elseBasic _ _).bind fun _ =>
          (inferExpr_isolated condition conditionBasic _ _ _ _).bind
            fun _ => .pure _
  | whileDo condition body span =>
      rw [Stmt.isBasic, Bool.and_eq_true] at basic
      rw [inferStmt]
      exact (inferBlock_isolated body basic.2 _ _).bind fun _ =>
        (inferExpr_isolated condition basic.1 _ _ _ _).bind fun _ => .pure _
  | forIn element iterable body span =>
      rw [Stmt.isBasic, Bool.and_eq_true] at basic
      rw [inferStmt]
      refine fresh_isolated.bind fun _ =>
        (inferExpr_isolated iterable basic.1 _ _ _ _).bind fun _ => .ite ?_ ?_
      · exact (report_isolated _).bind fun _ => .pure _
      · exact (inferBlock_isolated body basic.2 _ _).bind fun _ => .pure _
  | assign target value span =>
      rw [Stmt.isBasic, Bool.and_eq_true] at basic
      rw [inferStmt]
      refine fresh_isolated.bind fun _ =>
        (inferExpr_isolated value basic.2 _ _ _ _).bind fun _ =>
          fresh_isolated.bind fun _ =>
            (inferPlace_isolated target basic.1 _ _ _).bind fun _ =>
              .ite ?_ ?_
      · exact (report_isolated _).bind fun _ => .pure _
      · exact (constrain_isolated _ _ _ _).bind fun _ => .pure _
  | call made => cases basic
  | ret value span =>
      cases value with
      | none => cases basic
      | some value =>
          rw [inferStmt]
          refine fresh_isolated.bind fun _ =>
            (inferExpr_isolated value basic _ _ _ _).bind fun _ => .ite ?_ ?_
          · exact (report_isolated _).bind fun _ => .pure _
          · exact (constrain_isolated _ _ _ _).bind fun _ => .pure _
termination_by structural stmt

/-- Inference of basic statements one after the other is isolated. -/
theorem inferBlock_isolated
    (stmts : List Stmt)
    (basic : Stmt.allBasic stmts = true)
    (context : Context)
    (expected : Ty) :
    Isolated (inferBlock stmts context expected) := by
  cases stmts with
  | nil => exact .pure _
  | cons stmt rest =>
      rw [Stmt.allBasic, Bool.and_eq_true] at basic
      rw [inferBlock]
      exact (inferStmt_isolated stmt basic.1 _ _).bind fun _ =>
        (inferBlock_isolated rest basic.2 _ _).bind fun _ => .pure _
termination_by structural stmts

end

end SplTyping
