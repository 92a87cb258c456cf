import SplTyping.Proofs.Assignment
import SplTyping.Proofs.Growth
import SplTyping.Proofs.Rules

namespace SplTyping

/-!
# Contexts under an assignment

An assignment gives a type to every type variable, and so turns a context into
a scope. Narrowing a context by findings that the assignment solves does not
change that scope: all contexts of a run describe the same names.
-/

namespace Signature

/-- A signature with its type variables replaced. -/
def instantiate (assign : Assignment) (signature : Signature) : Signature where
  params := signature.params.map (Ty.instantiate assign)
  result := signature.result.instantiate assign

/-- A signature is instantiated part by part. -/
theorem toTy_instantiate
    (assign : Assignment)
    (signature : Signature) :
    signature.toTy.instantiate assign =
      (signature.instantiate assign).toTy := by
  simp [toTy, instantiate, Ty.instantiate, Ty.instantiateAll_eq_map]

/-- Solved findings make no difference to a signature. -/
theorem instantiate_narrow
    {assign : Assignment}
    {found : Substitution}
    (solved : found.SolvedBy assign)
    (signature : Signature) :
    (signature.narrow found).instantiate assign =
      signature.instantiate assign := by
  simp [narrow, instantiate, solved.instantiate_apply]

end Signature

namespace Context

/-- The variables of a context have the types of a scope. -/
def VarsModel
    (assign : Assignment)
    (context : Context)
    (scope : Scope) :
    Prop :=
  ∀ name,
    scope.vars name = (context.vars.get? name).map (Ty.instantiate assign)

/-- The functions of a context have the signatures of a scope. -/
def FunsModel
    (assign : Assignment)
    (context : Context)
    (scope : Scope) :
    Prop :=
  ∀ name signature,
    context.funs.get? name = some signature →
      scope.funs name = some (signature.instantiate assign)

namespace VarsModel

variable {assign : Assignment} {context : Context} {scope : Scope}

/-- Solved findings make no difference to what a context models. -/
theorem narrow
    {found : Substitution}
    (vars : context.VarsModel assign scope)
    (solved : found.SolvedBy assign) :
    (context.narrow found).VarsModel assign scope := by
  intro name
  rw [vars name, Context.narrow, Table.get?_map, Option.map_map]
  congr 1
  funext ty
  exact (solved.instantiate_apply ty).symm

/-- A variable is bound on both sides. -/
theorem bindVar
    (vars : context.VarsModel assign scope)
    (name : String)
    (ty : Ty) :
    (context.bindVar name ty).VarsModel assign
      (scope.bindVar name (ty.instantiate assign)) := by
  intro other
  simp only [Context.bindVar, Scope.bindVar, Table.get?_insert]
  split
  · rfl
  · exact vars other

/-- Arguments are bound on both sides. -/
theorem bindArgs
    (vars : context.VarsModel assign scope)
    (args : List Name)
    (types : List Ty) :
    (context.bindArgs args types).VarsModel assign
      (scope.bindArgs args (types.map (Ty.instantiate assign))) := by
  induction args generalizing context scope types with
  | nil => exact vars
  | cons arg args inductionHypothesis =>
      cases types with
      | nil => exact vars
      | cons ty types =>
          exact inductionHypothesis (vars.bindVar arg.text ty) types

/-- The same variables are known on both sides. -/
theorem eq_none_iff
    (vars : context.VarsModel assign scope)
    (name : String) :
    scope.vars name = none ↔ context.vars.contains name = false := by
  rw [vars name, Table.contains]
  cases context.vars.get? name <;> simp

end VarsModel

end Context

/-- An equation that was asked for without error holds under a solution. -/
theorem instantiate_eq_of_unifyOrReport
    {assign : Assignment}
    {left right : Ty}
    {flow : Flow}
    {explain : UnifyError → TypeError}
    {found : Substitution}
    {before after : State}
    (run : Runs (unifyOrReport left right flow explain) before found after)
    (clean : after.Clean)
    (solved : found.SolvedBy assign) :
    left.instantiate assign = right.instantiate assign := by
  rcases runs_unifyOrReport run with ⟨unified, rfl⟩ | ⟨_, _, _, rfl⟩
  · exact (unify_ok_iff unified assign).mp solved
  · exact absurd clean (State.not_clean_record _ _)

/-- The types found for an operator are types that it has. -/
theorem OperatorRun.hasTypes
    {op : BinOp}
    {left right result : Ty}
    {before after : State}
    (run : OperatorRun before op left right result after)
    (assign : Assignment) :
    OperatorHasTypes op (left.instantiate assign) (right.instantiate assign)
      (result.instantiate assign) := by
  cases run with
  | cons => exact .cons
  | compared isEquality => exact .compared isEquality
  | arithmetic isArithmetic => exact .arithmetic isArithmetic
  | ordered isOrder => exact .ordered isOrder
  | logical isLogical => exact .logical isLogical

/-- The types of unary operators are closed. -/
theorem UnOp.ty_instantiate (op : UnOp) (assign : Assignment) :
    op.ty.instantiate assign = op.ty := by
  cases op <;> rfl

end SplTyping
