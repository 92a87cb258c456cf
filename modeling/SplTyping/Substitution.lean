import SplTyping.Ty.Basic

namespace SplTyping

/-!
# Substitutions

A substitution is a list of bindings in the order in which they were made.
Applying it replaces a variable by the type of its first binding, and what
stands there is narrowed by the later bindings only. `apply_append` says that
applying two substitutions in turn is applying their concatenation;
`applyStepwise` is the same meaning read as one replacement per binding, and
`apply_eq_applyStepwise` ties the two together.
-/

/--
How far a binding reaches: a global binding holds for the whole program, a
confined one only inside the call whose arguments produced it.
-/
inductive Flow where
  | global
  | confined
  deriving Repr, DecidableEq

/-- One narrowing of a type variable. -/
structure Binding where
  var : TypeVar
  ty : Ty
  flow : Flow
  deriving DecidableEq

/-- Bindings in the order in which they were made. -/
abbrev Substitution := List Binding

namespace Binding

/-- A type with every occurrence of the bound variable replaced. -/
def replaceIn (binding : Binding) (ty : Ty) : Ty :=
  ty.instantiate fun id => if binding.var = id then binding.ty else .var id

/--
Replacement leaves only variables that were there before, apart from the bound
one, and variables of the bound type.
-/
theorem mem_vars_replaceIn
    {binding : Binding}
    {id : TypeVar}
    {ty : Ty} :
    id ∈ (binding.replaceIn ty).vars ↔
      (id ∈ ty.vars ∧ id ≠ binding.var) ∨
        (binding.var ∈ ty.vars ∧ id ∈ binding.ty.vars) := by
  rw [replaceIn, Ty.mem_vars_instantiate]
  constructor
  · rintro ⟨source, member, image⟩
    by_cases isBound : binding.var = source
    · subst isBound
      rw [if_pos rfl] at image
      exact Or.inr ⟨member, image⟩
    · rw [if_neg isBound] at image
      simp only [Ty.vars, List.mem_singleton] at image
      subst image
      exact Or.inl ⟨member, fun same => isBound same.symm⟩
  · rintro (⟨member, notBound⟩ | ⟨boundMember, image⟩)
    · refine ⟨id, member, ?_⟩
      rw [if_neg fun same => notBound same.symm]
      simp [Ty.vars]
    · exact ⟨binding.var, boundMember, by rwa [if_pos rfl]⟩

end Binding

namespace Substitution

/-- The substitution of a single global binding. -/
def singleton (var : TypeVar) (ty : Ty) : Substitution :=
  [⟨var, ty, .global⟩]

/-- A substitution with one more binding at its end. -/
def push
    (substitution : Substitution)
    (var : TypeVar)
    (ty : Ty)
    (flow : Flow) :
    Substitution :=
  substitution ++ [⟨var, ty, flow⟩]

/-- The global bindings in their order, and the confined ones in theirs. -/
def split (substitution : Substitution) : Substitution × Substitution :=
  substitution.partition fun binding => binding.flow = .global

/-- The type that stands for a variable once all bindings are applied. -/
def image : Substitution → TypeVar → Ty
  | [], id => .var id
  | binding :: later, id =>
      if binding.var = id then
        binding.ty.instantiate (image later)
      else
        image later id

/-- A type narrowed by all bindings. -/
def apply (substitution : Substitution) (ty : Ty) : Ty :=
  ty.instantiate substitution.image

/-- A type with one bound variable replaced after the other. -/
def applyStepwise (substitution : Substitution) (ty : Ty) : Ty :=
  substitution.foldl (fun narrowed binding => binding.replaceIn narrowed) ty

/-- The empty substitution changes nothing. -/
@[simp]
theorem apply_nil (ty : Ty) : apply [] ty = ty :=
  Ty.instantiate_var ty

/-- The first binding is applied before all later ones. -/
theorem apply_cons
    (binding : Binding)
    (later : Substitution)
    (ty : Ty) :
    apply (binding :: later) ty = apply later (binding.replaceIn ty) := by
  rw [apply, apply, Binding.replaceIn, Ty.instantiate_instantiate]
  apply Ty.instantiate_congr
  intro id _
  by_cases isBound : binding.var = id <;> simp [image, isBound, Ty.instantiate]

/-- One pass over a type has the effect of one replacement per binding. -/
theorem apply_eq_applyStepwise
    (substitution : Substitution)
    (ty : Ty) :
    substitution.apply ty = substitution.applyStepwise ty := by
  induction substitution generalizing ty with
  | nil => exact apply_nil ty
  | cons binding later inductionHypothesis =>
      rw [apply_cons, inductionHypothesis]
      rfl

/-- Applying a concatenation is applying its parts in turn. -/
theorem apply_append
    (first second : Substitution)
    (ty : Ty) :
    apply (first ++ second) ty = second.apply (first.apply ty) := by
  induction first generalizing ty with
  | nil => simp
  | cons binding later inductionHypothesis =>
      rw [List.cons_append, apply_cons, apply_cons, inductionHypothesis]

end Substitution

end SplTyping
