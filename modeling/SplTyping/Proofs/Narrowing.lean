import SplTyping.Context

namespace SplTyping

/-!
# Narrowing in turn

A substitution is applied in one pass over a type: a variable is looked up once,
and what is found for it is narrowed by the bindings behind its own. This has
the effect of going through the bindings from first to last and replacing the
variable of each throughout the type. Nothing is asked of the bindings for that:
a variable may be bound more than once, and the type that it is bound to may
mention variables of earlier bindings, or the variable itself.

So substitutions can be put end to end, for a type as well as for a whole
context (`Substitution.apply_in_turn`).
-/

namespace Ty

mutual

/-- The type in which one variable is replaced throughout. -/
def replace (id : TypeVar) (replacement : Ty) : Ty → Ty
  | .int => .int
  | .bool => .bool
  | .char => .char
  | .void => .void
  | .list element => .list (replace id replacement element)
  | .pair first second =>
      .pair (replace id replacement first) (replace id replacement second)
  | .fn params result =>
      .fn (replaceAll id replacement params) (replace id replacement result)
  | .var other => if other = id then replacement else .var other

/-- Several types in which one variable is replaced throughout. -/
def replaceAll (id : TypeVar) (replacement : Ty) : List Ty → List Ty
  | [] => []
  | ty :: rest => replace id replacement ty :: replaceAll id replacement rest

end

theorem replaceAll_eq_map
    (id : TypeVar)
    (replacement : Ty)
    (types : List Ty) :
    replaceAll id replacement types = types.map (replace id replacement) := by
  induction types with
  | nil => rfl
  | cons ty rest inductionHypothesis =>
      simp [replaceAll, inductionHypothesis]

end Ty

/-- A binding replaces its variable by its type. -/
theorem Binding.replaceIn_eq_replace
    (binding : Binding)
    (ty : Ty) :
    binding.replaceIn ty = Ty.replace binding.var binding.ty ty := by
  rw [replaceIn]
  induction ty with
  | fn params result paramsReplaced resultReplaced =>
      simp only [Ty.instantiate, Ty.replace, Ty.instantiateAll_eq_map,
        Ty.replaceAll_eq_map, resultReplaced]
      congr 1
      exact List.map_congr_left paramsReplaced
  | var other => simp only [Ty.instantiate, Ty.replace, eq_comm]
  | _ => simp_all [Ty.instantiate, Ty.replace]

/-- One pass has the effect of the bindings, one after the other. -/
theorem Substitution.apply_eq_foldl_replace
    (substitution : Substitution)
    (ty : Ty) :
    substitution.apply ty =
      substitution.foldl
        (fun narrowed binding => Ty.replace binding.var binding.ty narrowed)
        ty := by
  simp only [apply_eq_applyStepwise, applyStepwise,
    Binding.replaceIn_eq_replace]

/--
A variable that is bound to a list of itself meets its next binding, and then no
longer the binding that stands between the two.
-/
example :
    Substitution.apply
      [⟨0, .list (.var 0), .global⟩, ⟨1, .char, .global⟩, ⟨0, .var 1, .global⟩]
      (.var 0) =
    .list (.var 1) := by
  decide

/--
Applying a substitution is applying its bindings one after the other: a
substitution put behind another one is applied after it, to types and to
contexts, and each binding replaces its variable throughout. A context keeps its
names.
-/
theorem Substitution.apply_in_turn (first second : Substitution) :
    (∀ ty : Ty, apply (first ++ second) ty = second.apply (first.apply ty)) ∧
      (∀ ty : Ty,
        first.apply ty =
          first.foldl
            (fun narrowed binding => Ty.replace binding.var binding.ty narrowed)
            ty) ∧
      ∀ context : Context,
        context.narrow (first ++ second) =
            (context.narrow first).narrow second ∧
          ∀ name : String,
            (context.narrow (first ++ second)).vars.contains name =
                context.vars.contains name ∧
              (context.narrow (first ++ second)).funs.contains name =
                context.funs.contains name :=
  ⟨apply_append first second, apply_eq_foldl_replace first, fun context =>
    ⟨context.narrow_append first second, fun name =>
      ⟨context.narrow_contains_var (first ++ second) name,
        context.narrow_contains (first ++ second) name⟩⟩⟩

end SplTyping
