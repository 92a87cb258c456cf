import Mathlib.Logic.Equiv.Basic
import SplTyping.Proofs.Settled

namespace SplTyping

/-!
# Unification in both directions

Unifying two types the other way round comes to the same outcome. Where two
variables meet, the two directions bind them the opposite way, and from then on
they work on types that differ by a renaming of variables; everywhere else they
do the same. So one work list is kept as the mirror image of the other, with its
sides exchanged and its variables renamed, and only the renaming changes on the
way.
-/

namespace Ty

/-- A type with its variables renamed. -/
def rename (permutation : Equiv.Perm TypeVar) (ty : Ty) : Ty :=
  ty.instantiate fun id => .var (permutation id)

@[simp]
theorem rename_var (permutation : Equiv.Perm TypeVar) (id : TypeVar) :
    (Ty.var id).rename permutation = .var (permutation id) :=
  rfl

theorem rename_fn
    (permutation : Equiv.Perm TypeVar)
    (params : List Ty)
    (result : Ty) :
    (Ty.fn params result).rename permutation =
      .fn (params.map (rename permutation)) (result.rename permutation) := by
  simp only [rename, instantiate, instantiateAll_eq_map]
  rfl

@[simp]
theorem rename_refl (ty : Ty) : ty.rename (Equiv.refl _) = ty :=
  ty.instantiate_var

theorem rename_rename
    (first second : Equiv.Perm TypeVar)
    (ty : Ty) :
    (ty.rename first).rename second = ty.rename (first.trans second) :=
  instantiate_instantiate _ _ ty

/-- Renaming keeps different types apart. -/
theorem rename_inj
    {permutation : Equiv.Perm TypeVar}
    {first second : Ty} :
    first.rename permutation = second.rename permutation ↔ first = second := by
  constructor
  · intro same
    have back := congrArg (rename permutation.symm) same
    simpa only [rename_rename, Equiv.self_trans_symm, rename_refl] using back
  · rintro rfl
    rfl

theorem rename_eq_var
    {permutation : Equiv.Perm TypeVar}
    {id : TypeVar}
    {ty : Ty} :
    ty.rename permutation = .var id ↔
      ∃ source, ty = .var source ∧ permutation source = id := by
  cases ty <;> simp [rename, instantiate]

theorem exists_var_of_isVar
    {ty : Ty}
    (shape : ty.isVar = true) :
    ∃ id, ty = .var id := by
  cases ty with
  | var id => exact ⟨id, rfl⟩
  | _ => cases shape

@[simp]
theorem isVar_rename (permutation : Equiv.Perm TypeVar) (ty : Ty) :
    (ty.rename permutation).isVar = ty.isVar := by
  cases ty <;> rfl

theorem mem_vars_rename
    (permutation : Equiv.Perm TypeVar)
    {id : TypeVar}
    {ty : Ty} :
    permutation id ∈ (ty.rename permutation).vars ↔ id ∈ ty.vars := by
  simp [rename, mem_vars_instantiate, vars]

end Ty

namespace Binding

/-- A renamed binding replaces in a renamed type what the binding replaces. -/
theorem replaceIn_rename
    (permutation : Equiv.Perm TypeVar)
    (binding : Binding)
    (flow : Flow)
    (ty : Ty) :
    replaceIn ⟨permutation binding.var, binding.ty.rename permutation, flow⟩
        (ty.rename permutation) =
      (binding.replaceIn ty).rename permutation := by
  simp only [replaceIn, Ty.rename, Ty.instantiate_instantiate]
  apply Ty.instantiate_congr
  intro id _
  by_cases isBound : binding.var = id <;> simp [isBound, Ty.instantiate]

/-- Binding two variables the other way round exchanges them in what is left. -/
theorem replaceIn_swap
    (first second : TypeVar)
    (flow flow' : Flow)
    (ty : Ty) :
    replaceIn ⟨second, .var first, flow'⟩ ty =
      (replaceIn ⟨first, .var second, flow⟩ ty).rename
        (Equiv.swap first second) := by
  simp only [replaceIn, Ty.rename, Ty.instantiate_instantiate]
  apply Ty.instantiate_congr
  intro id _
  by_cases isFirst : first = id
  · subst isFirst
    by_cases isSecond : second = first <;> simp [isSecond, Ty.instantiate]
  · by_cases isSecond : second = id
    · subst isSecond
      simp [isFirst, Ty.instantiate]
    · have fixed : Equiv.swap first second id = id :=
        Equiv.swap_apply_of_ne_of_ne (Ne.symm isFirst) (Ne.symm isSecond)
      simp [isFirst, isSecond, Ty.instantiate, fixed]

end Binding

/-- The error with its sides exchanged and the variables in it renamed. -/
def UnifyError.mirror (permutation : Equiv.Perm TypeVar) : UnifyError → UnifyError
  | .mismatch left right =>
      .mismatch (right.rename permutation) (left.rename permutation)
  | .arity expected found => .arity found expected

namespace Equation

/-- The equation with its sides exchanged and its variables renamed. -/
def mirror (permutation : Equiv.Perm TypeVar) (equation : Equation) : Equation where
  left := equation.right.rename permutation
  right := equation.left.rename permutation

theorem mirror_same
    (permutation : Equiv.Perm TypeVar)
    {equation : Equation} :
    (equation.mirror permutation).left = (equation.mirror permutation).right ↔
      equation.left = equation.right :=
  Ty.rename_inj.trans eq_comm

/-- A variable on the left is bound first. -/
theorem orient?_left
    {flow : Flow}
    {ty : Ty}
    {id : TypeVar}
    (absent : id ∉ ty.vars) :
    orient? flow ⟨.var id, ty⟩ = some ⟨id, ty, flow⟩ := by
  rw [orient?, if_neg absent]

/-- A variable on the right is bound if there is none on the left. -/
theorem orient?_right
    {flow : Flow}
    {ty : Ty}
    {id : TypeVar}
    (shape : ty.isVar = false)
    (absent : id ∉ ty.vars) :
    orient? flow ⟨ty, .var id⟩ = some ⟨id, ty, .global⟩ := by
  have isBinding :
      (if id ∈ ty.vars then none else some (Binding.mk id ty .global)) =
        some ⟨id, ty, .global⟩ :=
    if_neg absent
  cases ty with
  | var other => cases shape
  | _ => exact isBinding

/-- Nothing is bound exactly if every side that is a variable occurs in the other. -/
theorem orient?_eq_none_iff
    {flow : Flow}
    {equation : Equation} :
    equation.orient? flow = none ↔
      (∀ id, equation.left = .var id → id ∈ equation.right.vars) ∧
        ∀ id, equation.right = .var id → id ∈ equation.left.vars := by
  constructor
  · intro notOriented
    rcases orient?_eq_none notOriented with
      ⟨id, isLeft, occurs⟩ | ⟨id, isRight, occurs⟩ | ⟨leftShape, rightShape⟩
    · rw [isLeft]
      constructor
      · rintro _ ⟨⟩
        exact occurs
      · intro other isRight
        rw [isRight] at occurs
        exact List.mem_singleton.mpr (List.mem_singleton.mp occurs).symm
    · rw [isRight]
      constructor
      · intro other isLeft
        rw [isLeft] at occurs
        exact List.mem_singleton.mpr (List.mem_singleton.mp occurs).symm
      · rintro _ ⟨⟩
        exact occurs
    · constructor
      · intro id isLeft
        rw [isLeft] at leftShape
        cases leftShape
      · intro id isRight
        rw [isRight] at rightShape
        cases rightShape
  · rintro ⟨leftOccurs, rightOccurs⟩
    obtain ⟨left, right⟩ := equation
    unfold orient?
    split
    · rename_i shape
      cases shape
      exact if_pos (leftOccurs _ rfl)
    · rename_i shape
      cases shape
      exact if_pos (rightOccurs _ rfl)
    · rfl

/-- Nothing is bound for the mirror image of an equation that nothing is bound for. -/
theorem orient?_mirror_none
    {flow : Flow}
    {equation : Equation}
    (notOriented : equation.orient? flow = none)
    (permutation : Equiv.Perm TypeVar)
    (flow' : Flow) :
    (equation.mirror permutation).orient? flow' = none := by
  rw [orient?_eq_none_iff] at notOriented ⊢
  constructor
  · intro id isLeft
    obtain ⟨source, isRight, rfl⟩ := Ty.rename_eq_var.mp isLeft
    exact (Ty.mem_vars_rename permutation).mpr (notOriented.2 source isRight)
  · intro id isRight
    obtain ⟨source, isLeft, rfl⟩ := Ty.rename_eq_var.mp isRight
    exact (Ty.mem_vars_rename permutation).mpr (notOriented.1 source isLeft)

/--
The binding for the mirror image of an equation leaves the mirror image of what
the binding for the equation leaves. The renaming changes if two variables meet.
-/
theorem orient?_mirror
    {flow : Flow}
    {equation : Equation}
    {binding : Binding}
    (oriented : equation.orient? flow = some binding)
    (permutation : Equiv.Perm TypeVar)
    (flow' : Flow) :
    ∃ binding' permutation',
      (equation.mirror permutation).orient? flow' = some binding' ∧
        ∀ ty : Ty,
          binding'.replaceIn (ty.rename permutation) =
            (binding.replaceIn ty).rename permutation' := by
  obtain ⟨left, right⟩ := equation
  unfold orient? at oriented
  split at oriented
  · rename_i id ty shape
    cases shape
    split at oriented
    · cases oriented
    · rename_i absent
      cases oriented
      rw [← Ty.mem_vars_rename permutation] at absent
      cases shape : right.isVar with
      | false =>
          exact ⟨_, permutation,
            orient?_right ((right.isVar_rename permutation).trans shape) absent,
            Binding.replaceIn_rename permutation ⟨id, right, flow⟩ .global⟩
      | true =>
          obtain ⟨other, rfl⟩ := Ty.exists_var_of_isVar shape
          have apart : permutation other ∉ (Ty.var (permutation id)).vars := by
            intro member
            exact absent (List.mem_singleton.mpr (List.mem_singleton.mp member).symm)
          refine ⟨_, (Equiv.swap id other).trans permutation,
            orient?_left apart, fun ty => ?_⟩
          rw [← Ty.rename_rename,
            ← Binding.replaceIn_swap id other flow flow']
          exact Binding.replaceIn_rename permutation
            ⟨other, .var id, flow'⟩ flow' ty
  · rename_i ty id notVar shape
    cases shape
    split at oriented
    · cases oriented
    · rename_i absent
      cases oriented
      rw [← Ty.mem_vars_rename permutation] at absent
      exact ⟨_, permutation, orient?_left absent,
        Binding.replaceIn_rename permutation ⟨id, left, .global⟩ flow'⟩
  · cases oriented

/-- The mirror image of an equation has the mirror images of its parts, or of its error. -/
theorem parts_mirror
    (permutation : Equiv.Perm TypeVar)
    (equation : Equation) :
    (equation.mirror permutation).parts =
      match equation.parts with
      | .ok smaller => .ok (smaller.map (mirror permutation))
      | .error failure => .error (failure.mirror permutation) := by
  obtain ⟨left, right⟩ := equation
  cases left with
  | list element => cases right <;> rfl
  | pair first second => cases right <;> rfl
  | fn params result =>
      cases right with
      | fn params' result' =>
          by_cases sameLength : params.length = params'.length
          · have zipped :
                List.zipWith Equation.mk (params'.map (Ty.rename permutation))
                    (params.map (Ty.rename permutation)) =
                  (List.zipWith Equation.mk params params').map
                    (mirror permutation) := by
              rw [List.zipWith_map, List.map_zipWith, List.zipWith_comm]
              rfl
            simp [mirror, parts, Ty.rename_fn, sameLength, zipped]
          · simp [mirror, parts, Ty.rename_fn, sameLength, Ne.symm sameLength,
              UnifyError.mirror]
      | _ => rfl
  | _ => cases right <;> rfl

end Equation

/-- The outcome of the mirror image of a work list, given that of the work list. -/
inductive Mirrored (permutation : Equiv.Perm TypeVar) :
    Except UnifyError Substitution → Except UnifyError Substitution → Prop where
  | ok
      {found found' : Substitution}
      (permutation' : Equiv.Perm TypeVar)
      (narrows :
        ∀ ty : Ty,
          found'.apply (ty.rename permutation) =
            (found.apply ty).rename permutation') :
      Mirrored permutation (.ok found) (.ok found')
  | error
      {failure : UnifyError}
      (permutation' : Equiv.Perm TypeVar) :
      Mirrored permutation (.error failure)
        (.error (failure.mirror permutation'))

/-- Two bindings that leave mirror images are put before mirrored outcomes. -/
theorem Mirrored.cons
    {permutation permutation' : Equiv.Perm TypeVar}
    {binding binding' : Binding}
    {outcome outcome' : Except UnifyError Substitution}
    (later : Mirrored permutation' outcome outcome')
    (replaces :
      ∀ ty : Ty,
        binding'.replaceIn (ty.rename permutation) =
          (binding.replaceIn ty).rename permutation') :
    Mirrored permutation (outcome.map (binding :: ·))
      (outcome'.map (binding' :: ·)) := by
  cases later with
  | ok last narrows =>
      refine .ok last fun ty => ?_
      rw [Substitution.apply_cons, replaces, narrows,
        ← Substitution.apply_cons]
  | error last => exact .error last

/-- The mirror image of a work list has the mirror image of its outcome. -/
theorem solve_mirrored
    (flow flow' : Flow)
    (equations : List Equation)
    (permutation : Equiv.Perm TypeVar) :
    Mirrored permutation (solve flow equations)
      (solve flow' (equations.map (Equation.mirror permutation))) := by
  induction equations using solve.induct flow generalizing permutation with
  | case1 =>
      rw [List.map_nil, solve_nil, solve_nil]
      exact .ok permutation fun ty => by simp
  | case2 equation rest same inductionHypothesis =>
      rw [List.map_cons, solve_cons_same same,
        solve_cons_same ((Equation.mirror_same permutation).mpr same)]
      exact inductionHypothesis permutation
  | case3 equation rest differ binding oriented inductionHypothesis =>
      obtain ⟨binding', permutation', oriented', replaces⟩ :=
        Equation.orient?_mirror oriented permutation flow'
      have differ' := mt (Equation.mirror_same permutation).mp differ
      have replaced :
          Equation.replaceAll binding'
              (rest.map (Equation.mirror permutation)) =
            (Equation.replaceAll binding rest).map
              (Equation.mirror permutation') := by
        simp [Equation.replaceAll, Equation.replaceBy, Equation.mirror,
          Function.comp_def, replaces]
      -- What waits is renamed by another permutation from here on.
      rw [List.map_cons, solve_cons_bind differ oriented,
        solve_cons_bind differ' oriented', replaced]
      exact (inductionHypothesis permutation').cons replaces
  | case4 equation rest differ notOriented smaller taken inductionHypothesis =>
      have differ' := mt (Equation.mirror_same permutation).mp differ
      have taken' := equation.parts_mirror permutation
      rw [taken] at taken'
      rw [List.map_cons, solve_cons_parts differ notOriented taken,
        solve_cons_parts differ'
          (Equation.orient?_mirror_none notOriented permutation flow')
          taken', ← List.map_append]
      exact inductionHypothesis permutation
  | case5 equation rest differ notOriented failure failed =>
      have differ' := mt (Equation.mirror_same permutation).mp differ
      have failed' := equation.parts_mirror permutation
      rw [failed] at failed'
      rw [List.map_cons, solve_cons_fail differ notOriented failed,
        solve_cons_fail differ'
          (Equation.orient?_mirror_none notOriented permutation flow')
          failed']
      exact .error permutation

theorem unify_mirrored
    (left right : Ty)
    (flow : Flow) :
    Mirrored (Equiv.refl _) (unify left right flow) (unify right left flow) := by
  have mirrored := solve_mirrored flow flow [⟨left, right⟩] (Equiv.refl _)
  rwa [List.map_singleton, Equation.mirror, Ty.rename_refl,
    Ty.rename_refl] at mirrored

/--
Two types are unified in both directions or in none. The unified types, and all
types narrowed by the bindings found, are the same in both directions up to a
renaming of variables. If the types cannot be unified, the two directions fail in
the same way: with two types that are exchanged and renamed, or with two numbers
of parameters that are exchanged.
-/
theorem unify_symmetric
    (left right : Ty)
    (flow : Flow) :
    ((∃ found, unify left right flow = .ok found) ↔
        ∃ found, unify right left flow = .ok found) ∧
      (∀ found found',
        unify left right flow = .ok found →
          unify right left flow = .ok found' →
            ∃ permutation : Equiv.Perm TypeVar,
              found'.apply right = (found.apply left).rename permutation ∧
                ∀ ty : Ty,
                  found'.apply ty = (found.apply ty).rename permutation) ∧
      ∀ failure,
        unify left right flow = .error failure →
          ∃ permutation : Equiv.Perm TypeVar,
            unify right left flow = .error (failure.mirror permutation) := by
  have mirrored := unify_mirrored left right flow
  generalize forward : unify left right flow = outcome at mirrored ⊢
  generalize backward : unify right left flow = outcome' at mirrored ⊢
  cases mirrored with
  | @ok found found' permutation narrows =>
      simp only [Ty.rename_refl] at narrows
      refine ⟨⟨fun _ => ⟨found', rfl⟩, fun _ => ⟨found, rfl⟩⟩, ?_, ?_⟩
      · rintro _ _ ⟨⟩ ⟨⟩
        refine ⟨permutation, ?_, narrows⟩
        rw [apply_eq_of_unify forward]
        exact narrows right
      · rintro _ ⟨⟩
  | error permutation =>
      refine ⟨⟨?_, ?_⟩, ?_, ?_⟩
      · rintro ⟨_, ⟨⟩⟩
      · rintro ⟨_, ⟨⟩⟩
      · rintro _ _ ⟨⟩
      · rintro _ ⟨⟩
        exact ⟨permutation, rfl⟩

/--
Two variables meet first. The second parts then get types that differ by the
names of these variables, or fail to have the same number of parameters.
-/
theorem meetingVars_symmetric :
    (∃ permutation : Equiv.Perm TypeVar, ∀ ty : Ty,
        Substitution.apply
            [⟨1, .var 0, .confined⟩, ⟨2, .list (.var 0), .confined⟩] ty =
          (Substitution.apply
            [⟨0, .var 1, .confined⟩, ⟨2, .list (.var 1), .global⟩]
            ty).rename permutation) ∧
      unify (.pair (.var 1) (.fn [] .int)) (.pair (.var 0) (.fn [.var 0] .int))
          .confined =
        .error (.arity 1 0) := by
  have forward :
      unify (.pair (.var 0) (.list (.var 0))) (.pair (.var 1) (.var 2))
          .confined =
        .ok [⟨0, .var 1, .confined⟩, ⟨2, .list (.var 1), .global⟩] := by cbv
  have backward :
      unify (.pair (.var 1) (.var 2)) (.pair (.var 0) (.list (.var 0)))
          .confined =
        .ok [⟨1, .var 0, .confined⟩, ⟨2, .list (.var 0), .confined⟩] := by cbv
  have failed :
      unify (.pair (.var 0) (.fn [.var 0] .int)) (.pair (.var 1) (.fn [] .int))
          .confined =
        .error (.arity 0 1) := by cbv
  obtain ⟨permutation, _, narrows⟩ :=
    (unify_symmetric _ _ _).2.1 _ _ forward backward
  obtain ⟨_, failsToo⟩ := (unify_symmetric _ _ _).2.2 _ failed
  exact ⟨⟨permutation, narrows⟩, failsToo⟩

end SplTyping
