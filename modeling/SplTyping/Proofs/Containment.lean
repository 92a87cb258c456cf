import Mathlib.Logic.Relation
import SplTyping.Proofs.Settled

namespace SplTyping

/-!
# Containment

A type contains itself and all that its parts contain. Read as a relation, this
is the order that the parts of a type generate (`contains_iff_reaches`), and the
laws of containment are the laws of that order: it is reflexive and transitive
because it is generated, antisymmetric because every part is smaller than what
it is a part of, and kept by narrowing because the parts of an instance are the
instances of the parts.

So a `Void` that was found in a type is still there after every narrowing, and a
variable that a type does not contain can be bound without a change to the type
(`Ty.contains_laws`).
-/

namespace Ty

/-- The types that a type is put together from. -/
def parts : Ty → List Ty
  | .int | .bool | .char | .void | .var _ => []
  | .list element => [element]
  | .pair first second => [first, second]
  | .fn params result => params ++ [result]

/-- The second type is one of those that the first is put together from. -/
def HasPart (whole part : Ty) : Prop :=
  part ∈ whole.parts

/-- A part is smaller than the whole. -/
theorem HasPart.size_lt
    {whole part : Ty}
    (isPart : whole.HasPart part) :
    part.size < whole.size := by
  cases whole with
  | list element =>
      cases List.mem_singleton.mp isPart
      exact Nat.lt_succ_self _
  | pair first second =>
      simp only [HasPart, parts, List.mem_cons, List.not_mem_nil,
        or_false] at isPart
      rw [size]
      rcases isPart with rfl | rfl <;> omega
  | fn params result =>
      simp only [HasPart, parts, List.mem_append, List.mem_singleton] at isPart
      rw [size]
      rcases isPart with isParam | rfl
      · have := size_le_sizeAll isParam
        omega
      · omega
  | _ => cases isPart

/-- The parts of an instance are instances of the parts. -/
theorem HasPart.instantiate
    {whole part : Ty}
    (isPart : whole.HasPart part)
    (assign : Assignment) :
    (whole.instantiate assign).HasPart (part.instantiate assign) := by
  have isInstance :
      part.instantiate assign ∈ whole.parts.map (·.instantiate assign) :=
    List.mem_map_of_mem isPart
  cases whole with
  | fn params result =>
      rw [parts, List.map_append] at isInstance
      rw [HasPart, Ty.instantiate, instantiateAll_eq_map, parts]
      exact isInstance
  | list | pair => exact isInstance
  | _ => cases isPart

/-- A type contains itself and what its parts contain. -/
theorem contains_iff
    {whole other : Ty} :
    whole.contains other = true ↔
      whole = other ∨
        ∃ part, whole.HasPart part ∧ part.contains other = true := by
  cases whole <;>
    simp [contains, HasPart, parts, anyContains_iff, or_and_right, exists_or]

/-- Containment is the order that is generated by the parts. -/
theorem contains_iff_reaches
    {whole other : Ty} :
    whole.contains other = true ↔ Relation.ReflTransGen HasPart whole other := by
  constructor
  · intro contained
    -- By size, since the part that contains the type may be any parameter.
    induction size : whole.size using Nat.strongRecOn generalizing whole with
    | ind bound inductionHypothesis =>
        subst size
        rcases contains_iff.mp contained with rfl | ⟨part, isPart, inPart⟩
        · exact .refl
        · exact .head isPart
            (inductionHypothesis part.size isPart.size_lt inPart rfl)
  · intro reaches
    induction reaches using Relation.ReflTransGen.head_induction_on with
    | refl => exact contains_iff.mpr (Or.inl rfl)
    | head isPart _ inPart => exact contains_iff.mpr (Or.inr ⟨_, isPart, inPart⟩)

theorem contains_refl (ty : Ty) : ty.contains ty = true :=
  contains_iff_reaches.mpr .refl

theorem contains_trans
    {first second third : Ty}
    (firstContains : first.contains second = true)
    (secondContains : second.contains third = true) :
    first.contains third = true :=
  contains_iff_reaches.mpr
    ((contains_iff_reaches.mp firstContains).trans
      (contains_iff_reaches.mp secondContains))

/-- What a type contains is not larger. -/
theorem size_le_of_contains
    {whole other : Ty}
    (contained : whole.contains other = true) :
    other.size ≤ whole.size := by
  induction contains_iff_reaches.mp contained with
  | refl => exact Nat.le_refl _
  | tail reaches isPart inductionHypothesis =>
      exact Nat.le_of_lt (Nat.lt_of_lt_of_le isPart.size_lt
        (inductionHypothesis (contains_iff_reaches.mpr reaches)))

theorem contains_antisymm
    {first second : Ty}
    (firstContains : first.contains second = true)
    (secondContains : second.contains first = true) :
    first = second := by
  rcases contains_iff.mp firstContains with same | ⟨part, isPart, inPart⟩
  · exact same
  · -- The second type would have to be smaller than the first, which it contains.
    have isSmaller : second.size < first.size :=
      Nat.lt_of_le_of_lt (size_le_of_contains inPart) isPart.size_lt
    exact absurd (size_le_of_contains secondContains)
      (Nat.not_le_of_lt isSmaller)

/-- An instance contains the instances of what the type contains. -/
theorem contains_instantiate
    {whole other : Ty}
    (contained : whole.contains other = true)
    (assign : Assignment) :
    (whole.instantiate assign).contains (other.instantiate assign) = true :=
  contains_iff_reaches.mpr
    ((contains_iff_reaches.mp contained).lift (·.instantiate assign)
      fun _ _ isPart => isPart.instantiate assign)

/-- The variables of a type are the variables that it contains. -/
theorem contains_var_iff
    {ty : Ty}
    {id : TypeVar} :
    ty.contains (.var id) = true ↔ id ∈ ty.vars := by
  induction ty with
  | int | bool | char | void => simp [contains, vars]
  | var other => simp [contains, vars, eq_comm]
  | list element inductionHypothesis =>
      simp [contains, vars, inductionHypothesis]
  | pair first second firstHypothesis secondHypothesis =>
      simp [contains, vars, firstHypothesis, secondHypothesis]
  | fn params result paramsHypothesis resultHypothesis =>
      simp only [contains, vars, mem_varsAll, List.mem_append, anyContains_iff,
        Bool.or_eq_true, resultHypothesis, reduceCtorEq, decide_false,
        Bool.false_eq_true, false_or]
      refine or_congr_left (exists_congr fun param => ?_)
      exact and_congr_right (paramsHypothesis param)

end Ty

/--
Containment is the order generated by the parts of types. Narrowing keeps it,
and so keeps every `Void` in a type. A variable that a type does not contain may
be bound in any way, once or several times, without a change to the type.
-/
theorem Ty.contains_laws :
    (∀ whole other : Ty,
      whole.contains other = true ↔
        Relation.ReflTransGen HasPart whole other) ∧
    (∀ ty : Ty, ty.contains ty = true) ∧
    (∀ first second third : Ty,
      first.contains second = true →
      second.contains third = true →
      first.contains third = true) ∧
    (∀ first second : Ty,
      first.contains second = true →
      second.contains first = true →
      first = second) ∧
    (∀ (substitution : Substitution) (whole other : Ty),
      whole.contains other = true →
      (substitution.apply whole).contains (substitution.apply other) = true) ∧
    (∀ (substitution : Substitution) (ty : Ty),
      ty.contains .void = true →
      (substitution.apply ty).contains .void = true) ∧
    ∀ (id : TypeVar) (ty : Ty) (substitution : Substitution),
      ty.contains (.var id) = false →
      (∀ binding ∈ substitution, binding.var = id) →
      substitution.apply ty = ty := by
  refine ⟨fun _ _ => contains_iff_reaches, contains_refl,
    fun _ _ _ => contains_trans, fun _ _ => contains_antisymm,
    fun substitution _ _ contained =>
      contains_instantiate contained substitution.image,
    fun substitution _ contained =>
      contains_instantiate contained substitution.image, ?_⟩
  intro id ty substitution notContained bindsOnly
  refine Substitution.apply_of_unbound fun other member binding isBinding same => ?_
  rw [bindsOnly binding isBinding] at same
  rw [← same, Bool.eq_false_iff] at notContained
  exact notContained (contains_var_iff.mpr member)

/-- A parameter with a `Void` inside, and variables that are bound repeatedly. -/
theorem Ty.contains_laws_repeated :
    let inner : Ty := .pair (.var 3) .void
    let middle : Ty := .list inner
    let outer : Ty := .fn [.int, middle] (.var 4)
    let bindings : Substitution :=
      [⟨3, .list (.var 4), .global⟩, ⟨4, .var 3, .confined⟩, ⟨3, .int, .global⟩]
    let others : Substitution :=
      [⟨5, .list (.var 5), .global⟩, ⟨5, .var 3, .confined⟩]
    (outer.contains middle = true ∧
      middle.contains inner = true ∧
      outer.contains inner = true) ∧
    (bindings.apply outer).contains (bindings.apply inner) = true ∧
    (outer.contains .void = true ∧
      (bindings.apply outer).contains .void = true) ∧
    outer.contains (.var 5) = false ∧
      (∀ binding ∈ others, binding.var = 5) ∧
      others.apply outer = outer := by
  intro inner middle outer bindings others
  obtain ⟨_, _, trans, _, kept, voidKept, unchanged⟩ := contains_laws
  have ofOuter : outer.contains middle = true := by decide
  have ofMiddle : middle.contains inner = true := by decide
  have ofBoth := trans outer middle inner ofOuter ofMiddle
  have hasVoid : outer.contains .void = true := by decide
  have notFive : outer.contains (.var 5) = false := by decide
  have bindFive : ∀ binding ∈ others, binding.var = 5 := by decide
  exact ⟨⟨ofOuter, ofMiddle, ofBoth⟩, kept bindings outer inner ofBoth,
    ⟨hasVoid, voidKept bindings outer hasVoid⟩,
    notFive, bindFive, unchanged 5 outer others notFive bindFive⟩

end SplTyping
