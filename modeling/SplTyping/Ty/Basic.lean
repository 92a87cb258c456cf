namespace SplTyping

/-!
# Types

The types of the language: four base types, lists, pairs, functions and type
variables. There is no quantifier: a type variable stands for one type that is
not known yet.

Functions on types come in pairs, one for a type and one for a parameter list,
so that all of them recurse on the structure. `Ty.induction` is the matching
induction principle: it asks for one hypothesis per parameter.
-/

/-- A type variable, known by its number. -/
abbrev TypeVar := Nat

/-- A type. -/
inductive Ty where
  | int
  | bool
  | char
  | void
  | list (element : Ty)
  | pair (first second : Ty)
  | fn (params : List Ty) (result : Ty)
  | var (id : TypeVar)
  deriving Inhabited

/-- The parameter types and the result type of a function. -/
structure Signature where
  params : List Ty
  result : Ty
  deriving Inhabited

namespace Signature

/-- A signature as a function type. -/
def toTy (signature : Signature) : Ty :=
  .fn signature.params signature.result

end Signature

namespace Ty

/--
Induction on types in which a function type comes with the hypothesis for each
of its parameters.
-/
@[elab_as_elim, induction_eliminator]
theorem induction
    {motive : Ty → Prop}
    (int : motive .int)
    (bool : motive .bool)
    (char : motive .char)
    (void : motive .void)
    (list : ∀ element, motive element → motive (.list element))
    (pair :
      ∀ first second,
        motive first → motive second → motive (.pair first second))
    (fn :
      ∀ params result,
        (∀ param ∈ params, motive param) →
        motive result →
        motive (.fn params result))
    (var : ∀ id, motive (.var id))
    (ty : Ty) :
    motive ty :=
  @Ty.rec
    motive
    (fun params => ∀ param ∈ params, motive param)
    int bool char void list pair fn var
    (fun _ member => nomatch member)
    (fun _ _ headHolds tailHolds _ member =>
      match member with
      | .head _ => headHolds
      | .tail _ inTail => tailHolds _ inTail)
    ty

mutual

/-- Whether two types are the same. -/
def beq : Ty → Ty → Bool
  | .int, .int => true
  | .bool, .bool => true
  | .char, .char => true
  | .void, .void => true
  | .list left, .list right => beq left right
  | .pair left left', .pair right right' => beq left right && beq left' right'
  | .fn params result, .fn params' result' =>
      beqAll params params' && beq result result'
  | .var left, .var right => left == right
  | _, _ => false

/-- Whether two parameter lists are the same. -/
def beqAll : List Ty → List Ty → Bool
  | [], [] => true
  | left :: lefts, right :: rights => beq left right && beqAll lefts rights
  | _, _ => false

end

/-- Parameter lists compare equal exactly when they are, if their members do. -/
private theorem beqAll_iff
    {lefts : List Ty} :
    ∀ rights : List Ty,
      (∀ left ∈ lefts, ∀ right, beq left right = true ↔ left = right) →
      (beqAll lefts rights = true ↔ lefts = rights) := by
  induction lefts with
  | nil =>
      intro rights _
      cases rights <;> simp [beqAll]
  | cons left lefts inductionHypothesis =>
      intro rights membersCompare
      cases rights with
      | nil => simp [beqAll]
      | cons right rights =>
          have tailCompares :=
            inductionHypothesis rights
              fun other member =>
                membersCompare other (List.mem_cons_of_mem left member)
          simp [beqAll, membersCompare left List.mem_cons_self right,
            tailCompares]

/-- Types compare equal exactly when they are. -/
theorem beq_iff
    {left : Ty} :
    ∀ {right : Ty}, beq left right = true ↔ left = right := by
  induction left with
  | int => intro right; cases right <;> simp [beq]
  | bool => intro right; cases right <;> simp [beq]
  | char => intro right; cases right <;> simp [beq]
  | void => intro right; cases right <;> simp [beq]
  | var id => intro right; cases right <;> simp [beq]
  | list element inductionHypothesis =>
      intro right
      cases right <;> simp [beq, inductionHypothesis]
  | pair first second firstCompares secondCompares =>
      intro right
      cases right <;> simp [beq, firstCompares, secondCompares]
  | fn params result paramsCompare resultCompares =>
      intro right
      cases right with
      | fn params' result' =>
          have allCompare :=
            beqAll_iff params'
              fun param member _ => paramsCompare param member
          simp [beq, allCompare, resultCompares]
      | _ => simp [beq]

instance : DecidableEq Ty :=
  fun _ _ => decidable_of_iff _ beq_iff

mutual

/-- Whether `part` occurs in a type, the whole type included. -/
def contains (whole part : Ty) : Bool :=
  whole = part ||
    match whole with
    | .list element => element.contains part
    | .pair first second => first.contains part || second.contains part
    | .fn params result => anyContains params part || result.contains part
    | _ => false

/-- Whether `part` occurs in one of several types. -/
def anyContains (types : List Ty) (part : Ty) : Bool :=
  match types with
  | [] => false
  | ty :: rest => ty.contains part || anyContains rest part

end

mutual

/-- The variables of a type from left to right, with repetitions. -/
def vars : Ty → List TypeVar
  | .int | .bool | .char | .void => []
  | .list element => element.vars
  | .pair first second => first.vars ++ second.vars
  | .fn params result => varsAll params ++ result.vars
  | .var id => [id]

/-- The variables of several types from left to right, with repetitions. -/
def varsAll : List Ty → List TypeVar
  | [] => []
  | ty :: rest => ty.vars ++ varsAll rest

end

mutual

/-- The number of constructors in a type. -/
def size : Ty → Nat
  | .int | .bool | .char | .void | .var _ => 1
  | .list element => element.size + 1
  | .pair first second => first.size + second.size + 1
  | .fn params result => sizeAll params + result.size + 1

/-- The number of constructors in several types. -/
def sizeAll : List Ty → Nat
  | [] => 0
  | ty :: rest => ty.size + sizeAll rest

end

/-- Every type has at least one constructor. -/
theorem size_pos (ty : Ty) : 0 < ty.size := by
  cases ty <;> simp [size]

/-- A variable occurs in a list of types when it occurs in one of them. -/
theorem mem_varsAll
    {id : TypeVar}
    {types : List Ty} :
    id ∈ varsAll types ↔ ∃ ty ∈ types, id ∈ ty.vars := by
  induction types with
  | nil => simp [varsAll]
  | cons ty rest inductionHypothesis => simp [varsAll, inductionHypothesis]

/-- Whether a type is a variable. -/
def isVar : Ty → Bool
  | .var _ => true
  | _ => false

mutual

/-- The type in which every variable is replaced, all at once, by `assign`. -/
def instantiate (assign : TypeVar → Ty) : Ty → Ty
  | .int => .int
  | .bool => .bool
  | .char => .char
  | .void => .void
  | .list element => .list (element.instantiate assign)
  | .pair first second =>
      .pair (first.instantiate assign) (second.instantiate assign)
  | .fn params result =>
      .fn (instantiateAll assign params) (result.instantiate assign)
  | .var id => assign id

/-- Several types with their variables replaced by `assign`. -/
def instantiateAll (assign : TypeVar → Ty) : List Ty → List Ty
  | [] => []
  | ty :: rest => ty.instantiate assign :: instantiateAll assign rest

end

/-- Several types are instantiated one by one. -/
theorem instantiateAll_eq_map
    (assign : TypeVar → Ty)
    (types : List Ty) :
    instantiateAll assign types = types.map (instantiate assign) := by
  induction types with
  | nil => rfl
  | cons ty rest inductionHypothesis =>
      simp [instantiateAll, inductionHypothesis]

/-- Replacing every variable by itself changes nothing. -/
@[simp]
theorem instantiate_var (ty : Ty) : ty.instantiate .var = ty := by
  induction ty with
  | fn params result paramsFixed resultFixed =>
      simp only [instantiate, instantiateAll_eq_map, resultFixed]
      congr 1
      simpa using List.map_congr_left paramsFixed
  | _ => simp_all [instantiate]

/-- Two instantiations in turn are one. -/
theorem instantiate_instantiate
    (first second : TypeVar → Ty)
    (ty : Ty) :
    (ty.instantiate first).instantiate second =
      ty.instantiate fun id => (first id).instantiate second := by
  induction ty with
  | fn params result paramsCompose resultComposes =>
      simp only [instantiate, instantiateAll_eq_map, resultComposes,
        List.map_map]
      congr 1
      exact List.map_congr_left paramsCompose
  | _ => simp_all [instantiate]

/-- Assignments that agree on the variables of a type give the same instance. -/
theorem instantiate_congr
    {first second : TypeVar → Ty}
    {ty : Ty}
    (agree : ∀ id ∈ ty.vars, first id = second id) :
    ty.instantiate first = ty.instantiate second := by
  induction ty with
  | list element inductionHypothesis =>
      simp only [instantiate, inductionHypothesis agree]
  | pair left right leftAgrees rightAgrees =>
      simp only [vars, List.mem_append] at agree
      simp only [instantiate,
        leftAgrees fun id member => agree id (Or.inl member),
        rightAgrees fun id member => agree id (Or.inr member)]
  | fn params result paramsAgree resultAgrees =>
      simp only [vars, List.mem_append, mem_varsAll] at agree
      simp only [instantiate, instantiateAll_eq_map,
        resultAgrees fun id member => agree id (Or.inr member)]
      congr 1
      exact List.map_congr_left fun param paramMember =>
        paramsAgree param paramMember fun id member =>
          agree id (Or.inl ⟨param, paramMember, member⟩)
  | var id => exact agree id (by simp [vars])
  | _ => rfl

/-- The variables of an instance come from the images of the variables. -/
theorem mem_vars_instantiate
    {assign : TypeVar → Ty}
    {id : TypeVar}
    {ty : Ty} :
    id ∈ (ty.instantiate assign).vars ↔
      ∃ source ∈ ty.vars, id ∈ (assign source).vars := by
  induction ty with
  | list element inductionHypothesis =>
      simpa only [instantiate, vars] using inductionHypothesis
  | pair left right leftVars rightVars =>
      simp only [instantiate, vars, List.mem_append, leftVars, rightVars]
      constructor
      · rintro (⟨source, member, image⟩ | ⟨source, member, image⟩)
        · exact ⟨source, Or.inl member, image⟩
        · exact ⟨source, Or.inr member, image⟩
      · rintro ⟨source, member | member, image⟩
        · exact Or.inl ⟨source, member, image⟩
        · exact Or.inr ⟨source, member, image⟩
  | fn params result paramVars resultVars =>
      simp only [instantiate, instantiateAll_eq_map, vars, List.mem_append,
        mem_varsAll, List.mem_map, resultVars]
      constructor
      · rintro (⟨_, ⟨param, paramMember, rfl⟩, member⟩ |
          ⟨source, member, image⟩)
        · obtain ⟨source, sourceMember, image⟩ :=
            (paramVars param paramMember).mp member
          exact ⟨source, Or.inl ⟨param, paramMember, sourceMember⟩, image⟩
        · exact ⟨source, Or.inr member, image⟩
      · rintro ⟨source, ⟨param, paramMember, member⟩ | member, image⟩
        · exact Or.inl ⟨_, ⟨param, paramMember, rfl⟩,
            (paramVars param paramMember).mpr ⟨source, member, image⟩⟩
        · exact Or.inr ⟨source, member, image⟩
  | var source => simp [instantiate, vars]
  | _ => simp [instantiate, vars]

end Ty

deriving instance DecidableEq for Signature

end SplTyping
