import SplTyping.Context
import SplTyping.Proofs.Assignment

namespace SplTyping

/-!
# Settled substitutions

In a settled substitution no variable is bound twice, and no bound type mentions
a variable that is bound at the same place or before it. Narrowing by such a
substitution removes every bound variable for good, and the assignment that it
describes solves it.

Liveness is a predicate on type variables: a type is within `live` if it mentions
live variables only. Unification of types within `live` finds settled bindings
within `live`, and narrowing by them leaves only what they do not bind.
-/

namespace Ty

/-- Every variable of the type is live. -/
def Within (live : TypeVar → Prop) (ty : Ty) : Prop :=
  ∀ id ∈ ty.vars, live id

theorem Within.mono
    {live wider : TypeVar → Prop}
    {ty : Ty}
    (within : ty.Within live)
    (widens : ∀ id, live id → wider id) :
    ty.Within wider :=
  fun id member => widens id (within id member)

@[simp]
theorem within_var
    {live : TypeVar → Prop}
    {id : TypeVar} :
    (Ty.var id).Within live ↔ live id := by
  simp [Within, vars]

@[simp]
theorem within_list
    {live : TypeVar → Prop}
    {element : Ty} :
    (Ty.list element).Within live ↔ element.Within live := by
  simp [Within, vars]

@[simp]
theorem within_pair
    {live : TypeVar → Prop}
    {first second : Ty} :
    (Ty.pair first second).Within live ↔
      first.Within live ∧ second.Within live := by
  simp only [Within, vars, List.forall_mem_append]

@[simp]
theorem within_fn
    {live : TypeVar → Prop}
    {params : List Ty}
    {result : Ty} :
    (Ty.fn params result).Within live ↔
      (∀ param ∈ params, param.Within live) ∧ result.Within live := by
  simp only [Within, vars, List.forall_mem_append, mem_varsAll]
  apply and_congr_left
  intro _
  constructor
  · intro within param paramMember id member
    exact within id ⟨param, paramMember, member⟩
  · rintro within id ⟨param, paramMember, member⟩
    exact within param paramMember id member

@[simp]
theorem within_int {live : TypeVar → Prop} : Ty.int.Within live := by
  simp [Within, vars]

@[simp]
theorem within_bool {live : TypeVar → Prop} : Ty.bool.Within live := by
  simp [Within, vars]

@[simp]
theorem within_char {live : TypeVar → Prop} : Ty.char.Within live := by
  simp [Within, vars]

@[simp]
theorem within_void {live : TypeVar → Prop} : Ty.void.Within live := by
  simp [Within, vars]

end Ty

namespace Binding

/-- The bound variable and the variables of the bound type are live. -/
def Within (live : TypeVar → Prop) (binding : Binding) : Prop :=
  live binding.var ∧ binding.ty.Within live

/-- Replacement changes nothing where the bound variable does not occur. -/
theorem replaceIn_of_not_mem
    {binding : Binding}
    {ty : Ty}
    (absent : binding.var ∉ ty.vars) :
    binding.replaceIn ty = ty := by
  have unchanged :
      ty.instantiate
          (fun id => if binding.var = id then binding.ty else .var id) =
        ty.instantiate .var := by
    apply Ty.instantiate_congr
    intro id member
    rw [if_neg]
    rintro rfl
    exact absent member
  rw [replaceIn, unchanged, Ty.instantiate_var]

/-- Replacement takes the bound variable away. -/
theorem within_replaceIn
    {live : TypeVar → Prop}
    {binding : Binding}
    {ty : Ty}
    (own : binding.var ∉ binding.ty.vars)
    (bindingWithin : binding.Within live)
    (within : ty.Within live) :
    (binding.replaceIn ty).Within
      (fun id => live id ∧ id ≠ binding.var) := by
  intro id member
  rcases mem_vars_replaceIn.mp member with
    ⟨inTy, notBound⟩ | ⟨_, inBound⟩
  · exact ⟨within id inTy, notBound⟩
  · refine ⟨bindingWithin.2 id inBound, ?_⟩
    rintro rfl
    exact own inBound

end Binding

namespace Substitution

/-- Every binding is within the live variables. -/
def Within (live : TypeVar → Prop) (substitution : Substitution) : Prop :=
  ∀ binding ∈ substitution, binding.Within live

/-- The live variables that a substitution does not bind. -/
def leaves
    (substitution : Substitution)
    (live : TypeVar → Prop) :
    TypeVar → Prop :=
  fun id => live id ∧ ∀ binding ∈ substitution, id ≠ binding.var

theorem Within.mono
    {live wider : TypeVar → Prop}
    {substitution : Substitution}
    (within : substitution.Within live)
    (widens : ∀ id, live id → wider id) :
    substitution.Within wider :=
  fun binding member =>
    ⟨widens _ (within binding member).1, (within binding member).2.mono widens⟩

@[simp]
theorem within_nil {live : TypeVar → Prop} : Within live [] := by
  simp [Within]

@[simp]
theorem within_cons
    {live : TypeVar → Prop}
    {binding : Binding}
    {later : Substitution} :
    Within live (binding :: later) ↔
      binding.Within live ∧ Within live later := by
  simp [Within]

@[simp]
theorem within_append
    {live : TypeVar → Prop}
    {first second : Substitution} :
    Within live (first ++ second) ↔
      Within live first ∧ Within live second := by
  simp only [Within, List.forall_mem_append]

@[simp]
theorem leaves_nil (live : TypeVar → Prop) : leaves [] live = live := by
  funext id
  simp [leaves]

theorem leaves_append
    (first second : Substitution)
    (live : TypeVar → Prop) :
    leaves (first ++ second) live = second.leaves (first.leaves live) := by
  funext id
  simp only [leaves, List.forall_mem_append, and_assoc]

/-- Narrowing within live variables stays there. -/
theorem Within.apply
    {live : TypeVar → Prop}
    {substitution : Substitution}
    {ty : Ty}
    (within : substitution.Within live)
    (tyWithin : ty.Within live) :
    (substitution.apply ty).Within live := by
  induction substitution generalizing ty with
  | nil => rwa [apply_nil]
  | cons binding later inductionHypothesis =>
      obtain ⟨headWithin, laterWithin⟩ := within_cons.mp within
      rw [apply_cons]
      apply inductionHypothesis laterWithin
      intro id member
      rcases Binding.mem_vars_replaceIn.mp member with
        ⟨inTy, _⟩ | ⟨_, inBound⟩
      · exact tyWithin id inTy
      · exact headWithin.2 id inBound

/-- Narrowing changes nothing where no bound variable occurs. -/
theorem apply_of_unbound
    {substitution : Substitution}
    {ty : Ty}
    (unbound : ty.Within fun id => ∀ binding ∈ substitution, id ≠ binding.var) :
    substitution.apply ty = ty := by
  induction substitution with
  | nil => exact apply_nil ty
  | cons binding later inductionHypothesis =>
      have absent : binding.var ∉ ty.vars := by
        intro member
        exact unbound binding.var member binding List.mem_cons_self rfl
      rw [apply_cons, Binding.replaceIn_of_not_mem absent]
      apply inductionHypothesis
      intro id member other inLater
      exact unbound id member other (List.mem_cons_of_mem binding inLater)

/--
No variable is bound twice, and no bound type mentions a variable bound by its
own binding or an earlier one.
-/
structure Settled (substitution : Substitution) : Prop where
  own : ∀ binding ∈ substitution, binding.var ∉ binding.ty.vars
  apart :
    substitution.Pairwise fun earlier later =>
      earlier.var ≠ later.var ∧ earlier.var ∉ later.ty.vars

theorem settled_nil : Settled [] where
  own := by simp
  apart := .nil

namespace Settled

theorem head
    {binding : Binding}
    {later : Substitution}
    (settled : Settled (binding :: later)) :
    binding.var ∉ binding.ty.vars :=
  settled.own binding List.mem_cons_self

theorem tail
    {binding : Binding}
    {later : Substitution}
    (settled : Settled (binding :: later)) :
    Settled later where
  own := fun other member =>
    settled.own other (List.mem_cons_of_mem binding member)
  apart := (List.pairwise_cons.mp settled.apart).2

/-- What comes after a binding keeps away from its variable. -/
theorem later_within
    {live : TypeVar → Prop}
    {binding : Binding}
    {later : Substitution}
    (settled : Settled (binding :: later))
    (within : later.Within live) :
    later.Within fun id => live id ∧ id ≠ binding.var := by
  intro other member
  obtain ⟨differ, absent⟩ :=
    (List.pairwise_cons.mp settled.apart).1 other member
  refine ⟨⟨(within other member).1, differ.symm⟩, ?_⟩
  intro id idMember
  refine ⟨(within other member).2 id idMember, ?_⟩
  rintro rfl
  exact absent idMember

/-- A part of a settled substitution is settled. -/
theorem sublist
    {part whole : Substitution}
    (settled : Settled whole)
    (isPart : part.Sublist whole) :
    Settled part where
  own := fun binding member => settled.own binding (isPart.subset member)
  apart := settled.apart.sublist isPart

/-- Bindings within what a settled substitution leaves extend it. -/
theorem append
    {live : TypeVar → Prop}
    {first second : Substitution}
    (firstSettled : Settled first)
    (secondSettled : Settled second)
    (within : second.Within (first.leaves live)) :
    Settled (first ++ second) where
  own := by
    rw [List.forall_mem_append]
    exact ⟨firstSettled.own, secondSettled.own⟩
  apart := by
    rw [List.pairwise_append]
    refine ⟨firstSettled.apart, secondSettled.apart, ?_⟩
    intro earlier inFirst later inSecond
    obtain ⟨varLeft, tyLeft⟩ := within later inSecond
    refine ⟨(varLeft.2 earlier inFirst).symm, ?_⟩
    intro member
    exact (tyLeft earlier.var member).2 earlier inFirst rfl

/-- Narrowing by a settled substitution leaves no bound variable. -/
theorem apply_within
    {live : TypeVar → Prop}
    {substitution : Substitution}
    {ty : Ty}
    (settled : substitution.Settled)
    (within : substitution.Within live)
    (tyWithin : ty.Within live) :
    (substitution.apply ty).Within (substitution.leaves live) := by
  induction substitution generalizing live ty with
  | nil => simpa using tyWithin
  | cons binding later inductionHypothesis =>
      obtain ⟨headWithin, laterWithin⟩ := within_cons.mp within
      have replaced :=
        Binding.within_replaceIn settled.head headWithin tyWithin
      rw [apply_cons]
      refine (inductionHypothesis settled.tail
        (settled.later_within laterWithin) replaced).mono ?_
      rintro id ⟨⟨isLive, notHead⟩, notLater⟩
      refine ⟨isLive, ?_⟩
      rw [List.forall_mem_cons]
      exact ⟨notHead, notLater⟩

/-- Narrowing a second time by a settled substitution changes nothing. -/
theorem apply_apply
    {substitution : Substitution}
    (settled : substitution.Settled)
    (ty : Ty) :
    substitution.apply (substitution.apply ty) = substitution.apply ty := by
  apply apply_of_unbound
  have within :
      (substitution.apply ty).Within (substitution.leaves fun _ => True) :=
    settled.apply_within
      (fun _ _ => ⟨trivial, fun _ _ => trivial⟩) (fun _ _ => trivial)
  exact within.mono fun id left => left.2

/-- The assignment that a settled substitution describes solves it. -/
theorem solvedBy_image
    {substitution : Substitution}
    (settled : substitution.Settled) :
    substitution.SolvedBy substitution.image := by
  induction substitution with
  | nil => exact solvedBy_nil _
  | cons binding later inductionHypothesis =>
      have throughHead
          {ty : Ty}
          (absent : binding.var ∉ ty.vars) :
          ty.instantiate (image (binding :: later)) =
            ty.instantiate (image later) := by
        have narrowed := apply_cons binding later ty
        rwa [Binding.replaceIn_of_not_mem absent] at narrowed
      rw [solvedBy_cons]
      constructor
      · rw [Binding.SolvedBy, throughHead settled.head]
        simp [image]
      · intro other member
        obtain ⟨differ, absent⟩ :=
          (List.pairwise_cons.mp settled.apart).1 other member
        rw [Binding.SolvedBy, throughHead absent]
        simp only [image, if_neg differ]
        exact inductionHypothesis settled.tail other member

end Settled

end Substitution

namespace Equation

/-- Both sides of every equation are within the live variables. -/
def AllWithin (live : TypeVar → Prop) (equations : List Equation) : Prop :=
  ∀ equation ∈ equations,
    equation.left.Within live ∧ equation.right.Within live

/-- A variable of an equation within live variables is live. -/
theorem live_of_mem_vars
    {live : TypeVar → Prop}
    {equation : Equation}
    {id : TypeVar}
    (within : equation.left.Within live ∧ equation.right.Within live)
    (member : id ∈ equation.vars) :
    live id := by
  rcases List.mem_append.mp member with inLeft | inRight
  · exact within.1 id inLeft
  · exact within.2 id inRight

/-- A binding found for an equation is within what the equation is within. -/
theorem orient?_within
    {live : TypeVar → Prop}
    {flow : Flow}
    {equation : Equation}
    {binding : Binding}
    (found : equation.orient? flow = some binding)
    (within : equation.left.Within live ∧ equation.right.Within live) :
    binding.Within live :=
  ⟨live_of_mem_vars within (orient?_var_mem found),
    fun _ member => live_of_mem_vars within (orient?_vars_subset found member)⟩

/-- The parts of an equation are within what the equation is within. -/
theorem parts_within
    {live : TypeVar → Prop}
    {equation : Equation}
    {smaller : List Equation}
    (taken : equation.parts = .ok smaller)
    (within : equation.left.Within live ∧ equation.right.Within live) :
    AllWithin live smaller := by
  have subset := parts_vars_subset taken
  intro part partMember
  have partLive : ∀ id ∈ part.vars, live id := by
    intro id member
    exact live_of_mem_vars within
      (subset (List.mem_flatMap.mpr ⟨part, partMember, member⟩))
  exact
    ⟨fun id member => partLive id (List.mem_append.mpr (Or.inl member)),
      fun id member => partLive id (List.mem_append.mpr (Or.inr member))⟩

end Equation

/-- The bindings found for a work list are settled and bring in no variable. -/
theorem solve_settled
    {live : TypeVar → Prop}
    {flow : Flow}
    {equations : List Equation}
    {found : Substitution}
    (solved : solve flow equations = .ok found)
    (within : Equation.AllWithin live equations) :
    found.Settled ∧ found.Within live := by
  induction equations using solve.induct flow generalizing live found with
  | case1 =>
      rw [solve_nil] at solved
      cases solved
      exact ⟨Substitution.settled_nil, Substitution.within_nil⟩
  | case2 equation rest same inductionHypothesis =>
      rw [solve_cons_same same] at solved
      exact inductionHypothesis solved (List.forall_mem_cons.mp within).2
  | case3 equation rest differ binding oriented inductionHypothesis =>
      obtain ⟨headWithin, restWithin⟩ := List.forall_mem_cons.mp within
      have own := Equation.orient?_not_mem oriented
      have bindingWithin := Equation.orient?_within oriented headWithin
      obtain ⟨bindings, later, rfl⟩ := solve_cons_bind_ok differ oriented solved
      -- The bound variable is gone from all that is solved afterwards.
      have replacedWithin :
          Equation.AllWithin (fun id => live id ∧ id ≠ binding.var)
            (Equation.replaceAll binding rest) := by
        intro replaced member
        obtain ⟨waiting, isWaiting, rfl⟩ := List.mem_map.mp member
        obtain ⟨leftWithin, rightWithin⟩ := restWithin waiting isWaiting
        exact
          ⟨Binding.within_replaceIn own bindingWithin leftWithin,
            Binding.within_replaceIn own bindingWithin rightWithin⟩
      obtain ⟨laterSettled, laterWithin⟩ :=
        inductionHypothesis later replacedWithin
      constructor
      · constructor
        · rw [List.forall_mem_cons]
          exact ⟨own, laterSettled.own⟩
        · rw [List.pairwise_cons]
          refine ⟨?_, laterSettled.apart⟩
          intro other member
          obtain ⟨varLive, tyLive⟩ := laterWithin other member
          refine ⟨varLive.2.symm, ?_⟩
          intro inTy
          exact (tyLive binding.var inTy).2 rfl
      · rw [Substitution.within_cons]
        exact ⟨bindingWithin, laterWithin.mono fun _ stillLive => stillLive.1⟩
  | case4 equation rest differ notOriented smaller taken inductionHypothesis =>
      obtain ⟨headWithin, restWithin⟩ := List.forall_mem_cons.mp within
      rw [solve_cons_parts differ notOriented taken] at solved
      apply inductionHypothesis solved
      rw [Equation.AllWithin, List.forall_mem_append]
      exact ⟨Equation.parts_within taken headWithin, restWithin⟩
  | case5 equation rest differ notOriented failure failed =>
      rw [solve_cons_fail differ notOriented failed] at solved
      cases solved

/-- Unification finds settled bindings within the variables of its two types. -/
theorem unify_settled
    {live : TypeVar → Prop}
    {left right : Ty}
    {flow : Flow}
    {found : Substitution}
    (unified : unify left right flow = .ok found)
    (leftWithin : left.Within live)
    (rightWithin : right.Within live) :
    found.Settled ∧ found.Within live := by
  apply solve_settled unified
  simpa [Equation.AllWithin] using ⟨leftWithin, rightWithin⟩

/-- Unification makes two types equal. -/
theorem apply_eq_of_unify
    {left right : Ty}
    {flow : Flow}
    {found : Substitution}
    (unified : unify left right flow = .ok found) :
    found.apply left = found.apply right := by
  have within (ty : Ty) : ty.Within fun _ => True :=
    fun _ _ => trivial
  have settled := (unify_settled unified (within left) (within right)).1
  exact (unify_ok_iff unified found.image).mp settled.solvedBy_image

namespace Signature

/-- Every parameter and the result are within the live variables. -/
def Within (live : TypeVar → Prop) (signature : Signature) : Prop :=
  (∀ param ∈ signature.params, param.Within live) ∧
    signature.result.Within live

end Signature

namespace Context

/-- All types of variables and functions are within the live variables. -/
structure Within (live : TypeVar → Prop) (context : Context) : Prop where
  vars :
    ∀ name ty, context.vars.get? name = some ty → ty.Within live
  funs :
    ∀ name signature,
      context.funs.get? name = some signature → signature.Within live

theorem within_empty {live : TypeVar → Prop} : Context.empty.Within live where
  vars := by simp [empty]
  funs := by simp [empty]

theorem Within.mono
    {live wider : TypeVar → Prop}
    {context : Context}
    (within : context.Within live)
    (widens : ∀ id, live id → wider id) :
    context.Within wider where
  vars := fun name ty bound => (within.vars name ty bound).mono widens
  funs := fun name signature bound =>
    ⟨fun param member =>
        ((within.funs name signature bound).1 param member).mono widens,
      (within.funs name signature bound).2.mono widens⟩

theorem Within.bindVar
    {live : TypeVar → Prop}
    {context : Context}
    {ty : Ty}
    (within : context.Within live)
    (name : String)
    (tyWithin : ty.Within live) :
    (context.bindVar name ty).Within live where
  vars := by
    intro other otherTy bound
    simp only [Context.bindVar, Table.get?_insert] at bound
    split at bound
    · cases bound
      exact tyWithin
    · exact within.vars other otherTy bound
  funs := within.funs

theorem Within.bindFun
    {live : TypeVar → Prop}
    {context : Context}
    {signature : Signature}
    (within : context.Within live)
    (name : String)
    (signatureWithin : signature.Within live) :
    (context.bindFun name signature).Within live where
  vars := within.vars
  funs := by
    intro other otherSignature bound
    simp only [Context.bindFun, Table.get?_insert] at bound
    split at bound
    · cases bound
      exact signatureWithin
    · exact within.funs other otherSignature bound

/-- A narrowed context is within whatever narrowing types ends up in. -/
theorem Within.narrow_of_apply
    {live result : TypeVar → Prop}
    {context : Context}
    {substitution : Substitution}
    (within : context.Within live)
    (narrows :
      ∀ ty : Ty, ty.Within live → (substitution.apply ty).Within result) :
    (context.narrow substitution).Within result where
  vars := by
    intro name ty bound
    simp only [narrow, Table.get?_map, Option.map_eq_some_iff] at bound
    obtain ⟨ty, bound, rfl⟩ := bound
    exact narrows ty (within.vars name ty bound)
  funs := by
    intro name signature bound
    simp only [narrow, Table.get?_map, Option.map_eq_some_iff] at bound
    obtain ⟨signature, bound, rfl⟩ := bound
    obtain ⟨paramsWithin, resultWithin⟩ := within.funs name signature bound
    refine ⟨?_, narrows _ resultWithin⟩
    intro narrowed member
    obtain ⟨param, paramMember, rfl⟩ := List.mem_map.mp member
    exact narrows param (paramsWithin param paramMember)

end Context

end SplTyping
