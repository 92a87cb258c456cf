import SplTyping.Proofs.Settled

namespace SplTyping

/-!
# The side of a bound variable

Where an argument on the left is unified with a parameter on the right, the flow
of a binding says on which side its variable stood when it was bound. By then
earlier bindings have put variables of one side into the other, so the flow names
the side as narrowed by these bindings, and not always the side from which the
variable came.

The two are the same for a side on which no variable occurs twice. Such a side is
never changed by a binding: a variable that is bound does not occur in it again.
-/

/-- A side of an equation. -/
inductive Side where
  | left
  | right

namespace Side

/-- The opposite side. -/
def other : Side → Side
  | .left => .right
  | .right => .left

theorem eq_or_eq_other (first second : Side) :
    first = second ∨ first = second.other := by
  cases first <;> cases second <;> simp [other]

@[simp]
theorem other_other (side : Side) : side.other.other = side := by
  cases side <;> rfl

/-- The flow at which a variable on one side is bound. -/
def flow : Side → Flow
  | .left => .confined
  | .right => .global

theorem flow_inj
    {first second : Side}
    (same : first.flow = second.flow) :
    first = second := by
  cases first with
  | left =>
      cases second with
      | left => rfl
      | right => cases same
  | right =>
      cases second with
      | left => cases same
      | right => rfl

end Side

namespace Equation

/-- The type on one side. -/
def on (side : Side) (equation : Equation) : Ty :=
  match side with
  | .left => equation.left
  | .right => equation.right

theorem on_replaceBy
    (side : Side)
    (binding : Binding)
    (equation : Equation) :
    (equation.replaceBy binding).on side =
      binding.replaceIn (equation.on side) := by
  cases side <;> rfl

/-- A binding found for an equation binds the variable on one side to the other. -/
theorem orient?_on
    {equation : Equation}
    {binding : Binding}
    (oriented : equation.orient? .confined = some binding) :
    ∃ side : Side,
      equation.on side = .var binding.var ∧
        equation.on side.other = binding.ty ∧
        binding.flow = side.flow := by
  obtain ⟨left, right⟩ := equation
  unfold orient? at oriented
  split at oriented
  · rename_i shape
    cases shape
    split at oriented
    · cases oriented
    · cases oriented
      exact ⟨.left, rfl, rfl, rfl⟩
  · rename_i shape
    cases shape
    split at oriented
    · cases oriented
    · cases oriented
      exact ⟨.right, rfl, rfl, rfl⟩
  · cases oriented

/-- The variables on one side of a work list, with repetitions. -/
def varsOn (side : Side) (equations : List Equation) : List TypeVar :=
  equations.flatMap fun equation => (equation.on side).vars

@[simp]
theorem varsOn_cons
    (side : Side)
    (equation : Equation)
    (rest : List Equation) :
    varsOn side (equation :: rest) =
      (equation.on side).vars ++ varsOn side rest :=
  List.flatMap_cons

@[simp]
theorem varsOn_append
    (side : Side)
    (first second : List Equation) :
    varsOn side (first ++ second) = varsOn side first ++ varsOn side second :=
  List.flatMap_append

theorem varsOn_zipWith
    {lefts rights : List Ty}
    (sameLength : lefts.length = rights.length)
    (side : Side) :
    varsOn side (List.zipWith Equation.mk lefts rights) =
      match side with
      | .left => Ty.varsAll lefts
      | .right => Ty.varsAll rights := by
  induction lefts generalizing rights with
  | nil =>
      cases rights with
      | nil => cases side <;> rfl
      | cons right rights => simp at sameLength
  | cons left lefts inductionHypothesis =>
      cases rights with
      | nil => simp at sameLength
      | cons right rights =>
          simp only [List.length_cons, Nat.add_right_cancel_iff] at sameLength
          rw [List.zipWith_cons_cons, varsOn_cons,
            inductionHypothesis sameLength]
          cases side <;> rfl

/-- The parts of an equation have the variables of its sides, in their order. -/
theorem parts_varsOn
    {equation : Equation}
    {smaller : List Equation}
    (taken : equation.parts = .ok smaller)
    (side : Side) :
    varsOn side smaller = (equation.on side).vars := by
  obtain ⟨left, right⟩ := equation
  unfold parts at taken
  split at taken
  · rename_i shape
    cases shape
    cases taken
    cases side <;> simp [varsOn, on, Ty.vars]
  · rename_i shape
    cases shape
    cases taken
    cases side <;> simp [varsOn, on, Ty.vars]
  · rename_i shape
    cases shape
    split at taken
    · rename_i sameLength
      cases taken
      rw [varsOn_append, varsOn_zipWith sameLength]
      cases side <;> simp [varsOn, on, Ty.vars]
    · cases taken
  · cases taken

/-- A binding is for a variable of the side that its flow names. -/
theorem orient?_mem_varsOn
    {side : Side}
    {equation : Equation}
    {binding : Binding}
    (oriented : equation.orient? .confined = some binding)
    (isFlow : binding.flow = side.flow)
    (rest : List Equation) :
    binding.var ∈ varsOn side (equation :: rest) := by
  obtain ⟨bound, isVar, _, hasFlow⟩ := orient?_on oriented
  obtain rfl := Side.flow_inj (hasFlow.symm.trans isFlow)
  rw [varsOn_cons, isVar]
  exact List.mem_append_left _ (List.mem_singleton_self _)

/-- The bindings found leave no variables but those that the sides leave. -/
theorem varsOn_replaceAll_subset
    {side : Side}
    {equations : List Equation}
    {whole : Ty}
    (within : varsOn side equations ⊆ whole.vars)
    (binding : Binding) :
    varsOn side (replaceAll binding equations) ⊆
      (binding.replaceIn whole).vars := by
  intro id member
  obtain ⟨_, isReplaced, inSide⟩ := List.mem_flatMap.mp member
  obtain ⟨waiting, isWaiting, rfl⟩ := List.mem_map.mp isReplaced
  have inWhole {id : TypeVar} (inWaiting : id ∈ (waiting.on side).vars) :
      id ∈ whole.vars :=
    within (List.mem_flatMap.mpr ⟨waiting, isWaiting, inWaiting⟩)
  rw [on_replaceBy, Binding.mem_vars_replaceIn] at inSide
  rw [Binding.mem_vars_replaceIn]
  exact inSide.imp (And.imp_left inWhole) (And.imp_left inWhole)

end Equation

/-- Every binding found binds a variable of the side that its flow names. -/
theorem solve_flow
    {equations : List Equation}
    {found : Substitution}
    (solved : solve .confined equations = .ok found)
    (whole : Side → Ty)
    (within :
      ∀ side, Equation.varsOn side equations ⊆ (whole side).vars) :
    ∀ earlier binding later side,
      found = earlier ++ binding :: later →
        binding.flow = Side.flow side →
          binding.var ∈ (Substitution.apply earlier (whole side)).vars := by
  induction equations using solve.induct .confined generalizing found whole with
  | case1 =>
      rw [solve_nil] at solved
      cases solved
      intro earlier binding later side isFound
      simp at isFound
  | case2 equation rest same inductionHypothesis =>
      rw [solve_cons_same same] at solved
      apply inductionHypothesis solved whole
      intro side
      exact List.Subset.trans (List.subset_append_right _ _) (within side)
  | case3 equation rest differ binding oriented inductionHypothesis =>
      obtain ⟨bindings, later, rfl⟩ := solve_cons_bind_ok differ oriented solved
      rintro (_ | ⟨first, earlier⟩) last rest' side isFound isFlow
      · obtain ⟨rfl, rfl⟩ := List.cons.inj isFound
        rw [Substitution.apply_nil]
        exact within side (Equation.orient?_mem_varsOn oriented isFlow rest)
      · obtain ⟨rfl, isRest⟩ := List.cons.inj isFound
        rw [Substitution.apply_cons]
        refine inductionHypothesis later
          (fun side => binding.replaceIn (whole side)) ?_ earlier last rest'
          side isRest isFlow
        intro side
        apply Equation.varsOn_replaceAll_subset
        exact List.Subset.trans (List.subset_append_right _ _) (within side)
  | case4 equation rest differ notOriented smaller taken inductionHypothesis =>
      rw [solve_cons_parts differ notOriented taken] at solved
      apply inductionHypothesis solved whole
      intro side
      rw [Equation.varsOn_append, Equation.parts_varsOn taken]
      exact within side
  | case5 equation rest differ notOriented failure failed =>
      rw [solve_cons_fail differ notOriented failed] at solved
      cases solved

namespace Equation

/-- No variable occurs twice on one side of a work list, and none on both sides. -/
structure LinearOn (side : Side) (equations : List Equation) : Prop where
  once : (varsOn side equations).Nodup
  apart : ∀ id ∈ varsOn side equations, id ∉ varsOn side.other equations

namespace LinearOn

variable {side : Side} {equation : Equation} {rest : List Equation}
variable {binding : Binding}

theorem head_apart
    (linear : LinearOn side (equation :: rest))
    {id : TypeVar}
    (inHead : id ∈ (equation.on side).vars) :
    id ∉ varsOn side rest := by
  have once := linear.once
  rw [varsOn_cons, List.nodup_append] at once
  exact fun inRest => once.2.2 id inHead id inRest rfl

theorem tail (linear : LinearOn side (equation :: rest)) : LinearOn side rest where
  once := by
    have once := linear.once
    rw [varsOn_cons, List.nodup_append] at once
    exact once.2.1
  apart := fun id inSide inOther =>
    linear.apart id (List.mem_append_right _ inSide)
      (List.mem_append_right _ inOther)

/-- A variable that is bound does not occur on the side again. -/
theorem bound_not_mem
    (linear : LinearOn side (equation :: rest))
    (oriented : equation.orient? .confined = some binding) :
    binding.var ∉ varsOn side rest := by
  obtain ⟨bound, isVar, _, _⟩ := orient?_on oriented
  have isBound : binding.var ∈ (equation.on bound).vars := by
    rw [isVar]
    exact List.mem_singleton_self _
  rcases bound.eq_or_eq_other side with rfl | rfl
  · exact linear.head_apart isBound
  · intro inRest
    exact linear.apart _ (List.mem_append_right _ inRest)
      (List.mem_append_left _ isBound)

theorem varsOn_replaceAll
    (linear : LinearOn side (equation :: rest))
    (oriented : equation.orient? .confined = some binding) :
    varsOn side (replaceAll binding rest) = varsOn side rest := by
  have absent := linear.bound_not_mem oriented
  rw [varsOn, replaceAll, List.flatMap_map, varsOn, List.flatMap_def,
    List.flatMap_def]
  congr 1
  refine List.map_congr_left fun waiting isWaiting => ?_
  rw [on_replaceBy, Binding.replaceIn_of_not_mem]
  exact fun inWaiting =>
    absent (List.mem_flatMap.mpr ⟨waiting, isWaiting, inWaiting⟩)

/-- A side without repeated variables stays so when a variable is bound. -/
theorem replace
    (linear : LinearOn side (equation :: rest))
    (oriented : equation.orient? .confined = some binding) :
    LinearOn side (replaceAll binding rest) where
  once := by
    rw [linear.varsOn_replaceAll oriented]
    exact linear.tail.once
  apart := by
    rw [linear.varsOn_replaceAll oriented]
    intro id inSide inOther
    obtain ⟨_, isReplaced, inOther⟩ := List.mem_flatMap.mp inOther
    obtain ⟨waiting, isWaiting, rfl⟩ := List.mem_map.mp isReplaced
    have inRest {id : TypeVar} (inWaiting : id ∈ (waiting.on side.other).vars) :
        id ∈ varsOn side.other rest :=
      List.mem_flatMap.mpr ⟨waiting, isWaiting, inWaiting⟩
    rw [on_replaceBy, Binding.mem_vars_replaceIn] at inOther
    rcases inOther with ⟨inWaiting, _⟩ | ⟨boundInWaiting, inBound⟩
    · exact linear.tail.apart id inSide (inRest inWaiting)
    · -- The other side has got a type in place of the bound variable. If the
      -- variable is on this side, then it does not occur on the other one.
      obtain ⟨bound, isVar, isTy, _⟩ := orient?_on oriented
      rcases bound.eq_or_eq_other side with rfl | rfl
      · refine linear.apart binding.var ?_
          (List.mem_append_right _ (inRest boundInWaiting))
        rw [varsOn_cons, isVar]
        exact List.mem_append_left _ (List.mem_singleton_self _)
      · rw [Side.other_other] at isTy
        rw [← isTy] at inBound
        exact linear.head_apart inBound inSide

end LinearOn

end Equation

/-- On a side without repeated variables, the variables bound are those of the side. -/
theorem solve_flow_linear
    {side : Side}
    {equations : List Equation}
    {found : Substitution}
    (solved : solve .confined equations = .ok found)
    (linear : Equation.LinearOn side equations) :
    ∀ binding ∈ found, binding.flow = side.flow →
      binding.var ∈ Equation.varsOn side equations := by
  induction equations using solve.induct .confined generalizing found with
  | case1 =>
      rw [solve_nil] at solved
      cases solved
      intro binding member
      cases member
  | case2 equation rest same inductionHypothesis =>
      rw [solve_cons_same same] at solved
      intro binding member isFlow
      exact List.mem_append_right _
        (inductionHypothesis solved linear.tail binding member isFlow)
  | case3 equation rest differ binding oriented inductionHypothesis =>
      obtain ⟨bindings, later, rfl⟩ := solve_cons_bind_ok differ oriented solved
      intro last member isFlow
      rcases List.mem_cons.mp member with rfl | inLater
      · exact Equation.orient?_mem_varsOn oriented isFlow rest
      · have inRest :=
          inductionHypothesis later (linear.replace oriented) last inLater
            isFlow
        rw [linear.varsOn_replaceAll oriented] at inRest
        exact List.mem_append_right _ inRest
  | case4 equation rest differ notOriented smaller taken inductionHypothesis =>
      rw [solve_cons_parts differ notOriented taken] at solved
      have sameVars (side : Side) :
          Equation.varsOn side (smaller ++ rest) =
            Equation.varsOn side (equation :: rest) := by
        rw [Equation.varsOn_append, Equation.parts_varsOn taken,
          Equation.varsOn_cons]
      rw [← sameVars]
      refine inductionHypothesis solved ⟨?_, ?_⟩
      · rw [sameVars]
        exact linear.once
      · rw [sameVars, sameVars]
        exact linear.apart
  | case5 equation rest differ notOriented failure failed =>
      rw [solve_cons_fail differ notOriented failed] at solved
      cases solved

/--
Where an argument is unified with a parameter, a confined binding is for a
variable of the argument and a global one for a variable of the parameter, both
as narrowed by the bindings found before. If the two types have no variable in
common, and none occurs twice in the argument, then the confined bindings are for
variables of the argument as it was given; likewise for the parameter and the
global bindings.
-/
theorem unify_flow
    {left right : Ty}
    {found : Substitution}
    (unified : unify left right .confined = .ok found) :
    (∀ earlier binding later,
      found = earlier ++ binding :: later →
        (binding.flow = .confined →
            binding.var ∈ (Substitution.apply earlier left).vars) ∧
          (binding.flow = .global →
            binding.var ∈ (Substitution.apply earlier right).vars)) ∧
      ((∀ id ∈ left.vars, id ∉ right.vars) →
        (left.vars.Nodup →
          ∀ binding ∈ found, binding.flow = .confined →
            binding.var ∈ left.vars) ∧
          (right.vars.Nodup →
            ∀ binding ∈ found, binding.flow = .global →
              binding.var ∈ right.vars)) := by
  have varsOn (side : Side) :
      Equation.varsOn side [⟨left, right⟩] =
        (Equation.on side ⟨left, right⟩).vars := by
    simp [Equation.varsOn]
  constructor
  · intro earlier binding later isFound
    have bySide :=
      solve_flow unified (fun side => Equation.on side ⟨left, right⟩)
        (fun side => (varsOn side) ▸ List.Subset.refl _) earlier binding later
    exact ⟨bySide .left isFound, bySide .right isFound⟩
  · intro apart
    constructor
    · intro once
      have linear : Equation.LinearOn .left [⟨left, right⟩] := by
        refine ⟨?_, ?_⟩
        · rw [varsOn]
          exact once
        · rw [varsOn, varsOn]
          exact apart
      have bound := solve_flow_linear unified linear
      rw [varsOn] at bound
      exact bound
    · intro once
      have linear : Equation.LinearOn .right [⟨left, right⟩] := by
        refine ⟨?_, ?_⟩
        · rw [varsOn]
          exact once
        · rw [varsOn, varsOn]
          exact fun id inRight inLeft => apart id inLeft inRight
      have bound := solve_flow_linear unified linear
      rw [varsOn] at bound
      exact bound

/-- A list of what the parameter asks for, and one that the argument brings. -/
theorem mixedLists_flow :
    (∀ binding ∈
        [Binding.mk 0 (.list (.var 2)) .confined, ⟨3, .list (.var 1), .global⟩],
      binding.flow = .confined →
        binding.var ∈ (Ty.pair (.var 0) (.list (.var 1))).vars) ∧
      3 ∈ (Substitution.apply [⟨0, .list (.var 2), .confined⟩]
        (.pair (.list (.var 2)) (.var 3))).vars := by
  have unified :
      unify (.pair (.var 0) (.list (.var 1))) (.pair (.list (.var 2)) (.var 3))
          .confined =
        .ok [⟨0, .list (.var 2), .confined⟩, ⟨3, .list (.var 1), .global⟩] := by
    cbv
  obtain ⟨narrowed, given⟩ := unify_flow unified
  constructor
  · exact (given (by decide)).1 (by decide)
  · exact (narrowed [⟨0, .list (.var 2), .confined⟩]
      ⟨3, .list (.var 1), .global⟩ [] rfl).2 rfl

/--
A variable that occurs twice carries a variable of the other side over. Given a
pair of one variable, the parameter's own variable is bound at a confined flow;
where the parameter has one variable twice, the argument's is bound at a global
flow.
-/
theorem unify_flow_crosses :
    (unify (.pair (.var 0) (.var 0)) (.pair (.var 1) .int) .confined =
        .ok [⟨0, .var 1, .confined⟩, ⟨1, .int, .confined⟩] ∧
      1 ∉ (Ty.pair (.var 0) (.var 0)).vars) ∧
      unify (.pair (.list (.var 0)) (.list .int)) (.pair (.var 1) (.var 1))
          .confined =
        .ok [⟨1, .list (.var 0), .global⟩, ⟨0, .int, .global⟩] ∧
      0 ∉ (Ty.pair (.var 1) (.var 1)).vars := by
  refine ⟨⟨?_, by decide⟩, ?_, by decide⟩
  · cbv
  · cbv

end SplTyping
