import SplTyping.Proofs.Settled

namespace SplTyping

/-!
# Most general unification

The bindings that `unify` returns make the two types equal and are as general as
possible: every assignment that makes the types equal does not notice them. An
error means that there is no such assignment.

`Unifies` states unification as a recursion over the shape of the types: the
parts of two types of one shape are unified in turn, each one narrowed by what
was found before it. A derivation is a finite tree of recursive calls.
`unifies_iff` says that every two types have exactly one, and that its outcome
is the outcome of the work list.
-/

namespace Equation

/-- Both sides narrowed by a substitution. -/
def narrow (found : Substitution) (equation : Equation) : Equation where
  left := found.apply equation.left
  right := found.apply equation.right

@[simp]
theorem narrow_nil (equation : Equation) : equation.narrow [] = equation := by
  simp [narrow]

/-- Narrowing by one binding is replacing its variable. -/
theorem narrow_singleton
    (binding : Binding) :
    narrow [binding] = replaceBy binding := by
  funext equation
  simp [narrow, replaceBy, Substitution.apply_cons]

theorem narrow_narrow
    (first second : Substitution)
    (equation : Equation) :
    (equation.narrow first).narrow second = equation.narrow (first ++ second) := by
  simp [narrow, Substitution.apply_append]

end Equation

mutual

/-- The recursive calls of unification end in an outcome. -/
inductive Unifies (flow : Flow) :
    Equation → Except UnifyError Substitution → Prop where
  /-- Equal types ask for nothing. -/
  | same
      {equation : Equation}
      (same : equation.left = equation.right) :
      Unifies flow equation (.ok [])
  /-- A variable that does not occur on the other side is bound to it. -/
  | bind
      {equation : Equation}
      {binding : Binding}
      (differ : equation.left ≠ equation.right)
      (oriented : equation.orient? flow = some binding) :
      Unifies flow equation (.ok [binding])
  /-- Types of one shape are unified part by part. -/
  | parts
      {equation : Equation}
      {smaller : List Equation}
      {outcome : Except UnifyError Substitution}
      (differ : equation.left ≠ equation.right)
      (notOriented : equation.orient? flow = none)
      (taken : equation.parts = .ok smaller)
      (inTurn : UnifiesInTurn flow smaller [] outcome) :
      Unifies flow equation outcome
  /-- All other types have no common instance. -/
  | stuck
      {equation : Equation}
      {failure : UnifyError}
      (differ : equation.left ≠ equation.right)
      (notOriented : equation.orient? flow = none)
      (failed : equation.parts = .error failure) :
      Unifies flow equation (.error failure)

/--
Equations are unified from the left, each one narrowed by what is known when its
turn comes. The outcome includes what was known at the start.
-/
inductive UnifiesInTurn (flow : Flow) :
    List Equation → Substitution → Except UnifyError Substitution → Prop where
  | done
      {known : Substitution} :
      UnifiesInTurn flow [] known (.ok known)
  | next
      {equation : Equation}
      {rest : List Equation}
      {known found : Substitution}
      {outcome : Except UnifyError Substitution}
      (head : Unifies flow (equation.narrow known) (.ok found))
      (later : UnifiesInTurn flow rest (known ++ found) outcome) :
      UnifiesInTurn flow (equation :: rest) known outcome
  | failed
      {equation : Equation}
      {rest : List Equation}
      {known : Substitution}
      {failure : UnifyError}
      (head : Unifies flow (equation.narrow known) (.error failure)) :
      UnifiesInTurn flow (equation :: rest) known (.error failure)

end

namespace UnifiesInTurn

/-- What narrows all equations beforehand may count as known instead. -/
theorem of_narrowed
    {flow : Flow}
    {equations : List Equation}
    {first known : Substitution}
    {outcome : Except UnifyError Substitution}
    (inTurn :
      UnifiesInTurn flow (equations.map (Equation.narrow first)) known outcome) :
    UnifiesInTurn flow equations (first ++ known) (outcome.map (first ++ ·)) := by
  induction equations generalizing known with
  | nil =>
      cases inTurn with
      | done => exact .done
  | cons equation rest inductionHypothesis =>
      cases inTurn with
      | next head later =>
          rw [Equation.narrow_narrow] at head
          have laterInTurn := inductionHypothesis later
          rw [← List.append_assoc] at laterInTurn
          exact .next head laterInTurn
      | failed head =>
          rw [Equation.narrow_narrow] at head
          exact .failed head

/-- The first equations of a list come to an outcome before the others begin. -/
theorem split
    {flow : Flow}
    {first second : List Equation}
    {known : Substitution}
    {outcome : Except UnifyError Substitution}
    (inTurn : UnifiesInTurn flow (first ++ second) known outcome) :
    (∃ failure,
        outcome = .error failure ∧
          UnifiesInTurn flow first known (.error failure)) ∨
      ∃ reached,
        UnifiesInTurn flow first known (.ok reached) ∧
          UnifiesInTurn flow second reached outcome := by
  induction first generalizing known with
  | nil => exact Or.inr ⟨known, .done, inTurn⟩
  | cons equation rest inductionHypothesis =>
      cases inTurn with
      | next head later =>
          rcases inductionHypothesis later with
            ⟨failure, isFailure, restFailed⟩ | ⟨reached, restDone, secondInTurn⟩
          · exact Or.inl ⟨failure, isFailure, .next head restFailed⟩
          · exact Or.inr ⟨reached, .next head restDone, secondInTurn⟩
      | failed head => exact Or.inl ⟨_, rfl, .failed head⟩

end UnifiesInTurn

/-- The recursion ends on every work list, in the outcome of the solver. -/
theorem solve_unifiesInTurn
    (flow : Flow)
    (equations : List Equation) :
    UnifiesInTurn flow equations [] (solve flow equations) := by
  induction equations using solve.induct flow with
  | case1 =>
      rw [solve_nil]
      exact .done
  | case2 equation rest same inductionHypothesis =>
      have head : Unifies flow (equation.narrow []) (.ok []) := by
        rw [Equation.narrow_nil]
        exact .same same
      rw [solve_cons_same same]
      exact .next head inductionHypothesis
  | case3 equation rest differ binding oriented inductionHypothesis =>
      have head : Unifies flow (equation.narrow []) (.ok [binding]) := by
        rw [Equation.narrow_nil]
        exact .bind differ oriented
      rw [solve_cons_bind differ oriented]
      rw [Equation.replaceAll, ← Equation.narrow_singleton] at inductionHypothesis ⊢
      exact .next head inductionHypothesis.of_narrowed
  | case4 equation rest differ notOriented smaller taken inductionHypothesis =>
      -- The outcome of the parts is that of the equation they were taken from.
      have head
          {outcome : Except UnifyError Substitution}
          (inTurn : UnifiesInTurn flow smaller [] outcome) :
          Unifies flow (equation.narrow []) outcome := by
        rw [Equation.narrow_nil]
        exact .parts differ notOriented taken inTurn
      rw [solve_cons_parts differ notOriented taken]
      rcases inductionHypothesis.split with
        ⟨failure, isFailure, partsFailed⟩ | ⟨reached, partsDone, restInTurn⟩
      · rw [isFailure]
        exact .failed (head partsFailed)
      · exact .next (head partsDone) restInTurn
  | case5 equation rest differ notOriented failure failed =>
      have head : Unifies flow (equation.narrow []) (.error failure) := by
        rw [Equation.narrow_nil]
        exact .stuck differ notOriented failed
      rw [solve_cons_fail differ notOriented failed]
      exact .failed head

/-- The recursion ends on every two types, in the outcome of `unify`. -/
theorem unifies_unify
    (left right : Ty)
    (flow : Flow) :
    Unifies flow ⟨left, right⟩ (unify left right flow) := by
  have inTurn := solve_unifiesInTurn flow [⟨left, right⟩]
  rw [unify]
  generalize solve flow [⟨left, right⟩] = outcome at inTurn ⊢
  cases inTurn with
  | next head later =>
      rw [Equation.narrow_nil] at head
      cases later with
      | done => exact head
  | failed head => rwa [Equation.narrow_nil] at head

mutual

/-- Two types have one outcome only. -/
theorem Unifies.unique
    {flow : Flow}
    {equation : Equation}
    {outcome other : Except UnifyError Substitution} :
    Unifies flow equation outcome →
      Unifies flow equation other →
        outcome = other
  | .same same, otherEnds => by
      cases otherEnds with
      | same => rfl
      | bind differ | parts differ | stuck differ => exact (differ same).elim
  | .bind differ oriented, otherEnds => by
      cases otherEnds with
      | same same => exact (differ same).elim
      | bind _ otherOriented =>
          rw [oriented] at otherOriented
          cases otherOriented
          rfl
      | parts _ notOriented | stuck _ notOriented =>
          rw [oriented] at notOriented
          cases notOriented
  | .parts differ notOriented taken inTurn, otherEnds => by
      cases otherEnds with
      | same same => exact (differ same).elim
      | bind _ oriented =>
          rw [notOriented] at oriented
          cases oriented
      | parts _ _ otherTaken otherInTurn =>
          have sameParts := Except.ok.inj (otherTaken.symm.trans taken)
          rw [sameParts] at otherInTurn
          exact inTurn.unique otherInTurn
      | stuck _ _ failed =>
          rw [taken] at failed
          cases failed
  | .stuck differ notOriented failed, otherEnds => by
      cases otherEnds with
      | same same => exact (differ same).elim
      | bind _ oriented =>
          rw [notOriented] at oriented
          cases oriented
      | parts _ _ taken =>
          rw [failed] at taken
          cases taken
      | stuck _ _ otherFailed =>
          rw [failed] at otherFailed
          cases otherFailed
          rfl

/-- A list of equations has one outcome only. -/
theorem UnifiesInTurn.unique
    {flow : Flow}
    {equations : List Equation}
    {known : Substitution}
    {outcome other : Except UnifyError Substitution} :
    UnifiesInTurn flow equations known outcome →
      UnifiesInTurn flow equations known other →
        outcome = other
  | .done, .done => rfl
  | .next head later, .next otherHead otherLater => by
      have sameFound := Except.ok.inj (head.unique otherHead)
      rw [← sameFound] at otherLater
      exact later.unique otherLater
  | .next head _, .failed otherHead => by cases head.unique otherHead
  | .failed head, .next otherHead _ => by cases head.unique otherHead
  | .failed head, .failed otherHead => by
      cases head.unique otherHead
      rfl

end

/-- The outcome of the recursion is the outcome of the work list. -/
theorem unifies_iff
    {left right : Ty}
    {flow : Flow}
    {outcome : Except UnifyError Substitution} :
    Unifies flow ⟨left, right⟩ outcome ↔ unify left right flow = outcome := by
  constructor
  · exact (unifies_unify left right flow).unique
  · rintro rfl
    exact unifies_unify left right flow

/-- The bindings found make two types equal, and keep them equal whatever follows. -/
theorem unify_equalizes
    {left right : Ty}
    {flow : Flow}
    {found : Substitution}
    (unified : unify left right flow = .ok found) :
    found.apply left = found.apply right ∧
      ∀ later : Substitution,
        (found ++ later).apply left = (found ++ later).apply right := by
  have equal := apply_eq_of_unify unified
  refine ⟨equal, ?_⟩
  intro later
  rw [Substitution.apply_append, Substitution.apply_append, equal]

/-- Parameters that share a variable are unified before the result that they decide. -/
theorem sharedParams_equalized :
    Substitution.apply
        [⟨0, .var 2, .confined⟩, ⟨2, .bool, .confined⟩,
          ⟨1, .list .bool, .confined⟩]
        (.fn [.var 0, .var 0] (.var 1)) =
      Substitution.apply
        [⟨0, .var 2, .confined⟩, ⟨2, .bool, .confined⟩,
          ⟨1, .list .bool, .confined⟩]
        (.fn [.var 2, .bool] (.list (.var 2))) := by
  have unified :
      unify (.fn [.var 0, .var 0] (.var 1))
          (.fn [.var 2, .bool] (.list (.var 2))) .confined =
        .ok
          [⟨0, .var 2, .confined⟩, ⟨2, .bool, .confined⟩,
            ⟨1, .list .bool, .confined⟩] := by cbv
  exact (unify_equalizes unified).1

namespace Equation

/-- Two types that are reported as a mismatch are the two sides as they stand. -/
theorem eq_of_parts_mismatch
    {equation : Equation}
    {left right : Ty}
    (failed : equation.parts = .error (.mismatch left right)) :
    equation = ⟨left, right⟩ := by
  unfold parts at failed
  split at failed
  · cases failed
  · cases failed
  · split at failed <;> cases failed
  · cases failed
    rfl

end Equation

/-- Two types that are reported as a mismatch have no common instance. -/
theorem instantiate_ne_of_solve_mismatch
    {flow : Flow}
    {equations : List Equation}
    {left right : Ty}
    (failed : solve flow equations = .error (.mismatch left right))
    (assign : Assignment) :
    left.instantiate assign ≠ right.instantiate assign := by
  induction equations using solve.induct flow with
  | case1 =>
      rw [solve_nil] at failed
      cases failed
  | case2 equation rest same inductionHypothesis =>
      rw [solve_cons_same same] at failed
      exact inductionHypothesis failed
  | case3 equation rest differ binding oriented inductionHypothesis =>
      rw [solve_cons_bind differ oriented] at failed
      cases later : solve flow (Equation.replaceAll binding rest) with
      | error failure =>
          simp only [later, Except.map, Except.error.injEq] at failed
          exact inductionHypothesis (failed ▸ later)
      | ok bindings => simp [later, Except.map] at failed
  | case4 equation rest differ notOriented smaller taken inductionHypothesis =>
      rw [solve_cons_parts differ notOriented taken] at failed
      exact inductionHypothesis failed
  | case5 equation rest differ notOriented failure stuck =>
      rw [solve_cons_fail differ notOriented stuck] at failed
      cases failed
      have unsolvable :=
        Equation.not_solvedBy_of_stuck differ notOriented stuck assign
      rw [Equation.eq_of_parts_mismatch stuck] at unsolvable
      exact unsolvable

/--
Types with a common instance are unified, and every assignment that makes them
equal factors through the bindings found. An error means that no assignment makes
the types equal, nor the two types that a mismatch reports.
-/
theorem unify_mostGeneral
    (left right : Ty)
    (flow : Flow) :
    (∀ assign : Assignment,
        left.instantiate assign = right.instantiate assign →
          ∃ found,
            unify left right flow = .ok found ∧
              ∀ other : Assignment,
                left.instantiate other = right.instantiate other →
                  ∀ ty : Ty,
                    (found.apply ty).instantiate other = ty.instantiate other) ∧
      ∀ failure,
        unify left right flow = .error failure →
          (∀ assign : Assignment,
              left.instantiate assign ≠ right.instantiate assign) ∧
            ∀ reported reported',
              failure = .mismatch reported reported' →
                ∀ assign : Assignment,
                  reported.instantiate assign ≠ reported'.instantiate assign := by
  constructor
  · intro assign equal
    obtain ⟨found, unified, _⟩ := unify_of_equal flow equal
    refine ⟨found, unified, ?_⟩
    intro other otherEqual ty
    exact ((unify_ok_iff unified other).mpr otherEqual).instantiate_apply ty
  · intro failure failed
    constructor
    · intro assign equal
      obtain ⟨found, unified, _⟩ := unify_of_equal flow equal
      rw [failed] at unified
      cases unified
    · rintro reported reported' rfl assign
      exact instantiate_ne_of_solve_mismatch failed assign

/--
Two variables that the first parts equate: a common instance factors through the
bindings, and there is none if the second parts put one variable inside the other.
-/
theorem equatedVars_mostGeneral :
    (∃ found,
        unify (.pair (.var 0) (.var 0)) (.pair (.var 1) (.list (.var 2)))
            .confined =
          .ok found ∧
          ∀ other : Assignment,
            (Ty.pair (.var 0) (.var 0)).instantiate other =
              (Ty.pair (.var 1) (.list (.var 2))).instantiate other →
              ∀ ty : Ty,
                (found.apply ty).instantiate other = ty.instantiate other) ∧
      (∀ assign : Assignment,
        (Ty.pair (.var 0) (.var 0)).instantiate assign ≠
          (Ty.pair (.var 1) (.list (.var 1))).instantiate assign) ∧
      ∀ assign : Assignment,
        (Ty.var 1).instantiate assign ≠ (Ty.list (.var 1)).instantiate assign := by
  have equal :
      (Ty.pair (.var 0) (.var 0)).instantiate
          (fun id => if id = 2 then .int else .list .int) =
        (Ty.pair (.var 1) (.list (.var 2))).instantiate
          (fun id => if id = 2 then .int else .list .int) := by rfl
  have failed :
      unify (.pair (.var 0) (.var 0)) (.pair (.var 1) (.list (.var 1))) .global =
        .error (.mismatch (.var 1) (.list (.var 1))) := by cbv
  obtain ⟨apart, reportedApart⟩ := (unify_mostGeneral _ _ _).2 _ failed
  exact
    ⟨(unify_mostGeneral _ _ _).1 _ equal, apart, reportedApart _ _ rfl⟩

/-- Bindings to different variables are no more than the variables there are. -/
theorem Substitution.Settled.length_le
    {substitution : Substitution}
    {ids : List TypeVar}
    (settled : substitution.Settled)
    (within : substitution.Within fun id => id ∈ ids) :
    substitution.length ≤ distinctCount ids := by
  have nodup : (substitution.map Binding.var).Nodup := by
    rw [List.Nodup, List.pairwise_map]
    exact settled.apart.imp fun apart => apart.1
  rw [← List.length_map Binding.var]
  apply List.Nodup.length_le_of_subset nodup
  intro id member
  obtain ⟨binding, inFound, rfl⟩ := List.mem_map.mp member
  exact List.mem_eraseDups.mpr (within binding inFound).1

/--
The recursion of unification ends on every two types. The bindings found are
settled, bring in no variable, are no more than the types have variables, and
narrow a type once and for all.
-/
theorem unify_triangular
    (left right : Ty)
    (flow : Flow) :
    (∀ outcome,
        Unifies flow ⟨left, right⟩ outcome ↔ unify left right flow = outcome) ∧
      ∀ found,
        unify left right flow = .ok found →
          found.Within (fun id => id ∈ left.vars ++ right.vars) ∧
            found.Settled ∧
            found.length ≤ distinctCount (left.vars ++ right.vars) ∧
            ∀ ty : Ty, found.apply (found.apply ty) = found.apply ty := by
  refine ⟨fun outcome => unifies_iff, ?_⟩
  intro found unified
  obtain ⟨settled, within⟩ :=
    unify_settled unified
      (fun _ member => List.mem_append_left right.vars member)
      (fun _ member => List.mem_append_right left.vars member)
  exact ⟨within, settled, settled.length_le within, settled.apply_apply⟩

/-- Three bindings for three variables, each one bound to what is bound later. -/
theorem chainedBindings_settled :
    Substitution.Settled
        [⟨0, .list (.var 1), .confined⟩, ⟨1, .var 2, .confined⟩,
          ⟨2, .int, .confined⟩] ∧
      3 ≤ distinctCount [0, 1, 0, 1, 2] := by
  have unified :
      unify (.fn [.var 0, .var 1] (.var 0))
          (.fn [.list (.var 1), .var 2] (.list .int)) .confined =
        .ok
          [⟨0, .list (.var 1), .confined⟩, ⟨1, .var 2, .confined⟩,
            ⟨2, .int, .confined⟩] := by cbv
  obtain ⟨_, settled, atMost, _⟩ := (unify_triangular _ _ _).2 _ unified
  exact ⟨settled, atMost⟩

end SplTyping
