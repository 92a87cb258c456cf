import SplTyping.Proofs.Freshness
import SplTyping.Proofs.TypeSlots
import SplTyping.Proofs.Unification
import SplTyping.Proofs.Waiting

namespace SplTyping

/-!
# Only drawn variables are mentioned

Inference draws type variables by counting, and mentions no others than those it
was given and those it has drawn. This is shown for a limit that the counter
does not pass during a run: if all that a run starts with is below the limit,
then so is all that it finds out, writes into slots, sets aside and reports
(`Leaves`). The limit stays the same throughout a run, so that nothing has to be
carried from one bound to the next. Slots and errors that were there before the
run are left out of this.
-/

/--
All type variables that a state mentions are live: those that names stand for,
those of the settled findings, and those that waiting calls remember.
-/
structure State.Within (live : TypeVar → Prop) (state : State) : Prop where
  names : ∀ name id, state.names.get? name = some id → live id
  settled : state.settled.Within live
  waiting :
    state.AllWaiting fun _ pending =>
      pending.context.Within live ∧ pending.expected.Within live

/-- A state within some variables is within any more. -/
theorem State.Within.mono
    {live wider : TypeVar → Prop}
    {state : State}
    (within : state.Within live)
    (widens : ∀ id, live id → wider id) :
    state.Within wider where
  names := fun name id isNamed => widens id (within.names name id isNamed)
  settled := within.settled.mono widens
  waiting :=
    within.waiting.mono
      (fun _ _ ⟨contextWithin, expectedWithin⟩ =>
        ⟨contextWithin.mono widens, expectedWithin.mono widens⟩)
      rfl

/-- An error mentions types over live variables only. -/
def TypeError.Within (live : TypeVar → Prop) (error : TypeError) : Prop :=
  ∀ ty ∈ error.types, ty.Within live

/--
A state of a run: its type variables are below the limit, and so are those of
the errors that were not recorded earlier.
-/
structure State.Holds
    (limit : TypeVar)
    (earlier : List TypeError)
    (state : State) :
    Prop where
  within : state.Within (· < limit)
  errors :
    ∀ error ∈ state.diagnostics.errors,
      error ∈ earlier ∨ error.Within (· < limit)

/-- What a run leaves behind is below the limit. -/
structure Leaves
    (limit : TypeVar)
    (earlier : List TypeError)
    (old new : List (Option Ty))
    (found : Substitution)
    (after : State) :
    Prop where
  state : after.Holds limit earlier
  found : found.Within (· < limit)
  slots : SlotsWritten (· < limit) old new

section Runs

variable {limit : TypeVar} {earlier : List TypeError}

namespace State.Holds

variable {state : State}

/-- Drawing variables writes no type. -/
theorem draw (holds : state.Holds limit earlier) (count : Nat) :
    (state.draw count).Holds limit earlier where
  within :=
    ⟨holds.within.names, holds.within.settled, holds.within.waiting⟩
  errors := holds.errors

/-- An error may be recorded if its types are within the limit. -/
theorem record
    {error : TypeError}
    (holds : state.Holds limit earlier)
    (errorWithin : error.Within (· < limit)) :
    (state.record error).Holds limit earlier where
  within :=
    ⟨holds.within.names, holds.within.settled, holds.within.waiting⟩
  errors := by
    intro other isRecorded
    rcases List.mem_append.mp isRecorded with before | isNew
    · exact holds.errors other before
    · rw [List.mem_singleton.mp isNew]
      exact Or.inr errorWithin

/-- An error without types may always be recorded. -/
theorem recordPlain
    {error : TypeError}
    (holds : state.Holds limit earlier)
    (plain : error.types = []) :
    (state.record error).Holds limit earlier := by
  refine holds.record fun ty isMentioned => ?_
  rw [plain] at isMentioned
  cases isMentioned

/--
A call may be set aside if its context and expected type are within the limit.
-/
theorem setAside
    {call : Call}
    {context : Context}
    {expected : Ty}
    {guard : Option ValueGuard}
    (holds : state.Holds limit earlier)
    (contextWithin : context.Within (· < limit))
    (expectedWithin : expected.Within (· < limit)) :
    (state.setAside call context expected guard).Holds limit earlier where
  within :=
    { names := holds.within.names
      settled := holds.within.settled
      waiting := holds.within.waiting.setAside ⟨contextWithin, expectedWithin⟩ }
  errors := holds.errors

end State.Holds

/-- Findings within some variables lead a context to no others. -/
theorem Context.Within.narrow
    {live : TypeVar → Prop}
    {context : Context}
    {found : Substitution}
    (within : context.Within live)
    (foundWithin : found.Within live) :
    (context.narrow found).Within live :=
  within.narrow_of_apply fun _ => foundWithin.apply

/-- A failed unification mentions no other variables than its two types. -/
theorem solve_error_within
    {live : TypeVar → Prop}
    {flow : Flow}
    {equations : List Equation}
    {failure : UnifyError}
    (failed : solve flow equations = .error failure)
    (within : Equation.AllWithin live equations) :
    ∀ ty ∈ failure.types, ty.Within live := by
  induction equations using solve.induct flow with
  | case1 =>
      rw [solve_nil] at failed
      cases failed
  | case2 equation rest same inductionHypothesis =>
      rw [solve_cons_same same] at failed
      exact inductionHypothesis failed (List.forall_mem_cons.mp within).2
  | case3 equation rest differ binding oriented inductionHypothesis =>
      obtain ⟨headWithin, restWithin⟩ := List.forall_mem_cons.mp within
      have found : Substitution.Within live [binding] := by
        simpa using Equation.orient?_within oriented headWithin
      rw [solve_cons_bind differ oriented] at failed
      rw [Equation.replaceAll, ← Equation.narrow_singleton]
        at failed inductionHypothesis
      cases later : solve flow (rest.map (Equation.narrow [binding])) with
      | error failure' =>
          simp only [later, Except.map, Except.error.injEq] at failed
          subst failed
          refine inductionHypothesis later ?_
          rw [Equation.AllWithin, List.forall_mem_map]
          intro waiting isWaiting
          obtain ⟨leftWithin, rightWithin⟩ := restWithin waiting isWaiting
          exact ⟨found.apply leftWithin, found.apply rightWithin⟩
      | ok bindings => simp [later, Except.map] at failed
  | case4 equation rest differ notOriented smaller taken inductionHypothesis =>
      obtain ⟨headWithin, restWithin⟩ := List.forall_mem_cons.mp within
      rw [solve_cons_parts differ notOriented taken] at failed
      apply inductionHypothesis failed
      rw [Equation.AllWithin, List.forall_mem_append]
      exact ⟨Equation.parts_within taken headWithin, restWithin⟩
  | case5 equation rest differ notOriented failure' stuck =>
      rw [solve_cons_fail differ notOriented stuck] at failed
      cases failed
      cases failure with
      | arity expected found => simp [UnifyError.types]
      | mismatch left right =>
          rw [Equation.eq_of_parts_mismatch stuck] at within
          simpa [UnifyError.types] using within _ List.mem_cons_self

/-- Making types below the limit equal finds and reports nothing above it. -/
theorem unifyOrReport_holds
    {left right : Ty}
    {flow : Flow}
    {explain : UnifyError → TypeError}
    {found : Substitution}
    {before after : State}
    (run : Runs (unifyOrReport left right flow explain) before found after)
    (mentions : ∀ failure, (explain failure).types ⊆ failure.types)
    (holds : before.Holds limit earlier)
    (leftWithin : left.Within (· < limit))
    (rightWithin : right.Within (· < limit)) :
    after.Holds limit earlier ∧ found.Within (· < limit) := by
  rcases runs_unifyOrReport run with
    ⟨unified, rfl⟩ | ⟨failure, failed, rfl, rfl⟩
  · exact ⟨holds, (unify_settled unified leftWithin rightWithin).2⟩
  · refine ⟨holds.record fun ty isMentioned => ?_, Substitution.within_nil⟩
    refine solve_error_within failed ?_ ty (mentions failure isMentioned)
    simpa [Equation.AllWithin] using ⟨leftWithin, rightWithin⟩

/-- Asking for a type finds nothing beyond the limit. -/
theorem constrain_holds
    {expected actual : Ty}
    {demand : Demand}
    {span : Span}
    {found : Substitution}
    {before after : State}
    (run : Runs (constrain expected actual demand span) before found after)
    (holds : before.Holds limit earlier)
    (expectedWithin : expected.Within (· < limit))
    (actualWithin : actual.Within (· < limit)) :
    after.Holds limit earlier ∧ found.Within (· < limit) :=
  unifyOrReport_holds run (TypeError.ofUnify_types_subset _ _ _) holds
    expectedWithin actualWithin

/-- A limit for the state at the end is one for the state at the start. -/
theorem State.Grows.limited
    {before after : State}
    (grows : before.Grows after)
    (limited : after.nextVar ≤ limit) :
    before.nextVar ≤ limit :=
  Nat.le_trans grows.nextVar limited

theorem Ty.within_drawn
    {id : TypeVar}
    (drawn : id < limit) :
    (Ty.var id).Within (· < limit) :=
  Ty.within_var.mpr drawn

/-- Finding the types of an operator writes no type into the state. -/
theorem OperatorRun.holds
    {op : BinOp}
    {left right result : Ty}
    {before after : State}
    (run : OperatorRun before op left right result after)
    (holds : before.Holds limit earlier) :
    after.Holds limit earlier := by
  cases run with
  | cons | compared => exact holds.draw 1
  | arithmetic | ordered | logical => exact holds

/-- The types of an operator are within the variables that were drawn for it. -/
theorem OperatorRun.within_limit
    {op : BinOp}
    {left right result : Ty}
    {before after : State}
    (run : OperatorRun before op left right result after)
    (limited : after.nextVar ≤ limit) :
    left.Within (· < limit) ∧ right.Within (· < limit) ∧
      result.Within (· < limit) := by
  have supply : Supply anyVar before.nextVar := fun _ _ => trivial
  have below (id : TypeVar) (drawn : Below anyVar after.nextVar id) :
      id < limit :=
    Nat.lt_of_lt_of_le drawn.2 limited
  obtain ⟨leftWithin, rightWithin, resultWithin⟩ := run.within supply
  exact ⟨leftWithin.mono below, rightWithin.mono below, resultWithin.mono below⟩

/-- The bound of a range adds at most one finding or one error. -/
theorem BoundRun.holds
    {found extended : Substitution}
    {first bound : Ty}
    {before after : State}
    (run : BoundRun found before first bound extended after)
    (holds : before.Holds limit earlier)
    (foundWithin : found.Within (· < limit))
    (firstWithin : first.Within (· < limit)) :
    after.Holds limit earlier ∧ extended.Within (· < limit) := by
  cases run with
  | int | char => exact ⟨holds, foundWithin⟩
  | unknown =>
      have isBelow := Ty.within_var.mp firstWithin
      refine ⟨holds, Substitution.within_append.mpr ⟨foundWithin, ?_⟩⟩
      rw [Substitution.within_cons]
      exact ⟨⟨isBelow, Ty.within_int⟩, Substitution.within_nil⟩
  | other _ _ _ mentions =>
      refine ⟨holds.record ?_, foundWithin⟩
      rw [TypeError.Within, mentions]
      simpa using firstWithin

/-- All that is known about a call so far is over live variables. -/
structure CallProgress.Within
    (live : TypeVar → Prop)
    (progress : CallProgress) :
    Prop where
  outward : progress.outward.Within live
  view : progress.view.Within live
  context : progress.context.Within live
  types : ∀ ty ∈ progress.types, ty.Within live

/-- At the start of a call there is nothing but its context. -/
theorem CallProgress.within_start
    {live : TypeVar → Prop}
    {context : Context}
    (within : context.Within live) :
    (CallProgress.start context).Within live where
  outward := Substitution.within_nil
  view := Substitution.within_nil
  context := within
  types := by simp [CallProgress.start]

/-- The progress of a call stays within the limit from argument to argument. -/
theorem CallProgress.Within.next
    {live : TypeVar → Prop}
    {progress : CallProgress}
    {argTy : Ty}
    {found more : Substitution}
    (within : progress.Within live)
    (argWithin : argTy.Within live)
    (foundWithin : found.Within live)
    (moreWithin : more.Within live) :
    (progress.next argTy found more).Within live := by
  have sharedWithin : more.split.1.Within live := fun binding isShared =>
    moreWithin binding (more.split_sublist.subset isShared)
  exact
    { outward := by
        simpa [CallProgress.next] using
          ⟨within.outward, foundWithin, sharedWithin⟩
      view := by
        simpa [CallProgress.next] using ⟨within.view, foundWithin, moreWithin⟩
      context := (within.context.narrow foundWithin).narrow sharedWithin
      types := by
        rw [CallProgress.next, List.forall_mem_append]
        exact ⟨within.types, by simpa using argWithin⟩ }

/-- The error of an argument shows no types but those of the failure. -/
theorem TypeError.ofArgument_types_subset
    (function : String)
    (number : Nat)
    (span : Span)
    (failure : UnifyError) :
    (ofArgument function number span failure).types ⊆ failure.types := by
  cases failure with
  | arity expected found => exact List.Subset.refl _
  | mismatch left right => simp [ofArgument, types, UnifyError.types]

mutual

/--
Inference of an expression leaves types of drawn variables only: in the state,
in the tree and in what it finds.
-/
theorem inferExpr_leaves
    {expr expr' : Expr}
    {context : Context}
    {expected : Ty}
    {demand : Demand}
    {guard : Option ValueGuard}
    {found : Substitution}
    {before after : State}
    (run :
      Runs (inferExpr expr context expected demand guard) before (expr', found)
        after)
    (limited : after.nextVar ≤ limit)
    (holds : before.Holds limit earlier)
    (contextWithin : context.Within (· < limit))
    (expectedWithin : expected.Within (· < limit)) :
    Leaves limit earlier expr.slots expr'.slots found after := by
  cases exprRun_of_runs run with
  | int asked =>
      obtain ⟨afterHolds, foundWithin⟩ :=
        constrain_holds asked holds expectedWithin Ty.within_int
      exact ⟨afterHolds, foundWithin, .fill Ty.within_int⟩
  | bool asked =>
      obtain ⟨afterHolds, foundWithin⟩ :=
        constrain_holds asked holds expectedWithin Ty.within_bool
      exact ⟨afterHolds, foundWithin, .fill Ty.within_bool⟩
  | char asked =>
      obtain ⟨afterHolds, foundWithin⟩ :=
        constrain_holds asked holds expectedWithin Ty.within_char
      exact ⟨afterHolds, foundWithin, .fill Ty.within_char⟩
  | read placeRun =>
      exact inferPlace_leaves placeRun limited holds contextWithin expectedWithin
  | pairVoid firstRun secondRun _ plain =>
      have middleLimited := (inferExpr_grows secondRun).limited limited
      have drawnLimited := (inferExpr_grows firstRun).limited middleLimited
      have first :=
        inferExpr_leaves firstRun middleLimited (holds.draw 2) contextWithin
          (Ty.within_drawn (Nat.lt_of_succ_lt drawnLimited))
      have second :=
        inferExpr_leaves secondRun limited first.state
          (contextWithin.narrow first.found) (Ty.within_drawn drawnLimited)
      exact
        { state := second.state.recordPlain plain
          found := Substitution.within_nil
          slots := (first.slots.append second.slots).append (.refl _) }
  | pair firstRun secondRun _ _ asked =>
      have lastLimited := (unifyOrReport_grows asked).limited limited
      have middleLimited :=
        (inferExpr_grows secondRun).limited lastLimited
      have drawnLimited := (inferExpr_grows firstRun).limited middleLimited
      have firstVar := Ty.within_drawn (Nat.lt_of_succ_lt drawnLimited)
      have secondVar := Ty.within_drawn drawnLimited
      have first :=
        inferExpr_leaves firstRun middleLimited (holds.draw 2) contextWithin
          firstVar
      have second :=
        inferExpr_leaves secondRun lastLimited first.state
          (contextWithin.narrow first.found) secondVar
      have both := Substitution.within_append.mpr ⟨first.found, second.found⟩
      have tyWithin :=
        Ty.within_pair.mpr ⟨both.apply firstVar, both.apply secondVar⟩
      obtain ⟨afterHolds, finalWithin⟩ :=
        constrain_holds asked second.state (both.apply expectedWithin) tyWithin
      have all := Substitution.within_append.mpr ⟨both, finalWithin⟩
      exact
        { state := afterHolds
          found := all
          slots :=
            (first.slots.append second.slots).append
              (.fill (all.apply tyWithin)) }
  | nil asked =>
      have drawnLimited := (unifyOrReport_grows asked).limited limited
      have tyWithin := Ty.within_list.mpr (Ty.within_drawn drawnLimited)
      obtain ⟨afterHolds, foundWithin⟩ :=
        constrain_holds asked (holds.draw 1) expectedWithin tyWithin
      exact ⟨afterHolds, foundWithin, .fill (foundWithin.apply tyWithin)⟩
  | range firstRun boundRun lastRun asked =>
      have endedLimited := (unifyOrReport_grows asked).limited limited
      have boundedLimited := (inferExpr_grows lastRun).limited endedLimited
      have middleLimited := boundRun.grows.limited boundedLimited
      have drawnLimited := (inferExpr_grows firstRun).limited middleLimited
      have firstVar := Ty.within_drawn drawnLimited
      have first :=
        inferExpr_leaves firstRun middleLimited (holds.draw 1) contextWithin
          firstVar
      obtain ⟨boundedHolds, extendedWithin⟩ :=
        boundRun.holds first.state first.found (first.found.apply firstVar)
      have last :=
        inferExpr_leaves lastRun endedLimited boundedHolds
          (contextWithin.narrow extendedWithin) boundRun.within
      have both := Substitution.within_append.mpr ⟨extendedWithin, last.found⟩
      obtain ⟨afterHolds, finalWithin⟩ :=
        constrain_holds asked last.state (both.apply expectedWithin)
          (Ty.within_list.mpr boundRun.within)
      exact
        { state := afterHolds
          found := Substitution.within_append.mpr ⟨both, finalWithin⟩
          slots :=
            (first.slots.append last.slots).append
              (.fill (Ty.within_list.mpr boundRun.within)) }
  | binaryLeftVoid operatorRun leftRun _ plain =>
      have typedLimited := (inferExpr_grows leftRun).limited limited
      obtain ⟨leftTy, _, _⟩ := operatorRun.within_limit typedLimited
      have left :=
        inferExpr_leaves leftRun limited (operatorRun.holds holds) contextWithin
          leftTy
      exact
        { state := left.state.recordPlain plain
          found := Substitution.within_nil
          slots := (left.slots.append (.refl _)).append (.refl _) }
  | binaryRightVoid operatorRun leftRun rightRun _ plain =>
      have middleLimited := (inferExpr_grows rightRun).limited limited
      have typedLimited := (inferExpr_grows leftRun).limited middleLimited
      obtain ⟨leftTy, rightTy, _⟩ := operatorRun.within_limit typedLimited
      have left :=
        inferExpr_leaves leftRun middleLimited (operatorRun.holds holds)
          contextWithin leftTy
      have right :=
        inferExpr_leaves rightRun limited left.state
          (contextWithin.narrow left.found) (left.found.apply rightTy)
      exact
        { state := right.state.recordPlain plain
          found := Substitution.within_nil
          slots := (left.slots.append right.slots).append (.refl _) }
  | binary operatorRun leftRun _ rightRun _ asked =>
      have lastLimited := (unifyOrReport_grows asked).limited limited
      have middleLimited := (inferExpr_grows rightRun).limited lastLimited
      have typedLimited := (inferExpr_grows leftRun).limited middleLimited
      obtain ⟨leftTy, rightTy, resultTy⟩ := operatorRun.within_limit typedLimited
      have left :=
        inferExpr_leaves leftRun middleLimited (operatorRun.holds holds)
          contextWithin leftTy
      have right :=
        inferExpr_leaves rightRun lastLimited left.state
          (contextWithin.narrow left.found) (left.found.apply rightTy)
      have both := Substitution.within_append.mpr ⟨left.found, right.found⟩
      obtain ⟨afterHolds, finalWithin⟩ :=
        constrain_holds asked right.state (both.apply expectedWithin)
          (both.apply resultTy)
      have all := Substitution.within_append.mpr ⟨both, finalWithin⟩
      exact
        { state := afterHolds
          found := all
          slots :=
            (left.slots.append right.slots).append
              (.fill (all.apply (both.apply resultTy))) }
  | @unary op _ _ _ _ _ _ _ operandRun asked =>
      have middleLimited := (unifyOrReport_grows asked).limited limited
      have operand :=
        inferExpr_leaves operandRun middleLimited holds contextWithin
          op.ty_within
      obtain ⟨afterHolds, finalWithin⟩ :=
        constrain_holds asked operand.state (operand.found.apply expectedWithin)
          op.ty_within
      exact
        { state := afterHolds
          found := Substitution.within_append.mpr ⟨operand.found, finalWithin⟩
          slots := operand.slots.append (.fill op.ty_within) }
  | call callRun =>
      exact inferCall_leaves callRun limited holds contextWithin expectedWithin
termination_by structural expr

/-- Inference of a place leaves types of drawn variables only. -/
theorem inferPlace_leaves
    {place place' : Place}
    {context : Context}
    {expected : Ty}
    {demand : Demand}
    {found : Substitution}
    {before after : State}
    (run :
      Runs (inferPlace place context expected demand) before (place', found)
        after)
    (limited : after.nextVar ≤ limit)
    (holds : before.Holds limit earlier)
    (contextWithin : context.Within (· < limit))
    (expectedWithin : expected.Within (· < limit)) :
    Leaves limit earlier place.slots place'.slots found after := by
  cases placeRun_of_runs run with
  | unknown _ plain =>
      exact
        ⟨holds.recordPlain plain, Substitution.within_nil, .refl _⟩
  | known bound fieldsRun asked =>
      have middleLimited := (unifyOrReport_grows asked).limited limited
      obtain ⟨currentWithin, fields⟩ :=
        inferFields_leaves fieldsRun middleLimited holds contextWithin
          (contextWithin.vars _ _ bound) Substitution.within_nil
      obtain ⟨afterHolds, finalWithin⟩ :=
        constrain_holds asked fields.state (fields.found.apply expectedWithin)
          currentWithin
      have all := Substitution.within_append.mpr ⟨fields.found, finalWithin⟩
      exact
        { state := afterHolds
          found := all
          slots := fields.slots.append (.fill (all.apply currentWithin)) }
termination_by structural place

/-- The type that fields select is of drawn variables only. -/
theorem inferFields_leaves
    {fields fields' : List Field}
    {name : String}
    {span : Span}
    {context : Context}
    {current selected : Ty}
    {found extended : Substitution}
    {before after : State}
    (run :
      Runs (inferFields fields name span context current found) before
        (fields', selected, extended) after)
    (limited : after.nextVar ≤ limit)
    (holds : before.Holds limit earlier)
    (contextWithin : context.Within (· < limit))
    (currentWithin : current.Within (· < limit))
    (foundWithin : found.Within (· < limit)) :
    selected.Within (· < limit) ∧
      Leaves limit earlier (Field.slotsAll fields) (Field.slotsAll fields')
        extended after := by
  cases fields with
  | nil =>
      obtain ⟨rfl, rfl, rfl, rfl⟩ := runs_inferFields_nil run
      exact ⟨currentWithin, holds, foundWithin, .refl _⟩
  | cons field rest =>
      obtain ⟨_, _, _, _, _, fieldRun, restRun, rfl⟩ := runs_inferFields_cons run
      have middleLimited := (inferFields_grows restRun).limited limited
      obtain ⟨betweenWithin, first⟩ :=
        inferField_leaves fieldRun middleLimited holds contextWithin
          currentWithin foundWithin
      obtain ⟨selectedWithin, others⟩ :=
        inferFields_leaves restRun limited first.state contextWithin
          betweenWithin first.found
      exact
        ⟨selectedWithin, others.state, others.found,
          first.slots.append others.slots⟩
termination_by structural fields

/-- The type that a field selects is of drawn variables only. -/
theorem inferField_leaves
    {field field' : Field}
    {name : String}
    {span : Span}
    {context : Context}
    {current selected : Ty}
    {found extended : Substitution}
    {before after : State}
    (run :
      Runs (inferField field name span context current found) before
        (field', selected, extended) after)
    (limited : after.nextVar ≤ limit)
    (holds : before.Holds limit earlier)
    (contextWithin : context.Within (· < limit))
    (currentWithin : current.Within (· < limit))
    (foundWithin : found.Within (· < limit)) :
    selected.Within (· < limit) ∧
      Leaves limit earlier field.slots field'.slots extended after := by
  cases fieldRun_of_runs run with
  | hd asked =>
      have drawnLimited := (unifyOrReport_grows asked).limited limited
      have elementVar := Ty.within_drawn drawnLimited
      obtain ⟨afterHolds, moreWithin⟩ :=
        constrain_holds asked (holds.draw 1) (Ty.within_list.mpr elementVar)
          currentWithin
      have both := Substitution.within_append.mpr ⟨foundWithin, moreWithin⟩
      exact ⟨both.apply elementVar, afterHolds, both, .refl _⟩
  | tl asked =>
      have drawnLimited := (unifyOrReport_grows asked).limited limited
      have listWithin := Ty.within_list.mpr (Ty.within_drawn drawnLimited)
      obtain ⟨afterHolds, moreWithin⟩ :=
        constrain_holds asked (holds.draw 1) listWithin currentWithin
      have both := Substitution.within_append.mpr ⟨foundWithin, moreWithin⟩
      exact ⟨both.apply listWithin, afterHolds, both, .refl _⟩
  | fst asked =>
      have drawnLimited := (unifyOrReport_grows asked).limited limited
      have firstVar := Ty.within_drawn (Nat.lt_of_succ_lt drawnLimited)
      have secondVar := Ty.within_drawn drawnLimited
      obtain ⟨afterHolds, moreWithin⟩ :=
        constrain_holds asked (holds.draw 2)
          (Ty.within_pair.mpr ⟨firstVar, secondVar⟩) currentWithin
      have both := Substitution.within_append.mpr ⟨foundWithin, moreWithin⟩
      exact ⟨both.apply firstVar, afterHolds, both, .refl _⟩
  | snd asked =>
      have drawnLimited := (unifyOrReport_grows asked).limited limited
      have firstVar := Ty.within_drawn (Nat.lt_of_succ_lt drawnLimited)
      have secondVar := Ty.within_drawn drawnLimited
      obtain ⟨afterHolds, moreWithin⟩ :=
        constrain_holds asked (holds.draw 2)
          (Ty.within_pair.mpr ⟨firstVar, secondVar⟩) currentWithin
      have both := Substitution.within_append.mpr ⟨foundWithin, moreWithin⟩
      exact ⟨both.apply secondVar, afterHolds, both, .refl _⟩
  | index asked positionRun =>
      have middleLimited := (inferExpr_grows positionRun).limited limited
      have drawnLimited :=
        (unifyOrReport_grows asked).limited middleLimited
      have elementVar := Ty.within_drawn drawnLimited
      obtain ⟨middleHolds, moreWithin⟩ :=
        constrain_holds asked (holds.draw 1) (Ty.within_list.mpr elementVar)
          currentWithin
      have both := Substitution.within_append.mpr ⟨foundWithin, moreWithin⟩
      have position :=
        inferExpr_leaves positionRun limited middleHolds
          (contextWithin.narrow both) Ty.within_int
      have all := Substitution.within_append.mpr ⟨both, position.found⟩
      exact ⟨all.apply elementVar, position.state, all, position.slots⟩
termination_by structural field

/--
Inference of a call leaves types of drawn variables only, set aside or not.
-/
theorem inferCall_leaves
    {call call' : Call}
    {context : Context}
    {expected : Ty}
    {demand : Demand}
    {guard : Option ValueGuard}
    {found : Substitution}
    {before after : State}
    (run :
      Runs (inferCall call context expected demand guard) before (call', found)
        after)
    (limited : after.nextVar ≤ limit)
    (holds : before.Holds limit earlier)
    (contextWithin : context.Within (· < limit))
    (expectedWithin : expected.Within (· < limit)) :
    Leaves limit earlier call.slots call'.slots found after := by
  cases callRun_of_runs run with
  | waits =>
      refine ⟨holds.setAside contextWithin expectedWithin,
        Substitution.within_nil, ?_⟩
      rw [Call.slots_stamped]
      exact .refl _
  | arity _ _ plain =>
      exact ⟨holds.recordPlain plain, Substitution.within_nil, .refl _⟩
  | void known _ argsRun =>
      obtain ⟨afterHolds, written, _⟩ :=
        inferArgs_leaves argsRun limited holds
          (CallProgress.within_start contextWithin)
          (contextWithin.funs _ _ known).1
      exact
        { state := afterHolds
          found := Substitution.within_nil
          slots := written.append (.refl _) }
  | checked known _ argsRun asked =>
      have middleLimited := (unifyOrReport_grows asked).limited limited
      obtain ⟨paramsWithin, resultWithin⟩ := contextWithin.funs _ _ known
      obtain ⟨middleHolds, written, outcomeWithin⟩ :=
        inferArgs_leaves argsRun middleLimited holds
          (CallProgress.within_start contextWithin) paramsWithin
      have progress := outcomeWithin _ rfl
      have shownResult := progress.view.apply resultWithin
      obtain ⟨afterHolds, finalWithin⟩ :=
        constrain_holds asked middleHolds (progress.view.apply expectedWithin)
          shownResult
      have view := Substitution.within_append.mpr ⟨progress.view, finalWithin⟩
      have tyWithin :=
        Ty.within_fn.mpr
          ⟨List.forall_mem_map.mpr fun ty isArg =>
              view.apply (progress.types ty isArg),
            view.apply shownResult⟩
      exact
        { state := afterHolds
          found := Substitution.within_append.mpr ⟨progress.outward, finalWithin⟩
          slots := written.append (.fill tyWithin) }
termination_by structural call

/--
Inference of arguments leaves types of drawn variables only, aborted or not.
-/
theorem inferArgs_leaves
    {args args' : List Expr}
    {params : List Ty}
    {function : String}
    {number : Nat}
    {progress : CallProgress}
    {outcome : Option CallProgress}
    {before after : State}
    (run :
      Runs (inferArgs args params function number progress) before
        (args', outcome) after)
    (limited : after.nextVar ≤ limit)
    (holds : before.Holds limit earlier)
    (within : progress.Within (· < limit))
    (paramsWithin : ∀ param ∈ params, param.Within (· < limit)) :
    after.Holds limit earlier ∧
      SlotsWritten (· < limit) (Expr.slotsAll args) (Expr.slotsAll args') ∧
      ∀ reached, outcome = some reached → reached.Within (· < limit) := by
  cases argsRun_of_runs run with
  | done =>
      refine ⟨holds, .refl _, ?_⟩
      rintro reached ⟨⟩
      exact within
  | void argRun _ plain =>
      have drawnLimited := (inferExpr_grows argRun).limited limited
      have arg :=
        inferExpr_leaves argRun limited (holds.draw 1) within.context
          (Ty.within_drawn drawnLimited)
      refine ⟨arg.state.recordPlain plain, arg.slots.append (.refl _), ?_⟩
      rintro reached ⟨⟩
  | next argRun argTyEq _ asked restRun =>
      obtain ⟨paramWithin, restWithin⟩ := List.forall_mem_cons.mp paramsWithin
      have unifiedLimited := (inferArgs_grows restRun).limited limited
      have middleLimited :=
        (unifyOrReport_grows asked).limited unifiedLimited
      have drawnLimited := (inferExpr_grows argRun).limited middleLimited
      have argVar := Ty.within_drawn drawnLimited
      have arg :=
        inferExpr_leaves argRun middleLimited (holds.draw 1) within.context
          argVar
      have view := Substitution.within_append.mpr ⟨within.view, arg.found⟩
      have argWithin := view.apply argVar
      rw [← argTyEq] at argWithin
      obtain ⟨unifiedHolds, moreWithin⟩ :=
        unifyOrReport_holds asked (TypeError.ofArgument_types_subset _ _ _)
          arg.state argWithin (view.apply paramWithin)
      obtain ⟨afterHolds, written, outcomeWithin⟩ :=
        inferArgs_leaves restRun limited unifiedHolds
          (within.next argWithin arg.found moreWithin) restWithin
      exact ⟨afterHolds, arg.slots.append written, outcomeWithin⟩
termination_by structural args

end

mutual

/-- Inference of a statement leaves types of drawn variables only. -/
theorem inferStmt_leaves
    {stmt stmt' : Stmt}
    {context : Context}
    {expected : Ty}
    {found : Substitution}
    {before after : State}
    (run : Runs (inferStmt stmt context expected) before (stmt', found) after)
    (limited : after.nextVar ≤ limit)
    (holds : before.Holds limit earlier)
    (contextWithin : context.Within (· < limit))
    (expectedWithin : expected.Within (· < limit)) :
    Leaves limit earlier stmt.slots stmt'.slots found after := by
  cases stmtRun_of_runs run with
  | ifElse thenRun elseRun conditionRun =>
      have joinedLimited := (inferExpr_grows conditionRun).limited limited
      have middleLimited := (inferBlock_grows elseRun).limited joinedLimited
      have thenBody :=
        inferBlock_leaves thenRun middleLimited holds contextWithin
          expectedWithin
      have elseBody :=
        inferBlock_leaves elseRun joinedLimited thenBody.state
          (contextWithin.narrow thenBody.found)
          (thenBody.found.apply expectedWithin)
      have both :=
        Substitution.within_append.mpr ⟨thenBody.found, elseBody.found⟩
      have condition :=
        inferExpr_leaves conditionRun limited elseBody.state
          (contextWithin.narrow both) Ty.within_bool
      exact
        { state := condition.state
          found := Substitution.within_append.mpr ⟨both, condition.found⟩
          slots :=
            (condition.slots.append thenBody.slots).append elseBody.slots }
  | whileDo bodyRun conditionRun =>
      have middleLimited := (inferExpr_grows conditionRun).limited limited
      have body :=
        inferBlock_leaves bodyRun middleLimited holds contextWithin
          expectedWithin
      have condition :=
        inferExpr_leaves conditionRun limited body.state
          (contextWithin.narrow body.found) Ty.within_bool
      exact
        { state := condition.state
          found := Substitution.within_append.mpr ⟨body.found, condition.found⟩
          slots := condition.slots.append body.slots }
  | forTaken iterableRun _ plain =>
      have drawnLimited := (inferExpr_grows iterableRun).limited limited
      have iterable :=
        inferExpr_leaves iterableRun limited (holds.draw 1) contextWithin
          (Ty.within_list.mpr (Ty.within_drawn drawnLimited))
      exact
        { state := iterable.state.recordPlain plain
          found := iterable.found
          slots := iterable.slots.append (.refl _) }
  | forIn iterableRun _ bodyRun =>
      have middleLimited := (inferBlock_grows bodyRun).limited limited
      have drawnLimited :=
        (inferExpr_grows iterableRun).limited middleLimited
      have elementVar := Ty.within_drawn drawnLimited
      have iterable :=
        inferExpr_leaves iterableRun middleLimited (holds.draw 1) contextWithin
          (Ty.within_list.mpr elementVar)
      have body :=
        inferBlock_leaves bodyRun limited iterable.state
          ((contextWithin.narrow iterable.found).bindVar _
            (iterable.found.apply elementVar))
          (iterable.found.apply expectedWithin)
      exact
        { state := body.state
          found := Substitution.within_append.mpr ⟨iterable.found, body.found⟩
          slots := iterable.slots.append body.slots }
  | assignVoid valueRun targetRun _ plain =>
      have targetLimited := (inferPlace_grows targetRun).limited limited
      have middleLimited := Nat.le_of_succ_le targetLimited
      have drawnLimited := (inferExpr_grows valueRun).limited middleLimited
      have value :=
        inferExpr_leaves valueRun middleLimited (holds.draw 1) contextWithin
          (Ty.within_drawn drawnLimited)
      have target :=
        inferPlace_leaves targetRun limited (value.state.draw 1)
          (contextWithin.narrow value.found) (Ty.within_drawn targetLimited)
      exact
        { state := target.state.recordPlain plain
          found := Substitution.within_nil
          slots := target.slots.append value.slots }
  | assign valueRun targetRun _ _ asked =>
      have lastLimited := (unifyOrReport_grows asked).limited limited
      have targetLimited := (inferPlace_grows targetRun).limited lastLimited
      have middleLimited := Nat.le_of_succ_le targetLimited
      have drawnLimited := (inferExpr_grows valueRun).limited middleLimited
      have valueVar := Ty.within_drawn drawnLimited
      have targetVar := Ty.within_drawn targetLimited
      have value :=
        inferExpr_leaves valueRun middleLimited (holds.draw 1) contextWithin
          valueVar
      have target :=
        inferPlace_leaves targetRun lastLimited (value.state.draw 1)
          (contextWithin.narrow value.found) targetVar
      have both := Substitution.within_append.mpr ⟨value.found, target.found⟩
      obtain ⟨afterHolds, finalWithin⟩ :=
        constrain_holds asked target.state (both.apply targetVar)
          (both.apply valueVar)
      exact
        { state := afterHolds
          found := Substitution.within_append.mpr ⟨both, finalWithin⟩
          slots := target.slots.append value.slots }
  | call callRun =>
      have drawnLimited := (inferCall_grows callRun).limited limited
      exact inferCall_leaves callRun limited (holds.draw 1) contextWithin
        (Ty.within_drawn drawnLimited)
  | returnVoid valueRun _ plain =>
      have drawnLimited := (inferExpr_grows valueRun).limited limited
      have value :=
        inferExpr_leaves valueRun limited (holds.draw 1) contextWithin
          (Ty.within_drawn drawnLimited)
      exact
        ⟨value.state.recordPlain plain, Substitution.within_nil, value.slots⟩
  | returnValue valueRun _ asked =>
      have middleLimited := (unifyOrReport_grows asked).limited limited
      have drawnLimited := (inferExpr_grows valueRun).limited middleLimited
      have valueVar := Ty.within_drawn drawnLimited
      have value :=
        inferExpr_leaves valueRun middleLimited (holds.draw 1) contextWithin
          valueVar
      obtain ⟨afterHolds, finalWithin⟩ :=
        constrain_holds asked value.state (value.found.apply expectedWithin)
          (value.found.apply valueVar)
      exact
        { state := afterHolds
          found := Substitution.within_append.mpr ⟨value.found, finalWithin⟩
          slots := value.slots }
  | returnNothing asked =>
      obtain ⟨afterHolds, foundWithin⟩ :=
        constrain_holds asked holds expectedWithin Ty.within_void
      exact ⟨afterHolds, foundWithin, .refl _⟩
termination_by structural stmt

/-- Inference of statements leaves types of drawn variables only. -/
theorem inferBlock_leaves
    {stmts stmts' : List Stmt}
    {context : Context}
    {expected : Ty}
    {found : Substitution}
    {before after : State}
    (run :
      Runs (inferBlock stmts context expected) before (stmts', found) after)
    (limited : after.nextVar ≤ limit)
    (holds : before.Holds limit earlier)
    (contextWithin : context.Within (· < limit))
    (expectedWithin : expected.Within (· < limit)) :
    Leaves limit earlier (Stmt.slotsAll stmts) (Stmt.slotsAll stmts') found
      after := by
  cases stmts with
  | nil =>
      obtain ⟨rfl, rfl, rfl⟩ := runs_inferBlock_nil run
      exact ⟨holds, Substitution.within_nil, .refl _⟩
  | cons stmt rest =>
      obtain ⟨_, _, _, _, _, stmtRun, restRun, rfl, rfl⟩ :=
        runs_inferBlock_cons run
      have middleLimited := (inferBlock_grows restRun).limited limited
      have first :=
        inferStmt_leaves stmtRun middleLimited holds contextWithin
          expectedWithin
      have others :=
        inferBlock_leaves restRun limited first.state
          (contextWithin.narrow first.found)
          (first.found.apply expectedWithin)
      exact
        { state := others.state
          found := Substitution.within_append.mpr ⟨first.found, others.found⟩
          slots := first.slots.append others.slots }
termination_by structural stmts

end

end Runs

end SplTyping
