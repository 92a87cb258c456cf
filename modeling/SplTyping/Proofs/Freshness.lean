import SplTyping.Proofs.Growth
import SplTyping.Proofs.Settled

namespace SplTyping

/-!
# Findings keep to live variables

A type variable is live while no finding has bound it. If a step of inference is
given live variables only, its findings are settled and bind and mention live
variables only; whatever is narrowed by them mentions variables that are still
live afterwards. One step after another can be followed in this way through
whole expressions and statements.
-/

/-- All type variables count as live. -/
abbrev anyVar : TypeVar → Prop :=
  fun _ => True

/-- The live variables that have been drawn so far. -/
def Below (live : TypeVar → Prop) (bound : TypeVar) : TypeVar → Prop :=
  fun id => live id ∧ id < bound

/-- All variables that are still to be drawn are live. -/
def Supply (live : TypeVar → Prop) (bound : TypeVar) : Prop :=
  ∀ id, bound ≤ id → live id

/-- The variables to come stay live as variables are drawn. -/
theorem Supply.mono
    {live : TypeVar → Prop}
    {bound later : TypeVar}
    (supply : Supply live bound)
    (grows : bound ≤ later) :
    Supply live later :=
  fun id drawn => supply id (Nat.le_trans grows drawn)

theorem Below.mono
    {live : TypeVar → Prop}
    {bound later : TypeVar}
    (grows : bound ≤ later) :
    ∀ id, Below live bound id → Below live later id :=
  fun _ ⟨isLive, drawn⟩ => ⟨isLive, Nat.lt_of_lt_of_le drawn grows⟩

/-- A variable that was drawn since may be mentioned. -/
theorem Supply.within_var
    {live : TypeVar → Prop}
    {bound later id : TypeVar}
    (supply : Supply live bound)
    (unseen : bound ≤ id)
    (drawn : id < later) :
    (Ty.var id).Within (Below live later) :=
  Ty.within_var.mpr ⟨supply id unseen, drawn⟩

namespace Substitution

/-- Settled findings that bind and mention live variables only. -/
structure KeepsTo
    (live : TypeVar → Prop)
    (bound : TypeVar)
    (found : Substitution) :
    Prop where
  settled : found.Settled
  within : found.Within (Below live bound)

namespace KeepsTo

variable {live : TypeVar → Prop} {bound later : TypeVar}
variable {found more : Substitution}

theorem nil : KeepsTo live bound [] where
  settled := settled_nil
  within := within_nil

/-- Findings keep to what they did as variables are drawn. -/
theorem mono
    (keeps : found.KeepsTo live bound)
    (grows : bound ≤ later) :
    found.KeepsTo live later where
  settled := keeps.settled
  within := keeps.within.mono (Below.mono grows)

/-- Findings keep to live variables if there are more. -/
theorem widen
    {wider : TypeVar → Prop}
    (keeps : found.KeepsTo live bound)
    (widens : ∀ id, live id → wider id) :
    found.KeepsTo wider bound where
  settled := keeps.settled
  within := keeps.within.mono fun _ ⟨isLive, drawn⟩ => ⟨widens _ isLive, drawn⟩

/-- Findings about what earlier findings leave can be added to them. -/
theorem append
    (first : found.KeepsTo live bound)
    (second : more.KeepsTo (found.leaves live) later)
    (grows : bound ≤ later) :
    (found ++ more).KeepsTo live later where
  settled :=
    first.settled.append second.settled
      (second.within.mono fun _ isBelow => isBelow.1)
  within :=
    within_append.mpr
      ⟨(first.mono grows).within,
        second.within.mono fun _ ⟨isLeft, drawn⟩ => ⟨isLeft.1, drawn⟩⟩

/-- A narrowed type mentions only variables that are left. -/
theorem apply
    {ty : Ty}
    (keeps : found.KeepsTo live bound)
    (within : ty.Within (Below live bound)) :
    (found.apply ty).Within (Below (found.leaves live) bound) :=
  (keeps.settled.apply_within keeps.within within).mono
    fun _ ⟨⟨isLive, drawn⟩, unbound⟩ => ⟨⟨isLive, unbound⟩, drawn⟩

/-- A narrowed context mentions only variables that are left. -/
theorem narrow
    {context : Context}
    (keeps : found.KeepsTo live bound)
    (within : context.Within (Below live bound)) :
    (context.narrow found).Within (Below (found.leaves live) bound) :=
  within.narrow_of_apply fun _ tyWithin => keeps.apply tyWithin

/-- Findings bind no variable that is still to be drawn. -/
theorem supply
    {start : TypeVar}
    (keeps : found.KeepsTo live bound)
    (startSupply : Supply live start)
    (grows : start ≤ bound) :
    Supply (found.leaves live) bound := by
  intro id unseen
  refine ⟨startSupply id (Nat.le_trans grows unseen), ?_⟩
  rintro binding member rfl
  exact absurd (keeps.within binding member).1.2 (Nat.not_lt.mpr unseen)

/-- A part of some findings keeps to the same variables. -/
theorem sublist
    (keeps : found.KeepsTo live bound)
    (isPart : more.Sublist found) :
    more.KeepsTo live bound where
  settled := keeps.settled.sublist isPart
  within := fun binding member => keeps.within binding (isPart.subset member)

end KeepsTo

/-- The global bindings are some of all bindings. -/
theorem split_sublist (found : Substitution) : found.split.1.Sublist found := by
  rw [split, List.partition_eq_filter_filter]
  exact List.filter_sublist

/-- Fewer findings leave more variables. -/
theorem leaves_of_sublist
    {live : TypeVar → Prop}
    {part whole : Substitution}
    (isPart : part.Sublist whole) :
    ∀ id, whole.leaves live id → part.leaves live id :=
  fun _ ⟨isLive, unbound⟩ =>
    ⟨isLive, fun binding member => unbound binding (isPart.subset member)⟩

end Substitution

/-- What unification finds keeps to the variables of its two types. -/
theorem unifyOrReport_keepsTo
    {live : TypeVar → Prop}
    {left right : Ty}
    {flow : Flow}
    {explain : UnifyError → TypeError}
    {found : Substitution}
    {before after : State}
    (run : Runs (unifyOrReport left right flow explain) before found after)
    (leftWithin : left.Within (Below live before.nextVar))
    (rightWithin : right.Within (Below live before.nextVar)) :
    found.KeepsTo live after.nextVar := by
  rcases runs_unifyOrReport run with ⟨unified, rfl⟩ | ⟨_, _, rfl, rfl⟩
  · obtain ⟨settled, within⟩ := unify_settled unified leftWithin rightWithin
    exact ⟨settled, within⟩
  · exact .nil

/-- Findings are extended by the unification of types that they have narrowed. -/
theorem Substitution.KeepsTo.unified
    {live : TypeVar → Prop}
    {left right : Ty}
    {demand : Demand}
    {span : Span}
    {found final : Substitution}
    {before after : State}
    (keeps : found.KeepsTo live before.nextVar)
    (run : Runs (constrain left right demand span) before final after)
    (leftWithin : left.Within (Below (found.leaves live) before.nextVar))
    (rightWithin : right.Within (Below (found.leaves live) before.nextVar)) :
    (found ++ final).KeepsTo live after.nextVar :=
  keeps.append (unifyOrReport_keepsTo run leftWithin rightWithin)
    (unifyOrReport_grows run).nextVar

/-- A state and a context in which a step of inference can start. -/
structure Scene
    (live : TypeVar → Prop)
    (state : State)
    (context : Context) :
    Prop where
  supply : Supply live state.nextVar
  context : context.Within (Below live state.nextVar)

namespace Scene

variable {live : TypeVar → Prop} {before after : State} {context : Context}

/-- A scene stays one as the state grows. -/
theorem grow
    (scene : Scene live before context)
    (grows : before.Grows after) :
    Scene live after context where
  supply := scene.supply.mono grows.nextVar
  context := scene.context.mono (Below.mono grows.nextVar)

/-- Findings narrow the scene to the variables that they leave. -/
theorem narrow
    {found : Substitution}
    (scene : Scene live before context)
    (grows : before.Grows after)
    (keeps : found.KeepsTo live after.nextVar) :
    Scene (found.leaves live) after (context.narrow found) where
  supply := keeps.supply scene.supply grows.nextVar
  context := keeps.narrow (scene.context.mono (Below.mono grows.nextVar))

/-- A variable may be bound to a type of the scene. -/
theorem bindVar
    {ty : Ty}
    (scene : Scene live before context)
    (name : String)
    (within : ty.Within (Below live before.nextVar)) :
    Scene live before (context.bindVar name ty) where
  supply := scene.supply
  context := scene.context.bindVar name within

/-- A scene is one for more live variables. -/
theorem widen
    {wider : TypeVar → Prop}
    (scene : Scene live before context)
    (widens : ∀ id, live id → wider id) :
    Scene wider before context where
  supply := fun id later => widens id (scene.supply id later)
  context := scene.context.mono fun id ⟨isLive, seen⟩ => ⟨widens id isLive, seen⟩

theorem any (scene : Scene live before context) : Scene anyVar before context :=
  scene.widen fun _ _ => trivial

/-- Where all variables are live, any findings may narrow the scene. -/
theorem narrowAny
    {found : Substitution}
    (scene : Scene anyVar before context)
    (grows : before.Grows after)
    (within : found.Within (Below anyVar after.nextVar)) :
    Scene anyVar after (context.narrow found) where
  supply := fun _ _ => trivial
  context :=
    (scene.grow grows).context.narrow_of_apply fun _ tyWithin =>
      within.apply tyWithin

/-- A variable that has just been drawn may be kept away from a step. -/
theorem reserve
    {id : TypeVar}
    (scene : Scene live before context)
    (grows : before.Grows after)
    (unseen : before.nextVar ≤ id)
    (drawn : id < after.nextVar) :
    Scene (fun other => live other ∧ other ≠ id) after context where
  supply := fun other later =>
    ⟨scene.supply other (Nat.le_trans grows.nextVar later),
      Nat.ne_of_gt (Nat.lt_of_lt_of_le drawn later)⟩
  context :=
    scene.context.mono fun _ ⟨isLive, seen⟩ =>
      ⟨⟨isLive, Nat.ne_of_lt (Nat.lt_of_lt_of_le seen unseen)⟩,
        Nat.lt_of_lt_of_le seen grows.nextVar⟩

/-- Of two variables that are drawn, the second is kept away from a step. -/
theorem reserveSecond (scene : Scene live before context) :
    Scene (fun id => live id ∧ id ≠ before.nextVar + 1) (before.draw 2)
        context ∧
      (Ty.var before.nextVar).Within
        (Below (fun id => live id ∧ id ≠ before.nextVar + 1)
          (before.draw 2).nextVar) :=
  ⟨scene.reserve (.draw _ _) (Nat.le_succ _) (Nat.lt_succ_self _),
    Ty.within_var.mpr
      ⟨⟨scene.supply _ (Nat.le_refl _), Nat.ne_of_lt (Nat.lt_succ_self _)⟩,
        Nat.lt_succ_of_lt (Nat.lt_succ_self _)⟩⟩

/-- The variable drawn next is live. -/
theorem within_next
    (scene : Scene live before context)
    (count : Nat) :
    (Ty.var before.nextVar).Within
      (Below live (before.draw (count + 1)).nextVar) :=
  scene.supply.within_var (Nat.le_refl _)
    (Nat.lt_add_of_pos_right (Nat.succ_pos count))

end Scene

/-- The types of an operator are of variables that were drawn for it. -/
theorem OperatorRun.within
    {live : TypeVar → Prop}
    {op : BinOp}
    {left right result : Ty}
    {before after : State}
    (run : OperatorRun before op left right result after)
    (supply : Supply live before.nextVar) :
    left.Within (Below live after.nextVar) ∧
      right.Within (Below live after.nextVar) ∧
      result.Within (Below live after.nextVar) := by
  have drawn : (Ty.var before.nextVar).Within
      (Below live (before.draw 1).nextVar) :=
    supply.within_var (Nat.le_refl _) (Nat.lt_succ_self _)
  cases run with
  | cons =>
      exact ⟨drawn, Ty.within_list.mpr drawn, Ty.within_list.mpr drawn⟩
  | compared => exact ⟨drawn, drawn, Ty.within_bool⟩
  | arithmetic => exact ⟨Ty.within_int, Ty.within_int, Ty.within_int⟩
  | ordered => exact ⟨Ty.within_int, Ty.within_int, Ty.within_bool⟩
  | logical => exact ⟨Ty.within_bool, Ty.within_bool, Ty.within_bool⟩

/-- The types of unary operators are closed. -/
theorem UnOp.ty_within {live : TypeVar → Prop} (op : UnOp) :
    op.ty.Within live := by
  cases op
  · exact Ty.within_bool
  · exact Ty.within_int

/-- What is found about the bound of a range keeps to the scene. -/
theorem BoundRun.keepsTo
    {live : TypeVar → Prop}
    {found extended : Substitution}
    {first bound : Ty}
    {before after : State}
    (run : BoundRun found before first bound extended after)
    (keeps : found.KeepsTo live before.nextVar)
    (firstWithin : first.Within (Below (found.leaves live) before.nextVar)) :
    extended.KeepsTo live after.nextVar := by
  cases run with
  | int | char | other => exact keeps
  | @unknown id =>
      have left := Ty.within_var.mp firstWithin
      have single :
          Substitution.KeepsTo (found.leaves live) before.nextVar
            [⟨id, .int, .global⟩] := by
        refine ⟨⟨?_, List.pairwise_singleton _ _⟩, ?_⟩
        · simp [Ty.vars]
        · simpa [Binding.Within] using left
      exact keeps.append single (Nat.le_refl _)

/-- The bound of a range has a closed type. -/
theorem BoundRun.within
    {live : TypeVar → Prop}
    {found extended : Substitution}
    {first bound : Ty}
    {before after : State}
    (run : BoundRun found before first bound extended after) :
    bound.Within live := by
  cases run with
  | int | unknown | other => exact Ty.within_int
  | char => exact Ty.within_char

namespace CallProgress

/-- Progress through the arguments of a call that keeps to live variables. -/
structure KeepsTo
    (live : TypeVar → Prop)
    (bound : TypeVar)
    (progress : CallProgress) :
    Prop where
  outward : progress.outward.KeepsTo live bound
  context :
    progress.context.Within (Below (progress.outward.leaves live) bound)
  viewWithin : progress.view.Within (Below live bound)
  view :
    ∀ later ty, bound ≤ later → ty.Within (Below live later) →
      (progress.view.apply ty).Within
        (Below (progress.outward.leaves live) later)

/-- At the start of a call nothing has been found. -/
theorem keepsTo_start
    {live : TypeVar → Prop}
    {bound : TypeVar}
    {context : Context}
    (within : context.Within (Below live bound)) :
    (start context).KeepsTo live bound where
  outward := .nil
  context := by simpa [start] using within
  viewWithin := Substitution.within_nil
  view := by
    intro later ty _ tyWithin
    simpa [start] using tyWithin

/-- The findings of one more argument are added to the progress. -/
theorem KeepsTo.next
    {live : TypeVar → Prop}
    {bound middle later : TypeVar}
    {progress : CallProgress}
    {argTy : Ty}
    {found more : Substitution}
    (keeps : progress.KeepsTo live bound)
    (foundKeeps : found.KeepsTo (progress.outward.leaves live) middle)
    (moreKeeps :
      more.KeepsTo (found.leaves (progress.outward.leaves live)) later)
    (grows : bound ≤ middle)
    (growsOn : middle ≤ later) :
    (progress.next argTy found more).KeepsTo live later := by
  have sharedKeeps := moreKeeps.sublist (Substitution.split_sublist more)
  refine ⟨?_, ?_, ?_, ?_⟩
  · refine (keeps.outward.append foundKeeps grows).append ?_ growsOn
    rwa [Substitution.leaves_append]
  · have contextWithin :=
      foundKeeps.narrow (keeps.context.mono (Below.mono grows))
    have narrowed :=
      sharedKeeps.narrow (contextWithin.mono (Below.mono growsOn))
    simpa only [CallProgress.next, Substitution.leaves_append] using narrowed
  · have viewLater :=
      keeps.viewWithin.mono (Below.mono (Nat.le_trans grows growsOn))
    have foundLater : found.Within (Below live later) :=
      ((foundKeeps.mono growsOn).widen fun _ isLeft => isLeft.1).within
    have moreLater : more.Within (Below live later) :=
      (moreKeeps.widen fun _ isLeft => isLeft.1.1).within
    exact Substitution.within_append.mpr
      ⟨Substitution.within_append.mpr ⟨viewLater, foundLater⟩, moreLater⟩
  · -- All of `more` is applied, and it leaves fewer variables than its
    -- global part.
    intro last ty reaches tyWithin
    have middleReaches := Nat.le_trans growsOn reaches
    have throughView :=
      keeps.view last ty (Nat.le_trans grows middleReaches) tyWithin
    have throughFound := (foundKeeps.mono middleReaches).apply throughView
    have throughMore := (moreKeeps.mono reaches).apply throughFound
    simp only [CallProgress.next, Substitution.apply_append,
      Substitution.leaves_append]
    exact throughMore.mono fun id ⟨isLeft, drawn⟩ =>
      ⟨Substitution.leaves_of_sublist (Substitution.split_sublist more) id
        isLeft, drawn⟩

/-- One more argument is checked against its parameter. -/
theorem KeepsTo.step
    {live : TypeVar → Prop}
    {progress : CallProgress}
    {argTy param : Ty}
    {flow : Flow}
    {explain : UnifyError → TypeError}
    {found more : Substitution}
    {before middle after : State}
    (keeps : progress.KeepsTo live before.nextVar)
    (foundKeeps : found.KeepsTo (progress.outward.leaves live) middle.nextVar)
    (asked :
      Runs
        (unifyOrReport argTy ((progress.view ++ found).apply param) flow explain)
        middle more after)
    (argTyEq : argTy = (progress.view ++ found).apply (.var before.nextVar))
    (supply : Supply live before.nextVar)
    (drawn : before.nextVar < middle.nextVar)
    (paramWithin : param.Within (Below live before.nextVar)) :
    more.KeepsTo (found.leaves (progress.outward.leaves live)) after.nextVar ∧
      (progress.next argTy found more).KeepsTo live after.nextVar := by
  have grows := Nat.le_of_lt drawn
  have seen {ty : Ty} (within : ty.Within (Below live middle.nextVar)) :
      ((progress.view ++ found).apply ty).Within
        (Below (found.leaves (progress.outward.leaves live)) middle.nextVar) := by
    rw [Substitution.apply_append]
    exact foundKeeps.apply (keeps.view _ ty grows within)
  have moreKeeps :=
    unifyOrReport_keepsTo asked
      (argTyEq ▸ seen (supply.within_var (Nat.le_refl _) drawn))
      (seen (paramWithin.mono (Below.mono grows)))
  exact ⟨moreKeeps,
    keeps.next foundKeeps moreKeeps grows (unifyOrReport_grows asked).nextVar⟩

end CallProgress

theorem Ty.Within.grow
    {live : TypeVar → Prop}
    {ty : Ty}
    {before after : State}
    (within : ty.Within (Below live before.nextVar))
    (grows : before.Grows after) :
    ty.Within (Below live after.nextVar) :=
  within.mono (Below.mono grows.nextVar)

/-- The variables drawn by one step. -/
def Drawn (before after : State) : TypeVar → Prop :=
  fun id => before.nextVar ≤ id ∧ id < after.nextVar

/-- A field asks for a type of its shape, made of newly drawn variables. -/
theorem Substitution.KeepsTo.select
    {live : TypeVar → Prop}
    {shape current : Ty}
    {demand : Demand}
    {span : Span}
    {found more : Substitution}
    {before drawn after : State}
    (keeps : found.KeepsTo live before.nextVar)
    (supply : Supply live before.nextVar)
    (currentWithin : current.Within (Below (found.leaves live) before.nextVar))
    (grows : before.Grows drawn)
    (asked : Runs (constrain shape current demand span) drawn more after)
    (shapeWithin : shape.Within (Drawn before drawn)) :
    (found ++ more).KeepsTo live after.nextVar ∧
      ∀ ty : Ty, ty.Within (Drawn before drawn) →
        ((found ++ more).apply ty).Within
          (Below ((found ++ more).leaves live) after.nextVar) := by
  have leftSupply := keeps.supply supply (Nat.le_refl _)
  have bothKeep :=
    (keeps.mono grows.nextVar).unified asked
      (shapeWithin.mono fun id ⟨unseen, seen⟩ => ⟨leftSupply id unseen, seen⟩)
      (currentWithin.grow grows)
  refine ⟨bothKeep, fun ty within => bothKeep.apply ?_⟩
  exact within.mono fun id ⟨unseen, seen⟩ =>
    ⟨supply id unseen,
      Nat.lt_of_lt_of_le seen (unifyOrReport_grows asked).nextVar⟩

mutual

/--
What inference of an expression finds keeps to live variables and to new ones.
-/
theorem inferExpr_keepsTo
    {live : TypeVar → Prop}
    {expr expr' : Expr}
    {context : Context}
    {expected : Ty}
    {demand : Demand}
    {guard : Option ValueGuard}
    {found : Substitution}
    {before after : State}
    (run :
      Runs (inferExpr expr context expected demand guard) before (expr', found)
        after)
    (scene : Scene live before context)
    (expectedWithin : expected.Within (Below live before.nextVar)) :
    found.KeepsTo live after.nextVar := by
  cases exprRun_of_runs run with
  | int asked | bool asked | char asked =>
      exact unifyOrReport_keepsTo asked expectedWithin (by simp)
  | read placeRun => exact inferPlace_keepsTo placeRun scene expectedWithin
  | pairVoid | binaryLeftVoid | binaryRightVoid => exact .nil
  | @pair _ _ _ _ _ found more _ middle last _ firstRun secondRun _ _ asked =>
      have drawn : before.Grows (before.draw 2) := .draw _ _
      have firstGrows := inferExpr_grows firstRun
      have secondGrows := inferExpr_grows secondRun
      -- The second component is checked against a variable drawn before the
      -- first one is inferred, so that one must be kept away from the first.
      have reserved :
          found.KeepsTo
            (fun id => live id ∧ id ≠ before.nextVar + 1) middle.nextVar :=
        inferExpr_keepsTo firstRun scene.reserveSecond.1 scene.reserveSecond.2
      have firstKeeps : found.KeepsTo live middle.nextVar :=
        reserved.widen fun _ isLive => isLive.1
      have secondVar :
          (Ty.var (before.nextVar + 1)).Within
            (Below (found.leaves live) middle.nextVar) := by
        refine Ty.within_var.mpr ⟨⟨scene.supply _ (Nat.le_succ _), ?_⟩, ?_⟩
        · rintro binding member same
          exact (reserved.within binding member).1.1.2 same.symm
        · exact Nat.lt_of_lt_of_le (Nat.lt_succ_self _) firstGrows.nextVar
      have secondKeeps :=
        inferExpr_keepsTo secondRun
          ((scene.grow drawn).narrow firstGrows firstKeeps) secondVar
      have bothKeep := firstKeeps.append secondKeeps secondGrows.nextVar
      have innerGrows := (drawn.trans firstGrows).trans secondGrows
      refine bothKeep.unified asked
        (bothKeep.apply (expectedWithin.grow innerGrows))
        (Ty.within_pair.mpr ⟨bothKeep.apply ?_, bothKeep.apply ?_⟩)
      · exact (scene.within_next 1).grow (firstGrows.trans secondGrows)
      · refine (secondVar.mono ?_).grow secondGrows
        exact fun _ ⟨isLeft, seen⟩ => ⟨isLeft.1, seen⟩
  | nil asked =>
      exact unifyOrReport_keepsTo asked (expectedWithin.grow (.draw _ _))
        (Ty.within_list.mpr (scene.within_next 0))
  | @range _ _ _ _ _ found extended more _ bound middle bounded ended _
      firstRun boundRun lastRun asked =>
      have firstGrows := inferExpr_grows firstRun
      have startGrows := (State.Grows.draw before 1).trans firstGrows
      have firstKeeps :=
        inferExpr_keepsTo firstRun (scene.grow (.draw _ _))
          (scene.within_next 0)
      have boundKeeps :=
        boundRun.keepsTo firstKeeps
          (firstKeeps.apply ((scene.within_next 0).grow firstGrows))
      have boundGrows := startGrows.trans boundRun.grows
      have lastGrows := inferExpr_grows lastRun
      have lastKeeps :=
        inferExpr_keepsTo lastRun (scene.narrow boundGrows boundKeeps)
          boundRun.within
      have bothKeep := boundKeeps.append lastKeeps lastGrows.nextVar
      exact bothKeep.unified asked
        (bothKeep.apply (expectedWithin.grow (boundGrows.trans lastGrows)))
        (Ty.within_list.mpr boundRun.within)
  | binary operatorRun leftRun _ rightRun _ asked =>
      have typed := operatorRun.grows
      have leftGrows := inferExpr_grows leftRun
      have rightGrows := inferExpr_grows rightRun
      obtain ⟨leftWithin, rightWithin, resultWithin⟩ :=
        operatorRun.within scene.supply
      have leftKeeps :=
        inferExpr_keepsTo leftRun (scene.grow typed) leftWithin
      have rightKeeps :=
        inferExpr_keepsTo rightRun
          ((scene.grow typed).narrow leftGrows leftKeeps)
          (leftKeeps.apply (rightWithin.grow leftGrows))
      have bothKeep := leftKeeps.append rightKeeps rightGrows.nextVar
      have operandsGrow := leftGrows.trans rightGrows
      exact bothKeep.unified asked
        (bothKeep.apply (expectedWithin.grow (typed.trans operandsGrow)))
        (bothKeep.apply (resultWithin.grow operandsGrow))
  | @unary op _ _ _ _ _ _ _ operandRun asked =>
      have operandKeeps := inferExpr_keepsTo operandRun scene op.ty_within
      exact operandKeeps.unified asked
        (operandKeeps.apply (expectedWithin.grow (inferExpr_grows operandRun)))
        op.ty_within
  | call callRun => exact inferCall_keepsTo callRun scene expectedWithin
termination_by structural expr

/-- What inference of a place finds keeps to live variables and to new ones. -/
theorem inferPlace_keepsTo
    {live : TypeVar → Prop}
    {place place' : Place}
    {context : Context}
    {expected : Ty}
    {demand : Demand}
    {found : Substitution}
    {before after : State}
    (run :
      Runs (inferPlace place context expected demand) before (place', found)
        after)
    (scene : Scene live before context)
    (expectedWithin : expected.Within (Below live before.nextVar)) :
    found.KeepsTo live after.nextVar := by
  cases placeRun_of_runs run with
  | unknown => exact .nil
  | known bound fieldsRun asked =>
      obtain ⟨fieldsKeep, currentWithin⟩ :=
        inferFields_keepsTo fieldsRun scene .nil
          (by simpa using scene.context.vars _ _ bound)
      exact fieldsKeep.unified asked
        (fieldsKeep.apply (expectedWithin.grow (inferFields_grows fieldsRun)))
        currentWithin
termination_by structural place

/-- What fields add to the findings keeps to live variables and to new ones. -/
theorem inferFields_keepsTo
    {live : TypeVar → Prop}
    {fields fields' : List Field}
    {name : String}
    {span : Span}
    {context : Context}
    {current selected : Ty}
    {found extended : Substitution}
    {before after : State}
    (run :
      Runs (inferFields fields name span context current found) before
        (fields', selected, extended) after)
    (scene : Scene live before context)
    (keeps : found.KeepsTo live before.nextVar)
    (currentWithin : current.Within (Below (found.leaves live) before.nextVar)) :
    extended.KeepsTo live after.nextVar ∧
      selected.Within (Below (extended.leaves live) after.nextVar) := by
  cases fields with
  | nil =>
      obtain ⟨_, rfl, rfl, rfl⟩ := runs_inferFields_nil run
      exact ⟨keeps, currentWithin⟩
  | cons field rest =>
      obtain ⟨_, _, _, _, _, fieldRun, restRun, _⟩ := runs_inferFields_cons run
      obtain ⟨fieldKeeps, betweenWithin⟩ :=
        inferField_keepsTo fieldRun scene keeps currentWithin
      exact inferFields_keepsTo restRun (scene.grow (inferField_grows fieldRun))
        fieldKeeps betweenWithin
termination_by structural fields

theorem inferField_keepsTo
    {live : TypeVar → Prop}
    {field field' : Field}
    {name : String}
    {span : Span}
    {context : Context}
    {current selected : Ty}
    {found extended : Substitution}
    {before after : State}
    (run :
      Runs (inferField field name span context current found) before
        (field', selected, extended) after)
    (scene : Scene live before context)
    (keeps : found.KeepsTo live before.nextVar)
    (currentWithin : current.Within (Below (found.leaves live) before.nextVar)) :
    extended.KeepsTo live after.nextVar ∧
      selected.Within (Below (extended.leaves live) after.nextVar) := by
  have drawnOne : (Ty.var before.nextVar).Within (Drawn before (before.draw 1)) :=
    Ty.within_var.mpr ⟨Nat.le_refl _, Nat.lt_succ_self _⟩
  have drawnFirst :
      (Ty.var before.nextVar).Within (Drawn before (before.draw 2)) :=
    Ty.within_var.mpr ⟨Nat.le_refl _, Nat.lt_succ_of_lt (Nat.lt_succ_self _)⟩
  have drawnSecond :
      (Ty.var (before.nextVar + 1)).Within (Drawn before (before.draw 2)) :=
    Ty.within_var.mpr ⟨Nat.le_succ _, Nat.lt_succ_self _⟩
  cases fieldRun_of_runs run with
  | hd asked =>
      obtain ⟨bothKeep, selects⟩ :=
        keeps.select scene.supply currentWithin (.draw _ _) asked
          (Ty.within_list.mpr drawnOne)
      exact ⟨bothKeep, selects _ drawnOne⟩
  | tl asked =>
      obtain ⟨bothKeep, selects⟩ :=
        keeps.select scene.supply currentWithin (.draw _ _) asked
          (Ty.within_list.mpr drawnOne)
      exact ⟨bothKeep, selects _ (Ty.within_list.mpr drawnOne)⟩
  | fst asked =>
      obtain ⟨bothKeep, selects⟩ :=
        keeps.select scene.supply currentWithin (.draw _ _) asked
          (Ty.within_pair.mpr ⟨drawnFirst, drawnSecond⟩)
      exact ⟨bothKeep, selects _ drawnFirst⟩
  | snd asked =>
      obtain ⟨bothKeep, selects⟩ :=
        keeps.select scene.supply currentWithin (.draw _ _) asked
          (Ty.within_pair.mpr ⟨drawnFirst, drawnSecond⟩)
      exact ⟨bothKeep, selects _ drawnSecond⟩
  | index asked positionRun =>
      obtain ⟨bothKeep, selects⟩ :=
        keeps.select scene.supply currentWithin (.draw _ _) asked
          (Ty.within_list.mpr drawnOne)
      have askedGrows := (State.Grows.draw before 1).trans
        (unifyOrReport_grows asked)
      have positionGrows := inferExpr_grows positionRun
      have positionKeeps :=
        inferExpr_keepsTo positionRun (scene.narrow askedGrows bothKeep)
          Ty.within_int
      have allKeep := bothKeep.append positionKeeps positionGrows.nextVar
      refine ⟨allKeep, allKeep.apply ?_⟩
      exact (scene.within_next 0).grow
        ((unifyOrReport_grows asked).trans positionGrows)
termination_by structural field

/-- What inference of a call finds keeps to live variables and to new ones. -/
theorem inferCall_keepsTo
    {live : TypeVar → Prop}
    {call call' : Call}
    {context : Context}
    {expected : Ty}
    {demand : Demand}
    {guard : Option ValueGuard}
    {found : Substitution}
    {before after : State}
    (run :
      Runs (inferCall call context expected demand guard) before (call', found)
        after)
    (scene : Scene live before context)
    (expectedWithin : expected.Within (Below live before.nextVar)) :
    found.KeepsTo live after.nextVar := by
  cases callRun_of_runs run with
  | waits | arity | void => exact .nil
  | checked known _ argsRun asked =>
      obtain ⟨paramsWithin, resultWithin⟩ := scene.context.funs _ _ known
      have argsGrow := inferArgs_grows argsRun
      have argsKeep :=
        inferArgs_keepsTo argsRun scene.supply
          (CallProgress.keepsTo_start scene.context) paramsWithin
      have seen {ty : Ty} (within : ty.Within (Below live before.nextVar)) :=
        argsKeep.view _ ty (Nat.le_refl _) (within.grow argsGrow)
      exact argsKeep.outward.unified asked (seen expectedWithin)
        (seen resultWithin)
termination_by structural call

/--
What arguments add to the findings keeps to live variables and to new ones.
-/
theorem inferArgs_keepsTo
    {live : TypeVar → Prop}
    {args args' : List Expr}
    {params : List Ty}
    {function : String}
    {number : Nat}
    {progress reached : CallProgress}
    {before after : State}
    (run :
      Runs (inferArgs args params function number progress) before
        (args', some reached) after)
    (supply : Supply live before.nextVar)
    (keeps : progress.KeepsTo live before.nextVar)
    (paramsWithin :
      ∀ param ∈ params, param.Within (Below live before.nextVar)) :
    reached.KeepsTo live after.nextVar := by
  cases argsRun_of_runs run with
  | done => exact keeps
  | @next arg _ _ _ param _ _ found more _ middle unified _
      argRun argTyEq _ asked restRun =>
      have drawn : before.Grows (before.draw 1) := .draw _ _
      have argGrows := inferExpr_grows argRun
      have askedGrows := unifyOrReport_grows asked
      have leftSupply := keeps.outward.supply supply (Nat.le_refl _)
      have foundKeeps :
          found.KeepsTo (progress.outward.leaves live) middle.nextVar :=
        inferExpr_keepsTo argRun
          ((Scene.mk leftSupply keeps.context).grow drawn)
          (leftSupply.within_var (Nat.le_refl _) (Nat.lt_succ_self _))
      obtain ⟨_, nextKeeps⟩ :=
        keeps.step foundKeeps asked argTyEq supply argGrows.nextVar
          (paramsWithin param List.mem_cons_self)
      have grows := (drawn.trans argGrows).trans askedGrows
      exact inferArgs_keepsTo restRun (supply.mono grows.nextVar) nextKeeps
        fun other member =>
          (paramsWithin other (List.mem_cons_of_mem _ member)).grow grows
termination_by structural args

end

mutual

/--
What inference of a statement finds keeps to live variables and to new ones.
-/
theorem inferStmt_keepsTo
    {live : TypeVar → Prop}
    {stmt stmt' : Stmt}
    {context : Context}
    {expected : Ty}
    {found : Substitution}
    {before after : State}
    (run : Runs (inferStmt stmt context expected) before (stmt', found) after)
    (scene : Scene live before context)
    (expectedWithin : expected.Within (Below live before.nextVar)) :
    found.KeepsTo live after.nextVar := by
  cases stmtRun_of_runs run with
  | ifElse thenRun elseRun conditionRun =>
      have thenGrows := inferBlock_grows thenRun
      have elseGrows := inferBlock_grows elseRun
      have thenKeeps := inferBlock_keepsTo thenRun scene expectedWithin
      have elseKeeps :=
        inferBlock_keepsTo elseRun (scene.narrow thenGrows thenKeeps)
          (thenKeeps.apply (expectedWithin.grow thenGrows))
      have bothKeep := thenKeeps.append elseKeeps elseGrows.nextVar
      have conditionKeeps :=
        inferExpr_keepsTo conditionRun
          (scene.narrow (thenGrows.trans elseGrows) bothKeep) Ty.within_bool
      exact bothKeep.append conditionKeeps
        (inferExpr_grows conditionRun).nextVar
  | whileDo bodyRun conditionRun =>
      have bodyKeeps := inferBlock_keepsTo bodyRun scene expectedWithin
      have conditionKeeps :=
        inferExpr_keepsTo conditionRun
          (scene.narrow (inferBlock_grows bodyRun) bodyKeeps) Ty.within_bool
      exact bodyKeeps.append conditionKeeps
        (inferExpr_grows conditionRun).nextVar
  | forTaken iterableRun =>
      have iterableKeeps :=
        inferExpr_keepsTo iterableRun (scene.grow (.draw _ _))
          (Ty.within_list.mpr (scene.within_next 0))
      exact iterableKeeps
  | forIn iterableRun _ bodyRun =>
      have drawn : before.Grows (before.draw 1) := .draw _ _
      have iterableGrows := inferExpr_grows iterableRun
      have iterableKeeps :=
        inferExpr_keepsTo iterableRun (scene.grow drawn)
          (Ty.within_list.mpr (scene.within_next 0))
      have inner :=
        (scene.grow drawn).narrow iterableGrows iterableKeeps
      have bodyKeeps :=
        inferBlock_keepsTo bodyRun
          (inner.bindVar _
            (iterableKeeps.apply ((scene.within_next 0).grow iterableGrows)))
          (iterableKeeps.apply
            (expectedWithin.grow (drawn.trans iterableGrows)))
      exact iterableKeeps.append bodyKeeps (inferBlock_grows bodyRun).nextVar
  | assignVoid | returnVoid => exact .nil
  | @assign _ _ _ _ _ found _ _ middle _ _ valueRun targetRun _ _ asked =>
      have drawn : before.Grows (before.draw 1) := .draw _ _
      have valueGrows := inferExpr_grows valueRun
      have targetGrows := inferPlace_grows targetRun
      have drawnAgain : middle.Grows (middle.draw 1) := .draw _ _
      have valueKeeps :=
        inferExpr_keepsTo valueRun (scene.grow drawn) (scene.within_next 0)
      have inner := (scene.grow drawn).narrow valueGrows valueKeeps
      have targetKeeps :=
        inferPlace_keepsTo targetRun (inner.grow drawnAgain)
          (inner.within_next 0)
      have bothKeep :=
        (valueKeeps.mono drawnAgain.nextVar).append targetKeeps
          targetGrows.nextVar
      refine bothKeep.unified asked (bothKeep.apply ?_) (bothKeep.apply ?_)
      · refine Ty.Within.grow ?_ targetGrows
        exact (inner.within_next 0).mono fun _ ⟨isLeft, seen⟩ =>
          ⟨isLeft.1, seen⟩
      · exact (scene.within_next 0).grow
          ((valueGrows.trans drawnAgain).trans targetGrows)
  | call callRun =>
      exact inferCall_keepsTo callRun (scene.grow (.draw _ _))
        (scene.within_next 0)
  | returnValue valueRun _ asked =>
      have drawn : before.Grows (before.draw 1) := .draw _ _
      have valueGrows := inferExpr_grows valueRun
      have valueKeeps :=
        inferExpr_keepsTo valueRun (scene.grow drawn) (scene.within_next 0)
      exact valueKeeps.unified asked
        (valueKeeps.apply (expectedWithin.grow (drawn.trans valueGrows)))
        (valueKeeps.apply ((scene.within_next 0).grow valueGrows))
  | returnNothing asked =>
      exact unifyOrReport_keepsTo asked expectedWithin Ty.within_void
termination_by structural stmt

/-- What statements find keeps to live variables and to new ones. -/
theorem inferBlock_keepsTo
    {live : TypeVar → Prop}
    {stmts stmts' : List Stmt}
    {context : Context}
    {expected : Ty}
    {found : Substitution}
    {before after : State}
    (run :
      Runs (inferBlock stmts context expected) before (stmts', found) after)
    (scene : Scene live before context)
    (expectedWithin : expected.Within (Below live before.nextVar)) :
    found.KeepsTo live after.nextVar := by
  cases stmts with
  | nil =>
      obtain ⟨_, rfl, rfl⟩ := runs_inferBlock_nil run
      exact .nil
  | cons stmt rest =>
      obtain ⟨_, _, _, _, _, stmtRun, restRun, _, rfl⟩ :=
        runs_inferBlock_cons run
      have stmtGrows := inferStmt_grows stmtRun
      have stmtKeeps := inferStmt_keepsTo stmtRun scene expectedWithin
      have restKeeps :=
        inferBlock_keepsTo restRun (scene.narrow stmtGrows stmtKeeps)
          (stmtKeeps.apply (expectedWithin.grow stmtGrows))
      exact stmtKeeps.append restKeeps (inferBlock_grows restRun).nextVar
termination_by structural stmts

end

end SplTyping
