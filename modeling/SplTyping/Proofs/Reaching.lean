import SplTyping.Proofs.Declarations
import SplTyping.Proofs.Models
import SplTyping.Proofs.Waiting

namespace SplTyping

/-!
# Following a typing through inference

Suppose that a tree is typed by the rules, and that an assignment turns what
inference knows so far into that typing. A step of inference then records no
error, and the assignment can be changed on variables that were not drawn before
so that it solves the findings of the step. `Setting` collects what holds before
a step, and `Reaches` what a step leads to; `Reaches.append` puts steps after
each other.

A call that waits is typed as well. It is kept with its typing until the
assignment has reached the declaration of its callee.
-/

/-- What is asked of a program so that inference must accept it. -/
def Rules.inferable : Rules where
  recorded := fun _ _ => True
  bound := fun first ty =>
    ty = .int ∨ (ty = .char ∧ ∃ value mark, first = .char value mark)
  value := fun ty => ty.contains .void = false

namespace Assignment

/-- One assignment changes another only from a bound onwards. -/
def AgreesBelow (bound : TypeVar) (assign changed : Assignment) : Prop :=
  ∀ id < bound, changed id = assign id

/-- An assignment with the type of one variable changed. -/
def set (assign : Assignment) (id : TypeVar) (ty : Ty) : Assignment :=
  fun other => if other = id then ty else assign other

theorem set_self (assign : Assignment) (id : TypeVar) (ty : Ty) :
    assign.set id ty id = ty :=
  if_pos rfl

/-- A variable from a bound on may be changed. -/
theorem agreesBelow_set
    {bound id : TypeVar}
    (assign : Assignment)
    (ty : Ty)
    (unseen : bound ≤ id) :
    AgreesBelow bound assign (assign.set id ty) :=
  fun _ seen => if_neg (Nat.ne_of_lt (Nat.lt_of_lt_of_le seen unseen))

namespace AgreesBelow

variable {bound later : TypeVar} {assign changed : Assignment}

theorem refl (bound : TypeVar) (assign : Assignment) :
    AgreesBelow bound assign assign :=
  fun _ _ => rfl

/-- Two changes from bounds on, the second one later. -/
theorem trans
    {last : Assignment}
    (first : AgreesBelow bound assign changed)
    (second : AgreesBelow later changed last)
    (grows : bound ≤ later) :
    AgreesBelow bound assign last :=
  fun id seen =>
    (second id (Nat.lt_of_lt_of_le seen grows)).trans (first id seen)

/-- A type of variables below the bound is not changed. -/
theorem instantiate
    {ty : Ty}
    (agrees : AgreesBelow bound assign changed)
    (within : ty.Within (Below anyVar bound)) :
    ty.instantiate changed = ty.instantiate assign :=
  Ty.instantiate_congr fun id member => agrees id (within id member).2

/-- A signature of variables below the bound is not changed. -/
theorem signature
    {signature : Signature}
    (agrees : AgreesBelow bound assign changed)
    (within : signature.Within (Below anyVar bound)) :
    signature.instantiate changed = signature.instantiate assign := by
  have params :
      signature.params.map (Ty.instantiate changed) =
        signature.params.map (Ty.instantiate assign) :=
    List.map_congr_left fun param member =>
      agrees.instantiate (within.1 param member)
  rw [Signature.instantiate, params, agrees.instantiate within.2,
    Signature.instantiate]

/-- Findings about variables below the bound stay solved. -/
theorem solvedBy
    {found : Substitution}
    (agrees : AgreesBelow bound assign changed)
    (within : found.Within (Below anyVar bound))
    (solved : found.SolvedBy assign) :
    found.SolvedBy changed := by
  intro binding member
  obtain ⟨varWithin, tyWithin⟩ := within binding member
  rw [Binding.SolvedBy, agrees _ varWithin.2, agrees.instantiate tyWithin]
  exact solved binding member

/-- Variables of a context below the bound keep their types. -/
theorem varsModel
    {context : Context}
    {scope : Scope}
    (agrees : AgreesBelow bound assign changed)
    (within : context.Within (Below anyVar bound))
    (vars : context.VarsModel assign scope) :
    context.VarsModel changed scope := by
  intro name
  rw [vars name]
  cases known : context.vars.get? name with
  | none => rfl
  | some ty =>
      rw [Option.map_some, Option.map_some,
        agrees.instantiate (within.vars name ty known)]

/-- Functions of a context below the bound keep their types. -/
theorem funsModel
    {context : Context}
    {scope : Scope}
    (agrees : AgreesBelow bound assign changed)
    (within : context.Within (Below anyVar bound))
    (funs : context.FunsModel assign scope) :
    context.FunsModel changed scope := by
  intro name signature known
  rw [funs name signature known,
    agrees.signature (within.funs name signature known)]

end AgreesBelow

end Assignment

/-- A call that waits is typed in the variables that were in scope. -/
structure PendingTyped
    (funs : String → Option Signature)
    (known : String → Prop)
    (assign : Assignment)
    (bound : TypeVar)
    (callee : String)
    (pending : PendingCall) :
    Prop where
  calleeEq : pending.call.callee.text = callee
  unknown : ¬ known callee
  typed :
    ∃ vars,
      pending.context.VarsModel assign ⟨vars, funs⟩ ∧
        CallHasType .inferable ⟨vars, funs⟩ pending.call
          (pending.expected.instantiate assign)
  value :
    pending.guard.isSome = true →
      (pending.expected.instantiate assign).contains .void = false
  contextWithin : pending.context.Within (Below anyVar bound)
  expectedWithin : pending.expected.Within (Below anyVar bound)

/-- A call stays typed while later variables are given types. -/
theorem PendingTyped.change
    {funs : String → Option Signature}
    {known : String → Prop}
    {assign changed : Assignment}
    {bound later : TypeVar}
    {callee : String}
    {pending : PendingCall}
    (typed : PendingTyped funs known assign bound callee pending)
    (agrees : Assignment.AgreesBelow bound assign changed)
    (grows : bound ≤ later) :
    PendingTyped funs known changed later callee pending where
  calleeEq := typed.calleeEq
  unknown := typed.unknown
  typed := by
    obtain ⟨vars, varsModel, callHas⟩ := typed.typed
    refine ⟨vars, agrees.varsModel typed.contextWithin varsModel, ?_⟩
    rwa [agrees.instantiate typed.expectedWithin]
  value := by
    rw [agrees.instantiate typed.expectedWithin]
    exact typed.value
  contextWithin := typed.contextWithin.mono (Below.mono grows)
  expectedWithin := typed.expectedWithin.mono (Below.mono grows)

/-- No error was recorded, and every call that waits is typed. -/
structure State.Ready
    (funs : String → Option Signature)
    (known : String → Prop)
    (assign : Assignment)
    (state : State) :
    Prop where
  clean : state.Clean
  waiting : state.AllWaiting (PendingTyped funs known assign state.nextVar)

/-- A state stays ready while later variables are given types. -/
theorem State.Ready.change
    {funs : String → Option Signature}
    {known : String → Prop}
    {assign changed : Assignment}
    {before after : State}
    (ready : before.Ready funs known assign)
    (agrees : Assignment.AgreesBelow before.nextVar assign changed)
    (grows : before.nextVar ≤ after.nextVar)
    (sameDiagnostics : after.diagnostics = before.diagnostics)
    (samePending : after.pending = before.pending) :
    after.Ready funs known changed where
  clean := by
    rw [State.Clean, sameDiagnostics]
    exact ready.clean
  waiting :=
    ready.waiting.mono (fun _ _ typed => typed.change agrees grows) samePending

/-- What a step of inference leads to. -/
structure Reaches
    (funs : String → Option Signature)
    (known : String → Prop)
    (before : State)
    (assign : Assignment)
    (found : Substitution)
    (after : State)
    (changed : Assignment) :
    Prop where
  grows : before.nextVar ≤ after.nextVar
  agrees : Assignment.AgreesBelow before.nextVar assign changed
  within : found.Within (Below anyVar after.nextVar)
  solved : found.SolvedBy changed
  ready : after.Ready funs known changed

namespace Reaches

variable {funs : String → Option Signature} {known later : String → Prop}
variable {before middle after : State} {assign changed last : Assignment}
variable {found more : Substitution}

/-- Where one step leads to, the next one goes on. -/
theorem append
    (first : Reaches funs known before assign found middle changed)
    (second : Reaches funs later middle changed more after last) :
    Reaches funs later before assign (found ++ more) after last where
  grows := Nat.le_trans first.grows second.grows
  agrees := first.agrees.trans second.agrees first.grows
  within :=
    Substitution.within_append.mpr
      ⟨first.within.mono (Below.mono second.grows), second.within⟩
  solved :=
    Substitution.solvedBy_append.mpr
      ⟨second.agrees.solvedBy first.within first.solved, second.solved⟩
  ready := second.ready

/-- Type variables are drawn, and given any types at all. -/
theorem draw
    (ready : before.Ready funs known assign)
    (agrees : Assignment.AgreesBelow before.nextVar assign changed)
    (count : Nat) :
    Reaches funs known before assign [] (before.draw count) changed where
  grows := Nat.le_add_right _ _
  agrees := agrees
  within := Substitution.within_nil
  solved := Substitution.solvedBy_nil changed
  ready := ready.change agrees (Nat.le_add_right _ _) rfl rfl

/-- Narrowed types keep to variables that have been drawn. -/
theorem applyWithin
    {ty : Ty}
    (reaches : Reaches funs known before assign found after changed)
    (within : ty.Within (Below anyVar before.nextVar)) :
    (found.apply ty).Within (Below anyVar after.nextVar) :=
  reaches.within.apply (within.mono (Below.mono reaches.grows))

/-- Narrowing does not change what a type stands for. -/
theorem instantiate_apply
    {ty : Ty}
    (reaches : Reaches funs known before assign found after changed)
    (within : ty.Within (Below anyVar before.nextVar)) :
    (found.apply ty).instantiate changed = ty.instantiate assign := by
  rw [reaches.solved.instantiate_apply, reaches.agrees.instantiate within]

end Reaches

/-- Types that stand for the same type are unified without error. -/
theorem unifyOrReport_of_equal
    {assign : Assignment}
    {left right : Ty}
    {flow : Flow}
    {explain : UnifyError → TypeError}
    {found : Substitution}
    {before after : State}
    (run : Runs (unifyOrReport left right flow explain) before found after)
    (same : left.instantiate assign = right.instantiate assign) :
    found.SolvedBy assign ∧ after = before := by
  obtain ⟨bindings, unified, solved⟩ := unify_of_equal flow same
  rcases runs_unifyOrReport run with ⟨isOk, rfl⟩ | ⟨_, failed, _, _⟩
  · rw [unified, Except.ok.injEq] at isOk
    subst isOk
    exact ⟨solved, rfl⟩
  · rw [unified] at failed
    cases failed

/-- A step leads on to the unification of types that are the same. -/
theorem Reaches.unified
    {funs : String → Option Signature}
    {known : String → Prop}
    {before middle after : State}
    {assign changed : Assignment}
    {found final : Substitution}
    {left right : Ty}
    {flow : Flow}
    {explain : UnifyError → TypeError}
    (reaches : Reaches funs known before assign found middle changed)
    (run : Runs (unifyOrReport left right flow explain) middle final after)
    (same : left.instantiate changed = right.instantiate changed)
    (leftWithin : left.Within (Below anyVar middle.nextVar))
    (rightWithin : right.Within (Below anyVar middle.nextVar)) :
    Reaches funs known before assign (found ++ final) after changed := by
  have keeps := unifyOrReport_keepsTo run leftWithin rightWithin
  obtain ⟨finalSolved, rfl⟩ := unifyOrReport_of_equal run same
  exact
    { grows := reaches.grows
      agrees := reaches.agrees
      within := Substitution.within_append.mpr ⟨reaches.within, keeps.within⟩
      solved :=
        Substitution.solvedBy_append.mpr ⟨reaches.solved, finalSolved⟩
      ready := reaches.ready }

/-- What holds before a step of inference. -/
structure Setting
    (scope : Scope)
    (known : String → Prop)
    (assign : Assignment)
    (state : State)
    (context : Context) :
    Prop where
  scene : Scene anyVar state context
  vars : context.VarsModel assign scope
  funs : context.FunsModel assign scope
  knows : ∀ name, known name → context.funs.contains name = true
  ready : state.Ready scope.funs known assign

namespace Setting

variable {scope : Scope} {known : String → Prop} {context : Context}
variable {before after : State} {assign changed : Assignment}
variable {found : Substitution}

/-- A setting still holds after a step. -/
theorem change
    (setting : Setting scope known assign before context)
    (reaches : Reaches scope.funs known before assign found after changed) :
    Setting scope known changed after context where
  scene :=
    ⟨fun _ _ => trivial, setting.scene.context.mono (Below.mono reaches.grows)⟩
  vars := reaches.agrees.varsModel setting.scene.context setting.vars
  funs := reaches.agrees.funsModel setting.scene.context setting.funs
  knows := setting.knows
  ready := reaches.ready

/-- Solved findings may narrow the context. -/
theorem narrow
    (setting : Setting scope known assign before context)
    (within : found.Within (Below anyVar before.nextVar))
    (solved : found.SolvedBy assign) :
    Setting scope known assign before (context.narrow found) where
  scene :=
    ⟨setting.scene.supply,
      setting.scene.context.narrow_of_apply fun _ tyWithin =>
        within.apply tyWithin⟩
  vars := setting.vars.narrow solved
  funs := by
    intro name signature bound
    simp only [Context.narrow, Table.get?_map,
      Option.map_eq_some_iff] at bound
    obtain ⟨original, bound, rfl⟩ := bound
    rw [setting.funs name original bound, Signature.instantiate_narrow solved]
  knows := by
    intro name isKnown
    rw [Context.narrow_contains]
    exact setting.knows name isKnown
  ready := setting.ready

/-- The setting for the next step. -/
theorem step
    (setting : Setting scope known assign before context)
    (reaches : Reaches scope.funs known before assign found after changed) :
    Setting scope known changed after (context.narrow found) :=
  (setting.change reaches).narrow reaches.within reaches.solved

/-- A setting in which more variables are drawn. -/
theorem draw
    (setting : Setting scope known assign before context)
    (agrees : Assignment.AgreesBelow before.nextVar assign changed)
    (count : Nat) :
    Setting scope known changed (before.draw count) context :=
  setting.change (.draw setting.ready agrees count)

/-- A variable is bound in the context and in the scope. -/
theorem bindVar
    {ty : Ty}
    (setting : Setting scope known assign before context)
    (name : String)
    (within : ty.Within (Below anyVar before.nextVar)) :
    Setting (scope.bindVar name (ty.instantiate assign)) known assign before
      (context.bindVar name ty) where
  scene := setting.scene.bindVar name within
  vars := setting.vars.bindVar name ty
  funs := setting.funs
  knows := setting.knows
  ready := setting.ready

end Setting

end SplTyping
