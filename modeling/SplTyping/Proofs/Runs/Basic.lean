import SplTyping.Inference.Program

namespace SplTyping

/-!
# Runs of inference

`Runs step before result after` says that a step of inference, started in one
state, returns a result and ends in another. For every function of inference the
ways in which it can run are listed once, as an inductive predicate with one
constructor per way (`ExprRun`, `CallRun`, `StmtRun`, ...); its premises are the
runs of the functions that it calls. Everything that is proved about inference
is proved by going through these lists.
-/

/-- A step, started in `before`, returns `result` and ends in `after`. -/
def Runs
    {α : Type}
    (step : InferM α)
    (before : State)
    (result : α)
    (after : State) :
    Prop :=
  step.run before = (result, after)

namespace State

/-- The state after drawing some type variables. -/
def draw (state : State) (count : Nat) : State :=
  { state with nextVar := state.nextVar + count }

/-- The state after recording an error. -/
def record (state : State) (error : TypeError) : State :=
  { state with diagnostics := state.diagnostics.report error }

/-- The state after setting a call aside. -/
def setAside
    (state : State)
    (call : Call)
    (context : Context)
    (expected : Ty)
    (guard : Option ValueGuard) :
    State :=
  { state with
    pending := (state.pending.defer call context expected guard).2 }

end State

/-- The types that a failed unification mentions. -/
def UnifyError.types : UnifyError → List Ty
  | .mismatch left right => [left, right]
  | .arity _ _ => []

/-- The types that an error mentions. -/
def TypeError.types : TypeError → List Ty
  | .mismatch _ expected found _ => [expected, found]
  | .sharing _ declared inferred _ => [declared, inferred]
  | _ => []

/-- The error for a failed unification mentions no other types. -/
theorem TypeError.ofUnify_types_subset
    (demand : Demand)
    (subject : String)
    (span : Span)
    (failure : UnifyError) :
    (ofUnify demand subject span failure).types ⊆ failure.types := by
  cases failure <;> exact List.Subset.refl _

section Steps

variable {α β : Type} {before after : State}

/-- One step after the other runs through a state in between. -/
theorem runs_bind
    {step : InferM α}
    {next : α → InferM β}
    {result : β} :
    Runs (step >>= next) before result after ↔
      ∃ value middle,
        Runs step before value middle ∧
          Runs (next value) middle result after := by
  constructor
  · intro run
    exact ⟨(step.run before).1, (step.run before).2, rfl, run⟩
  · rintro ⟨value, middle, first, second⟩
    have reached : step.run before = (value, middle) := first
    change (next (step.run before).1).run (step.run before).2 = _
    rw [reached]
    exact second

/-- A step that only gives a value leaves the state as it is. -/
theorem runs_pure
    {value result : α} :
    Runs (pure value) before result after ↔
      result = value ∧ after = before := by
  constructor
  · rintro ⟨⟩
    exact ⟨rfl, rfl⟩
  · rintro ⟨rfl, rfl⟩
    rfl

/-- A choice runs as the step that is chosen. -/
theorem runs_ite
    {condition : Prop}
    [Decidable condition]
    {yes no : InferM α}
    {result : α} :
    Runs (if condition then yes else no) before result after ↔
      (condition ∧ Runs yes before result after) ∨
        (¬ condition ∧ Runs no before result after) := by
  by_cases holds : condition <;> simp [holds]

/-- A fresh type is the next variable, which is drawn. -/
theorem runs_fresh
    {result : Ty} :
    Runs fresh before result after ↔
      result = .var before.nextVar ∧ after = before.draw 1 := by
  constructor
  · rintro ⟨⟩
    exact ⟨rfl, rfl⟩
  · rintro ⟨rfl, rfl⟩
    rfl

/-- Reporting records an error. -/
theorem runs_report
    {error : TypeError}
    {result : Unit} :
    Runs (report error) before result after ↔
      after = before.record error := by
  constructor
  · rintro ⟨⟩
    rfl
  · rintro rfl
    rfl

/-- Looking at the state gives the state and leaves it as it is. -/
theorem runs_get
    {result : State} :
    Runs get before result after ↔ result = before ∧ after = before := by
  constructor
  · rintro ⟨⟩
    exact ⟨rfl, rfl⟩
  · rintro ⟨rfl, rfl⟩
    rfl

/-- A change of the state runs by changing it. -/
theorem runs_modify
    {change : State → State}
    {result : Unit} :
    Runs (modify change) before result after ↔ after = change before := by
  constructor
  · rintro ⟨⟩
    rfl
  · rintro rfl
    rfl

/-- Setting a call aside stamps it with the next number. -/
theorem runs_defer
    {call stamped : Call}
    {context : Context}
    {expected : Ty}
    {guard : Option ValueGuard} :
    Runs (defer call context expected guard) before stamped after ↔
      stamped = { call with waiting := some before.pending.nextId } ∧
        after = before.setAside call context expected guard := by
  constructor
  · rintro ⟨⟩
    exact ⟨rfl, rfl⟩
  · rintro ⟨rfl, rfl⟩
    rfl

/-- Two types are unified, or the failure is recorded and nothing is found. -/
theorem runs_unifyOrReport
    {left right : Ty}
    {flow : Flow}
    {explain : UnifyError → TypeError}
    {found : Substitution}
    (run : Runs (unifyOrReport left right flow explain) before found after) :
    (unify left right flow = .ok found ∧ after = before) ∨
      ∃ failure,
        unify left right flow = .error failure ∧ found = [] ∧
          after = before.record (explain failure) := by
  unfold unifyOrReport at run
  split at run
  · rename_i bindings unified
    obtain ⟨rfl, rfl⟩ := runs_pure.mp run
    exact Or.inl ⟨unified, rfl⟩
  · rename_i failure failed
    simp only [runs_bind, runs_report, runs_pure] at run
    obtain ⟨_, middle, rfl, rfl, rfl⟩ := run
    exact Or.inr ⟨failure, failed, rfl, rfl⟩

end Steps

end SplTyping
