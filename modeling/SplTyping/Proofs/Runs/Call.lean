import SplTyping.Proofs.Runs.Expr

namespace SplTyping

/-!
# Runs over calls

A call is checked against the signature of its callee, or set aside if the callee
is not declared yet. Its arguments are gone through from left to right, each with
what the ones before it have shown.
-/

/-- How the inference of a call runs. -/
inductive CallRun
    (context : Context)
    (expected : Ty)
    (demand : Demand)
    (guard : Option ValueGuard)
    (before : State) :
    Call → Call → Substitution → State → Prop where
  | waits
      {call : Call}
      (unknown : context.funs.get? call.callee.text = none) :
      CallRun context expected demand guard before
        call { call with waiting := some before.pending.nextId } []
        (before.setAside call context expected guard)
  | arity
      {call : Call}
      {signature : Signature}
      {error : TypeError}
      (known : context.funs.get? call.callee.text = some signature)
      (differ : call.args.length ≠ signature.params.length)
      (plain : error.types = []) :
      CallRun context expected demand guard before
        call call [] (before.record error)
  | void
      {callee : Name}
      {args args' : List Expr}
      {mark : Mark}
      {waiting : Option CallId}
      {signature : Signature}
      {after : State}
      (known : context.funs.get? callee.text = some signature)
      (sameLength : args.length = signature.params.length)
      (argsRun :
        Runs
          (inferArgs args signature.params callee.text 1 (.start context))
          before (args', none) after) :
      CallRun context expected demand guard before
        ⟨callee, args, mark, waiting⟩ ⟨callee, args', mark, waiting⟩ [] after
  | checked
      {callee : Name}
      {args args' : List Expr}
      {mark : Mark}
      {waiting : Option CallId}
      {signature : Signature}
      {progress : CallProgress}
      {final : Substitution}
      {middle after : State}
      (known : context.funs.get? callee.text = some signature)
      (sameLength : args.length = signature.params.length)
      (argsRun :
        Runs
          (inferArgs args signature.params callee.text 1 (.start context))
          before (args', some progress) middle)
      (asked :
        Runs
          (constrain (progress.view.apply expected)
            (progress.view.apply signature.result) demand mark.span)
          middle final after) :
      CallRun context expected demand guard before
        ⟨callee, args, mark, waiting⟩
        ⟨callee, args',
          mark.withTy
            (.fn (progress.types.map (progress.view ++ final).apply)
              ((progress.view ++ final).apply
                (progress.view.apply signature.result))),
          waiting⟩
        (progress.outward ++ final) after

/-- Every run of inference on a call is of one of the listed forms. -/
theorem callRun_of_runs
    {call call' : Call}
    {context : Context}
    {expected : Ty}
    {demand : Demand}
    {guard : Option ValueGuard}
    {found : Substitution}
    {before after : State}
    (run :
      Runs (inferCall call context expected demand guard) before (call', found)
        after) :
    CallRun context expected demand guard before call call' found after := by
  rcases call with ⟨callee, args, mark, waiting⟩
  unfold inferCall at run
  split at run
  · rename_i unknown
    simp only [runs_bind, runs_defer, runs_pure, Prod.mk.injEq] at run
    obtain ⟨_, _, ⟨rfl, rfl⟩, ⟨rfl, rfl⟩, rfl⟩ := run
    exact .waits unknown
  · rename_i signature known
    rcases runs_ite.mp run with ⟨sameLength, run⟩ | ⟨differ, run⟩
    · simp only [runs_bind, Prod.exists] at run
      obtain ⟨args', outcome, middle, argsRun, run⟩ := run
      cases outcome with
      | none =>
          simp only [runs_pure, Prod.mk.injEq] at run
          obtain ⟨⟨rfl, rfl⟩, rfl⟩ := run
          exact .void known sameLength argsRun
      | some progress =>
          simp only [runs_bind, runs_pure, Prod.mk.injEq] at run
          obtain ⟨final, _, asked, ⟨rfl, rfl⟩, rfl⟩ := run
          exact .checked known sameLength argsRun asked
    · simp only [runs_bind, runs_report, runs_pure, Prod.mk.injEq] at run
      obtain ⟨_, _, rfl, ⟨rfl, rfl⟩, rfl⟩ := run
      exact .arity known differ rfl

namespace CallProgress

/-- The flow at which an argument of a given type meets its parameter. -/
def flowOf (argTy argVar : Ty) : Flow :=
  if argTy = argVar then .global else .confined

/-- The progress after one more argument. -/
def next
    (progress : CallProgress)
    (argTy : Ty)
    (found more : Substitution) :
    CallProgress where
  outward := progress.outward ++ found ++ more.split.1
  view := progress.view ++ found ++ more
  context := (progress.context.narrow found).narrow more.split.1
  types := progress.types ++ [argTy]

end CallProgress

/-- How the inference of arguments runs. -/
inductive ArgsRun
    (function : String)
    (number : Nat)
    (progress : CallProgress)
    (before : State) :
    List Expr → List Ty → List Expr → Option CallProgress → State → Prop where
  | done
      {args : List Expr}
      {params : List Ty}
      (nothing : args = [] ∨ params = []) :
      ArgsRun function number progress before
        args params args (some progress) before
  | void
      {arg arg' : Expr}
      {args : List Expr}
      {param : Ty}
      {params : List Ty}
      {found : Substitution}
      {middle : State}
      {error : TypeError}
      (argRun :
        Runs
          (inferExpr arg progress.context (.var before.nextVar) .general
            (some ⟨.argument function number, arg.span⟩))
          (before.draw 1) (arg', found) middle)
      (isVoid :
        ((progress.view ++ found).apply (.var before.nextVar)).contains .void =
          true)
      (plain : error.types = []) :
      ArgsRun function number progress before
        (arg :: args) (param :: params) (arg' :: args) none
        (middle.record error)
  | next
      {arg arg' : Expr}
      {args args' : List Expr}
      {param argTy : Ty}
      {params : List Ty}
      {found more : Substitution}
      {outcome : Option CallProgress}
      {middle unified after : State}
      (argRun :
        Runs
          (inferExpr arg progress.context (.var before.nextVar) .general
            (some ⟨.argument function number, arg.span⟩))
          (before.draw 1) (arg', found) middle)
      (argTyEq :
        argTy = (progress.view ++ found).apply (.var before.nextVar))
      (value : argTy.contains .void = false)
      (asked :
        Runs
          (unifyOrReport argTy ((progress.view ++ found).apply param)
            (CallProgress.flowOf argTy (.var before.nextVar))
            (TypeError.ofArgument function number arg.span))
          middle more unified)
      (restRun :
        Runs
          (inferArgs args params function (number + 1)
            (progress.next argTy found more))
          unified (args', outcome) after) :
      ArgsRun function number progress before
        (arg :: args) (param :: params) (arg' :: args') outcome after

/-- Every run of inference on arguments is of one of the listed forms. -/
theorem argsRun_of_runs
    {args args' : List Expr}
    {params : List Ty}
    {function : String}
    {number : Nat}
    {progress : CallProgress}
    {outcome : Option CallProgress}
    {before after : State}
    (run :
      Runs (inferArgs args params function number progress) before
        (args', outcome) after) :
    ArgsRun function number progress before args params args' outcome after := by
  cases args with
  | nil =>
      simp only [inferArgs, runs_pure, Prod.mk.injEq] at run
      obtain ⟨⟨rfl, rfl⟩, rfl⟩ := run
      exact .done (Or.inl rfl)
  | cons arg args =>
      cases params with
      | nil =>
          simp only [inferArgs, runs_pure, Prod.mk.injEq] at run
          obtain ⟨⟨rfl, rfl⟩, rfl⟩ := run
          exact .done (Or.inr rfl)
      | cons param params =>
          simp only [inferArgs, runs_bind, runs_fresh, runs_ite, runs_report,
            runs_pure, Prod.exists, Prod.mk.injEq] at run
          obtain ⟨_, _, ⟨rfl, rfl⟩, arg', found, middle, argRun, outcome⟩ := run
          rcases outcome with
            ⟨isVoid, _, _, rfl, ⟨rfl, rfl⟩, rfl⟩ |
              ⟨value, more, unified, asked, args', outcome, _, restRun,
                ⟨rfl, rfl⟩, rfl⟩
          · exact .void argRun isVoid rfl
          · exact .next argRun rfl (by simpa using value) asked restRun

end SplTyping
