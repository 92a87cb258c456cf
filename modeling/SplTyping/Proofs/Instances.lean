import Mathlib
import SplTyping.Proofs.Errors
import SplTyping.Proofs.Models
import SplTyping.Proofs.Slots

namespace SplTyping

/-!
# Calls and the signatures of their callees

The type of a call is read off all its findings, those that are confined to the
call included. Every argument was made equal to its parameter, so an assignment
that solves all findings makes the type of the call an instance of the callee's
signature. In general there need not be one. What is confined to a call does not
narrow the context, so a variable of the caller is still open in the next
argument, and may there be narrowed to another type.

Findings that are settled do not contradict each other. They are settled if the
types of all arguments but the last are closed, since nothing is confined to the
call then before the last argument.
-/

/-- The number of errors recorded. -/
def State.errorCount (state : State) : Nat :=
  state.diagnostics.errors.length

theorem State.errorCount_record (state : State) (error : TypeError) :
    (state.record error).errorCount = state.errorCount + 1 := by
  simp [errorCount, record, Diagnostics.report]

theorem Reports.errorCount_le
    {α : Type}
    {step : InferM α}
    {result : α}
    {before after : State}
    (reports : Reports step)
    (run : Runs step before result after) :
    before.errorCount ≤ after.errorCount := by
  obtain ⟨errors, isAdded, _⟩ := reports.added run
  rw [State.errorCount, State.errorCount, isAdded, List.length_append]
  exact Nat.le_add_right _ _

theorem unifyOrReport_ok
    {left right : Ty}
    {flow : Flow}
    {explain : UnifyError → TypeError}
    {found : Substitution}
    {before after : State}
    (run : Runs (unifyOrReport left right flow explain) before found after)
    (quiet : after.errorCount ≤ before.errorCount) :
    unify left right flow = .ok found ∧ after = before := by
  rcases runs_unifyOrReport run with unified | ⟨_, _, _, rfl⟩
  · exact unified
  · rw [State.errorCount_record] at quiet
    exact absurd quiet (Nat.not_succ_le_self _)

theorem unifyOrReport_errorCount_le
    {left right : Ty}
    {flow : Flow}
    {explain : UnifyError → TypeError}
    {found : Substitution}
    {before after : State}
    (run : Runs (unifyOrReport left right flow explain) before found after) :
    before.errorCount ≤ after.errorCount := by
  rcases runs_unifyOrReport run with ⟨_, rfl⟩ | ⟨_, _, _, rfl⟩
  · exact Nat.le_refl _
  · rw [State.errorCount_record]
    exact Nat.le_succ _

section Arguments

variable {function : String} {number : Nat} {progress reached : CallProgress}
variable {before after : State}

/-- A `Void` argument is an error. -/
theorem inferArgs_errorCount_lt
    {args args' : List Expr}
    {params : List Ty}
    (run :
      Runs (inferArgs args params function number progress) before (args', none)
        after) :
    before.errorCount < after.errorCount := by
  induction args generalizing args' params number progress before with
  | nil => cases argsRun_of_runs run
  | cons arg args inductionHypothesis =>
      cases argsRun_of_runs run with
      | void argRun =>
          have argCount := (inferExpr_reports _ _ _ _ _).errorCount_le argRun
          rw [State.errorCount_record]
          exact Nat.lt_succ_of_le argCount
      | next argRun _ _ asked restRun =>
          have argCount := (inferExpr_reports _ _ _ _ _).errorCount_le argRun
          exact Nat.lt_of_le_of_lt
            (Nat.le_trans argCount (unifyOrReport_errorCount_le asked))
            (inductionHypothesis restRun)

/-- Findings and types are added at the end, one type for every argument. -/
theorem inferArgs_adds
    {args args' : List Expr}
    {params : List Ty}
    (run :
      Runs (inferArgs args params function number progress) before
        (args', some reached) after)
    (sameLength : args.length = params.length) :
    ∃ added types,
      reached.view = progress.view ++ added ∧
        reached.types = progress.types ++ types ∧
        types.length = args.length := by
  induction args generalizing args' params number progress before with
  | nil =>
      cases argsRun_of_runs run with
      | done => exact ⟨[], [], by simp, by simp, rfl⟩
  | cons arg args inductionHypothesis =>
      cases argsRun_of_runs run with
      | done nothing =>
          rcases nothing with isNil | isNil
          · cases isNil
          · rw [isNil] at sameLength
            cases sameLength
      | next argRun _ _ asked restRun =>
          obtain ⟨added, types, viewEq, typesEq, isLength⟩ :=
            inductionHypothesis restRun (Nat.succ.inj sameLength)
          rw [CallProgress.next, List.append_assoc,
            List.append_assoc] at viewEq
          rw [CallProgress.next, List.append_assoc] at typesEq
          exact ⟨_, _, viewEq, typesEq, congrArg Nat.succ isLength⟩

/-- Whatever solves the findings makes the arguments' types those of the parameters. -/
theorem inferArgs_solved
    {args args' : List Expr}
    {params : List Ty}
    {assign : Assignment}
    (run :
      Runs (inferArgs args params function number progress) before
        (args', some reached) after)
    (sameLength : args.length = params.length)
    (quiet : after.errorCount ≤ before.errorCount)
    (solved : reached.view.SolvedBy assign) :
    reached.types.map (Ty.instantiate assign) =
      progress.types.map (Ty.instantiate assign) ++
        params.map (Ty.instantiate assign) := by
  induction args generalizing args' params number progress before with
  | nil =>
      cases params with
      | nil =>
          cases argsRun_of_runs run with
          | done => simp
      | cons param params => cases sameLength
  | cons arg args inductionHypothesis =>
      cases argsRun_of_runs run with
      | done nothing =>
          rcases nothing with isNil | isNil
          · cases isNil
          · rw [isNil] at sameLength
            cases sameLength
      | @next _ _ _ _ param argTy params found more _ middle unified _
          argRun _ _ asked restRun =>
          -- Errors are only added, so none was recorded on the way either.
          have argCount := (inferExpr_reports _ _ _ _ _).errorCount_le argRun
          have askedCount := unifyOrReport_errorCount_le asked
          have restCount := (inferArgs_reports _ _ _ _ _).errorCount_le restRun
          change before.errorCount ≤ middle.errorCount at argCount
          obtain ⟨isUnified, _⟩ := unifyOrReport_ok asked (by omega)
          obtain ⟨added, _, viewEq, _⟩ :=
            inferArgs_adds restRun (Nat.succ.inj sameLength)
          have viewSolved := solved
          rw [viewEq, Substitution.solvedBy_append, CallProgress.next,
            Substitution.solvedBy_append] at viewSolved
          obtain ⟨⟨seenSolved, moreSolved⟩, _⟩ := viewSolved
          have isParam : argTy.instantiate assign = param.instantiate assign := by
            rw [(unify_ok_iff isUnified assign).mp moreSolved,
              seenSolved.instantiate_apply]
          rw [inductionHypothesis restRun (Nat.succ.inj sameLength) (by omega),
            CallProgress.next]
          simp [isParam]

/-- One more argument keeps to live variables, and so do its findings. -/
theorem CallProgress.KeepsTo.argument
    {live : TypeVar → Prop}
    {arg arg' : Expr}
    {param argTy : Ty}
    {guard : Option ValueGuard}
    {flow : Flow}
    {explain : UnifyError → TypeError}
    {found more : Substitution}
    {middle : State}
    (keeps : progress.KeepsTo live before.nextVar)
    (supply : Supply live before.nextVar)
    (argRun :
      Runs (inferExpr arg progress.context (.var before.nextVar) .general guard)
        (before.draw 1) (arg', found) middle)
    (argTyEq : argTy = (progress.view ++ found).apply (.var before.nextVar))
    (asked :
      Runs
        (unifyOrReport argTy ((progress.view ++ found).apply param) flow explain)
        middle more after)
    (paramWithin : param.Within (Below live before.nextVar)) :
    (progress.outward ++ found ++ more).KeepsTo live after.nextVar ∧
      (progress.next argTy found more).KeepsTo live after.nextVar := by
  have argGrows := inferExpr_grows argRun
  have leftSupply := keeps.outward.supply supply (Nat.le_refl _)
  have foundKeeps :
      found.KeepsTo (progress.outward.leaves live) middle.nextVar :=
    inferExpr_keepsTo argRun
      ((Scene.mk leftSupply keeps.context).grow (.draw _ _))
      (leftSupply.within_var (Nat.le_refl _) (Nat.lt_succ_self _))
  obtain ⟨moreKeeps, nextKeeps⟩ :=
    keeps.step foundKeeps asked argTyEq supply argGrows.nextVar paramWithin
  refine ⟨?_, nextKeeps⟩
  refine (keeps.outward.append foundKeeps
    (Nat.le_of_succ_le argGrows.nextVar)).append ?_
    (unifyOrReport_grows asked).nextVar
  rwa [Substitution.leaves_append]

/-- Nothing is confined to the call by an argument of a closed type. -/
theorem CallProgress.next_of_closed
    {argTy other : Ty}
    {flow : Flow}
    {explain : UnifyError → TypeError}
    {found more : Substitution}
    (asked : Runs (unifyOrReport argTy other flow explain) before more after)
    (closed : argTy.vars = [])
    (seesAll : progress.view = progress.outward) :
    (progress.next argTy found more).view =
      (progress.next argTy found more).outward := by
  have allShared : more.split.1 = more := by
    refine split_of_global ?_
    rcases runs_unifyOrReport asked with ⟨unified, _⟩ | ⟨_, _, rfl, _⟩
    · exact solve_global unified (Or.inr (List.forall_mem_singleton.mpr closed))
    · exact List.forall_mem_nil _
  rw [CallProgress.next, allShared, seesAll]

/--
If all arguments but the last have closed types, then the findings are settled:
confined bindings are made at the end only.
-/
theorem inferArgs_settled
    {live : TypeVar → Prop}
    {args args' : List Expr}
    {params : List Ty}
    (run :
      Runs (inferArgs args params function number progress) before
        (args', some reached) after)
    (sameLength : args.length = params.length)
    (supply : Supply live before.nextVar)
    (keeps : progress.KeepsTo live before.nextVar)
    (paramsWithin :
      ∀ param ∈ params, param.Within (Below live before.nextVar))
    (seesAll : progress.view = progress.outward)
    (closed : ∀ ty ∈ reached.types.dropLast, ty.vars = []) :
    reached.view.Settled := by
  induction args generalizing args' params number progress before with
  | nil =>
      cases argsRun_of_runs run with
      | done =>
          rw [seesAll]
          exact keeps.outward.settled
  | cons arg args inductionHypothesis =>
      cases argsRun_of_runs run with
      | done nothing =>
          rw [seesAll]
          exact keeps.outward.settled
      | @next _ _ _ _ param argTy params found more _ middle unified _
          argRun argTyEq _ asked restRun =>
          obtain ⟨allKeep, nextKeeps⟩ :=
            keeps.argument supply argRun argTyEq asked
              (paramsWithin param List.mem_cons_self)
          cases args with
          | nil =>
              cases argsRun_of_runs restRun with
              | done =>
                  rw [CallProgress.next, seesAll]
                  exact allKeep.settled
          | cons nextArg args =>
              -- Another argument follows, so the type of this one is closed and
              -- all that it finds is passed on.
              have restLength := Nat.succ.inj sameLength
              obtain ⟨_, types, _, typesEq, isLength⟩ :=
                inferArgs_adds restRun restLength
              have isEarlier : argTy ∈ reached.types.dropLast := by
                rw [typesEq, CallProgress.next, List.dropLast_append_of_ne_nil]
                · simp
                · rintro rfl
                  cases isLength
              have grows :=
                ((State.Grows.draw before 1).trans
                  (inferExpr_grows argRun)).trans (unifyOrReport_grows asked)
              exact inductionHypothesis restRun restLength
                (supply.mono grows.nextVar) nextKeeps
                (fun other member =>
                  (paramsWithin other (List.mem_cons_of_mem _ member)).grow
                    grows)
                (CallProgress.next_of_closed asked (closed argTy isEarlier)
                  seesAll)

end Arguments

section Calls

variable {signature : Signature} {function : String} {progress : CallProgress}
variable {before middle after : State}

/-- How a call of a known function runs that records no error. -/
theorem inferCall_quiet
    {call call' : Call}
    {context : Context}
    {expected : Ty}
    {demand : Demand}
    {guard : Option ValueGuard}
    {found : Substitution}
    (run :
      Runs (inferCall call context expected demand guard) before (call', found)
        after)
    (known : context.funs.get? call.callee.text = some signature)
    (noError : after.diagnostics.errors = before.diagnostics.errors) :
    ∃ args' progress middle final,
      Runs
          (inferArgs call.args signature.params call.callee.text 1
            (.start context))
          before (args', some progress) middle ∧
        Runs
          (constrain (progress.view.apply expected)
            (progress.view.apply signature.result) demand call.mark.span)
          middle final after ∧
        call.args.length = signature.params.length ∧
        middle.errorCount ≤ before.errorCount ∧
        call'.mark.ty =
          some ((progress.view ++ final).apply
            (.fn progress.types (progress.view.apply signature.result))) := by
  have quiet : after.errorCount = before.errorCount :=
    congrArg List.length noError
  cases callRun_of_runs run with
  | waits unknown =>
      rw [unknown] at known
      cases known
  | arity =>
      rw [State.errorCount_record] at quiet
      omega
  | void _ _ argsRun =>
      have argsCount := inferArgs_errorCount_lt argsRun
      omega
  | @checked callee args args' mark waiting _ progress final middle _
      isKnown sameLength argsRun asked =>
      obtain rfl := Option.some.inj (known.symm.trans isKnown)
      have askedCount := unifyOrReport_errorCount_le asked
      refine ⟨args', progress, middle, final, argsRun, asked, sameLength,
        by omega, ?_⟩
      exact congrArg (fun params => some (Ty.fn params _))
        (Ty.instantiateAll_eq_map _ _).symm

/-- Whatever solves the findings of the arguments makes the call fit its callee. -/
theorem inferArgs_instance
    {args args' : List Expr}
    {context : Context}
    {number : Nat}
    {assign : Assignment}
    (run :
      Runs (inferArgs args signature.params function number (.start context))
        before (args', some progress) after)
    (sameLength : args.length = signature.params.length)
    (quiet : after.errorCount ≤ before.errorCount)
    (solved : progress.view.SolvedBy assign) :
    (Ty.fn progress.types (progress.view.apply signature.result)).instantiate
        assign =
      (signature.instantiate assign).toTy := by
  rw [Ty.instantiate, Ty.instantiateAll_eq_map,
    inferArgs_solved run sameLength quiet solved, solved.instantiate_apply]
  rfl

/-- What is found about the result can be added to settled findings. -/
theorem CallProgress.KeepsTo.settled
    {live : TypeVar → Prop}
    {expected result : Ty}
    {demand : Demand}
    {span : Span}
    {final : Substitution}
    (keeps : progress.KeepsTo live middle.nextVar)
    (settled : progress.view.Settled)
    (asked :
      Runs
        (constrain (progress.view.apply expected) (progress.view.apply result)
          demand span)
        middle final after)
    (expectedWithin : expected.Within (Below live middle.nextVar))
    (resultWithin : result.Within (Below live middle.nextVar)) :
    (progress.view ++ final).Settled := by
  have viewKeeps : progress.view.KeepsTo live middle.nextVar :=
    ⟨settled, keeps.viewWithin⟩
  exact (viewKeeps.unified asked (viewKeeps.apply expectedWithin)
    (viewKeeps.apply resultWithin)).settled

/-- A single argument has none before it. -/
theorem inferArgs_types_of_few
    {args args' : List Expr}
    {params : List Ty}
    {context : Context}
    {number : Nat}
    (run :
      Runs (inferArgs args params function number (.start context)) before
        (args', some progress) after)
    (sameLength : args.length = params.length)
    (few : args.length ≤ 1) :
    progress.types.dropLast = [] := by
  obtain ⟨_, types, _, typesEq, isLength⟩ := inferArgs_adds run sameLength
  rw [typesEq, CallProgress.start, List.nil_append, ← List.length_eq_zero_iff,
    List.length_dropLast, isLength]
  exact Nat.sub_eq_zero_of_le few

end Calls

/--
A call that is inferred without an error records a type which is read off its
findings. Every assignment that solves them all makes this type an instance of
the callee's signature. If the findings are consistent, that is, if they are
solved by the assignment that they describe, then the recorded type itself is
this instance. They are consistent if those of the arguments are settled, and
so if there is at most one argument or all but the last have closed types.
-/
theorem inferCall_instance
    {call call' : Call}
    {context : Context}
    {expected : Ty}
    {demand : Demand}
    {guard : Option ValueGuard}
    {found : Substitution}
    {signature : Signature}
    {before after : State}
    (run :
      Runs (inferCall call context expected demand guard) before (call', found)
        after)
    (known : context.funs.get? call.callee.text = some signature)
    (contextWithin : context.Within (Below anyVar before.nextVar))
    (expectedWithin : expected.Within (Below anyVar before.nextVar))
    (noError : after.diagnostics.errors = before.diagnostics.errors) :
    ∃ args' progress middle final ty,
      Runs
          (inferArgs call.args signature.params call.callee.text 1
            (.start context))
          before (args', some progress) middle ∧
        Runs
          (constrain (progress.view.apply expected)
            (progress.view.apply signature.result) demand call.mark.span)
          middle final after ∧
        call'.mark.ty = some ty ∧
        (∀ assign,
          (progress.view ++ final).SolvedBy assign →
            ty.instantiate assign = (signature.instantiate assign).toTy) ∧
        ((progress.view ++ final).SolvedBy (progress.view ++ final).image →
          ty = (signature.instantiate (progress.view ++ final).image).toTy) ∧
        (progress.view.Settled →
          (progress.view ++ final).SolvedBy (progress.view ++ final).image) ∧
        ((call.args.length ≤ 1 ∨
            ∀ ty ∈ progress.types.dropLast, ty.vars = []) →
          progress.view.Settled) := by
  obtain ⟨args', progress, middle, final, argsRun, asked, sameLength, quiet,
    isRecorded⟩ := inferCall_quiet run known noError
  obtain ⟨paramsWithin, resultWithin⟩ := contextWithin.funs _ _ known
  have started := CallProgress.keepsTo_start contextWithin
  have supply : Supply anyVar before.nextVar := fun _ _ => trivial
  have argsGrow := inferArgs_grows argsRun
  have fits (assign : Assignment)
      (solved : (progress.view ++ final).SolvedBy assign) :=
    inferArgs_instance argsRun sameLength quiet
      (Substitution.solvedBy_append.mp solved).1
  refine ⟨args', progress, middle, final, _, argsRun, asked, isRecorded, ?_,
    fits _, ?_, ?_⟩
  · intro assign solved
    rw [solved.instantiate_apply]
    exact fits assign solved
  · intro settled
    have argsKeep := inferArgs_keepsTo argsRun supply started paramsWithin
    have allSettled :=
      argsKeep.settled settled asked (expectedWithin.grow argsGrow)
        (resultWithin.grow argsGrow)
    exact allSettled.solvedBy_image
  · rintro (few | closed)
    · refine inferArgs_settled argsRun sameLength supply started paramsWithin
        rfl ?_
      rw [inferArgs_types_of_few argsRun sameLength few]
      exact List.forall_mem_nil _
    · exact inferArgs_settled argsRun sameLength supply started paramsWithin rfl
        closed

/-- A function that takes a number and a pair with a truth value. -/
def choosing : Signature where
  params := [.int, .pair (.var 0) .bool]
  result := .var 0

/-- The second component of the pair is of an open type. -/
def choosingContext : Context :=
  (Context.empty.bindVar "q" (.pair .int (.var 1))).bindFun "choose" choosing

/-- The pair is passed on, with a number before it. -/
def choosingCall : Call :=
  .ofText "choose" [.int 1 .blank, .ofText "q"]

/-- Both the caller's variable and the callee's are narrowed. -/
theorem choosingCall_instance :
    ((inferCall choosingCall choosingContext (.var 2) .general none).run
        (State.initial.draw 3)).2.diagnostics.errors = [] ∧
      ∃ assign : Assignment,
        ((inferCall choosingCall choosingContext (.var 2) .general none).run
            (State.initial.draw 3)).1.1.mark.ty =
          some (choosing.instantiate assign).toTy := by
  have noError :
      ((inferCall choosingCall choosingContext (.var 2) .general none).run
        (State.initial.draw 3)).2.diagnostics.errors = [] := by cbv
  have argTypes :
      ((inferArgs choosingCall.args choosing.params choosingCall.callee.text 1
          (.start choosingContext)).run
          (State.initial.draw 3)).1.2.map CallProgress.types =
        some [.int, .pair .int (.var 1)] := by cbv
  have contextWithin : choosingContext.Within (Below anyVar 3) :=
    (Context.within_empty.bindVar "q"
      (Ty.within_pair.mpr
        ⟨Ty.within_int, Ty.within_var.mpr ⟨trivial, by decide⟩⟩)).bindFun
      "choose" (by simp [choosing, Signature.Within, Below])
  refine ⟨noError, ?_⟩
  generalize run :
    (inferCall choosingCall choosingContext (.var 2) .general none).run
      (State.initial.draw 3) = outcome at noError ⊢
  obtain ⟨⟨call', found⟩, after⟩ := outcome
  obtain ⟨_, _, _, _, _, argsRun, _, isRecorded, _, isInstance, areConsistent,
      areSettled⟩ :=
    inferCall_instance run (by cbv : _ = some choosing) contextWithin
      (Ty.within_var.mpr ⟨trivial, by decide⟩) noError
  rw [Runs] at argsRun
  rw [argsRun, Option.map_some, Option.some.injEq] at argTypes
  have settled := areSettled (Or.inr (by simp [argTypes, Ty.vars]))
  have isTy := isInstance (areConsistent settled)
  exact ⟨_, isRecorded.trans (congrArg some isTy)⟩

/-- A function that takes a number and a truth value. -/
def testing : Signature where
  params := [.int, .bool]
  result := .int

/-- A variable of an open type. -/
def testingContext : Context :=
  (Context.empty.bindVar "x" (.var 0)).bindFun "test" testing

/-- The variable is passed twice. -/
def testingCall : Call :=
  .ofText "test" [.ofText "x", .ofText "x"]

/--
For the call, the variable is narrowed to a number and once more to a truth
value. No error is recorded, and the type of the call says that two numbers are
taken, which is no instance of the signature.
-/
theorem testingCall_no_instance :
    ((inferCall testingCall testingContext (.var 1) .general none).run
        (State.initial.draw 2)).2.diagnostics.errors = [] ∧
      ((inferCall testingCall testingContext (.var 1) .general none).run
          (State.initial.draw 2)).1.1.mark.ty =
        some (.fn [.int, .int] .int) ∧
      ∀ assign, (testing.instantiate assign).toTy ≠ .fn [.int, .int] .int := by
  refine ⟨?_, ?_, ?_⟩
  · cbv
  · cbv
  · intro assign isInstance
    simp [testing, Signature.instantiate, Signature.toTy,
      Ty.instantiate] at isInstance

end SplTyping
