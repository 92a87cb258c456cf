import Mathlib.Data.List.Infix
import SplTyping.Proofs.Agreement
import SplTyping.Proofs.Instances
import SplTyping.Proofs.Recording

namespace SplTyping

/-!
# Arguments of closed types

If no type variable is left in the types of its arguments, then nothing is
confined to a call, and all that it finds about its callee is passed on. So the
callee is narrowed for everyone else to the types of these arguments
(`inferCall_narrows_callee`), whatever its parameters share with each other, with
the result or with the caller, and also if an argument is a call of the same
function.

The type of an argument is the one that the call is inferred with. The slots of
the arguments hold these types too.
-/

/-- Nothing narrows a closed type. -/
theorem Substitution.apply_of_closed
    {ty : Ty}
    (found : Substitution)
    (closed : ty.vars = []) :
    found.apply ty = ty := by
  refine Substitution.apply_of_unbound fun id member => ?_
  rw [closed] at member
  cases member

theorem Substitution.map_apply_of_closed
    {types : List Ty}
    (found : Substitution)
    (closed : ∀ ty ∈ types, ty.vars = []) :
    types.map found.apply = types := by
  have untouched : types.map found.apply = types.map id :=
    List.map_congr_left fun ty member =>
      found.apply_of_closed (closed ty member)
  rw [untouched, List.map_id]

/-- A variable becomes what it is unified with. -/
theorem apply_var_of_unify
    {id : TypeVar}
    {ty : Ty}
    {flow : Flow}
    {found : Substitution}
    (unified : unify (.var id) ty flow = .ok found) :
    found.apply (.var id) = ty := by
  by_cases same : Ty.var id = ty
  · rw [unify, solve_cons_same same, solve_nil, Except.ok.injEq] at unified
    rw [← unified, Substitution.apply_nil, same]
  · by_cases occurs : id ∈ ty.vars
    · have notOriented : (Equation.mk (.var id) ty).orient? flow = none :=
        if_pos occurs
      rw [unify, solve_cons_fail same notOriented rfl] at unified
      cases unified
    · have oriented :
          (Equation.mk (.var id) ty).orient? flow = some ⟨id, ty, flow⟩ :=
        if_neg occurs
      obtain ⟨later, nothingLeft, rfl⟩ :=
        solve_cons_bind_ok same oriented unified
      have isNil : [] = later := by simpa [Equation.replaceAll] using nothingLeft
      subst isNil
      simp [Substitution.apply_cons, Binding.replaceIn, Ty.instantiate]

section Arguments

variable {function : String} {number : Nat} {progress reached : CallProgress}
variable {args args' : List Expr} {params : List Ty}
variable {before after : State}

/-- If no error is recorded, then none is on the way through an argument. -/
theorem argument_quiet
    {arg arg' : Expr}
    {context : Context}
    {left right : Ty}
    {demand : Demand}
    {guard : Option ValueGuard}
    {flow : Flow}
    {explain : UnifyError → TypeError}
    {found more : Substitution}
    {outcome : Option CallProgress}
    {middle unified : State}
    (argRun :
      Runs (inferExpr arg context (.var before.nextVar) demand guard)
        (before.draw 1) (arg', found) middle)
    (asked :
      Runs (unifyOrReport left right flow explain) middle more unified)
    (restRun :
      Runs (inferArgs args params function number progress) unified
        (args', outcome) after)
    (quiet : after.errorCount ≤ before.errorCount) :
    middle.errorCount ≤ (before.draw 1).errorCount ∧
      unify left right flow = .ok more ∧
      after.errorCount ≤ unified.errorCount := by
  have argCount := (inferExpr_reports _ _ _ _ _).errorCount_le argRun
  have askedCount := unifyOrReport_errorCount_le asked
  have restCount := (inferArgs_reports _ _ _ _ _).errorCount_le restRun
  have drawn : (before.draw 1).errorCount = before.errorCount := rfl
  obtain ⟨isUnified, _⟩ := unifyOrReport_ok asked (by omega)
  exact ⟨by omega, isUnified, by omega⟩

/-- If all types are closed in the end, then that of an argument is. -/
theorem argument_closed
    {argTy : Ty}
    {found more : Substitution}
    (restRun :
      Runs
        (inferArgs args params function number
          (progress.next argTy found more))
        before (args', some reached) after)
    (sameLength : args.length = params.length)
    (closed : ∀ ty ∈ reached.types, ty.vars = []) :
    argTy.vars = [] := by
  obtain ⟨_, types, _, typesEq, _⟩ := inferArgs_adds restRun sameLength
  refine closed argTy ?_
  rw [typesEq, CallProgress.next]
  simp

/--
If the arguments have closed types, then all that they find is passed on, and it
makes the parameters equal to these types.
-/
theorem inferArgs_closed
    (run :
      Runs (inferArgs args params function number progress) before
        (args', some reached) after)
    (sameLength : args.length = params.length)
    (quiet : after.errorCount ≤ before.errorCount)
    (seesAll : progress.view = progress.outward)
    (closed : ∀ ty ∈ reached.types, ty.vars = []) :
    reached.view = reached.outward ∧
      reached.types = progress.types ++ params.map reached.outward.apply := by
  induction args generalizing args' params number progress before with
  | nil =>
      cases params with
      | nil =>
          cases argsRun_of_runs run with
          | done => exact ⟨seesAll, (List.append_nil _).symm⟩
      | cons param params => cases sameLength
  | cons arg args inductionHypothesis =>
      cases argsRun_of_runs run with
      | done nothing =>
          rcases nothing with isNil | isNil
          · cases isNil
          · rw [isNil] at sameLength
            cases sameLength
      | @next _ _ _ _ param argTy _ _ more _ _ _ _ argRun _ _ asked restRun =>
          have restLength := Nat.succ.inj sameLength
          obtain ⟨_, isUnified, restQuiet⟩ :=
            argument_quiet argRun asked restRun quiet
          have argClosed := argument_closed restRun restLength closed
          obtain ⟨added, _, viewEq, _⟩ := inferArgs_adds restRun restLength
          obtain ⟨sameView, areParams⟩ :=
            inductionHypothesis restRun restLength restQuiet
              (CallProgress.next_of_closed asked argClosed seesAll)
          have isParam : reached.outward.apply param = argTy := by
            rw [← sameView, viewEq, CallProgress.next,
              Substitution.apply_append, Substitution.apply_append,
              ← apply_eq_of_unify isUnified, more.apply_of_closed argClosed,
              added.apply_of_closed argClosed]
          refine ⟨sameView, ?_⟩
          rw [areParams, CallProgress.next, List.map_cons, isParam,
            List.append_assoc, List.singleton_append]

/-- Whatever is found after the arguments leaves the parameters at their types. -/
theorem inferArgs_params_narrowed
    {context : Context}
    (run :
      Runs (inferArgs args params function number (.start context)) before
        (args', some reached) after)
    (sameLength : args.length = params.length)
    (quiet : after.errorCount ≤ before.errorCount)
    (closed : ∀ ty ∈ reached.types, ty.vars = [])
    (final : Substitution) :
    params.map (reached.outward ++ final).apply = reached.types := by
  obtain ⟨_, areParams⟩ := inferArgs_closed run sameLength quiet rfl closed
  rw [CallProgress.start, List.nil_append] at areParams
  calc
    params.map (reached.outward ++ final).apply
      = (params.map reached.outward.apply).map final.apply := by
        rw [List.map_map]
        exact List.map_congr_left fun _ _ => Substitution.apply_append ..
    _ = reached.types.map final.apply := by rw [← areParams]
    _ = reached.types := final.map_apply_of_closed closed

end Arguments

section Slots

variable {context : Context} {demand : Demand} {guard : Option ValueGuard}
variable {id : TypeVar} {found : Substitution} {before after : State}

/-- A place shows the type that was asked of it. -/
theorem inferPlace_shown
    {place place' : Place}
    {expected : Ty}
    (run :
      Runs (inferPlace place context expected demand) before (place', found)
        after)
    (scene : Scene anyVar before context)
    (quiet : after.errorCount ≤ before.errorCount) :
    place'.mark.ty = some (found.apply expected) := by
  cases placeRun_of_runs run with
  | unknown =>
      rw [State.errorCount_record] at quiet
      exact absurd quiet (Nat.not_succ_le_self _)
  | @known _ _ _ _ base current found final _ _ bound fieldsRun asked =>
      have fieldsCount :=
        (inferFields_reports _ _ _ _ _ _).errorCount_le fieldsRun
      obtain ⟨unified, _⟩ :=
        unifyOrReport_ok asked (Nat.le_trans quiet fieldsCount)
      have baseLeft :
          base.Within (Below (Substitution.leaves [] anyVar) before.nextVar) :=
        by simpa using scene.context.vars _ _ bound
      obtain ⟨_, currentWithin⟩ :=
        inferFields_keepsTo fieldsRun scene .nil baseLeft
      have untouched : found.apply current = current :=
        Substitution.apply_of_unbound
          (currentWithin.mono fun _ below => below.1.2)
      refine congrArg some ?_
      rw [Substitution.apply_append, Substitution.apply_append, untouched,
        apply_eq_of_unify unified]

/--
A call that is asked for a variable which it does not see shows the closed type
that the variable becomes. Since the variable is bound by the last step alone,
what is confined to the call does not get in between.
-/
theorem inferCall_shown
    {call call' : Call}
    (run :
      Runs (inferCall call context (.var id) demand guard) before (call', found)
        after)
    (unseen : Unseen before context (.var id))
    (quiet : after.errorCount ≤ before.errorCount)
    (closed : (found.apply (.var id)).vars = []) :
    (Expr.call call').Shown (found.apply (.var id)) := by
  cases callRun_of_runs run with
  | waits =>
      rw [Substitution.apply_nil] at closed
      cases closed
  | arity =>
      rw [State.errorCount_record] at quiet
      exact absurd quiet (Nat.not_succ_le_self _)
  | void _ _ argsRun =>
      exact absurd quiet (Nat.not_le.mpr (inferArgs_errorCount_lt argsRun))
  | @checked _ _ _ _ _ signature progress final _ _ known _ argsRun asked =>
      have argsCount := (inferArgs_reports _ _ _ _ _).errorCount_le argsRun
      obtain ⟨unified, _⟩ :=
        unifyOrReport_ok asked (Nat.le_trans quiet argsCount)
      obtain ⟨viewApart, outwardApart⟩ := inferArgs_unseen argsRun unseen known
      rw [viewApart] at unified
      have isResult :
          (progress.outward ++ final).apply (.var id) =
            progress.view.apply signature.result := by
        rw [Substitution.apply_append, outwardApart, apply_var_of_unify unified]
      rw [isResult] at closed ⊢
      refine ⟨_, congrArg (fun result => some (Ty.fn _ result)) ?_⟩
      exact Substitution.apply_of_closed _ closed

theorem BoundRun.errorCount_le
    {extended : Substitution}
    {first bound : Ty}
    (run : BoundRun found before first bound extended after) :
    before.errorCount ≤ after.errorCount := by
  cases run with
  | int | char | unknown => exact Nat.le_refl _
  | other =>
      rw [State.errorCount_record]
      exact Nat.le_succ _

theorem BoundRun.apply_bound
    {extended : Substitution}
    {first bound : Ty}
    (run : BoundRun found before first bound extended after)
    (other : Substitution) :
    other.apply bound = bound := by
  cases run <;> rfl

theorem OperatorRun.errorCount_eq
    {op : BinOp}
    {left right result : Ty}
    (run : OperatorRun before op left right result after) :
    after.errorCount = before.errorCount := by
  cases run <;> rfl

/-- An expression shows the closed type that it is found to have. -/
theorem inferExpr_shown
    {expr expr' : Expr}
    (run :
      Runs (inferExpr expr context (.var id) demand guard) before (expr', found)
        after)
    (scene : Scene anyVar before context)
    (idWithin : (Ty.var id).Within (Below anyVar before.nextVar))
    (unseen : Unseen before context (.var id))
    (quiet : after.errorCount ≤ before.errorCount)
    (closed : (found.apply (.var id)).vars = []) :
    expr'.Shown (found.apply (.var id)) := by
  have settled := (inferExpr_keepsTo run scene idWithin).settled
  cases exprRun_of_runs run with
  | int asked | bool asked | char asked =>
      obtain ⟨unified, _⟩ := unifyOrReport_ok asked quiet
      exact congrArg some (apply_var_of_unify unified).symm
  | read placeRun => exact inferPlace_shown placeRun scene quiet
  | pairVoid firstRun secondRun =>
      have firstCount := (inferExpr_reports _ _ _ _ _).errorCount_le firstRun
      have secondCount := (inferExpr_reports _ _ _ _ _).errorCount_le secondRun
      change before.errorCount ≤ _ at firstCount
      rw [State.errorCount_record] at quiet
      omega
  | pair firstRun secondRun _ _ asked =>
      have firstCount := (inferExpr_reports _ _ _ _ _).errorCount_le firstRun
      have secondCount := (inferExpr_reports _ _ _ _ _).errorCount_le secondRun
      change before.errorCount ≤ _ at firstCount
      obtain ⟨unified, _⟩ := unifyOrReport_ok asked (by omega)
      exact congrArg some
        (apply_shape (.pair (.var before.nextVar) (.var (before.nextVar + 1)))
          (settled.sublist (List.sublist_append_left _ _)) unified)
  | nil asked =>
      obtain ⟨unified, _⟩ := unifyOrReport_ok asked quiet
      exact congrArg some (apply_eq_of_unify unified).symm
  | range firstRun boundRun lastRun asked =>
      have firstCount := (inferExpr_reports _ _ _ _ _).errorCount_le firstRun
      have boundCount := boundRun.errorCount_le
      have lastCount := (inferExpr_reports _ _ _ _ _).errorCount_le lastRun
      change before.errorCount ≤ _ at firstCount
      obtain ⟨unified, _⟩ := unifyOrReport_ok asked (by omega)
      refine congrArg some ?_
      rw [Substitution.apply_append, apply_eq_of_unify unified]
      exact congrArg Ty.list (boundRun.apply_bound _).symm
  | binaryLeftVoid operatorRun leftRun =>
      have leftCount := (inferExpr_reports _ _ _ _ _).errorCount_le leftRun
      rw [operatorRun.errorCount_eq] at leftCount
      rw [State.errorCount_record] at quiet
      omega
  | binaryRightVoid operatorRun leftRun rightRun =>
      have leftCount := (inferExpr_reports _ _ _ _ _).errorCount_le leftRun
      have rightCount := (inferExpr_reports _ _ _ _ _).errorCount_le rightRun
      rw [operatorRun.errorCount_eq] at leftCount
      rw [State.errorCount_record] at quiet
      omega
  | binary operatorRun leftRun _ rightRun _ asked =>
      have leftCount := (inferExpr_reports _ _ _ _ _).errorCount_le leftRun
      have rightCount := (inferExpr_reports _ _ _ _ _).errorCount_le rightRun
      rw [operatorRun.errorCount_eq] at leftCount
      obtain ⟨unified, _⟩ := unifyOrReport_ok asked (by omega)
      exact congrArg some
        (apply_shape _ (settled.sublist (List.sublist_append_left _ _)) unified)
  | @unary op _ _ _ _ _ _ _ operandRun asked =>
      have operandCount :=
        (inferExpr_reports _ _ _ _ _).errorCount_le operandRun
      obtain ⟨unified, _⟩ :=
        unifyOrReport_ok asked (Nat.le_trans quiet operandCount)
      refine congrArg some ?_
      rw [Substitution.apply_append, apply_eq_of_unify unified, op.apply_ty]
  | call callRun => exact inferCall_shown callRun unseen quiet closed

/-- Arguments of closed types show them. -/
theorem inferArgs_shown
    {args args' : List Expr}
    {params : List Ty}
    {function : String}
    {number : Nat}
    {progress reached : CallProgress}
    (run :
      Runs (inferArgs args params function number progress) before
        (args', some reached) after)
    (sameLength : args.length = params.length)
    (keeps : progress.KeepsTo anyVar before.nextVar)
    (paramsWithin :
      ∀ param ∈ params, param.Within (Below anyVar before.nextVar))
    (quiet : after.errorCount ≤ before.errorCount)
    (closed : ∀ ty ∈ reached.types, ty.vars = []) :
    reached.types.map some = progress.types.map some ++ args'.map Expr.ty? := by
  induction args generalizing args' params number progress before with
  | nil =>
      cases argsRun_of_runs run with
      | done => exact (List.append_nil _).symm
  | cons arg args inductionHypothesis =>
      cases argsRun_of_runs run with
      | done nothing =>
          rcases nothing with isNil | isNil
          · cases isNil
          · rw [isNil] at sameLength
            cases sameLength
      | @next _ arg' _ _ param argTy _ _ _ _ _ _ _ argRun argTyEq _ asked
          restRun =>
          have restLength := Nat.succ.inj sameLength
          obtain ⟨argQuiet, _, restQuiet⟩ :=
            argument_quiet argRun asked restRun quiet
          have grows :=
            ((State.Grows.draw before 1).trans (inferExpr_grows argRun)).trans
              (unifyOrReport_grows asked)
          obtain ⟨_, nextKeeps⟩ :=
            keeps.argument (fun _ _ => trivial) argRun argTyEq asked
              (paramsWithin param List.mem_cons_self)
          have argClosed := argument_closed restRun restLength closed
          have scene : Scene anyVar before progress.context :=
            ⟨fun _ _ => trivial,
              keeps.context.mono fun _ below => ⟨trivial, below.2⟩⟩
          -- The variable drawn for the argument is not seen by those before it.
          rw [Substitution.apply_append,
            keeps.viewWithin.apply_unseen (Nat.le_refl _)] at argTyEq
          have isShown : arg'.ty? = some argTy := by
            rw [argTyEq] at argClosed ⊢
            exact (inferExpr_shown argRun (scene.grow (.draw _ _))
              (scene.within_next 0) (scene.unseen_next 0) argQuiet
              argClosed).ty?_eq
          rw [inductionHypothesis restRun restLength nextKeeps
              (fun other member =>
                (paramsWithin other (List.mem_cons_of_mem _ member)).grow grows)
              restQuiet,
            CallProgress.next, List.map_append, List.append_assoc,
            List.map_singleton, List.map_cons, isShown, List.singleton_append]

end Slots

/-- What a call passes on once its arguments have been gone through. -/
theorem inferCall_of_args
    {call call' : Call}
    {context : Context}
    {expected : Ty}
    {demand : Demand}
    {guard : Option ValueGuard}
    {found : Substitution}
    {signature : Signature}
    {args' : List Expr}
    {progress : CallProgress}
    {before middle after : State}
    (run :
      Runs (inferCall call context expected demand guard) before (call', found)
        after)
    (known : context.funs.get? call.callee.text = some signature)
    (sameLength : call.args.length = signature.params.length)
    (argsRun :
      Runs
        (inferArgs call.args signature.params call.callee.text 1
          (.start context))
        before (args', some progress) middle) :
    ∃ final,
      found = progress.outward ++ final ∧
        call'.args = args' ∧
        call'.mark.ty =
          some (.fn (progress.types.map (progress.view ++ final).apply)
            ((progress.view ++ final).apply
              (progress.view.apply signature.result))) := by
  cases callRun_of_runs run with
  | waits unknown =>
      rw [unknown] at known
      cases known
  | arity isKnown differ =>
      obtain rfl := Option.some.inj (known.symm.trans isKnown)
      exact absurd sameLength differ
  | void isKnown _ otherRun =>
      obtain rfl := Option.some.inj (known.symm.trans isKnown)
      cases argsRun.symm.trans otherRun
  | @checked _ _ _ _ _ _ _ final _ _ isKnown _ otherRun =>
      obtain rfl := Option.some.inj (known.symm.trans isKnown)
      cases argsRun.symm.trans otherRun
      exact ⟨final, rfl, rfl, rfl⟩

/--
A call that is inferred without an error has a type for each of its arguments.
If these types are closed, then what the call finds makes the parameters of its
callee equal to them, and the slots of the arguments hold them. The type of the
call is that of the callee, narrowed by what the call has found. In a context
that is narrowed likewise, and whatever is found later, the callee has these
parameters.
-/
theorem inferCall_narrows_callee
    {call call' : Call}
    {context : Context}
    {expected : Ty}
    {demand : Demand}
    {guard : Option ValueGuard}
    {found : Substitution}
    {signature : Signature}
    {before after : State}
    (run :
      Runs (inferCall call context expected demand guard) before (call', found)
        after)
    (known : context.funs.get? call.callee.text = some signature)
    (contextWithin : context.Within (Below anyVar before.nextVar))
    (noError : after.diagnostics.errors = before.diagnostics.errors) :
    ∃ args' progress middle,
      Runs
          (inferArgs call.args signature.params call.callee.text 1
            (.start context))
          before (args', some progress) middle ∧
        progress.types.length = call.args.length ∧
        ((∀ ty ∈ progress.types, ty.vars = []) →
          signature.params.map found.apply = progress.types ∧
            call'.args.map Expr.ty? = progress.types.map some ∧
            call'.mark.ty = some (found.apply signature.toTy) ∧
            ∀ later, ∃ narrowed,
              ((context.narrow found).narrow later).funs.get?
                  call.callee.text =
                some narrowed ∧
                narrowed.params = progress.types) := by
  obtain ⟨args', progress, middle, _, argsRun, _, sameLength, quiet, _⟩ :=
    inferCall_quiet run known noError
  obtain ⟨final, rfl, sameArgs, isRecorded⟩ :=
    inferCall_of_args run known sameLength argsRun
  obtain ⟨_, types, _, typesEq, isLength⟩ := inferArgs_adds argsRun sameLength
  refine ⟨args', progress, middle, argsRun, typesEq ▸ isLength, ?_⟩
  intro closed
  obtain ⟨paramsWithin, _⟩ := contextWithin.funs _ _ known
  have started := CallProgress.keepsTo_start contextWithin
  obtain ⟨seesAll, _⟩ := inferArgs_closed argsRun sameLength quiet rfl closed
  have settled : progress.outward.Settled :=
    seesAll ▸
      inferArgs_settled argsRun sameLength (fun _ _ => trivial) started
        paramsWithin rfl fun ty member =>
          closed ty (List.mem_of_mem_dropLast member)
  have paramsNarrowed :=
    inferArgs_params_narrowed argsRun sameLength quiet closed final
  refine ⟨paramsNarrowed, ?_, ?_, ?_⟩
  · have shown :=
      inferArgs_shown argsRun sameLength started paramsWithin quiet closed
    rw [sameArgs, shown]
    rfl
  · rw [isRecorded, seesAll, Substitution.map_apply_of_closed _ closed,
      Substitution.apply_append, settled.apply_apply,
      ← Substitution.apply_append, ← Signature.toTy_narrow, Signature.narrow,
      Signature.toTy, paramsNarrowed]
  · intro later
    refine ⟨(signature.narrow (progress.outward ++ final)).narrow later, ?_, ?_⟩
    · rw [Context.narrow, Context.narrow, Table.get?_map, Table.get?_map, known]
      rfl
    · rw [Signature.narrow, Signature.narrow, paramsNarrowed]
      exact later.map_apply_of_closed closed

/-- A function of two arguments of one type, and of that result. -/
def joining : Signature where
  params := [.list (.var 0), .list (.var 0)]
  result := .list (.var 0)

/-- A context in which the function is known. -/
def joiningContext : Context :=
  Context.empty.bindFun "join" joining

/-- A list of one number. -/
def oneNumber : Expr :=
  .binary .cons (.int 1 .blank) (.nil .blank) .blank

/-- Three lists are joined, two of them first. -/
def joiningCall : Call :=
  .ofText "join"
    [.call (.ofText "join" [oneNumber, oneNumber]), oneNumber]

/-- After a call with lists of numbers, the callee takes lists of numbers. -/
theorem joiningCall_narrows_callee :
    ∃ call' found after,
      Runs (inferCall joiningCall joiningContext (.var 1) .general none)
          (State.initial.draw 2) (call', found) after ∧
        joining.params.map found.apply = [.list .int, .list .int] ∧
        call'.args.map Expr.ty? = [some (.list .int), some (.list .int)] ∧
        call'.mark.ty = some (found.apply joining.toTy) ∧
        ∀ later, ∃ narrowed,
          ((joiningContext.narrow found).narrow later).funs.get? "join" =
            some narrowed ∧
            narrowed.params = [.list .int, .list .int] := by
  have noError :
      ((inferCall joiningCall joiningContext (.var 1) .general none).run
        (State.initial.draw 2)).2.diagnostics.errors = [] := by cbv
  have argTypes :
      ((inferArgs joiningCall.args joining.params joiningCall.callee.text 1
          (.start joiningContext)).run
          (State.initial.draw 2)).1.2.map CallProgress.types =
        some [.list .int, .list .int] := by cbv
  have contextWithin : joiningContext.Within (Below anyVar 2) :=
    Context.within_empty.bindFun "join"
      (by simp [joining, Signature.Within, Below, anyVar])
  generalize run :
    (inferCall joiningCall joiningContext (.var 1) .general none).run
      (State.initial.draw 2) = outcome at noError
  obtain ⟨⟨call', found⟩, after⟩ := outcome
  obtain ⟨_, _, _, argsRun, _, narrows⟩ :=
    inferCall_narrows_callee run (by cbv : _ = some joining) contextWithin
      noError
  rw [Runs] at argsRun
  rw [argsRun, Option.map_some, Option.some.injEq] at argTypes
  rw [argTypes] at narrows
  exact ⟨call', found, after, run, narrows (by simp [Ty.vars])⟩

end SplTyping
