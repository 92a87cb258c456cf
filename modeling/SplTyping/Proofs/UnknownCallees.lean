import Mathlib.Data.List.Perm.Basic
import SplTyping.Proofs.Accounts

namespace SplTyping

/-!
# Calls to functions that are declared nowhere

A call whose callee is declared nowhere waits until the end and is reported
then. Its arguments are not looked at: a call in them is not reported, whether
or not its callee is declared. So if nothing else is wrong, the errors are about
the outermost calls to undeclared functions, one for each of them.
-/

/-- The errors that a call turns into if only some functions are declared. -/
def Call.owes (declared : String → Bool) (call : Call) : List TypeError :=
  (call.unanswered declared).map Call.unknownFunction

/-- The errors that the waiting calls turn into. -/
def State.owes (declared : String → Bool) (state : State) : List TypeError :=
  state.pending.calls.flatMap fun pending => pending.call.owes declared

section Owing

variable {declared known : String → Bool}

theorem Call.owes_stamped (call : Call) (id : CallId) :
    ({ call with waiting := some id } : Call).owes declared =
      call.owes declared := by
  by_cases isDeclared : declared call.callee.text = true
  · rw [owes, owes, unanswered_of_known isDeclared, unanswered_of_known]
    exact isDeclared
  · rw [Bool.not_eq_true] at isDeclared
    rw [owes, owes, unanswered_of_unknown isDeclared, unanswered_of_unknown]
    · rfl
    · exact isDeclared

/-- Calls that are received owe what they do on their own. -/
theorem PendingCalls.Receives.owes
    {before after : PendingCalls}
    {made : List Call}
    (received : before.Receives made after) :
    (after.calls.flatMap fun pending => pending.call.owes declared).Perm
      ((before.calls.flatMap fun pending => pending.call.owes declared) ++
        made.flatMap (Call.owes declared)) := by
  induction received with
  | nil => simp
  | @cons pending _ call _ context expected guard _ inductionHypothesis =>
      have deferred :=
        (pending.perm_defer call context expected guard).flatMap_right
          fun pending => pending.call.owes declared
      rw [List.flatMap_cons, Call.owes_stamped] at deferred
      refine inductionHypothesis.trans ((deferred.append_right _).trans ?_)
      rw [List.flatMap_cons, ← List.append_assoc]
      exact List.perm_append_comm.append_right _

/-- Calls set aside without an error add what they leave unanswered. -/
theorem SetsAside.owes
    {calls unanswered : List Call}
    {before after : State}
    (sets : SetsAside unanswered before after)
    (refined : calls = unanswered.flatMap (Call.unanswered declared))
    (clean : after.Clean) :
    (after.owes declared).Perm
      (before.owes declared ++ calls.map Call.unknownFunction) := by
  obtain ⟨made, received, _, all⟩ := sets
  rw [refined, List.map_flatMap]
  exact received.owes.trans (((all clean).2.flatMap_right _).append_left _)

/-- A call that waited owes what its arguments set aside. -/
theorem inferWaiting_owes
    {function : String}
    {waiting : List PendingCall}
    {context context' : Context}
    {found extended : Substitution}
    {before after : State}
    (run :
      Runs (inferWaiting function waiting context found) before
        (context', extended) after)
    (clean : after.Clean)
    (areDeclared :
      ∀ name, context.funs.contains name = true → declared name = true) :
    (after.owes declared).Perm
      (before.owes declared ++
        waiting.flatMap fun pending => pending.call.owes declared) := by
  induction waiting generalizing context found before with
  | nil =>
      cases waitingRun_of_runs run
      simp
  | cons pending rest inductionHypothesis =>
      cases waitingRun_of_runs run with
      | void _ _ _ _ restRun =>
          have recordedClean := (inferWaiting_advances restRun).clean clean
          exact absurd recordedClean (State.not_clean_record _ _)
      | @next _ _ _ _ _ _ _ middle _ _ callRun _ restRun =>
          have middleClean : middle.Clean :=
            (inferWaiting_advances restRun).clean clean
          have refined :=
            (alongTrees_flatMap areDeclared).ofCall pending.call
          have callOwes := (inferCall_setsAside callRun).owes refined middleClean
          have restOwes :=
            inductionHypothesis restRun fun name bound =>
              areDeclared name (context.narrow_contains _ name ▸ bound)
          rw [List.flatMap_cons, ← List.append_assoc]
          exact restOwes.trans (callOwes.append_right _)

/-- A function owes its calls of undeclared functions. -/
theorem inferFunDecl_owes
    {decl decl' : FunDecl}
    {context context' : Context}
    {expected : Ty}
    {found : Substitution}
    {before after : State}
    (run :
      Runs (inferFunDecl decl context expected) before
        (decl', context', found) after)
    (clean : after.Clean)
    (isDeclared : declared decl.name.text = true)
    (areDeclared :
      ∀ name, context.funs.contains name = true → declared name = true) :
    (after.owes declared).Perm
      (before.owes declared ++
        (decl.unanswered declared).map Call.unknownFunction) := by
  cases funDeclRun_of_runs run with
  | taken | repeated => exact absurd clean (State.not_clean_record _ _)
  | @bound _ _ _ _ _ _ _ _ _ _ _ _ _ compared _
      _ _ shapeEq localsRun bodyRun asked signatureRun waitingRun =>
      subst shapeEq
      have comparedRun := ComparedRun.intro localsRun bodyRun asked signatureRun
      have comparedClean : compared.Clean :=
        (inferWaiting_advances waitingRun).clean clean
      have knownDeclared (name : String)
          (isKnown : decl.knows context name = true) :
          declared name = true := by
        rcases Bool.or_eq_true_iff.mp isKnown with isSelf | bound
        · rw [of_decide_eq_true isSelf]
          exact isDeclared
        · exact areDeclared name bound
      have comparedOwes :=
        comparedRun.setsAside.owes ((alongTrees_flatMap knownDeclared).funDecl decl)
          comparedClean
      have takenOwes :=
        (compared.pending.perm_take decl.name.text).flatMap_right
          fun pending => pending.call.owes declared
      rw [List.flatMap_append] at takenOwes
      have waitingOwes : (after.owes declared).Perm _ :=
        inferWaiting_owes waitingRun clean fun name bound => by
          rw [Context.narrow_knows, decl.bindFun_knows] at bound
          exact knownDeclared name bound
      exact waitingOwes.trans
        (List.perm_append_comm.trans (takenOwes.trans comparedOwes))

/-- Globals owe their calls of undeclared functions. -/
theorem inferGlobals_owes
    {decls decls' : List Decl}
    {context context' : Context}
    {before after : State}
    (run :
      Runs (inferGlobals decls context) before (decls', context') after)
    (clean : after.Clean)
    (areDeclared :
      ∀ name, context.funs.contains name = true → declared name = true) :
    (after.owes declared).Perm
      (before.owes declared ++
        ((decls.filterMap Decl.var?).flatMap
          (VarDecl.unanswered declared)).map Call.unknownFunction) := by
  induction decls generalizing decls' context before with
  | nil =>
      cases globalsRun_of_runs run
      simp
  | cons decl rest inductionHypothesis =>
      cases globalsRun_of_runs run with
      | fn restRun => exact inductionHypothesis restRun areDeclared
      | @var decl _ _ _ between _ found middle _ declRun restRun =>
          have middleClean : middle.Clean :=
            (inferGlobals_settles restRun).clean clean
          have declOwes :=
            (inferVarDecl_setsAside declRun).owes
              ((alongTrees_flatMap areDeclared).expr decl.value) middleClean
          have restOwes :=
            inductionHypothesis restRun fun name bound => areDeclared name (by
              rwa [Context.narrow_knows,
                (varDeclRun_of_runs declRun).funs] at bound)
          refine restOwes.trans ((declOwes.append_right _).trans ?_)
          rw [List.append_assoc, ← List.map_append]
          exact .refl _

/--
Functions owe their calls of undeclared functions, and those that waited are
answered.
-/
theorem inferFunctions_owes
    {decls decls' : List Decl}
    {context context' : Context}
    {before after : State}
    (run :
      Runs (inferFunctions decls context) before (decls', context') after)
    (clean : after.Clean)
    (willBeDeclared :
      ∀ decl ∈ decls.filterMap Decl.fn?, declared decl.name.text = true)
    (areDeclared :
      ∀ name, context.funs.contains name = true → declared name = true) :
    (after.owes declared).Perm
      (before.owes declared ++
        ((decls.filterMap Decl.fn?).flatMap
          (FunDecl.unanswered declared)).map Call.unknownFunction) := by
  induction decls generalizing decls' context before with
  | nil =>
      cases functionsRun_of_runs run
      simp
  | cons decl rest inductionHypothesis =>
      cases functionsRun_of_runs run with
      | var restRun =>
          exact inductionHypothesis restRun willBeDeclared areDeclared
      | @fn decl _ _ _ between _ found middle _ declRun restRun =>
          obtain ⟨isDeclared, restDeclared⟩ :=
            List.forall_mem_cons.mp willBeDeclared
          have middleClean : middle.Clean :=
            (inferFunctions_settles restRun).clean clean
          have declOwes :=
            inferFunDecl_owes declRun middleClean isDeclared areDeclared
          obtain ⟨_, _, contains⟩ := inferFunDecl_contains declRun middleClean
          have restOwes :=
            inductionHypothesis restRun restDeclared fun name bound => by
              rw [Context.narrow_contains, contains] at bound
              rcases bound with rfl | wasBound
              · exact isDeclared
              · exact areDeclared name wasBound
          refine restOwes.trans ((declOwes.append_right _).trans ?_)
          rw [List.append_assoc, ← List.map_append]
          exact .refl _

end Owing

namespace Program

/-- Whether a program declares a function. -/
def declares (program : Program) (name : String) : Bool :=
  (program.fun? name).isSome

/-- A name is declared if some function has it. -/
theorem declares_iff {program : Program} {name : String} :
    program.declares name = true ↔
      ∃ decl ∈ program.functions, decl.name.text = name := by
  simp only [declares, fun?, functions, List.isSome_findSome?, List.any_eq_true,
    List.mem_filterMap]
  constructor
  · rintro ⟨decl, isDecl, isNamed⟩
    cases decl with
    | var decl => cases isNamed
    | fn decl =>
        refine ⟨decl, ⟨_, isDecl, rfl⟩, ?_⟩
        simpa [Decl.asFun?] using isNamed
  · rintro ⟨decl, ⟨item, isItem, isFn⟩, rfl⟩
    cases item with
    | var item => cases isFn
    | fn item =>
        cases isFn
        exact ⟨_, isItem, by simp [Decl.asFun?]⟩

/-- The calls of a program whose callees it does not declare. -/
def undeclaredCalls (program : Program) : List Call :=
  program.calls.filter fun call => !program.declares call.callee.text

end Program

/-- Every function that is declared without error is bound at the end. -/
theorem inferFunctions_binds
    {decls decls' : List Decl}
    {context context' : Context}
    {before after : State}
    (run :
      Runs (inferFunctions decls context) before (decls', context') after)
    (clean : after.Clean)
    {name : String}
    (isNamed :
      context.funs.contains name = true ∨
        ∃ decl ∈ decls.filterMap Decl.fn?, decl.name.text = name) :
    context'.funs.contains name = true := by
  induction decls generalizing decls' context before with
  | nil =>
      cases functionsRun_of_runs run
      simpa using isNamed
  | cons decl rest inductionHypothesis =>
      cases functionsRun_of_runs run with
      | var restRun => exact inductionHypothesis restRun isNamed
      | @fn decl _ _ _ _ _ _ middle _ declRun restRun =>
          have middleClean : middle.Clean :=
            (inferFunctions_settles restRun).clean clean
          obtain ⟨_, _, contains⟩ := inferFunDecl_contains declRun middleClean
          refine inductionHypothesis restRun ?_
          rw [Context.narrow_contains, contains]
          rcases isNamed with wasBound | ⟨other, isOther, rfl⟩
          · exact Or.inl (Or.inr wasBound)
          · rcases List.mem_cons.mp isOther with rfl | inRest
            · exact Or.inl (Or.inl rfl)
            · exact Or.inr ⟨other, inRest, rfl⟩

namespace Program

variable {program : Program}

/-- The waiting calls will become the outermost calls without a callee. -/
theorem inferredState_owes (clean : program.inferredState.Clean) :
    (program.inferredState.owes program.declares).Perm
      ((program.unanswered program.declares).map Call.unknownFunction) := by
  obtain ⟨globals, context, middle, globalsRun, functionsRun⟩ :=
    program.inferredState_runs
  have unbound (name : String) (bound : context.funs.contains name = true) :
      program.declares name = true := by
    rw [inferGlobals_contains globalsRun] at bound
    cases bound
  have areDeclared (decl : FunDecl)
      (isDecl : decl ∈ globals.filterMap Decl.fn?) :
      program.declares decl.name.text = true := by
    rw [inferGlobals_functions globalsRun] at isDecl
    exact declares_iff.mpr ⟨decl, isDecl, rfl⟩
  have globalsOwe :
      (middle.owes program.declares).Perm _ :=
    inferGlobals_owes globalsRun
      ((inferFunctions_settles functionsRun).clean clean)
      (fun _ bound => by cases bound)
  have functionsOwe :=
    inferFunctions_owes functionsRun clean areDeclared unbound
  rw [inferGlobals_functions globalsRun] at functionsOwe
  refine functionsOwe.trans ((globalsOwe.append_right _).trans ?_)
  rw [List.append_assoc, ← List.map_append]
  have sorted := perm_flatMap_decls (Decl.unanswered program.declares) program.decls
  exact (sorted.map Call.unknownFunction).symm

/-- No call waits for a function that the program declares. -/
theorem inferredState_undeclared
    (clean : program.inferredState.Clean)
    {pending : PendingCall}
    (isPending : pending ∈ program.inferredState.pending.calls) :
    program.declares pending.call.callee.text = false := by
  obtain ⟨globals, context, middle, globalsRun, functionsRun⟩ :=
    program.inferredState_runs
  obtain ⟨queue, inQueues, inQueue⟩ := List.mem_flatMap.mp isPending
  obtain ⟨isCallee, unbound⟩ :=
    program.inferredState_accounts.unknown queue inQueues pending inQueue
  rw [isCallee, Bool.eq_false_iff]
  intro isDeclared
  rw [declares_iff, functions, ← inferGlobals_functions globalsRun] at isDeclared
  have bound := inferFunctions_binds functionsRun clean (Or.inr isDeclared)
  rw [unbound] at bound
  cases bound

/-- Without other errors, the outermost calls without a callee are reported. -/
theorem infer_errors_perm (clean : program.inferredState.Clean) :
    program.infer.state.diagnostics.errors.Perm
      ((program.unanswered program.declares).map Call.unknownFunction) := by
  have owed :
      program.inferredState.owes program.declares =
        program.inferredState.pending.calls.map fun pending =>
          pending.call.unknownFunction := by
    rw [State.owes, List.map_eq_flatMap]
    refine List.flatMap_congr fun pending isPending => ?_
    rw [Call.owes,
      Call.unanswered_of_unknown (inferredState_undeclared clean isPending)]
    rfl
  rw [program.infer_errors, clean, List.nil_append, ← owed]
  exact inferredState_owes clean

end Program

/-- A call to an undeclared function is unanswered, or in an argument of one. -/
theorem alongTrees_filter (declared : String → Bool) :
    AlongTrees declared declared fun calls unanswered _ =>
      (calls.filter fun call => !declared call.callee.text) =
        unanswered.flatMap fun call =>
          call ::
            (Expr.callsAll call.args).filter fun inner =>
              !declared inner.callee.text where
  nil := rfl
  append first second := by
    rw [List.filter_append, List.flatMap_append, first, second]
  call made inArgs := by
    rw [made.calls_eq]
    by_cases isDeclared : declared made.callee.text = true
    · rw [Call.unanswered_of_known isDeclared, ← inArgs,
        List.filter_cons_of_neg (by simp [isDeclared])]
    · rw [Bool.not_eq_true] at isDeclared
      rw [Call.unanswered_of_unknown isDeclared, List.flatMap_singleton,
        List.filter_cons_of_pos (by simp [isDeclared])]

/-- The calls to undeclared functions in the arguments of a call. -/
def Call.innerUndeclared (declared : String → Bool) (call : Call) : List Call :=
  (Expr.callsAll call.args).filter fun inner => !declared inner.callee.text

namespace Program

/--
Calls of undeclared functions are unanswered, or stand in the arguments of such.
-/
theorem perm_undeclaredCalls (program : Program) :
    (program.unanswered program.declares ++
        (program.unanswered program.declares).flatMap
          (Call.innerUndeclared program.declares)).Perm
      program.undeclaredCalls := by
  have split := (alongTrees_filter program.declares).decls program.decls
  rw [undeclaredCalls, calls, split]
  have both :=
    List.map_append_flatMap_perm (program.unanswered program.declares) id
      (Call.innerUndeclared program.declares)
  rw [List.map_id] at both
  exact both

end Program

/--
If every error is about an unknown function, the errors are those of the
outermost calls to undeclared functions. These are all such calls exactly if no
such call stands in an argument of another.
-/
theorem typeCheck_unknown_callees
    {program : Program}
    {source : String}
    {config : ReportConfig}
    {failure : Failure}
    (failed : (typeCheck program source config).2 = .error failure)
    (onlyUnknown :
      ∀ error ∈ failure.errors, error.isUnknownFunction = true) :
    failure.errors.Perm
        ((program.unanswered program.declares).map Call.unknownFunction) ∧
      (failure.count = program.undeclaredCalls.length ↔
        ∀ call ∈ program.unanswered program.declares,
          ∀ inner ∈ Expr.callsAll call.args,
            program.declares inner.callee.text = true) := by
  obtain ⟨_, rfl⟩ := typeCheck_error_iff.mp failed
  have clean : program.inferredState.Clean := by
    refine List.eq_nil_iff_forall_not_mem.mpr fun error isError => ?_
    have isOther := program.inferredState_errors error isError
    rw [onlyUnknown error (by
      rw [program.infer_errors]
      exact List.mem_append_left _ isError)] at isOther
    cases isOther
  have errorsPerm := Program.infer_errors_perm clean
  refine ⟨errorsPerm, ?_⟩
  have lengths := program.perm_undeclaredCalls.length_eq
  rw [List.length_append] at lengths
  rw [Failure.count, errorsPerm.length_eq, List.length_map, ← lengths]
  simp only [Nat.left_eq_add, List.length_eq_zero_iff, List.flatMap_eq_nil_iff,
    Call.innerUndeclared, List.filter_eq_nil_iff, Bool.not_eq_true',
    Bool.not_eq_false]

/-- Calls without a callee, one of them in an argument of a declared function. -/
def strayProgram : Program where
  decls :=
    [.fn (.ofBody "same" ["x"] [.ret (some (.ofText "x")) .unknown]),
      .fn (.ofBody "main" []
        [.call (.ofText "first" []),
          .call (.ofText "same" [.call (.ofText "second" [])])])]

theorem strayProgram_unknown_callees :
    ∃ failure,
      (typeCheck strayProgram "" .plain).2 = .error failure ∧
        (∀ error ∈ failure.errors, error.isUnknownFunction = true) ∧
        failure.errors.Perm
          ((strayProgram.unanswered strayProgram.declares).map
            Call.unknownFunction) ∧
        failure.count = strayProgram.undeclaredCalls.length := by
  have errors :
      strayProgram.infer.state.diagnostics.errors =
        [.unknownFunction "first" .unknown, .unknownFunction "second" .unknown] := by
    cbv
  have unanswered :
      strayProgram.unanswered strayProgram.declares =
        [.ofText "first" [], .ofText "second" []] := by
    cbv
  obtain ⟨failure, failed, failureErrors⟩ :=
    typeCheck_fails errors (List.cons_ne_nil _ _) "" .plain
  have onlyUnknown :
      ∀ error ∈ failure.errors, error.isUnknownFunction = true := by
    simp [failureErrors, TypeError.isUnknownFunction]
  obtain ⟨errorsPerm, sameCount⟩ := typeCheck_unknown_callees failed onlyUnknown
  refine ⟨failure, failed, onlyUnknown, errorsPerm, sameCount.mpr ?_⟩
  simp [unanswered, Call.ofText, Expr.callsAll]

/-- A call without a callee, in an argument of another one. -/
def nestedProgram : Program where
  decls :=
    [.fn (.ofBody "main" []
      [.call (.ofText "first" [.call (.ofText "second" [])])])]

/-- A call in an argument of an unanswered call is not reported. -/
theorem typeCheck_nested_unreported :
    ∃ failure,
      (typeCheck nestedProgram "" .plain).2 = .error failure ∧
        (∀ error ∈ failure.errors, error.isUnknownFunction = true) ∧
        failure.count = 1 ∧ nestedProgram.undeclaredCalls.length = 2 := by
  have errors :
      nestedProgram.infer.state.diagnostics.errors =
        [.unknownFunction "first" .unknown] := by
    cbv
  obtain ⟨failure, failed, failureErrors⟩ :=
    typeCheck_fails errors (List.cons_ne_nil _ _) "" .plain
  refine ⟨failure, failed, ?_, ?_, by cbv⟩
  · simp [failureErrors, TypeError.isUnknownFunction]
  · simp [Failure.count, failureErrors]

end SplTyping
