import SplTyping.Proofs.Runs.Program

namespace SplTyping

/-!
# Errors are only written

Inference records errors and goes on; it never looks at them again. So a step
started with other errors does the same and adds the same errors at the end
(`Reports`). None of them is about a call without a callee: these are reported
once, after the whole program.
-/

/-- Whether an error is about a call whose callee is declared nowhere. -/
def TypeError.isUnknownFunction : TypeError → Bool
  | .unknownFunction _ _ => true
  | _ => false

/-- The state with other errors. -/
def State.withErrors (state : State) (errors : List TypeError) : State :=
  { state with diagnostics := { state.diagnostics with errors } }

/--
A step adds errors to those recorded before, none of them about a call without
a callee, and apart from that does not depend on errors.
-/
def Reports {α : Type} (step : InferM α) : Prop :=
  ∀ before : State, ∃ (result : α) (after : State) (errors : List TypeError),
    (∀ error ∈ errors, error.isUnknownFunction = false) ∧
      ∀ earlier,
        Runs step (before.withErrors earlier) result
          (after.withErrors (earlier ++ errors))

namespace Reports

variable {α β : Type}

/-- A step that does nothing reports nothing. -/
theorem pure (value : α) : Reports (Pure.pure value) := by
  intro before
  refine ⟨value, before, [], nofun, fun earlier => ?_⟩
  rw [List.append_nil]
  rfl

/-- One step after the other reports what either does. -/
theorem bind
    {step : InferM α}
    {next : α → InferM β}
    (first : Reports step)
    (second : ∀ value, Reports (next value)) :
    Reports (step >>= next) := by
  intro before
  obtain ⟨value, middle, errors, areAllowed, firstRun⟩ := first before
  obtain ⟨result, after, more, moreAllowed, secondRun⟩ := second value middle
  refine ⟨result, after, errors ++ more,
    List.forall_mem_append.mpr ⟨areAllowed, moreAllowed⟩, fun earlier => ?_⟩
  rw [← List.append_assoc]
  exact runs_bind.mpr ⟨value, _, firstRun earlier, secondRun (earlier ++ errors)⟩

/-- A choice reports what the chosen step does. -/
theorem ite
    {condition : Prop}
    [Decidable condition]
    {yes no : InferM α}
    (yesReports : Reports yes)
    (noReports : Reports no) :
    Reports (if condition then yes else no) := by
  split
  · exact yesReports
  · exact noReports

/-- A step that leaves the errors alone. -/
theorem change
    {change : State → α × State}
    (unseen :
      ∀ state errors,
        change (state.withErrors errors) =
          ((change state).1, (change state).2.withErrors errors)) :
    Reports (modifyGet change : InferM α) := by
  intro before
  refine ⟨(change before).1, (change before).2, [], nofun, fun earlier => ?_⟩
  rw [List.append_nil]
  exact unseen before earlier

/-- A step that goes on with a part of the state other than the errors. -/
theorem get
    {next : State → InferM α}
    (unseen : ∀ state errors, next (state.withErrors errors) = next state)
    (reports : ∀ state, Reports (next state)) :
    Reports (MonadState.get >>= next) := by
  intro before
  obtain ⟨result, after, errors, areAllowed, run⟩ := reports before before
  refine ⟨result, after, errors, areAllowed, fun earlier => ?_⟩
  refine runs_bind.mpr ⟨before.withErrors earlier, _, rfl, ?_⟩
  rw [unseen]
  exact run earlier

/-- What a run has added, and the same run with other errors before it. -/
theorem added
    {step : InferM α}
    {result : α}
    {before after : State}
    (reports : Reports step)
    (run : Runs step before result after) :
    ∃ errors,
      after.diagnostics.errors = before.diagnostics.errors ++ errors ∧
        (∀ error ∈ errors, error.isUnknownFunction = false) ∧
        ∀ earlier,
          Runs step (before.withErrors earlier) result
            (after.withErrors (earlier ++ errors)) := by
  obtain ⟨other, last, errors, areAllowed, runs⟩ := reports before
  have same : (result, after) =
      (other, last.withErrors (before.diagnostics.errors ++ errors)) :=
    Eq.trans (Eq.symm run) (runs before.diagnostics.errors)
  obtain ⟨rfl, rfl⟩ := Prod.mk.injEq _ _ _ _ ▸ same
  exact ⟨errors, rfl, areAllowed, runs⟩

end Reports

/-- Drawing a variable reports nothing. -/
theorem fresh_reports : Reports fresh :=
  (Reports.change fun _ _ => rfl).bind fun _ => .pure _

/-- An error of another kind may be reported. -/
theorem report_reports
    {error : TypeError}
    (isAllowed : error.isUnknownFunction = false) :
    Reports (report error) := by
  intro before
  exact ⟨(), before, [error], by simpa using isAllowed, fun _ => rfl⟩

/-- Unification reports its failure as it is explained. -/
theorem unifyOrReport_reports
    {explain : UnifyError → TypeError}
    (areAllowed : ∀ failure, (explain failure).isUnknownFunction = false)
    (left right : Ty)
    (flow : Flow) :
    Reports (unifyOrReport left right flow explain) := by
  unfold unifyOrReport
  split
  · exact .pure _
  · exact (report_reports (areAllowed _)).bind fun _ => .pure _

/-- No failure of unification is about an unknown function. -/
theorem TypeError.ofUnify_isUnknownFunction
    (demand : Demand)
    (subject : String)
    (span : Span)
    (failure : UnifyError) :
    (ofUnify demand subject span failure).isUnknownFunction = false := by
  cases failure <;> rfl

/-- Asking for a type reports a mismatch at most. -/
theorem constrain_reports
    (expected found : Ty)
    (demand : Demand)
    (span : Span) :
    Reports (constrain expected found demand span) :=
  unifyOrReport_reports (TypeError.ofUnify_isUnknownFunction demand "" span) _ _ _

/-- Finding the types of an operator reports nothing. -/
theorem operatorTypes_reports (op : BinOp) : Reports (operatorTypes op) := by
  cases op <;> unfold operatorTypes
  case cons | eq | ne => exact fresh_reports.bind fun _ => .pure _
  all_goals exact .pure _

/-- The bound of a range is reported as a mismatch at most. -/
theorem rangeBound_reports
    (first : Ty)
    (found : Substitution)
    (span : Span) :
    Reports (rangeBound first found span) := by
  unfold rangeBound
  split
  · exact .pure _
  · exact .pure _
  · exact .pure _
  · exact (report_reports rfl).bind fun _ => .pure _

mutual

/-- Inference of an expression reports no unknown function: such calls wait. -/
theorem inferExpr_reports
    (expr : Expr)
    (context : Context)
    (expected : Ty)
    (demand : Demand)
    (guard : Option ValueGuard) :
    Reports (inferExpr expr context expected demand guard) := by
  cases expr with
  | int value mark | bool value mark | char value mark =>
      rw [inferExpr]
      exact (constrain_reports _ _ _ _).bind fun _ => .pure _
  | read place =>
      rw [inferExpr]
      exact (inferPlace_reports place _ _ _).bind fun _ => .pure _
  | pair first second mark =>
      rw [inferExpr]
      refine fresh_reports.bind fun _ => fresh_reports.bind fun _ =>
        (inferExpr_reports first _ _ _ _).bind fun _ =>
          (inferExpr_reports second _ _ _ _).bind fun _ => .ite ?_ ?_
      · exact (report_reports rfl).bind fun _ => .pure _
      · exact (constrain_reports _ _ _ _).bind fun _ => .pure _
  | nil mark =>
      rw [inferExpr]
      exact fresh_reports.bind fun _ =>
        (constrain_reports _ _ _ _).bind fun _ => .pure _
  | range first last mark =>
      rw [inferExpr]
      exact fresh_reports.bind fun _ =>
        (inferExpr_reports first _ _ _ _).bind fun _ =>
          (rangeBound_reports _ _ _).bind fun _ =>
            (inferExpr_reports last _ _ _ _).bind fun _ =>
              (constrain_reports _ _ _ _).bind fun _ => .pure _
  | binary op left right mark =>
      rw [inferExpr]
      refine (operatorTypes_reports op).bind fun _ =>
        (inferExpr_reports left _ _ _ _).bind fun _ => .ite ?_ ?_
      · exact (report_reports rfl).bind fun _ => .pure _
      · refine (inferExpr_reports right _ _ _ _).bind fun _ => .ite ?_ ?_
        · exact (report_reports rfl).bind fun _ => .pure _
        · exact (constrain_reports _ _ _ _).bind fun _ => .pure _
  | unary op operand mark =>
      rw [inferExpr]
      exact (inferExpr_reports operand _ _ _ _).bind fun _ =>
        (constrain_reports _ _ _ _).bind fun _ => .pure _
  | call made =>
      rw [inferExpr]
      exact (inferCall_reports made _ _ _ _).bind fun _ => .pure _
termination_by structural expr

/-- Inference of a place reports no unknown function. -/
theorem inferPlace_reports
    (place : Place)
    (context : Context)
    (expected : Ty)
    (demand : Demand) :
    Reports (inferPlace place context expected demand) := by
  rcases place with ⟨name, fields, mark⟩
  rw [inferPlace]
  split
  · exact (report_reports rfl).bind fun _ => .pure _
  · exact (inferFields_reports fields _ _ _ _ _).bind fun _ =>
      (constrain_reports _ _ _ _).bind fun _ => .pure _
termination_by structural place

/-- Inference of fields reports no unknown function. -/
theorem inferFields_reports
    (fields : List Field)
    (name : String)
    (span : Span)
    (context : Context)
    (current : Ty)
    (found : Substitution) :
    Reports (inferFields fields name span context current found) := by
  cases fields with
  | nil => exact .pure _
  | cons field rest =>
      rw [inferFields]
      exact (inferField_reports field _ _ _ _ _).bind fun _ =>
        (inferFields_reports rest _ _ _ _ _).bind fun _ => .pure _
termination_by structural fields

/-- Inference of a field reports no unknown function. -/
theorem inferField_reports
    (field : Field)
    (name : String)
    (span : Span)
    (context : Context)
    (current : Ty)
    (found : Substitution) :
    Reports (inferField field name span context current found) := by
  cases field with
  | hd | tl =>
      rw [inferField]
      exact fresh_reports.bind fun _ =>
        (constrain_reports _ _ _ _).bind fun _ => .pure _
  | fst | snd =>
      rw [inferField]
      exact fresh_reports.bind fun _ => fresh_reports.bind fun _ =>
        (constrain_reports _ _ _ _).bind fun _ => .pure _
  | index position =>
      rw [inferField]
      exact fresh_reports.bind fun _ =>
        (constrain_reports _ _ _ _).bind fun _ =>
          (inferExpr_reports position _ _ _ _).bind fun _ => .pure _
termination_by structural field

/-- A call to an unknown function is set aside, not reported. -/
theorem inferCall_reports
    (call : Call)
    (context : Context)
    (expected : Ty)
    (demand : Demand)
    (guard : Option ValueGuard) :
    Reports (inferCall call context expected demand guard) := by
  rcases call with ⟨callee, args, mark, waiting⟩
  rw [inferCall]
  split
  · exact (Reports.change fun _ _ => rfl).bind fun _ => .pure _
  · refine .ite ?_ ((report_reports rfl).bind fun _ => .pure _)
    refine (inferArgs_reports args _ _ _ _).bind fun (_, outcome) => ?_
    cases outcome with
    | none => exact .pure _
    | some progress =>
        exact (constrain_reports _ _ _ _).bind fun _ => .pure _
termination_by structural call

/-- Inference of arguments reports no unknown function. -/
theorem inferArgs_reports
    (args : List Expr)
    (params : List Ty)
    (function : String)
    (number : Nat)
    (progress : CallProgress) :
    Reports (inferArgs args params function number progress) := by
  cases args with
  | nil => exact .pure _
  | cons arg args =>
      cases params with
      | nil => exact .pure _
      | cons param params =>
          rw [inferArgs]
          refine fresh_reports.bind fun _ =>
            (inferExpr_reports arg _ _ _ _).bind fun _ => .ite ?_ ?_
          · exact (report_reports rfl).bind fun _ => .pure _
          · have explained (failure : UnifyError) :
                (TypeError.ofArgument function number arg.span
                  failure).isUnknownFunction = false := by
              cases failure <;> rfl
            exact (unifyOrReport_reports explained _ _ _).bind fun _ =>
              (inferArgs_reports args _ _ _ _).bind fun _ => .pure _
termination_by structural args

end

/-- An assignment reports no unknown function. -/
theorem inferAssign_reports
    (target : Place)
    (value : Expr)
    (span : Span)
    (context : Context) :
    Reports (inferAssign target value span context) := by
  refine fresh_reports.bind fun _ =>
    (inferExpr_reports value _ _ _ _).bind fun _ =>
      fresh_reports.bind fun _ =>
        (inferPlace_reports target _ _ _).bind fun _ => .ite ?_ ?_
  · exact (report_reports rfl).bind fun _ => .pure _
  · exact (constrain_reports _ _ _ _).bind fun _ => .pure _

/-- A return reports no unknown function. -/
theorem inferReturn_reports
    (value : Expr)
    (span : Span)
    (context : Context)
    (expected : Ty) :
    Reports (inferReturn value span context expected) := by
  refine fresh_reports.bind fun _ =>
    (inferExpr_reports value _ _ _ _).bind fun _ => .ite ?_ ?_
  · exact (report_reports rfl).bind fun _ => .pure _
  · exact (constrain_reports _ _ _ _).bind fun _ => .pure _

mutual

/-- Inference of a statement reports no unknown function. -/
theorem inferStmt_reports
    (stmt : Stmt)
    (context : Context)
    (expected : Ty) :
    Reports (inferStmt stmt context expected) := by
  cases stmt with
  | ifElse condition thenBody elseBody span =>
      rw [inferStmt]
      exact (inferBlock_reports thenBody _ _).bind fun _ =>
        (inferBlock_reports elseBody _ _).bind fun _ =>
          (inferExpr_reports condition _ _ _ _).bind fun _ => .pure _
  | whileDo condition body span =>
      rw [inferStmt]
      exact (inferBlock_reports body _ _).bind fun _ =>
        (inferExpr_reports condition _ _ _ _).bind fun _ => .pure _
  | forIn element iterable body span =>
      rw [inferStmt]
      refine fresh_reports.bind fun _ =>
        (inferExpr_reports iterable _ _ _ _).bind fun _ => .ite ?_ ?_
      · exact (report_reports rfl).bind fun _ => .pure _
      · exact (inferBlock_reports body _ _).bind fun _ => .pure _
  | assign target value span => exact inferAssign_reports _ _ _ _
  | call made =>
      rw [inferStmt]
      exact fresh_reports.bind fun _ =>
        (inferCall_reports made _ _ _ _).bind fun _ => .pure _
  | ret value span =>
      cases value with
      | none =>
          rw [inferStmt]
          exact (constrain_reports _ _ _ _).bind fun _ => .pure _
      | some value => exact inferReturn_reports _ _ _ _
termination_by structural stmt

/-- Inference of statements reports no unknown function. -/
theorem inferBlock_reports
    (stmts : List Stmt)
    (context : Context)
    (expected : Ty) :
    Reports (inferBlock stmts context expected) := by
  cases stmts with
  | nil => exact .pure _
  | cons stmt rest =>
      rw [inferBlock]
      exact (inferStmt_reports stmt _ _).bind fun _ =>
        (inferBlock_reports rest _ _).bind fun _ => .pure _
termination_by structural stmts

end

/-- Reading a written type reports nothing. -/
theorem writtenTy_reports (written : WrittenTy) : Reports (writtenTy written) := by
  induction written with
  | int | bool | char | void => exact .pure _
  | list element elementReports => exact elementReports.bind fun _ => .pure _
  | pair first second firstReports secondReports =>
      exact firstReports.bind fun _ => secondReports.bind fun _ => .pure _
  | named name =>
      refine Reports.bind ?_ fun _ => .pure _
      refine Reports.get (fun _ _ => rfl) fun state => ?_
      split
      · exact .pure _
      · exact (Reports.change fun _ _ => rfl).bind fun _ =>
          (Reports.change fun _ _ => rfl).bind fun _ => .pure _

/-- Reading a written signature reports nothing. -/
theorem signatureTy_reports (written : WrittenSignature) :
    Reports (signatureTy written) := by
  have paramsReport (params : List WrittenTy) : Reports (writtenTys params) := by
    induction params with
    | nil => exact .pure _
    | cons param rest restReports =>
        exact (writtenTy_reports param).bind fun _ =>
          restReports.bind fun _ => .pure _
  exact (paramsReport _).bind fun _ =>
    (writtenTy_reports _).bind fun _ => .pure _

/-- The declaration of a variable reports no unknown function. -/
theorem inferVarDecl_reports
    (decl : VarDecl)
    (context : Context)
    (expected : Ty) :
    Reports (inferVarDecl decl context expected) := by
  refine .ite ((report_reports rfl).bind fun _ => .pure _) ?_
  split <;>
    refine Reports.bind ?_ fun _ =>
      (inferExpr_reports _ _ _ _ _).bind fun _ =>
        .ite ((report_reports rfl).bind fun _ => .pure _)
          ((constrain_reports _ _ _ _).bind fun _ => .pure _)
  · exact writtenTy_reports _
  · exact fresh_reports

/-- The declarations of locals report no unknown function. -/
theorem inferLocals_reports
    (decls : List VarDecl)
    (context : Context) :
    Reports (inferLocals decls context) := by
  induction decls generalizing context with
  | nil => exact .pure _
  | cons decl rest restReports =>
      exact fresh_reports.bind fun _ =>
        (inferVarDecl_reports decl _ _).bind fun _ =>
          (restReports _).bind fun _ => .pure _

/-- A written signature is reported for itself only. -/
theorem inferSignature_reports
    (name : Name)
    (written : WrittenSignature)
    (inferred : Ty) :
    Reports (inferSignature name written inferred) := by
  have explained (span : Span) (failure : UnifyError) :
      (TypeError.ofSignature name.text span failure).isUnknownFunction = false := by
    cases failure <;> rfl
  refine (signatureTy_reports written).bind fun _ => .ite ?_ ?_
  · exact (report_reports rfl).bind fun _ =>
      unifyOrReport_reports (explained _) _ _ _
  · exact unifyOrReport_reports (explained _) _ _ _

/-- Calls that waited have found their function. -/
theorem inferWaiting_reports
    (function : String)
    (waiting : List PendingCall)
    (context : Context)
    (found : Substitution) :
    Reports (inferWaiting function waiting context found) := by
  induction waiting generalizing context found with
  | nil => exact .pure _
  | cons pending rest restReports =>
      refine Reports.get (fun _ _ => rfl) fun state =>
        (inferCall_reports pending.call _ _ _ _).bind fun _ =>
          (Reports.change fun _ _ => rfl).bind fun _ => ?_
      split
      · exact .ite ((report_reports rfl).bind fun _ => restReports _ _)
          (restReports _ _)
      · exact restReports _ _

/-- Inference of a function reports no unknown function. -/
theorem inferFunDecl_reports
    (decl : FunDecl)
    (context : Context)
    (expected : Ty) :
    Reports (inferFunDecl decl context expected) := by
  have paramsReport (args : List Name) :
      Reports (args.mapM fun _ => fresh) := by
    induction args with
    | nil => exact .pure _
    | cons arg rest restReports =>
        rw [List.mapM_cons]
        exact fresh_reports.bind fun _ => restReports.bind fun _ => .pure _
  refine (Reports.change fun _ _ => rfl).bind fun _ =>
    .ite ((report_reports rfl).bind fun _ => .pure _) ?_
  split
  · exact (report_reports rfl).bind fun _ => .pure _
  refine (paramsReport _).bind fun _ => fresh_reports.bind fun _ =>
    (inferLocals_reports _ _).bind fun _ =>
      (inferBlock_reports _ _ _).bind fun _ =>
        (constrain_reports _ _ _ _).bind fun _ => ?_
  split <;>
    refine Reports.bind ?_ fun _ =>
      (Reports.change fun _ _ => rfl).bind fun _ =>
        (inferWaiting_reports _ _ _ _).bind fun _ => .pure _
  · exact inferSignature_reports _ _ _
  · exact .pure _

/-- Inference of globals reports no unknown function. -/
theorem inferGlobals_reports
    (decls : List Decl)
    (context : Context) :
    Reports (inferGlobals decls context) := by
  induction decls generalizing context with
  | nil => exact .pure _
  | cons decl rest restReports =>
      cases decl with
      | fn decl => exact (restReports _).bind fun _ => .pure _
      | var decl =>
          exact fresh_reports.bind fun _ =>
            (Reports.change fun _ _ => rfl).bind fun _ =>
              (inferVarDecl_reports decl _ _).bind fun _ =>
                (Reports.change fun _ _ => rfl).bind fun _ =>
                  (restReports _).bind fun _ => .pure _

/-- Inference of functions reports no unknown function. -/
theorem inferFunctions_reports
    (decls : List Decl)
    (context : Context) :
    Reports (inferFunctions decls context) := by
  induction decls generalizing context with
  | nil => exact .pure _
  | cons decl rest restReports =>
      cases decl with
      | fn decl =>
          exact fresh_reports.bind fun _ =>
            (inferFunDecl_reports decl _ _).bind fun _ =>
              (Reports.change fun _ _ => rfl).bind fun _ =>
                (restReports _).bind fun _ => .pure _
      | var decl => exact (restReports _).bind fun _ => .pure _

/-- Unknown functions are reported after inference, not on the way. -/
theorem inferProgram_reports
    (program : Program)
    (context : Context) :
    Reports (inferProgram program context) :=
  (inferGlobals_reports _ _).bind fun _ =>
    (inferFunctions_reports _ _).bind fun _ =>
      Reports.get (fun _ _ => rfl) fun _ => .pure _

end SplTyping
