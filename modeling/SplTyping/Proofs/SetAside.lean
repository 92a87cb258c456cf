import SplTyping.Proofs.Accounts
import SplTyping.Proofs.Outcomes

namespace SplTyping

/-!
# Calls that are set aside stand in the tree

A call that is set aside is returned as it waits: with its number, and with its
arguments as they were. So if no call of a tree carries a number, then after
inference the outermost numbered calls of the tree are those that were set aside
on the way. This does not depend on errors: what inference passes over after an
error has no numbers either.
-/

/-- Calls with consecutive numbers. -/
def stampedFrom (start : CallId) : List Call → List Call
  | [] => []
  | call :: rest =>
      { call with waiting := some start } :: stampedFrom (start + 1) rest

/-- Numbers go on from the first calls to those behind. -/
theorem stampedFrom_append
    (start : CallId)
    (calls more : List Call) :
    stampedFrom start (calls ++ more) =
      stampedFrom start calls ++ stampedFrom (start + calls.length) more := by
  induction calls generalizing start with
  | nil => rfl
  | cons call rest inductionHypothesis =>
      rw [List.cons_append, stampedFrom, inductionHypothesis, stampedFrom,
        List.length_cons, List.cons_append, Nat.add_right_comm, Nat.add_assoc]

/-- The numbers of calls from a start on. -/
theorem waiting_stampedFrom
    (start : CallId)
    (calls : List Call) :
    (stampedFrom start calls).map Call.waiting =
      (List.range' start calls.length).map some := by
  induction calls generalizing start with
  | nil => rfl
  | cons call rest inductionHypothesis =>
      rw [stampedFrom, List.map_cons, inductionHypothesis]
      rfl

/-- A numbered call is one of the given calls with its number. -/
theorem mem_stampedFrom
    {start : CallId}
    {calls : List Call}
    {call : Call}
    (member : call ∈ stampedFrom start calls) :
    ∃ made ∈ calls, ∃ id, start ≤ id ∧ call = { made with waiting := some id } := by
  induction calls generalizing start with
  | nil => cases member
  | cons first rest inductionHypothesis =>
      rcases List.mem_cons.mp member with rfl | inRest
      · exact ⟨first, List.mem_cons_self, start, Nat.le_refl _, rfl⟩
      · obtain ⟨made, isMade, id, isLater, same⟩ := inductionHypothesis inRest
        exact ⟨made, List.mem_cons_of_mem _ isMade, id,
          Nat.le_of_succ_le isLater, same⟩

/-- The calls set aside wait with the numbers that follow. -/
theorem PendingCalls.Receives.calls
    {before after : PendingCalls}
    {made : List Call}
    (received : before.Receives made after) :
    (after.calls.map PendingCall.call).Perm
      (before.calls.map PendingCall.call ++
        stampedFrom before.nextId made) := by
  induction received with
  | nil => simp [stampedFrom]
  | @cons pending _ call _ context expected guard _ inductionHypothesis =>
      have deferred :=
        (pending.perm_defer call context expected guard).map PendingCall.call
      refine inductionHypothesis.trans ((deferred.append_right _).trans ?_)
      exact List.perm_middle.symm

/--
From one state to the other, calls without numbers inside are set aside; these
are the numbered calls that stand in a tree.
-/
def Places (numbered : List Call) (before after : State) : Prop :=
  ∃ made,
    before.pending.Receives made after.pending ∧
      numbered.Perm (stampedFrom before.pending.nextId made) ∧
      ∀ call ∈ made, Unstamped (Expr.callsAll call.args)

namespace Places

variable {numbered more : List Call} {before middle after : State}

/-- A step that leaves waiting calls alone places none. -/
theorem nothing (samePending : after.pending = before.pending) :
    Places [] before after := by
  refine ⟨[], ?_, .nil, nofun⟩
  rw [samePending]
  exact .nil

/-- Two steps place the numbered calls of their parts. -/
theorem append
    (first : Places numbered before middle)
    (second : Places more middle after) :
    Places (numbered ++ more) before after := by
  obtain ⟨made, firstReceived, firstPerm, firstUnstamped⟩ := first
  obtain ⟨made', secondReceived, secondPerm, secondUnstamped⟩ := second
  refine ⟨made ++ made', firstReceived.append secondReceived, ?_,
    List.forall_mem_append.mpr ⟨firstUnstamped, secondUnstamped⟩⟩
  rw [stampedFrom_append, ← firstReceived.nextId]
  exact firstPerm.append secondPerm

/-- The order in which the calls are listed does not matter. -/
theorem swap
    (places : Places (numbered ++ more) before after) :
    Places (more ++ numbered) before after := by
  obtain ⟨made, received, perm, unstamped⟩ := places
  exact ⟨made, received, List.perm_append_comm.trans perm, unstamped⟩

/-- Nothing is set aside at the end. -/
theorem quiet
    (places : Places numbered before middle)
    (samePending : after.pending = middle.pending) :
    Places numbered before after := by
  obtain ⟨made, received, rest⟩ := places
  rw [← samePending] at received
  exact ⟨made, received, rest⟩

/-- Nothing is set aside at the start. -/
theorem after_quiet
    (places : Places numbered middle after)
    (samePending : middle.pending = before.pending) :
    Places numbered before after :=
  (nothing samePending).append places

end Places

/-- How inference leaves a call. -/
inductive CallPlaced
    (context : Context)
    (call call' : Call)
    (before after : State) :
    Prop where
  | waits
      (unknown : context.funs.get? call.callee.text = none)
      (stamped : call'.waiting = some before.pending.nextId)
      (places : Places [call'] before after)
  | stays
      (sameStamp : call'.waiting = call.waiting)
      (places : Places (Expr.numberedAll call'.args) before after)

/-- A call places itself, or what its arguments place. -/
theorem CallPlaced.places
    {context : Context}
    {call call' : Call}
    {before after : State}
    (placed : CallPlaced context call call' before after)
    (unstamped : call.waiting = none) :
    Places call'.numbered before after := by
  cases placed with
  | waits _ stamped places =>
      rw [Call.numbered_of_some stamped]
      exact places
  | stays sameStamp places =>
      rw [Call.numbered_of_none (sameStamp.trans unstamped)]
      exact places

mutual

/--
The numbered calls of an inferred expression are those that were set aside.
-/
theorem inferExpr_places
    {expr expr' : Expr}
    {context : Context}
    {expected : Ty}
    {demand : Demand}
    {guard : Option ValueGuard}
    {found : Substitution}
    {before after : State}
    (run :
      Runs (inferExpr expr context expected demand guard) before (expr', found)
        after)
    (unstamped : Unstamped expr.calls) :
    Places expr'.numbered before after := by
  cases exprRun_of_runs run with
  | int asked | bool asked | char asked | nil asked =>
      have samePending := unifyOrReport_pending asked
      exact .nothing samePending
  | read placeRun => exact inferPlace_places placeRun unstamped
  | pairVoid firstRun secondRun =>
      obtain ⟨firstUnstamped, secondUnstamped⟩ := unstamped.of_append
      have places :=
        (inferExpr_places firstRun firstUnstamped).append
          (inferExpr_places secondRun secondUnstamped)
      exact places
  | pair firstRun secondRun _ _ asked =>
      obtain ⟨firstUnstamped, secondUnstamped⟩ := unstamped.of_append
      have places :=
        (inferExpr_places firstRun firstUnstamped).append
          (inferExpr_places secondRun secondUnstamped)
      exact places.quiet (unifyOrReport_pending asked)
  | range firstRun boundRun lastRun asked =>
      obtain ⟨firstUnstamped, lastUnstamped⟩ := unstamped.of_append
      have lastPlaces :=
        (inferExpr_places lastRun lastUnstamped).after_quiet boundRun.pending
      have places :=
        (inferExpr_places firstRun firstUnstamped).append lastPlaces
      exact places.quiet (unifyOrReport_pending asked)
  | @binaryLeftVoid _ _ left' right _ _ _ _ _ _ _ _ operatorRun leftRun =>
      obtain ⟨leftUnstamped, rightUnstamped⟩ := unstamped.of_append
      have places :=
        (inferExpr_places leftRun leftUnstamped).after_quiet operatorRun.pending
      rw [← List.append_nil left'.numbered,
        ← right.numbered_eq_nil rightUnstamped] at places
      exact places
  | binaryRightVoid operatorRun leftRun rightRun =>
      obtain ⟨leftUnstamped, rightUnstamped⟩ := unstamped.of_append
      have places :=
        (inferExpr_places leftRun leftUnstamped).append
          (inferExpr_places rightRun rightUnstamped)
      exact places.after_quiet operatorRun.pending
  | binary operatorRun leftRun _ rightRun _ asked =>
      obtain ⟨leftUnstamped, rightUnstamped⟩ := unstamped.of_append
      have places :=
        (inferExpr_places leftRun leftUnstamped).append
          (inferExpr_places rightRun rightUnstamped)
      exact (places.after_quiet operatorRun.pending).quiet
        (unifyOrReport_pending asked)
  | unary operandRun asked =>
      exact (inferExpr_places operandRun unstamped).quiet
        (unifyOrReport_pending asked)
  | @call made _ _ _ callRun =>
      rcases made with ⟨callee, args, mark, waiting⟩
      obtain ⟨callUnstamped, argsUnstamped⟩ := List.forall_mem_cons.mp unstamped
      exact (inferCall_places callRun argsUnstamped).places callUnstamped
termination_by structural expr

/-- The numbered calls of an inferred place are those that were set aside. -/
theorem inferPlace_places
    {place place' : Place}
    {context : Context}
    {expected : Ty}
    {demand : Demand}
    {found : Substitution}
    {before after : State}
    (run :
      Runs (inferPlace place context expected demand) before (place', found)
        after)
    (unstamped : Unstamped place.calls) :
    Places place'.numbered before after := by
  cases placeRun_of_runs run with
  | unknown =>
      rw [place.numbered_eq_nil unstamped]
      exact .nothing rfl
  | known _ fieldsRun asked =>
      exact (inferFields_places fieldsRun unstamped).quiet
        (unifyOrReport_pending asked)
termination_by structural place

/-- The numbered calls of fields are those that were set aside. -/
theorem inferFields_places
    {fields fields' : List Field}
    {name : String}
    {span : Span}
    {context : Context}
    {current selected : Ty}
    {found extended : Substitution}
    {before after : State}
    (run :
      Runs (inferFields fields name span context current found) before
        (fields', selected, extended) after)
    (unstamped : Unstamped (Field.callsAll fields)) :
    Places (Field.numberedAll fields') before after := by
  cases fields with
  | nil =>
      obtain ⟨rfl, _, _, rfl⟩ := runs_inferFields_nil run
      exact .nothing rfl
  | cons field rest =>
      obtain ⟨_, _, _, _, _, fieldRun, restRun, rfl⟩ := runs_inferFields_cons run
      obtain ⟨fieldUnstamped, restUnstamped⟩ := unstamped.of_append
      exact (inferField_places fieldRun fieldUnstamped).append
        (inferFields_places restRun restUnstamped)
termination_by structural fields

theorem inferField_places
    {field field' : Field}
    {name : String}
    {span : Span}
    {context : Context}
    {current selected : Ty}
    {found extended : Substitution}
    {before after : State}
    (run :
      Runs (inferField field name span context current found) before
        (field', selected, extended) after)
    (unstamped : Unstamped field.calls) :
    Places field'.numbered before after := by
  cases fieldRun_of_runs run with
  | hd asked | tl asked | fst asked | snd asked =>
      have samePending := unifyOrReport_pending asked
      exact .nothing samePending
  | index asked positionRun =>
      have samePending := unifyOrReport_pending asked
      exact (inferExpr_places positionRun unstamped).after_quiet samePending
termination_by structural field

/--
A call is numbered as it is set aside, or its arguments hold numbered ones.
-/
theorem inferCall_places
    {call call' : Call}
    {context : Context}
    {expected : Ty}
    {demand : Demand}
    {guard : Option ValueGuard}
    {found : Substitution}
    {before after : State}
    (run :
      Runs (inferCall call context expected demand guard) before (call', found)
        after)
    (unstamped : Unstamped (Expr.callsAll call.args)) :
    CallPlaced context call call' before after := by
  cases callRun_of_runs run with
  | waits unknown =>
      exact .waits unknown rfl
        ⟨[call], .cons .nil, .refl _, List.forall_mem_singleton.mpr unstamped⟩
  | arity =>
      refine .stays rfl ?_
      rw [Expr.numberedAll_eq_nil call.args unstamped]
      exact .nothing rfl
  | void _ _ argsRun => exact .stays rfl (inferArgs_places argsRun unstamped)
  | checked _ _ argsRun asked =>
      exact .stays rfl
        ((inferArgs_places argsRun unstamped).quiet
          (unifyOrReport_pending asked))
termination_by structural call

/-- The numbered calls of arguments were set aside, aborted or not. -/
theorem inferArgs_places
    {args args' : List Expr}
    {params : List Ty}
    {function : String}
    {number : Nat}
    {progress : CallProgress}
    {outcome : Option CallProgress}
    {before after : State}
    (run :
      Runs (inferArgs args params function number progress) before
        (args', outcome) after)
    (unstamped : Unstamped (Expr.callsAll args)) :
    Places (Expr.numberedAll args') before after := by
  cases argsRun_of_runs run with
  | done =>
      rw [Expr.numberedAll_eq_nil args unstamped]
      exact .nothing rfl
  | @void _ arg' rest _ _ _ _ _ argRun =>
      obtain ⟨argUnstamped, restUnstamped⟩ := unstamped.of_append
      have places := inferExpr_places argRun argUnstamped
      rw [← List.append_nil arg'.numbered,
        ← Expr.numberedAll_eq_nil rest restUnstamped] at places
      exact places
  | next argRun _ _ asked restRun =>
      obtain ⟨argUnstamped, restUnstamped⟩ := unstamped.of_append
      have restPlaces :=
        (inferArgs_places restRun restUnstamped).after_quiet
          (unifyOrReport_pending asked)
      exact (inferExpr_places argRun argUnstamped).append restPlaces
termination_by structural args

end

mutual

/--
The numbered calls of an inferred statement are those that were set aside.
-/
theorem inferStmt_places
    {stmt stmt' : Stmt}
    {context : Context}
    {expected : Ty}
    {found : Substitution}
    {before after : State}
    (run : Runs (inferStmt stmt context expected) before (stmt', found) after)
    (unstamped : Unstamped stmt.calls) :
    Places stmt'.numbered before after := by
  cases stmtRun_of_runs run with
  | ifElse thenRun elseRun conditionRun =>
      obtain ⟨unstamped, elseUnstamped⟩ := unstamped.of_append
      obtain ⟨conditionUnstamped, thenUnstamped⟩ := unstamped.of_append
      have bodiesPlaces :=
        (inferBlock_places thenRun thenUnstamped).append
          (inferBlock_places elseRun elseUnstamped)
      exact (bodiesPlaces.append
        (inferExpr_places conditionRun conditionUnstamped)).swap
  | whileDo bodyRun conditionRun =>
      obtain ⟨conditionUnstamped, bodyUnstamped⟩ := unstamped.of_append
      exact ((inferBlock_places bodyRun bodyUnstamped).append
        (inferExpr_places conditionRun conditionUnstamped)).swap
  | @forTaken _ _ iterable' body _ _ _ _ iterableRun =>
      obtain ⟨iterableUnstamped, bodyUnstamped⟩ := unstamped.of_append
      have places := inferExpr_places iterableRun iterableUnstamped
      rw [← List.append_nil iterable'.numbered,
        ← Stmt.numberedAll_eq_nil body bodyUnstamped] at places
      exact places
  | forIn iterableRun _ bodyRun =>
      obtain ⟨iterableUnstamped, bodyUnstamped⟩ := unstamped.of_append
      exact (inferExpr_places iterableRun iterableUnstamped).append
        (inferBlock_places bodyRun bodyUnstamped)
  | assignVoid valueRun targetRun =>
      obtain ⟨targetUnstamped, valueUnstamped⟩ := unstamped.of_append
      have valuePlaces := inferExpr_places valueRun valueUnstamped
      have targetPlaces := inferPlace_places targetRun targetUnstamped
      exact (valuePlaces.append targetPlaces).swap
  | assign valueRun targetRun _ _ asked =>
      obtain ⟨targetUnstamped, valueUnstamped⟩ := unstamped.of_append
      have valuePlaces := inferExpr_places valueRun valueUnstamped
      have targetPlaces := inferPlace_places targetRun targetUnstamped
      exact (valuePlaces.append targetPlaces).swap.quiet
        (unifyOrReport_pending asked)
  | @call made _ _ _ callRun =>
      rcases made with ⟨callee, args, mark, waiting⟩
      obtain ⟨callUnstamped, argsUnstamped⟩ := List.forall_mem_cons.mp unstamped
      exact (inferCall_places callRun argsUnstamped).places callUnstamped
  | returnVoid valueRun =>
      have places := inferExpr_places valueRun unstamped
      exact places
  | returnValue valueRun _ asked =>
      exact (inferExpr_places valueRun unstamped).quiet
        (unifyOrReport_pending asked)
  | returnNothing asked => exact .nothing (unifyOrReport_pending asked)
termination_by structural stmt

/-- The numbered calls of statements were set aside in their order. -/
theorem inferBlock_places
    {stmts stmts' : List Stmt}
    {context : Context}
    {expected : Ty}
    {found : Substitution}
    {before after : State}
    (run :
      Runs (inferBlock stmts context expected) before (stmts', found) after)
    (unstamped : Unstamped (Stmt.callsAll stmts)) :
    Places (Stmt.numberedAll stmts') before after := by
  cases stmts with
  | nil =>
      obtain ⟨rfl, _, rfl⟩ := runs_inferBlock_nil run
      exact .nothing rfl
  | cons stmt rest =>
      obtain ⟨_, _, _, _, _, stmtRun, restRun, rfl, _⟩ :=
        runs_inferBlock_cons run
      obtain ⟨stmtUnstamped, restUnstamped⟩ := unstamped.of_append
      exact (inferStmt_places stmtRun stmtUnstamped).append
        (inferBlock_places restRun restUnstamped)
termination_by structural stmts

end

/-- The numbered calls of a declared value are those that were set aside. -/
theorem inferVarDecl_places
    {decl decl' : VarDecl}
    {context context' : Context}
    {expected : Ty}
    {found : Substitution}
    {before after : State}
    (run :
      Runs (inferVarDecl decl context expected) before
        (decl', context', found) after)
    (unstamped : Unstamped decl.calls) :
    Places decl'.numbered before after := by
  cases varDeclRun_of_runs run with
  | taken =>
      rw [VarDecl.numbered, decl.value.numbered_eq_nil unstamped]
      exact .nothing rfl
  | void _ declaredRun valueRun =>
      exact (inferExpr_places valueRun unstamped).after_quiet
        (declaredTy_pending declaredRun)
  | bound _ declaredRun valueRun _ asked =>
      have places :=
        (inferExpr_places valueRun unstamped).after_quiet
          (declaredTy_pending declaredRun)
      exact places.quiet (unifyOrReport_pending asked)

/-- The numbered calls of locals were set aside in their order. -/
theorem inferLocals_places
    {decls decls' : List VarDecl}
    {context context' : Context}
    {found : Substitution}
    {before after : State}
    (run :
      Runs (inferLocals decls context) before (decls', context', found) after)
    (unstamped : Unstamped (decls.flatMap VarDecl.calls)) :
    Places (decls'.flatMap VarDecl.numbered) before after := by
  induction decls generalizing decls' context found before with
  | nil =>
      obtain ⟨rfl, _, _, rfl⟩ := runs_inferLocals_nil run
      exact .nothing rfl
  | cons decl rest inductionHypothesis =>
      obtain ⟨_, _, _, _, _, _, declRun, restRun, rfl, _⟩ :=
        runs_inferLocals_cons run
      obtain ⟨declUnstamped, restUnstamped⟩ := unstamped.of_append
      exact (inferVarDecl_places declRun declUnstamped).append
        (inductionHypothesis restRun restUnstamped)

/-- The calls that the body of a function sets aside stand in the body. -/
theorem ComparedRun.places
    {decl : FunDecl}
    {locals : List VarDecl}
    {body : List Stmt}
    {context : Context}
    {expected : Ty}
    {found : Substitution}
    {before compared : State}
    (run : ComparedRun decl context expected before locals body found compared)
    (unstamped : Unstamped decl.calls) :
    Places (locals.flatMap VarDecl.numbered ++ Stmt.numberedAll body) before
      compared := by
  cases run with
  | intro localsRun bodyRun asked signatureRun =>
      obtain ⟨localsUnstamped, bodyUnstamped⟩ := unstamped.of_append
      have places :=
        (inferLocals_places localsRun localsUnstamped).append
          (inferBlock_places bodyRun bodyUnstamped)
      exact (places.quiet (unifyOrReport_pending asked)).quiet
        (signatureFindings_pending signatureRun)

end SplTyping
