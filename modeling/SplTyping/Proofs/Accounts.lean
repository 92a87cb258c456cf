import SplTyping.Proofs.Acceptance
import SplTyping.Proofs.Errors
import SplTyping.Proofs.Unanswered

namespace SplTyping

/-!
# Every waiting call is settled once

The numbers handed out so far are those of the checked copies, of the calls that
are just being checked, and of the calls that wait, each number once. Setting a
call aside adds the next number; taking the calls of a function and recording
their copies moves numbers from one part to another. At the end the calls that
still wait are reported, and none of their callees is bound.
-/

namespace PendingCalls

/-- All calls that wait. -/
def calls (pending : PendingCalls) : List PendingCall :=
  pending.queues.flatMap CallQueue.calls

theorem perm_enqueue
    (callee : String)
    (added : PendingCall)
    (queues : List CallQueue) :
    ((CallQueue.enqueue callee added queues).flatMap CallQueue.calls).Perm
      (added :: queues.flatMap CallQueue.calls) := by
  induction queues with
  | nil => exact .refl _
  | cons queue rest inductionHypothesis =>
      rw [CallQueue.enqueue]
      split
      · simp only [List.flatMap_cons, List.append_assoc, List.singleton_append]
        exact List.perm_middle
      · split
        · exact .refl _
        · exact (inductionHypothesis.append_left _).trans List.perm_middle

/-- Setting a call aside adds it, stamped, to those that wait. -/
theorem perm_defer
    (pending : PendingCalls)
    (call : Call)
    (context : Context)
    (expected : Ty)
    (guard : Option ValueGuard) :
    (pending.defer call context expected guard).2.calls.Perm
      (⟨pending.nextId, { call with waiting := some pending.nextId }, context,
        expected, guard⟩ :: pending.calls) :=
  perm_enqueue _ _ _

/-- Taking the calls of a function splits those that wait. -/
theorem perm_take (pending : PendingCalls) (function : String) :
    ((pending.take function).1 ++ (pending.take function).2.calls).Perm
      pending.calls := by
  simp only [take, calls, List.partition_eq_filter_filter,
    ← List.flatMap_append]
  exact (List.filter_append_perm _ _).flatMap_right _

/-- Each call that is received has taken a number. -/
theorem Receives.nextId
    {before after : PendingCalls}
    {made : List Call}
    (received : before.Receives made after) :
    after.nextId = before.nextId + made.length := by
  induction received with
  | nil => rfl
  | cons _ inductionHypothesis =>
      exact inductionHypothesis.trans (Nat.succ_add_eq_add_succ _ _)

/-- The calls set aside get the next numbers. -/
theorem Receives.ids
    {before after : PendingCalls}
    {made : List Call}
    (received : before.Receives made after) :
    (after.calls.map PendingCall.id).Perm
      (before.calls.map PendingCall.id ++
        List.range' before.nextId made.length) := by
  induction received with
  | nil => simp
  | @cons pending _ call _ context expected guard _ inductionHypothesis =>
      have deferred :=
        (pending.perm_defer call context expected guard).map PendingCall.id
      refine inductionHypothesis.trans ((deferred.append_right _).trans ?_)
      exact List.perm_middle.symm

end PendingCalls

/-- A property of waiting calls holds after calls are set aside that have it. -/
theorem State.AllWaiting.receives
    {property : String → PendingCall → Prop}
    {before after : State}
    {made : List Call}
    (all : before.AllWaiting property)
    (received : before.pending.Receives made after.pending)
    (added :
      ∀ call ∈ made, ∀ id context expected guard,
        property call.callee.text
          ⟨id, { call with waiting := some id }, context, expected, guard⟩) :
    after.AllWaiting property := by
  generalize start : before.pending = first at received
  generalize stop : after.pending = last at received
  induction received generalizing before with
  | nil => exact all.mono (fun _ _ => id) (stop.trans start.symm)
  | @cons _ _ call _ context expected guard _ inductionHypothesis =>
      subst start
      obtain ⟨callAdded, restAdded⟩ := List.forall_mem_cons.mp added
      have deferred :
          (before.setAside call context expected guard).AllWaiting property :=
        all.setAside (callAdded _ _ _ _)
      exact inductionHypothesis deferred restAdded rfl stop

namespace Table

variable {κ α : Type} [DecidableEq κ]

/-- The keys that have a value. -/
def keys (table : Table κ α) : List κ :=
  table.entries.map Prod.fst

/-- A new key is added at the end. -/
theorem insert_of_not_mem
    {table : Table κ α}
    {key : κ}
    {value : α}
    (unused : key ∉ table.keys) :
    (table.insert key value).entries = table.entries ++ [(key, value)] := by
  obtain ⟨entries⟩ := table
  simp only [insert]
  induction entries with
  | nil => rfl
  | cons entry rest inductionHypothesis =>
      simp only [keys, List.map_cons, List.mem_cons, not_or] at unused
      obtain ⟨isOther, unusedRest⟩ := unused
      rw [insertEntry, if_neg (Ne.symm isOther), inductionHypothesis unusedRest,
        List.cons_append]

end Table

theorem range_append_range' (start count : Nat) :
    List.range start ++ List.range' start count = List.range (start + count) := by
  rw [List.range_eq_range', List.range_eq_range', ← List.range'_append_1,
    Nat.zero_add]

/--
Every number handed out belongs to a checked copy, to a call that is taken, or
to one that waits.
-/
def State.Numbers (state : State) (taken : List CallId) : Prop :=
  (state.resolved.keys ++ taken ++
      state.pending.calls.map PendingCall.id).Perm
    (List.range state.pending.nextId)

namespace State.Numbers

variable {taken : List CallId} {before after : State} {id : CallId}

/-- Setting calls aside hands out the next numbers. -/
theorem receives
    {made : List Call}
    (numbers : before.Numbers taken)
    (received : before.pending.Receives made after.pending)
    (sameResolved : after.resolved = before.resolved) :
    after.Numbers taken := by
  rw [Numbers, sameResolved, received.nextId, ← range_append_range']
  refine (received.ids.append_left _).trans ?_
  rw [← List.append_assoc]
  exact numbers.append_right _

/-- The calls of a function are taken. -/
theorem take
    (numbers : before.Numbers taken)
    (function : String) :
    (before.without function).Numbers
      ((before.pending.take function).1.map PendingCall.id ++ taken) := by
  have split := (before.pending.perm_take function).map PendingCall.id
  rw [List.map_append] at split
  refine List.Perm.trans ?_ ((split.append_left _).trans numbers)
  simp only [List.append_assoc]
  refine List.Perm.append_left _ ?_
  rw [← List.append_assoc, ← List.append_assoc]
  exact List.perm_append_comm.append_right _

/-- The number of a taken call has no copy yet. -/
theorem unused
    (numbers : before.Numbers (id :: taken)) :
    id ∉ before.resolved.keys := by
  have distinct := numbers.nodup_iff.mpr List.nodup_range
  rw [List.append_assoc, List.nodup_append] at distinct
  exact fun used => distinct.2.2 id used id List.mem_cons_self rfl

/-- The copy of a taken call is recorded under its number. -/
theorem resolve
    (numbers : before.Numbers (id :: taken))
    (copy : Call) :
    (before.resolve id copy).Numbers taken := by
  rw [Numbers, State.resolve, Table.keys,
    Table.insert_of_not_mem numbers.unused]
  simp only [Numbers, List.append_assoc, List.cons_append] at numbers
  simp only [List.map_append, List.map_cons, List.map_nil,
    List.append_assoc, List.singleton_append]
  exact numbers

end State.Numbers

/--
Every number handed out belongs to a checked copy, to a call that is taken, or
to one that waits for a function that is not bound.
-/
structure Accounts
    (context : Context)
    (taken : List CallId)
    (state : State) :
    Prop where
  ids :
    (state.resolved.keys ++ taken ++
        state.pending.calls.map PendingCall.id).Perm
      (List.range state.pending.nextId)
  unknown :
    state.AllWaiting fun callee pending =>
      pending.call.callee.text = callee ∧
        context.funs.contains callee = false

namespace Accounts

variable
  {context context' : Context}
  {taken : List CallId}
  {before after : State}

/-- Nothing is to be accounted for at the start. -/
theorem initial : Accounts .empty [] .initial where
  ids := .refl _
  unknown := nofun

/-- Setting calls aside hands out the next numbers. -/
theorem setsAside
    {calls : List Call}
    (accounts : Accounts context taken before)
    (sets : SetsAside calls before after)
    (unknown :
      ∀ call ∈ calls, context.funs.contains call.callee.text = false)
    (sameResolved : after.resolved = before.resolved) :
    Accounts context taken after := by
  obtain ⟨made, received, subset, _⟩ := sets
  constructor
  · exact State.Numbers.receives accounts.ids received sameResolved
  · exact accounts.unknown.receives received fun call isMade _ _ _ _ =>
      ⟨rfl, unknown call (subset isMade)⟩

/-- The calls of a function are taken; the rest waits for others. -/
theorem take
    {function : String}
    (accounts : Accounts context [] before)
    (declared :
      ∀ name, context'.funs.contains name = true →
        name = function ∨ context.funs.contains name = true) :
    Accounts context' ((before.pending.take function).1.map PendingCall.id)
      (before.without function) where
  ids := by
    have numbers := State.Numbers.take accounts.ids function
    rw [List.append_nil] at numbers
    exact numbers
  unknown := by
    refine (accounts.unknown.without function).mono ?_ rfl
    rintro callee pending ⟨⟨isCallee, unbound⟩, isOther⟩
    refine ⟨isCallee, Bool.eq_false_iff.mpr fun bound => ?_⟩
    rcases declared callee bound with isFunction | wasBound
    · exact isOther isFunction
    · rw [wasBound] at unbound
      cases unbound

/-- A call that was taken has no copy yet. -/
theorem unused
    {id : CallId}
    (accounts : Accounts context (id :: taken) before) :
    id ∉ before.resolved.keys :=
  State.Numbers.unused accounts.ids

/-- The copy of a taken call is recorded under its number. -/
theorem resolve
    {id : CallId}
    (accounts : Accounts context (id :: taken) before)
    (copy : Call) :
    Accounts context taken (before.resolve id copy) where
  ids := State.Numbers.resolve accounts.ids copy
  unknown := accounts.unknown

/-- Only calls, copies and the functions that are bound matter. -/
theorem change
    (accounts : Accounts context taken before)
    (samePending : after.pending = before.pending)
    (sameResolved : after.resolved = before.resolved)
    (sameFunctions : context'.funs.contains = context.funs.contains) :
    Accounts context' taken after where
  ids := by
    rw [samePending, sameResolved]
    exact accounts.ids
  unknown := by
    rw [sameFunctions]
    exact accounts.unknown.mono (fun _ _ => id) samePending

/-- A taken call is checked, which may set further calls aside. -/
theorem check
    {pending : PendingCall}
    {call : Call}
    {settled found more : Substitution}
    {expected : Ty}
    {demand : Demand}
    {guard : Option ValueGuard}
    (accounts : Accounts context (pending.id :: taken) before)
    (callRun :
      Runs
        (inferCall pending.call (pending.reached settled found context)
          expected demand guard)
        before (call, more) after) :
    Accounts context (pending.id :: taken) after := by
  have unknown := (alongTrees_mem context.funs.contains).ofCall pending.call
  exact accounts.setsAside (inferCall_setsAside callRun)
    (fun other isOther => (unknown other isOther).1)
    (inferCall_grows callRun).resolved

/-- The body of a function sets aside calls of functions that are not bound. -/
theorem compare
    {decl : FunDecl}
    {locals : List VarDecl}
    {body : List Stmt}
    {expected : Ty}
    {found : Substitution}
    (accounts : Accounts context [] before)
    (run : ComparedRun decl context expected before locals body found after) :
    Accounts context [] after := by
  have unknown := (alongTrees_mem (decl.knows context)).funDecl decl
  exact accounts.setsAside run.setsAside
    (fun call isCall => (Bool.or_eq_false_iff.mp (unknown call isCall).1).2)
    run.declares.resolved

/-- Once a function is bound, the calls that wait for it are taken. -/
theorem takeOf
    (accounts : Accounts context [] before)
    (decl : FunDecl)
    (shape : Signature)
    (found : Substitution) :
    Accounts ((context.bindFun decl.name.text shape).narrow found)
      ((before.pending.take decl.name.text).1.map PendingCall.id)
      (before.without decl.name.text) := by
  refine accounts.take fun name bound => ?_
  rw [Context.narrow_knows, decl.bindFun_knows] at bound
  exact (Bool.or_eq_true_iff.mp bound).imp_left of_decide_eq_true

end Accounts

/-- Calls that were taken are copied, each under its number. -/
theorem inferWaiting_accounts
    {function : String}
    {waiting : List PendingCall}
    {context context' : Context}
    {found extended : Substitution}
    {before after : State}
    (run :
      Runs (inferWaiting function waiting context found) before
        (context', extended) after)
    (accounts : Accounts context (waiting.map PendingCall.id) before) :
    Accounts context' [] after := by
  induction waiting generalizing context found before with
  | nil =>
      cases waitingRun_of_runs run
      exact accounts
  | cons pending rest inductionHypothesis =>
      cases waitingRun_of_runs run with
      | void _ callRun _ _ restRun =>
          exact inductionHypothesis restRun
            (((accounts.check callRun).resolve _).change rfl rfl rfl)
      | next _ callRun _ restRun =>
          exact inductionHypothesis restRun
            (((accounts.check callRun).resolve _).change rfl rfl
              (context.narrow_knows _))

/-- After a function, all numbers are accounted for. -/
theorem inferFunDecl_accounts
    {decl decl' : FunDecl}
    {context context' : Context}
    {expected : Ty}
    {found : Substitution}
    {before after : State}
    (run :
      Runs (inferFunDecl decl context expected) before
        (decl', context', found) after)
    (accounts : Accounts context [] before) :
    Accounts context' [] after := by
  cases funDeclRun_of_runs run with
  | taken | repeated => exact accounts.change rfl rfl rfl
  | bound _ _ shapeEq localsRun bodyRun asked signatureRun waitingRun =>
      subst shapeEq
      have comparedRun := ComparedRun.intro localsRun bodyRun asked signatureRun
      exact inferWaiting_accounts waitingRun
        ((accounts.compare comparedRun).takeOf decl _ _)

/-- After the globals, all numbers are accounted for. -/
theorem inferGlobals_accounts
    {decls decls' : List Decl}
    {context context' : Context}
    {before after : State}
    (run :
      Runs (inferGlobals decls context) before (decls', context') after)
    (accounts : Accounts context [] before) :
    Accounts context' [] after := by
  induction decls generalizing decls' context before with
  | nil =>
      cases globalsRun_of_runs run
      exact accounts
  | cons decl rest inductionHypothesis =>
      cases globalsRun_of_runs run with
      | fn restRun => exact inductionHypothesis restRun accounts
      | @var decl _ _ _ between _ found _ _ declRun restRun =>
          have unknown := (alongTrees_mem context.funs.contains).expr decl.value
          have started : Accounts context [] (before.draw 1).unnamed :=
            accounts.change rfl rfl rfl
          have declared :=
            started.setsAside (inferVarDecl_setsAside declRun)
              (fun call isCall => (unknown call isCall).1)
              (inferVarDecl_declares declRun).resolved
          have sameFunctions :
              (between.narrow found).funs.contains = context.funs.contains := by
            rw [Context.narrow_knows, (varDeclRun_of_runs declRun).funs]
          exact inductionHypothesis restRun
            (declared.change rfl rfl sameFunctions)

/-- After the functions, all numbers are accounted for. -/
theorem inferFunctions_accounts
    {decls decls' : List Decl}
    {context context' : Context}
    {before after : State}
    (run :
      Runs (inferFunctions decls context) before (decls', context') after)
    (accounts : Accounts context [] before) :
    Accounts context' [] after := by
  induction decls generalizing decls' context before with
  | nil =>
      cases functionsRun_of_runs run
      exact accounts
  | cons decl rest inductionHypothesis =>
      cases functionsRun_of_runs run with
      | var restRun => exact inductionHypothesis restRun accounts
      | fn declRun restRun =>
          have declared :=
            inferFunDecl_accounts declRun (accounts.change rfl rfl rfl)
          exact inductionHypothesis restRun
            (declared.change rfl rfl (Context.narrow_knows _ _))

/-- The state after the declarations of a program, before calls are reported. -/
def Program.inferredState (program : Program) : State :=
  ((inferProgram program .empty).run .initial).2

/-- Inference of a program is its two passes, from the initial state. -/
theorem Program.inferredState_runs (program : Program) :
    ∃ globals context middle,
      Runs (inferGlobals program.decls .empty) .initial (globals, context)
          middle ∧
        Runs (inferFunctions globals context) middle
          (program.infer.program.decls, program.infer.context)
          program.inferredState :=
  ⟨_, _, _, rfl, rfl⟩

/--
Errors are those of the two passes, and one for each call that still waits.
-/
theorem Program.infer_errors (program : Program) :
    program.infer.state.diagnostics.errors =
      program.inferredState.diagnostics.errors ++
        program.inferredState.pending.calls.map fun pending =>
          pending.call.unknownFunction := by
  have run : Runs reportWaiting program.inferredState () program.infer.state :=
    rfl
  exact reportWaiting_errors run

/-- No error is about a call without a callee before calls are reported. -/
theorem Program.inferredState_errors (program : Program) :
    ∀ error ∈ program.inferredState.diagnostics.errors,
      error.isUnknownFunction = false := by
  have run :
      Runs (inferProgram program .empty) .initial
        (program.infer.program, program.infer.context, program.infer.found)
        program.inferredState :=
    rfl
  obtain ⟨errors, errorsEq, areOther, _⟩ :=
    (inferProgram_reports program .empty).added run
  rw [errorsEq]
  exact areOther

/-- After a program, all numbers are accounted for. -/
theorem Program.inferredState_accounts (program : Program) :
    Accounts program.infer.context [] program.inferredState := by
  obtain ⟨_, _, _, globalsRun, functionsRun⟩ := program.inferredState_runs
  exact inferFunctions_accounts functionsRun
    (inferGlobals_accounts globalsRun .initial)

/--
What becomes of the calls set aside: `last` is the state in which the
declarations are done, and `inferred` what is left after reporting.
-/
structure CallsSettled (last : State) (inferred : Inferred) : Prop where
  /-- No call waits any more. -/
  nothingWaits : inferred.state.pending.isEmpty = true
  /-- Each number handed out is that of one copy or of one reported call. -/
  numbers :
    (inferred.state.resolved.keys ++
        last.pending.drain.1.map PendingCall.id).Perm
      (List.range inferred.state.pending.nextId)
  /-- The errors about unknown functions are those of the reported calls. -/
  reported :
    inferred.state.diagnostics.errors.filter TypeError.isUnknownFunction =
      last.pending.drain.1.map fun pending =>
        .unknownFunction pending.call.callee.text pending.call.mark.span
  /-- No function that is bound is reported as unknown. -/
  unbound :
    ∀ name span,
      .unknownFunction name span ∈ inferred.state.diagnostics.errors →
        inferred.context.funs.contains name = false

/-- Every call that is set aside is settled exactly once. -/
theorem Program.infer_callsSettled (program : Program) :
    CallsSettled ((inferProgram program .empty).run .initial).2
      program.infer where
  nothingWaits := rfl
  numbers := by
    have ids := program.inferredState_accounts.ids
    rw [List.append_nil] at ids
    exact ids
  reported := by
    have noneBefore :
        program.inferredState.diagnostics.errors.filter
          TypeError.isUnknownFunction = [] := by
      rw [List.filter_eq_nil_iff]
      intro error isError
      rw [program.inferredState_errors error isError]
      exact Bool.false_ne_true
    rw [program.infer_errors, List.filter_append, noneBefore, List.nil_append,
      List.filter_eq_self.mpr]
    · rfl
    · intro error isError
      obtain ⟨pending, _, rfl⟩ := List.mem_map.mp isError
      rfl
  unbound := by
    intro name span isError
    rw [program.infer_errors, List.mem_append] at isError
    rcases isError with earlier | reported
    · cases program.inferredState_errors _ earlier
    · obtain ⟨pending, isPending, isReport⟩ := List.mem_map.mp reported
      obtain ⟨queue, inQueues, inQueue⟩ := List.mem_flatMap.mp isPending
      obtain ⟨isCallee, unbound⟩ :=
        program.inferredState_accounts.unknown queue inQueues pending inQueue
      cases isReport
      rw [isCallee]
      exact unbound

end SplTyping
