import SplTyping.Proofs.Accounts
import SplTyping.Proofs.Agreement
import SplTyping.Proofs.DrawnVariables

namespace SplTyping

/-!
# A fresh variable is fresh

What inference mentions has been drawn before, so the next variable that is
drawn occurs nowhere. Declarations add two things to what is known about
expressions and statements. Names of written types stand for drawn variables,
and a call that waited is checked long after it was reached: with the context and
the expected type that it remembers, and on a copy of it. A copy is compared with
the call that it was taken from, which is among those that the run was given.
-/

section Runs

variable {limit : TypeVar} {earlier : List TypeError}

namespace State

variable {before after state : State}

theorem Declares.limited
    (declares : before.Declares after)
    (limited : after.nextVar ≤ limit) :
    before.nextVar ≤ limit :=
  Nat.le_trans declares.nextVar limited

theorem Advances.limited
    (advances : before.Advances after)
    (limited : after.nextVar ≤ limit) :
    before.nextVar ≤ limit :=
  Nat.le_trans advances.nextVar limited

/-- A name that is new stands for a drawn variable. -/
theorem Names.holds
    (names : before.Names after)
    (limited : after.nextVar ≤ limit)
    (holds : before.Holds limit earlier) :
    after.Holds limit earlier where
  within :=
    { names := by
        intro name id isNamed
        rcases names.known_or_drawn isNamed with wasNamed | ⟨_, _, isDrawn⟩
        · exact holds.within.names name id wasNamed
        · exact Nat.lt_of_lt_of_le isDrawn limited
      settled := by
        rw [names.same.2.2.1]
        exact holds.within.settled
      waiting := holds.within.waiting.mono (fun _ _ => id) names.same.1 }
  errors := by
    rw [names.same.2.2.2]
    exact holds.errors

/-- Names of written types may be forgotten. -/
theorem Holds.unnamed (holds : state.Holds limit earlier) :
    state.unnamed.Holds limit earlier where
  within :=
    { names := fun _ _ isNamed => by cases isNamed
      settled := holds.within.settled
      waiting := holds.within.waiting }
  errors := holds.errors

/-- Findings within the limit may be written down. -/
theorem Holds.settle
    {found : Substitution}
    (holds : state.Holds limit earlier)
    (foundWithin : found.Within (· < limit)) :
    (state.settle found).Holds limit earlier where
  within :=
    { names := holds.within.names
      settled :=
        Substitution.within_append.mpr ⟨holds.within.settled, foundWithin⟩
      waiting := holds.within.waiting }
  errors := holds.errors

/-- A copy may be recorded. -/
theorem Holds.resolve
    (holds : state.Holds limit earlier)
    (id : CallId)
    (copy : Call) :
    (state.resolve id copy).Holds limit earlier where
  within :=
    ⟨holds.within.names, holds.within.settled, holds.within.waiting⟩
  errors := holds.errors

/-- Waiting calls may be taken. -/
theorem Holds.without
    (holds : state.Holds limit earlier)
    (function : String) :
    (state.without function).Holds limit earlier where
  within :=
    { names := holds.within.names
      settled := holds.within.settled
      waiting :=
        (holds.within.waiting.without function).mono
          (fun _ _ isOther => isOther.1) rfl }
  errors := holds.errors

/-- A type over named variables is below the limit. -/
theorem Holds.within_named
    {names : List String}
    {ty : Ty}
    (holds : state.Holds limit earlier)
    (named :
      ∀ id ∈ ty.vars, ∃ name ∈ names, state.names.get? name = some id) :
    ty.Within (· < limit) := by
  intro id isVar
  obtain ⟨name, _, isNamed⟩ := named id isVar
  exact holds.within.names name id isNamed

end State

/-- A declared type is within the limit: its names stand for drawn variables. -/
theorem declaredTy_holds
    {written : Option WrittenTy}
    {declared : Ty}
    {before after : State}
    (run : Runs (declaredTy written) before declared after)
    (limited : after.nextVar ≤ limit)
    (holds : before.Holds limit earlier) :
    after.Holds limit earlier ∧ declared.Within (· < limit) := by
  cases written with
  | none =>
      obtain ⟨rfl, rfl⟩ := runs_fresh.mp run
      exact ⟨holds.draw 1, Ty.within_drawn limited⟩
  | some written =>
      have named := (writtenTy_names run).holds limited holds
      exact ⟨named, named.within_named fun _ isVar => writtenTy_vars run isVar⟩

/-- What is found by comparing signatures is within the limit. -/
theorem signatureFindings_holds
    {name : Name}
    {written : Option WrittenSignature}
    {inferred : Ty}
    {found : Substitution}
    {before after : State}
    (run : Runs (signatureFindings name written inferred) before found after)
    (limited : after.nextVar ≤ limit)
    (holds : before.Holds limit earlier)
    (inferredWithin : inferred.Within (· < limit)) :
    after.Holds limit earlier ∧ found.Within (· < limit) := by
  have read
      {signature : WrittenSignature}
      {declared : Ty}
      {middle : State}
      (signatureRun : Runs (signatureTy signature) before declared middle)
      (limited : middle.nextVar ≤ limit) :
      middle.Holds limit earlier ∧ declared.Within (· < limit) := by
    have named := (signatureTy_names signatureRun).holds limited holds
    exact ⟨named,
      named.within_named fun _ isVar => signatureTy_vars signatureRun isVar⟩
  cases written with
  | none =>
      obtain ⟨rfl, rfl⟩ := runs_pure.mp run
      exact ⟨holds, Substitution.within_nil⟩
  | some written =>
      cases signatureRun_of_runs run with
      | unshared signatureRun _ asked mentions =>
          obtain ⟨named, declaredWithin⟩ :=
            read signatureRun ((unifyOrReport_grows asked).limited limited)
          refine unifyOrReport_holds asked mentions (named.record ?_)
            declaredWithin inferredWithin
          simpa [TypeError.Within, TypeError.types] using
            ⟨declaredWithin, inferredWithin⟩
      | shared signatureRun _ asked mentions =>
          obtain ⟨named, declaredWithin⟩ :=
            read signatureRun ((unifyOrReport_grows asked).limited limited)
          exact unifyOrReport_holds asked mentions named declaredWithin
            inferredWithin

/-- A declaration leaves types of drawn variables only. -/
theorem inferVarDecl_leaves
    {decl decl' : VarDecl}
    {context context' : Context}
    {expected : Ty}
    {found : Substitution}
    {before after : State}
    (run :
      Runs (inferVarDecl decl context expected) before
        (decl', context', found) after)
    (limited : after.nextVar ≤ limit)
    (holds : before.Holds limit earlier)
    (contextWithin : context.Within (· < limit))
    (expectedWithin : expected.Within (· < limit)) :
    Leaves limit earlier decl.slots decl'.slots found after ∧
      context'.Within (· < limit) := by
  cases varDeclRun_of_runs run with
  | taken _ plain =>
      exact ⟨⟨holds.recordPlain plain, Substitution.within_nil, .refl _⟩,
        contextWithin⟩
  | void _ declaredRun valueRun _ plain =>
      obtain ⟨named, declaredWithin⟩ :=
        declaredTy_holds declaredRun
          ((inferExpr_grows valueRun).limited limited) holds
      have valueLeaves :=
        inferExpr_leaves valueRun limited named contextWithin declaredWithin
      exact ⟨⟨valueLeaves.state.recordPlain plain, Substitution.within_nil,
        valueLeaves.slots.append (.refl _)⟩, contextWithin⟩
  | bound _ declaredRun valueRun _ asked =>
      have valueLimited := (unifyOrReport_grows asked).limited limited
      obtain ⟨named, declaredWithin⟩ :=
        declaredTy_holds declaredRun
          ((inferExpr_grows valueRun).limited valueLimited) holds
      have valueLeaves :=
        inferExpr_leaves valueRun valueLimited named contextWithin
          declaredWithin
      obtain ⟨askedHolds, moreWithin⟩ :=
        constrain_holds asked valueLeaves.state
          (valueLeaves.found.apply expectedWithin)
          (valueLeaves.found.apply declaredWithin)
      have allWithin :=
        Substitution.within_append.mpr ⟨valueLeaves.found, moreWithin⟩
      have boundWithin := allWithin.apply declaredWithin
      exact ⟨⟨askedHolds, allWithin,
        valueLeaves.slots.append (.fill boundWithin)⟩,
        contextWithin.bindVar decl.name.text boundWithin⟩

/-- Locals leave types of drawn variables only. -/
theorem inferLocals_leaves
    {decls decls' : List VarDecl}
    {context context' : Context}
    {found : Substitution}
    {before after : State}
    (run :
      Runs (inferLocals decls context) before (decls', context', found)
        after)
    (limited : after.nextVar ≤ limit)
    (holds : before.Holds limit earlier)
    (contextWithin : context.Within (· < limit)) :
    Leaves limit earlier (decls.flatMap VarDecl.slots)
        (decls'.flatMap VarDecl.slots) found after ∧
      context'.Within (· < limit) := by
  induction decls generalizing decls' context found before with
  | nil =>
      obtain ⟨rfl, rfl, rfl, rfl⟩ := runs_inferLocals_nil run
      exact ⟨⟨holds, Substitution.within_nil, .refl _⟩, contextWithin⟩
  | cons decl rest inductionHypothesis =>
      obtain ⟨_, _, _, _, _, _, declRun, restRun, rfl, rfl⟩ :=
        runs_inferLocals_cons run
      have restDeclares := inferLocals_declares restRun
      have declLimited := restDeclares.limited limited
      have drawLimited := (inferVarDecl_declares declRun).limited declLimited
      obtain ⟨declLeaves, betweenWithin⟩ :=
        inferVarDecl_leaves declRun declLimited (holds.draw 1) contextWithin
          (Ty.within_drawn drawLimited)
      obtain ⟨restLeaves, lastWithin⟩ :=
        inductionHypothesis restRun declLeaves.state
          (betweenWithin.narrow declLeaves.found)
      exact ⟨⟨restLeaves.state,
        Substitution.within_append.mpr ⟨declLeaves.found, restLeaves.found⟩,
        declLeaves.slots.append restLeaves.slots⟩, lastWithin⟩

/-- The new types of a function are within the limit. -/
theorem freshShape_within_limit
    {start : TypeVar}
    {count : Nat}
    (limited : start + (count + 1) ≤ limit) :
    (freshShape start count).Within (· < limit) := by
  have supply : Supply anyVar start := fun _ _ => trivial
  exact (freshShape_within supply count).mono fun _ isBelow =>
    Nat.lt_of_lt_of_le isBelow.2 limited

/-- A limit for a function is one for the variables of its head. -/
theorem ComparedRun.limited
    {decl : FunDecl}
    {locals : List VarDecl}
    {body : List Stmt}
    {context : Context}
    {expected : Ty}
    {found : Substitution}
    {before compared : State}
    (run : ComparedRun decl context expected before locals body found compared)
    (limited : compared.nextVar ≤ limit) :
    before.nextVar + (decl.args.length + 1) ≤ limit := by
  cases run with
  | intro localsRun bodyRun asked signatureRun =>
      have askedLimited :=
        (signatureFindings_declares signatureRun).limited limited
      have bodyLimited := (unifyOrReport_grows asked).limited askedLimited
      have localsLimited := (inferBlock_grows bodyRun).limited bodyLimited
      exact (inferLocals_declares localsRun).limited localsLimited

/--
Before its waiting calls are taken, a function leaves types of drawn variables
only.
-/
theorem ComparedRun.leaves
    {decl : FunDecl}
    {locals : List VarDecl}
    {body : List Stmt}
    {context : Context}
    {expected : Ty}
    {found : Substitution}
    {before compared : State}
    (run : ComparedRun decl context expected before locals body found compared)
    (limited : compared.nextVar ≤ limit)
    (holds : before.Holds limit earlier)
    (contextWithin : context.Within (· < limit))
    (expectedWithin : expected.Within (· < limit)) :
    Leaves limit earlier
      (decl.locals.flatMap VarDecl.slots ++ Stmt.slotsAll decl.body)
      (locals.flatMap VarDecl.slots ++ Stmt.slotsAll body) found compared := by
  have shapeWithin := freshShape_within_limit (run.limited limited)
  cases run with
  | intro localsRun bodyRun asked signatureRun =>
      have askedLimited :=
        (signatureFindings_declares signatureRun).limited limited
      have bodyLimited := (unifyOrReport_grows asked).limited askedLimited
      have localsLimited := (inferBlock_grows bodyRun).limited bodyLimited
      have innerWithin :=
        (contextWithin.bindArgs decl.args shapeWithin.1).bindFun decl.name.text
          shapeWithin
      obtain ⟨localsLeave, insideWithin⟩ :=
        inferLocals_leaves localsRun localsLimited (holds.unnamed.draw _)
          innerWithin
      have bodyLeaves :=
        inferBlock_leaves bodyRun bodyLimited localsLeave.state insideWithin
          (localsLeave.found.apply shapeWithin.2)
      have bothWithin :=
        Substitution.within_append.mpr ⟨localsLeave.found, bodyLeaves.found⟩
      obtain ⟨askedHolds, shapedWithin⟩ :=
        constrain_holds asked bodyLeaves.state (bothWithin.apply expectedWithin)
          (bothWithin.apply shapeWithin.toTy)
      have comparedWithin :=
        Substitution.within_append.mpr ⟨bothWithin, shapedWithin⟩
      obtain ⟨writtenHolds, writtenWithin⟩ :=
        signatureFindings_holds signatureRun limited askedHolds
          (comparedWithin.apply shapeWithin.toTy)
      exact ⟨writtenHolds,
        Substitution.within_append.mpr ⟨comparedWithin, writtenWithin⟩,
        localsLeave.slots.append bodyLeaves.slots⟩

namespace Call

/-- A call is a given one, up to its number, and its arguments hold given ones. -/
def Among (given : List Call) (call : Call) : Prop :=
  (∃ known ∈ given, ∃ stamp, call = { known with waiting := stamp }) ∧
    Expr.callsAll call.args ⊆ given

/-- A call is a copy of a given one, with types over live variables filled in. -/
def FilledFrom (live : TypeVar → Prop) (given : List Call) (copy : Call) : Prop :=
  ∃ call ∈ given, SlotsWritten live call.slots copy.slots

namespace Among

variable {given : List Call} {call : Call}

/-- A call of a given tree is a given one. -/
theorem of_calls (inGiven : call.calls ⊆ given) : call.Among given := by
  rcases call with ⟨callee, args, mark, waiting⟩
  rw [Call.calls_eq, List.cons_subset] at inGiven
  exact ⟨⟨_, inGiven.1, waiting, rfl⟩, inGiven.2⟩

/-- What a tree leaves unanswered is given if the calls of the tree are. -/
theorem of_unanswered
    {calls unanswered : List Call}
    {known : String → Bool}
    (along :
      ∀ call ∈ unanswered,
        known call.callee.text = false ∧ call.calls ⊆ calls)
    (inGiven : calls ⊆ given) :
    ∀ call ∈ unanswered, call.Among given :=
  fun call isCall => of_calls (List.Subset.trans (along call isCall).2 inGiven)

/-- A call is a given one whatever its number. -/
theorem stamped
    (among : call.Among given)
    (stamp : Option CallId) :
    Among given { call with waiting := stamp } := by
  obtain ⟨⟨known, isGiven, _, rfl⟩, inGiven⟩ := among
  exact ⟨⟨known, isGiven, stamp, rfl⟩, inGiven⟩

/-- What a call leaves unanswered, itself or calls in its arguments, is given. -/
theorem unanswered
    (among : call.Among given)
    (known : String → Bool) :
    ∀ inner ∈ call.unanswered known, inner.Among given := by
  intro inner isInner
  by_cases isKnown : known call.callee.text = true
  · rw [Call.unanswered_of_known isKnown] at isInner
    exact of_unanswered ((alongTrees_mem known).exprs call.args) among.2 inner
      isInner
  · rw [Call.unanswered_of_unknown (Bool.not_eq_true _ ▸ isKnown),
      List.mem_singleton] at isInner
    rw [isInner]
    exact among

/-- A checked call is a copy of a given one. -/
theorem filledFrom
    {live : TypeVar → Prop}
    {copy : Call}
    (among : call.Among given)
    (written : SlotsWritten live call.slots copy.slots) :
    copy.FilledFrom live given := by
  obtain ⟨⟨known, isGiven, stamp, rfl⟩, _⟩ := among
  rw [known.slots_stamped stamp] at written
  exact ⟨known, isGiven, written⟩

end Among

end Call

/--
A state of a run, seen from its start: what it mentions is below the limit, and
its waiting calls and new copies come from given calls.
-/
structure State.Stands
    (limit : TypeVar)
    (given : List Call)
    (state start : State) :
    Prop where
  holds : state.Holds limit start.diagnostics.errors
  waiting : state.AllWaiting fun _ pending => pending.call.Among given
  copies :
    ∀ id copy, state.resolved.get? id = some copy →
      start.resolved.get? id = some copy ∨ copy.FilledFrom (· < limit) given

/-- A call that waited remembers variables below the limit, and is a given one. -/
structure PendingCall.Remembers
    (limit : TypeVar)
    (given : List Call)
    (pending : PendingCall) :
    Prop where
  context : pending.context.Within (· < limit)
  expected : pending.expected.Within (· < limit)
  call : pending.call.Among given

/-- What a declaration leaves behind is below the limit. -/
structure Produces
    (limit : TypeVar)
    (given : List Call)
    (start : State)
    (old new : List (Option Ty))
    (context : Context)
    (found : Substitution)
    (after : State) :
    Prop where
  state : after.Stands limit given start
  context : context.Within (· < limit)
  found : found.Within (· < limit)
  slots : SlotsWritten (· < limit) old new

variable {given : List Call} {start : State}

namespace State.Stands

variable {before after state : State}

/-- A step that leaves calls alone leaves them to come from given ones. -/
theorem change
    (stands : before.Stands limit given start)
    (holds : after.Holds limit start.diagnostics.errors)
    (samePending : after.pending = before.pending)
    (sameResolved : after.resolved = before.resolved) :
    after.Stands limit given start where
  holds := holds
  waiting := stands.waiting.mono (fun _ _ => id) samePending
  copies := by
    rw [sameResolved]
    exact stands.copies

/-- Given calls may be set aside. -/
theorem setsAside
    {calls : List Call}
    (stands : before.Stands limit given start)
    (holds : after.Holds limit start.diagnostics.errors)
    (sets : SetsAside calls before after)
    (among : ∀ call ∈ calls, call.Among given)
    (sameResolved : after.resolved = before.resolved) :
    after.Stands limit given start := by
  obtain ⟨made, received, inCalls, _⟩ := sets
  constructor
  · exact holds
  · exact stands.waiting.receives received fun call isMade id _ _ _ =>
      (among call (inCalls isMade)).stamped (some id)
  · rw [sameResolved]
    exact stands.copies

/-- The copy of a given call may be recorded. -/
theorem resolve
    {call copy : Call}
    (stands : state.Stands limit given start)
    (among : call.Among given)
    (written : SlotsWritten (· < limit) call.slots copy.slots)
    (id : CallId) :
    (state.resolve id copy).Stands limit given start where
  holds := stands.holds.resolve id copy
  waiting := stands.waiting
  copies := by
    intro other found isFound
    rw [State.resolve, Table.get?_insert] at isFound
    split at isFound
    · cases isFound
      exact Or.inr (among.filledFrom written)
    · exact stands.copies other found isFound

/-- Waiting calls may be taken. -/
theorem without
    (stands : state.Stands limit given start)
    (function : String) :
    (state.without function).Stands limit given start where
  holds := stands.holds.without function
  waiting :=
    (stands.waiting.without function).mono (fun _ _ isOther => isOther.1) rfl
  copies := stands.copies

/-- The calls of a function are taken with what they remember. -/
theorem taken
    {function : String}
    {pending : PendingCall}
    (stands : state.Stands limit given start)
    (isTaken : pending ∈ (state.pending.take function).1) :
    pending.Remembers limit given := by
  obtain ⟨contextWithin, expectedWithin⟩ :=
    stands.holds.within.waiting.taken isTaken
  exact ⟨contextWithin, expectedWithin, stands.waiting.taken isTaken⟩

/-- A call that waited is checked, and its copy is recorded. -/
theorem check
    {pending : PendingCall}
    {call : Call}
    {context : Context}
    {expected : Ty}
    {demand : Demand}
    {guard : Option ValueGuard}
    {found more : Substitution}
    (stands : before.Stands limit given start)
    (callRun :
      Runs
        (inferCall pending.call (pending.reached before.settled found context)
          expected demand guard)
        before (call, more) after)
    (expectedEq :
      expected = found.apply (before.settled.apply pending.expected))
    (limited : after.nextVar ≤ limit)
    (remembers : pending.Remembers limit given)
    (contextWithin : context.Within (· < limit))
    (foundWithin : found.Within (· < limit)) :
    (after.resolve pending.id call).Stands limit given start ∧
      more.Within (· < limit) := by
  have settledWithin := stands.holds.within.settled
  have reachedWithin :=
    PendingCall.reached_within remembers.context settledWithin foundWithin
      contextWithin
  have expectedWithin : expected.Within (· < limit) :=
    expectedEq ▸ foundWithin.apply (settledWithin.apply remembers.expected)
  have callLeaves :=
    inferCall_leaves callRun limited stands.holds reachedWithin expectedWithin
  have checked :=
    stands.setsAside callLeaves.state (inferCall_setsAside callRun)
      (remembers.call.unanswered _) (inferCall_grows callRun).resolved
  exact ⟨checked.resolve remembers.call callLeaves.slots pending.id,
    callLeaves.found⟩

end State.Stands

/-- A run that records no copies produces what it leaves behind. -/
theorem Leaves.produces
    {calls : List Call}
    {old new : List (Option Ty)}
    {context : Context}
    {found : Substitution}
    {before after : State}
    (leaves : Leaves limit start.diagnostics.errors old new found after)
    (stands : before.Stands limit given start)
    (sets : SetsAside calls before after)
    (among : ∀ call ∈ calls, call.Among given)
    (sameResolved : after.resolved = before.resolved)
    (contextWithin : context.Within (· < limit)) :
    Produces limit given start old new context found after where
  state := stands.setsAside leaves.state sets among sameResolved
  context := contextWithin
  found := leaves.found
  slots := leaves.slots

/-- Calls that waited are checked with variables that they remember. -/
theorem inferWaiting_stands
    {function : String}
    {waiting : List PendingCall}
    {context context' : Context}
    {found extended : Substitution}
    {before after : State}
    (run :
      Runs (inferWaiting function waiting context found) before
        (context', extended) after)
    (limited : after.nextVar ≤ limit)
    (stands : before.Stands limit given start)
    (remember : ∀ pending ∈ waiting, pending.Remembers limit given)
    (contextWithin : context.Within (· < limit))
    (foundWithin : found.Within (· < limit)) :
    after.Stands limit given start ∧ context'.Within (· < limit) ∧
      extended.Within (· < limit) := by
  induction waiting generalizing context found before with
  | nil =>
      cases waitingRun_of_runs run
      exact ⟨stands, contextWithin, foundWithin⟩
  | cons pending rest inductionHypothesis =>
      obtain ⟨remembers, restRemember⟩ := List.forall_mem_cons.mp remember
      cases waitingRun_of_runs run with
      | void expectedEq callRun _ _ restRun plain =>
          have callLimited := (inferWaiting_advances restRun).limited limited
          obtain ⟨checked, _⟩ :=
            stands.check callRun expectedEq callLimited remembers contextWithin
              foundWithin
          have recorded :=
            checked.change (checked.holds.recordPlain plain) rfl rfl
          exact inductionHypothesis restRun recorded restRemember contextWithin
            foundWithin
      | next expectedEq callRun _ restRun =>
          have callLimited := (inferWaiting_advances restRun).limited limited
          obtain ⟨checked, moreWithin⟩ :=
            stands.check callRun expectedEq callLimited remembers contextWithin
              foundWithin
          exact inductionHypothesis restRun checked restRemember
            (contextWithin.narrow moreWithin)
            (Substitution.within_append.mpr ⟨foundWithin, moreWithin⟩)

/-- A declaration produces types of drawn variables only. -/
theorem inferVarDecl_produces
    {decl decl' : VarDecl}
    {context context' : Context}
    {expected : Ty}
    {found : Substitution}
    {before after : State}
    (run :
      Runs (inferVarDecl decl context expected) before
        (decl', context', found) after)
    (limited : after.nextVar ≤ limit)
    (inGiven : decl.calls ⊆ given)
    (stands : before.Stands limit given start)
    (contextWithin : context.Within (· < limit))
    (expectedWithin : expected.Within (· < limit)) :
    Produces limit given start decl.slots decl'.slots context' found after := by
  obtain ⟨leaves, lastWithin⟩ :=
    inferVarDecl_leaves run limited stands.holds contextWithin expectedWithin
  exact leaves.produces stands (inferVarDecl_setsAside run)
    (.of_unanswered ((alongTrees_mem _).expr decl.value) inGiven)
    (inferVarDecl_declares run).resolved lastWithin

/--
A function produces types of drawn variables only, its waiting calls included.
-/
theorem inferFunDecl_produces
    {decl decl' : FunDecl}
    {context context' : Context}
    {expected : Ty}
    {found : Substitution}
    {before after : State}
    (run :
      Runs (inferFunDecl decl context expected) before
        (decl', context', found) after)
    (limited : after.nextVar ≤ limit)
    (inGiven : decl.calls ⊆ given)
    (stands : before.Stands limit given start)
    (contextWithin : context.Within (· < limit))
    (expectedWithin : expected.Within (· < limit)) :
    Produces limit given start decl.slots decl'.slots context' found after := by
  cases funDeclRun_of_runs run with
  | taken _ plain | repeated _ plain =>
      have recorded :=
        stands.change (stands.holds.unnamed.recordPlain plain) rfl rfl
      exact ⟨recorded, contextWithin, Substitution.within_nil, .refl _⟩
  | bound _ _ shapeEq localsRun bodyRun asked signatureRun waitingRun =>
      subst shapeEq
      have comparedRun := ComparedRun.intro localsRun bodyRun asked signatureRun
      have comparedLimited := (inferWaiting_advances waitingRun).limited limited
      have shapeWithin :=
        freshShape_within_limit (comparedRun.limited comparedLimited)
      have compared :=
        comparedRun.leaves comparedLimited stands.holds contextWithin
          expectedWithin
      have comparedStands :=
        stands.setsAside compared.state comparedRun.setsAside
          (.of_unanswered ((alongTrees_mem _).funDecl decl) inGiven)
          comparedRun.declares.resolved
      obtain ⟨lastStands, lastWithin, extendedWithin⟩ :=
        inferWaiting_stands waitingRun limited (comparedStands.without _)
          (fun _ isTaken => comparedStands.taken isTaken)
          ((contextWithin.bindFun decl.name.text shapeWithin).narrow
            compared.found)
          compared.found
      refine ⟨lastStands, lastWithin, extendedWithin,
        compared.slots.append (.fill ?_)⟩
      rw [Signature.toTy_narrow]
      exact compared.found.apply shapeWithin.toTy

/-- Globals produce types of drawn variables only. -/
theorem inferGlobals_produces
    {decls decls' : List Decl}
    {context context' : Context}
    {before after : State}
    (run :
      Runs (inferGlobals decls context) before (decls', context') after)
    (limited : after.nextVar ≤ limit)
    (inGiven : decls.flatMap Decl.calls ⊆ given)
    (stands : before.Stands limit given start)
    (contextWithin : context.Within (· < limit)) :
    Produces limit given start (decls.flatMap Decl.slots)
      (decls'.flatMap Decl.slots) context' after.settled after := by
  induction decls generalizing decls' context before with
  | nil =>
      cases globalsRun_of_runs run
      exact ⟨stands, contextWithin, stands.holds.within.settled, .refl _⟩
  | cons decl rest inductionHypothesis =>
      rw [List.flatMap_cons, List.append_subset] at inGiven
      cases globalsRun_of_runs run with
      | fn restRun =>
          have restProduces :=
            inductionHypothesis restRun inGiven.2 stands contextWithin
          exact { restProduces with
            slots := .append (.refl _) restProduces.slots }
      | var declRun restRun =>
          have declLimited :=
            Nat.le_trans (inferGlobals_settles restRun).nextVar limited
          have drawLimited := (inferVarDecl_declares declRun).limited declLimited
          have started :=
            stands.change (stands.holds.draw 1).unnamed rfl rfl
          have declProduces :=
            inferVarDecl_produces declRun declLimited inGiven.1 started
              contextWithin (Ty.within_drawn drawLimited)
          have settled :=
            declProduces.state.change
              (declProduces.state.holds.settle declProduces.found) rfl rfl
          have restProduces :=
            inductionHypothesis restRun inGiven.2 settled
              (declProduces.context.narrow declProduces.found)
          exact { restProduces with
            slots := declProduces.slots.append restProduces.slots }

/-- Functions produce types of drawn variables only. -/
theorem inferFunctions_produces
    {decls decls' : List Decl}
    {context context' : Context}
    {before after : State}
    (run :
      Runs (inferFunctions decls context) before (decls', context') after)
    (limited : after.nextVar ≤ limit)
    (inGiven : ∀ decl ∈ decls.filterMap Decl.fn?, decl.calls ⊆ given)
    (stands : before.Stands limit given start)
    (contextWithin : context.Within (· < limit)) :
    Produces limit given start (decls.flatMap Decl.slots)
      (decls'.flatMap Decl.slots) context' after.settled after := by
  induction decls generalizing decls' context before with
  | nil =>
      cases functionsRun_of_runs run
      exact ⟨stands, contextWithin, stands.holds.within.settled, .refl _⟩
  | cons decl rest inductionHypothesis =>
      cases functionsRun_of_runs run with
      | var restRun =>
          have restProduces :=
            inductionHypothesis restRun inGiven stands contextWithin
          exact { restProduces with
            slots := .append (.refl _) restProduces.slots }
      | fn declRun restRun =>
          obtain ⟨declGiven, restGiven⟩ := List.forall_mem_cons.mp inGiven
          have declLimited :=
            Nat.le_trans (inferFunctions_settles restRun).nextVar limited
          have drawLimited :=
            (inferFunDecl_advances declRun).limited declLimited
          have declProduces :=
            inferFunDecl_produces declRun declLimited declGiven
              (stands.change (stands.holds.draw 1) rfl rfl) contextWithin
              (Ty.within_drawn drawLimited)
          have settled :=
            declProduces.state.change
              (declProduces.state.holds.settle declProduces.found) rfl rfl
          have restProduces :=
            inductionHypothesis restRun restGiven settled
              (declProduces.context.narrow declProduces.found)
          exact { restProduces with
            slots := declProduces.slots.append restProduces.slots }

/-- A tree that an inference function takes. -/
inductive Node where
  | expr (tree : Expr)
  | call (tree : Call)
  | stmt (tree : Stmt)
  | varDecl (tree : VarDecl)
  | funDecl (tree : FunDecl)
  | program (tree : Program)

namespace Node

/-- The slots of a node. -/
def slots : Node → List (Option Ty)
  | .expr tree => tree.slots
  | .call tree => tree.slots
  | .stmt tree => tree.slots
  | .varDecl tree => tree.slots
  | .funDecl tree => tree.slots
  | .program tree => tree.slots

/-- The calls made in a node. -/
def calls : Node → List Call
  | .expr tree => tree.calls
  | .call tree => tree.calls
  | .stmt tree => tree.calls
  | .varDecl tree => tree.calls
  | .funDecl tree => tree.calls
  | .program tree => tree.calls

/--
A run of the inference function for a node: it ends with the node, the context
for what comes next, the findings and the state. Expressions and statements bind
nothing, so after them it is the old context, narrowed by the findings.
-/
inductive Infers (context : Context) (expected : Ty) (before : State) :
    Node → Node → Context → Substitution → State → Prop where
  | expr
      {tree tree' : Expr}
      {demand : Demand}
      {guard : Option ValueGuard}
      {found : Substitution}
      {after : State}
      (run :
        Runs (inferExpr tree context expected demand guard) before
          (tree', found) after) :
      Infers context expected before (.expr tree) (.expr tree')
        (context.narrow found) found after
  | call
      {tree tree' : Call}
      {demand : Demand}
      {guard : Option ValueGuard}
      {found : Substitution}
      {after : State}
      (run :
        Runs (inferCall tree context expected demand guard) before
          (tree', found) after) :
      Infers context expected before (.call tree) (.call tree')
        (context.narrow found) found after
  | stmt
      {tree tree' : Stmt}
      {found : Substitution}
      {after : State}
      (run :
        Runs (inferStmt tree context expected) before (tree', found) after) :
      Infers context expected before (.stmt tree) (.stmt tree')
        (context.narrow found) found after
  | varDecl
      {tree tree' : VarDecl}
      {context' : Context}
      {found : Substitution}
      {after : State}
      (run :
        Runs (inferVarDecl tree context expected) before
          (tree', context', found) after) :
      Infers context expected before (.varDecl tree) (.varDecl tree') context'
        found after
  | funDecl
      {tree tree' : FunDecl}
      {context' : Context}
      {found : Substitution}
      {after : State}
      (run :
        Runs (inferFunDecl tree context expected) before
          (tree', context', found) after) :
      Infers context expected before (.funDecl tree) (.funDecl tree') context'
        found after
  | program
      {tree tree' : Program}
      {context' : Context}
      {found : Substitution}
      {after : State}
      (run :
        Runs (inferProgram tree context) before (tree', context', found)
          after) :
      Infers context expected before (.program tree) (.program tree') context'
        found after

end Node

/-- A program is inferred in two passes over its declarations. -/
theorem runs_inferProgram
    {program program' : Program}
    {context context' : Context}
    {found : Substitution}
    {before after : State}
    (run :
      Runs (inferProgram program context) before (program', context', found)
        after) :
    ∃ globals between middle,
      Runs (inferGlobals program.decls context) before (globals, between)
          middle ∧
        Runs (inferFunctions globals between) middle
          (program'.decls, context') after ∧
        found = after.settled := by
  simp only [inferProgram, runs_bind, runs_get, runs_pure, Prod.exists,
    Prod.mk.injEq] at run
  obtain ⟨globals, between, middle, globalsRun, _, _, _, functionsRun, _, _,
    ⟨rfl, rfl⟩, ⟨rfl, rfl, rfl⟩, rfl⟩ := run
  exact ⟨globals, between, middle, globalsRun, functionsRun, rfl⟩

/-- The calls of a function are calls of its program. -/
theorem Program.calls_of_function
    {decl : FunDecl}
    (program : Program)
    (isFunction : decl ∈ program.functions) :
    decl.calls ⊆ program.calls := by
  obtain ⟨declared, isDeclared, isFn⟩ := List.mem_filterMap.mp isFunction
  intro call isCall
  refine List.mem_flatMap.mpr ⟨declared, isDeclared, ?_⟩
  cases declared with
  | var _ => cases isFn
  | fn _ =>
      cases isFn
      exact isCall

/-- Both passes over a program produce types of drawn variables only. -/
theorem inferProgram_produces
    {program program' : Program}
    {context context' : Context}
    {found : Substitution}
    {before after : State}
    (run :
      Runs (inferProgram program context) before (program', context', found)
        after)
    (limited : after.nextVar ≤ limit)
    (inGiven : program.calls ⊆ given)
    (stands : before.Stands limit given start)
    (contextWithin : context.Within (· < limit)) :
    Produces limit given start program.slots program'.slots context' found
      after := by
  obtain ⟨globals, between, middle, globalsRun, functionsRun, rfl⟩ :=
    runs_inferProgram run
  have middleLimited :=
    Nat.le_trans (inferFunctions_settles functionsRun).nextVar limited
  have globalsProduce :=
    inferGlobals_produces globalsRun middleLimited inGiven stands contextWithin
  have functionsGiven :
      ∀ decl ∈ globals.filterMap Decl.fn?, decl.calls ⊆ given := by
    rw [inferGlobals_functions globalsRun]
    exact fun decl isFunction =>
      List.Subset.trans (program.calls_of_function isFunction) inGiven
  have functionsProduce :=
    inferFunctions_produces functionsRun limited functionsGiven
      globalsProduce.state globalsProduce.context
  exact { functionsProduce with
    slots := globalsProduce.slots.trans functionsProduce.slots }

namespace Node.Infers

variable
  {node node' : Node}
  {context context' : Context}
  {expected : Ty}
  {found : Substitution}
  {before after : State}

/-- Variables are drawn, never given back. -/
theorem nextVar_le
    (infers : Infers context expected before node node' context' found after) :
    before.nextVar ≤ after.nextVar := by
  cases infers with
  | expr run => exact (inferExpr_grows run).nextVar
  | call run => exact (inferCall_grows run).nextVar
  | stmt run => exact (inferStmt_grows run).nextVar
  | varDecl run => exact (inferVarDecl_declares run).nextVar
  | funDecl run => exact (inferFunDecl_advances run).nextVar
  | program run =>
      obtain ⟨_, _, _, globalsRun, functionsRun, _⟩ := runs_inferProgram run
      exact Nat.le_trans (inferGlobals_settles globalsRun).nextVar
        (inferFunctions_settles functionsRun).nextVar

/-- Whatever is inferred produces types of drawn variables only. -/
theorem produces
    (infers : Infers context expected before node node' context' found after)
    (limited : after.nextVar ≤ limit)
    (inGiven : node.calls ⊆ given)
    (stands : before.Stands limit given start)
    (contextWithin : context.Within (· < limit))
    (expectedWithin : expected.Within (· < limit)) :
    Produces limit given start node.slots node'.slots context' found after := by
  cases infers with
  | expr run =>
      have leaves :=
        inferExpr_leaves run limited stands.holds contextWithin expectedWithin
      exact leaves.produces stands (inferExpr_setsAside run)
        (.of_unanswered ((alongTrees_mem _).expr _) inGiven)
        (inferExpr_grows run).resolved (contextWithin.narrow leaves.found)
  | call run =>
      have leaves :=
        inferCall_leaves run limited stands.holds contextWithin expectedWithin
      exact leaves.produces stands (inferCall_setsAside run)
        (.of_unanswered ((alongTrees_mem _).ofCall _) inGiven)
        (inferCall_grows run).resolved (contextWithin.narrow leaves.found)
  | stmt run =>
      have leaves :=
        inferStmt_leaves run limited stands.holds contextWithin expectedWithin
      exact leaves.produces stands (inferStmt_setsAside run)
        (.of_unanswered ((alongTrees_mem _).stmt _) inGiven)
        (inferStmt_grows run).resolved (contextWithin.narrow leaves.found)
  | varDecl run =>
      exact inferVarDecl_produces run limited inGiven stands contextWithin
        expectedWithin
  | funDecl run =>
      exact inferFunDecl_produces run limited inGiven stands contextWithin
        expectedWithin
  | program run =>
      exact inferProgram_produces run limited inGiven stands contextWithin

end Node.Infers

end Runs

/-- The calls that a run is given: those of the node, and those that wait. -/
def Node.given (node : Node) (before : State) : List Call :=
  node.calls ++ before.pending.calls.flatMap fun pending => pending.call.calls

/--
What a run leaves behind is over live variables: its findings, the context, the
state, the types that it writes into slots of the node and of copies of calls,
and the types in errors that it records.
-/
structure Node.Mentions
    (live : TypeVar → Prop)
    (node node' : Node)
    (context' : Context)
    (found : Substitution)
    (before after : State) :
    Prop where
  found : found.Within live
  context : context'.Within live
  state : after.Within live
  slots : SlotsWritten live node.slots node'.slots
  copies :
    ∀ id copy, after.resolved.get? id = some copy →
      before.resolved.get? id = some copy ∨
        copy.FilledFrom live (node.given before)
  errors :
    ∀ error ∈ after.diagnostics.errors,
      error ∈ before.diagnostics.errors ∨ error.Within live

/-- Live variables may grow. -/
theorem Node.Mentions.mono
    {live wider : TypeVar → Prop}
    {node node' : Node}
    {context' : Context}
    {found : Substitution}
    {before after : State}
    (mentions : Mentions live node node' context' found before after)
    (widens : ∀ id, live id → wider id) :
    Mentions wider node node' context' found before after where
  found := mentions.found.mono widens
  context := mentions.context.mono widens
  state := mentions.state.mono widens
  slots := mentions.slots.mono widens
  copies := by
    intro id copy isCopy
    rcases mentions.copies id copy isCopy with
      wasCopy | ⟨call, isGiven, written⟩
    · exact Or.inl wasCopy
    · exact Or.inr ⟨call, isGiven, written.mono widens⟩
  errors := by
    intro error isRecorded
    rcases mentions.errors error isRecorded with wasRecorded | within
    · exact Or.inl wasRecorded
    · exact Or.inr fun ty isMentioned => (within ty isMentioned).mono widens

/-- At the start of a run its state is as it has to be. -/
theorem State.Within.stands
    {limit : TypeVar}
    {before : State}
    (within : before.Within (· < limit))
    (node : Node) :
    before.Stands limit (node.given before) before where
  holds := ⟨within, fun _ => Or.inl⟩
  waiting := by
    intro queue isQueue pending isPending
    refine .of_calls (List.subset_append_of_subset_right _ ?_)
    have waits : pending ∈ before.pending.calls :=
      List.mem_flatMap.mpr ⟨queue, isQueue, isPending⟩
    exact fun call isCall => List.mem_flatMap.mpr ⟨pending, waits, isCall⟩
  copies := fun _ _ => Or.inl

/--
Freshness: if a state, a context and an expected type mention variables below the
counter only, then so does all that is left behind by the inference of any node.
The counter does not go back, and the next variable that is drawn occurs nowhere.
-/
theorem Node.infers_fresh
    {node node' : Node}
    {context context' : Context}
    {expected : Ty}
    {found : Substitution}
    {before after : State}
    (infers : Infers context expected before node node' context' found after)
    (stateWithin : before.Within (· < before.nextVar))
    (contextWithin : context.Within (· < before.nextVar))
    (expectedWithin : expected.Within (· < before.nextVar)) :
    before.nextVar ≤ after.nextVar ∧
      Mentions (· < after.nextVar) node node' context' found before after ∧
      ∀ id last, Runs fresh after (.var id) last →
        Mentions (· ≠ id) node node' context' found before after := by
  have grows := infers.nextVar_le
  have widens (id : TypeVar) (isBelow : id < before.nextVar) :
      id < after.nextVar :=
    Nat.lt_of_lt_of_le isBelow grows
  have produced :=
    infers.produces (Nat.le_refl _) (List.subset_append_left _ _)
      ((stateWithin.mono widens).stands node) (contextWithin.mono widens)
      (expectedWithin.mono widens)
  have mentions :
      Mentions (· < after.nextVar) node node' context' found before after :=
    { found := produced.found
      context := produced.context
      state := produced.state.holds.within
      slots := produced.slots
      copies := produced.state.copies
      errors := produced.state.holds.errors }
  refine ⟨grows, mentions, fun id last drawn => ?_⟩
  obtain ⟨isNext, _⟩ := runs_fresh.mp drawn
  cases isNext
  exact mentions.mono fun _ isBelow => Nat.ne_of_lt isBelow

/--
A state in the middle of a program: `first xs` waits, with `xs` a list over a
variable that has become a pair since.
-/
def firstAwaited : State :=
  State.setAside
    { nextVar := 3
      names := Table.empty.insert "a" 0
      pending := .empty
      resolved := .empty
      settled := [⟨1, .pair (.var 0) .int, .global⟩]
      diagnostics := .empty }
    ⟨.ofText "first", [.ofText "xs"], .blank, none⟩
    (Context.empty.bindVar "xs" (.list (.var 1))) (.var 1) none

/-- The state in the middle of a program mentions drawn variables only. -/
theorem firstAwaited_within :
    firstAwaited.Within (· < firstAwaited.nextVar) where
  names := by
    intro name id isNamed
    rw [firstAwaited, State.setAside, Table.get?_insert] at isNamed
    split at isNamed
    · cases isNamed
      decide
    · cases isNamed
  settled := by
    simp [firstAwaited, State.setAside, Binding.Within]
  waiting := by
    have remembered : (Ty.var 1).Within (· < firstAwaited.nextVar) :=
      Ty.within_var.mpr (by decide)
    refine State.AllWaiting.setAside (fun _ isQueue => by cases isQueue) ?_
    exact ⟨Context.within_empty.bindVar "xs" (Ty.within_list.mpr remembered),
      remembered⟩

/-- The head of a list, by way of a local variable of a named type. -/
def firstDecl : FunDecl where
  name := .ofText "first"
  args := [.ofText "ys"]
  written := some ⟨[.list (.named "a")], .named "a", .unknown⟩
  locals :=
    [{ written := some (.named "a")
       name := .ofText "y"
       value := .read ⟨.ofText "ys", [.hd], .blank⟩
       mark := .blank }]
  body := [.ret (some (.ofText "y")) .unknown]
  mark := .blank

theorem firstDecl_infers_fresh :
    firstAwaited.Within (· < firstAwaited.nextVar) ∧
      ∃ decl' context' found after,
        Runs
            (inferFunDecl firstDecl (Context.empty.bindVar "n" (.var 0))
              (.var 2))
            firstAwaited (decl', context', found) after ∧
          after.resolved.contains 0 = true ∧
          firstAwaited.nextVar < after.nextVar ∧
          Node.Mentions (· < after.nextVar) (.funDecl firstDecl)
            (.funDecl decl') context' found firstAwaited after ∧
          ∀ id last, Runs fresh after (.var id) last →
            Node.Mentions (· ≠ id) (.funDecl firstDecl) (.funDecl decl')
              context' found firstAwaited after := by
  have checked :
      ((inferFunDecl firstDecl (Context.empty.bindVar "n" (.var 0))
        (.var 2)).run firstAwaited).2.resolved.contains 0 = true := by cbv
  have drawn :
      firstAwaited.nextVar <
        ((inferFunDecl firstDecl (Context.empty.bindVar "n" (.var 0))
          (.var 2)).run firstAwaited).2.nextVar := by cbv
  have contextWithin :
      (Context.empty.bindVar "n" (.var 0)).Within
        (· < firstAwaited.nextVar) :=
    Context.within_empty.bindVar "n" (Ty.within_var.mpr (by decide))
  have expectedWithin : (Ty.var 2).Within (· < firstAwaited.nextVar) :=
    Ty.within_var.mpr (by decide)
  generalize run :
    (inferFunDecl firstDecl (Context.empty.bindVar "n" (.var 0)) (.var 2)).run
      firstAwaited = outcome at checked drawn
  obtain ⟨⟨decl', context', found⟩, after⟩ := outcome
  exact ⟨firstAwaited_within, decl', context', found, after, run, checked, drawn,
    (Node.infers_fresh (.funDecl run) firstAwaited_within contextWithin
      expectedWithin).2⟩

end SplTyping
