import Mathlib.Data.List.Nodup
import SplTyping.Proofs.SetAside

namespace SplTyping

/-!
# Where the numbered calls stand

The calls set aside so far are listed in the order of their numbers. Each of
them stands in one place: in the tree, or in the arguments of a checked copy. A
checked copy is made of the call with its number, and what is set aside while
the copy is made has greater numbers. All this holds whether or not errors are
recorded.
-/

/-- The outermost numbered calls in the arguments of some copies. -/
def Table.numbered (copies : ResolvedCalls) : List Call :=
  copies.entries.flatMap fun entry => Expr.numberedAll entry.2.args

/-- A checked copy belongs to one of the calls that were set aside. -/
structure CopyOf (queued : List Call) (id : CallId) (copy : Call) : Prop where
  original :
    ∃ call ∈ queued,
      call.waiting = some id ∧ copy.erased .slots = call.erased .slots
  stamped : copy.waiting = some id
  later :
    ∀ inner ∈ Expr.numberedAll copy.args, ∀ other ∈ inner.waiting, id < other

/--
The calls set aside so far are those placed in the tree and in the copies, and
they are the calls that wait or from which the copies are made.
-/
structure Drafts (queued placed : List Call) (state : State) : Prop where
  numbers :
    queued.map Call.waiting = (List.range state.pending.nextId).map some
  bare : ∀ call ∈ queued, Unstamped (Expr.callsAll call.args)
  nodes : (placed ++ state.resolved.numbered).Perm queued
  waiting : ∀ pending ∈ state.pending.calls, pending.call ∈ queued
  stamped :
    state.AllWaiting fun callee pending =>
      pending.call.callee.text = callee ∧
        pending.call.waiting = some pending.id
  copies : ∀ entry ∈ state.resolved.entries, CopyOf queued entry.1 entry.2

theorem CopyOf.mono
    {queued more : List Call}
    {id : CallId}
    {copy : Call}
    (copied : CopyOf queued id copy) :
    CopyOf (queued ++ more) id copy where
  original := by
    obtain ⟨call, isQueued, same⟩ := copied.original
    exact ⟨call, List.mem_append_left _ isQueued, same⟩
  stamped := copied.stamped
  later := copied.later

namespace Drafts

variable {queued placed numbered : List Call} {before after : State}

theorem initial : Drafts [] [] .initial where
  numbers := rfl
  bare := nofun
  nodes := .nil
  waiting := nofun
  stamped := nofun
  copies := nofun

/-- A step that leaves calls alone leaves the drafts as they are. -/
theorem change
    (drafts : Drafts queued placed before)
    (samePending : after.pending = before.pending)
    (sameResolved : after.resolved = before.resolved) :
    Drafts queued placed after where
  numbers := by
    rw [samePending]
    exact drafts.numbers
  bare := drafts.bare
  nodes := by
    rw [sameResolved]
    exact drafts.nodes
  waiting := by
    rw [samePending]
    exact drafts.waiting
  stamped := drafts.stamped.mono (fun _ _ => id) samePending
  copies := by
    rw [sameResolved]
    exact drafts.copies

/-- The number of a call that was set aside has been handed out. -/
theorem number_lt
    {call : Call}
    {id : CallId}
    (drafts : Drafts queued placed before)
    (isQueued : call ∈ queued)
    (isNumber : call.waiting = some id) :
    id < before.pending.nextId := by
  have inNumbers : some id ∈ queued.map Call.waiting :=
    List.mem_map.mpr ⟨call, isQueued, isNumber⟩
  rw [drafts.numbers, List.mem_map] at inNumbers
  obtain ⟨number, inRange, same⟩ := inNumbers
  rw [← Option.some.inj same]
  exact List.mem_range.mp inRange

/-- No two calls that were set aside have the same number. -/
theorem distinct (drafts : Drafts queued placed before) :
    (queued.map Call.waiting).Nodup := by
  rw [drafts.numbers]
  exact List.nodup_range.map fun _ _ same => Option.some.inj same

/-- What is set aside for a tree stands in the tree. -/
theorem place
    (drafts : Drafts queued placed before)
    (places : Places numbered before after)
    (sameResolved : after.resolved = before.resolved) :
    ∃ more,
      Drafts (queued ++ more) (placed ++ numbered) after ∧
        ∀ call ∈ numbered, ∀ id ∈ call.waiting,
          before.pending.nextId ≤ id := by
  obtain ⟨made, received, perm, unstamped⟩ := places
  refine ⟨stampedFrom before.pending.nextId made, ?_, ?_⟩
  · constructor
    · rw [List.map_append, drafts.numbers, waiting_stampedFrom,
        ← List.map_append, range_append_range', received.nextId]
    · refine List.forall_mem_append.mpr ⟨drafts.bare, fun call isStamped => ?_⟩
      obtain ⟨original, isMade, _, _, rfl⟩ := mem_stampedFrom isStamped
      exact unstamped original isMade
    · rw [sameResolved, List.append_assoc]
      refine (List.perm_append_comm.append_left _).trans ?_
      rw [← List.append_assoc]
      exact drafts.nodes.append perm
    · intro pending isWaiting
      have inCalls :=
        received.calls.mem_iff.mp
          (List.mem_map.mpr ⟨pending, isWaiting, rfl⟩)
      rcases List.mem_append.mp inCalls with wasWaiting | isNew
      · obtain ⟨earlier, isEarlier, sameCall⟩ := List.mem_map.mp wasWaiting
        rw [← sameCall]
        exact List.mem_append_left _ (drafts.waiting earlier isEarlier)
      · exact List.mem_append_right _ isNew
    · exact drafts.stamped.receives received fun _ _ _ _ _ _ => ⟨rfl, rfl⟩
    · rw [sameResolved]
      exact fun entry isEntry => (drafts.copies entry isEntry).mono
  · intro call isNumbered id isNumber
    obtain ⟨_, _, number, isLater, rfl⟩ :=
      mem_stampedFrom (perm.mem_iff.mp isNumbered)
    rw [Option.mem_some_iff] at isNumber
    rwa [← isNumber]

/-- What is set aside while a copy is made stands in the copy. -/
theorem resolve
    {id : CallId}
    {copy : Call}
    (drafts : Drafts queued (placed ++ Expr.numberedAll copy.args) before)
    (unused : id ∉ before.resolved.keys)
    (copied : CopyOf queued id copy) :
    Drafts queued placed (before.resolve id copy) := by
  have entries : (before.resolved.insert id copy).entries = _ :=
    Table.insert_of_not_mem unused
  refine ⟨drafts.numbers, drafts.bare, ?_, drafts.waiting, drafts.stamped, ?_⟩
  · rw [State.resolve, Table.numbered, entries, List.flatMap_append,
      List.flatMap_singleton]
    refine (List.perm_append_comm.append_left _).trans ?_
    rw [← List.append_assoc]
    exact drafts.nodes
  · rw [State.resolve, entries]
    exact List.forall_mem_append.mpr
      ⟨drafts.copies, List.forall_mem_singleton.mpr copied⟩

/-- Waiting calls may be taken. -/
theorem without
    (drafts : Drafts queued placed before)
    (function : String) :
    Drafts queued placed (before.without function) where
  numbers := drafts.numbers
  bare := drafts.bare
  nodes := drafts.nodes
  waiting := fun pending isLeft =>
    drafts.waiting pending
      ((before.pending.perm_take function).mem_iff.mp
        (List.mem_append_right _ isLeft))
  stamped :=
    (drafts.stamped.without function).mono
      (fun _ _ isStamped => isStamped.1) rfl
  copies := drafts.copies

/-- A call that waited is checked, and its copy is recorded. -/
theorem answer
    {taken : List CallId}
    {pending : PendingCall}
    {call : Call}
    {context : Context}
    {settled found more : Substitution}
    {expected : Ty}
    {demand : Demand}
    {guard : Option ValueGuard}
    (drafts : Drafts queued placed before)
    (accounts : Accounts context (pending.id :: taken) before)
    (callRun :
      Runs
        (inferCall pending.call (pending.reached settled found context)
          expected demand guard)
        before (call, more) after)
    (isKnown : context.funs.contains pending.call.callee.text = true)
    (isQueued : pending.call ∈ queued)
    (isNumber : pending.call.waiting = some pending.id) :
    ∃ more, Drafts (queued ++ more) placed (after.resolve pending.id call) := by
  cases inferCall_places callRun (drafts.bare _ isQueued) with
  | waits unknown =>
      have isUnknown : context.funs.get? pending.call.callee.text = none := unknown
      rw [Table.contains, isUnknown] at isKnown
      cases isKnown
  | stays sameStamp places =>
      obtain ⟨more, placedDrafts, areLater⟩ :=
        drafts.place places (inferCall_grows callRun).resolved
      refine ⟨more,
        placedDrafts.resolve (accounts.check callRun).unused ⟨?_, ?_, ?_⟩⟩
      · exact ⟨pending.call, List.mem_append_left _ isQueued, isNumber,
          inferCall_erased .slots callRun⟩
      · exact sameStamp.trans isNumber
      · intro inner isInner other isOther
        exact Nat.lt_of_lt_of_le (drafts.number_lt isQueued isNumber)
          (areLater inner isInner other isOther)

end Drafts

/-- Calls that waited are copied under their numbers. -/
theorem inferWaiting_drafts
    {function : String}
    {waiting : List PendingCall}
    {context context' : Context}
    {found extended : Substitution}
    {queued placed : List Call}
    {before after : State}
    (run :
      Runs (inferWaiting function waiting context found) before
        (context', extended) after)
    (accounts : Accounts context (waiting.map PendingCall.id) before)
    (drafts : Drafts queued placed before)
    (isKnown : context.funs.contains function = true)
    (waits :
      ∀ pending ∈ waiting,
        pending.call ∈ queued ∧ pending.call.callee.text = function ∧
          pending.call.waiting = some pending.id) :
    ∃ more, Drafts (queued ++ more) placed after := by
  induction waiting generalizing context found queued before with
  | nil =>
      cases waitingRun_of_runs run
      exact ⟨[], by rwa [List.append_nil]⟩
  | cons pending rest inductionHypothesis =>
      obtain ⟨⟨isQueued, isCallee, isNumber⟩, restWaits⟩ :=
        List.forall_mem_cons.mp waits
      have calleeKnown :
          context.funs.contains pending.call.callee.text = true := by
        rw [isCallee]
        exact isKnown
      have stillWaits (more : List Call) :
          ∀ pending ∈ rest,
            pending.call ∈ queued ++ more ∧
              pending.call.callee.text = function ∧
              pending.call.waiting = some pending.id :=
        fun pending isRest =>
          ⟨List.mem_append_left _ (restWaits pending isRest).1,
            (restWaits pending isRest).2⟩
      -- Whether or not the value is needed and missing, the copy is recorded.
      cases waitingRun_of_runs run with
      | void _ callRun _ _ restRun =>
          obtain ⟨more, answered⟩ :=
            drafts.answer accounts callRun calleeKnown isQueued isNumber
          obtain ⟨others, finished⟩ :=
            inductionHypothesis restRun
              (((accounts.check callRun).resolve _).change rfl rfl rfl)
              (answered.change rfl rfl) isKnown (stillWaits more)
          rw [List.append_assoc] at finished
          exact ⟨_, finished⟩
      | next _ callRun _ restRun =>
          obtain ⟨more, answered⟩ :=
            drafts.answer accounts callRun calleeKnown isQueued isNumber
          obtain ⟨others, finished⟩ :=
            inductionHypothesis restRun
              (((accounts.check callRun).resolve _).change rfl rfl
                (context.narrow_knows _))
              answered (by rw [Context.narrow_contains, isKnown])
              (stillWaits more)
          rw [List.append_assoc] at finished
          exact ⟨_, finished⟩

/-- A function places its numbered calls and copies those that waited for it. -/
theorem inferFunDecl_drafts
    {decl decl' : FunDecl}
    {context context' : Context}
    {expected : Ty}
    {found : Substitution}
    {queued placed : List Call}
    {before after : State}
    (run :
      Runs (inferFunDecl decl context expected) before
        (decl', context', found) after)
    (accounts : Accounts context [] before)
    (drafts : Drafts queued placed before)
    (unstamped : Unstamped decl.calls) :
    ∃ more, Drafts (queued ++ more) (placed ++ decl'.numbered) after := by
  cases funDeclRun_of_runs run with
  | taken | repeated =>
      rw [decl.numbered_eq_nil unstamped, List.append_nil]
      refine ⟨[], ?_⟩
      rw [List.append_nil]
      exact drafts.change rfl rfl
  | @bound _ _ _ _ _ _ _ _ _ _ _ _ _ compared _
      _ _ shapeEq localsRun bodyRun asked signatureRun waitingRun =>
      subst shapeEq
      have comparedRun := ComparedRun.intro localsRun bodyRun asked signatureRun
      obtain ⟨more, comparedDrafts, _⟩ :=
        drafts.place (comparedRun.places unstamped)
          comparedRun.declares.resolved
      have waits :
          ∀ pending ∈ (compared.pending.take decl.name.text).1,
            pending.call ∈ queued ++ more ∧
              pending.call.callee.text = decl.name.text ∧
              pending.call.waiting = some pending.id := by
        intro pending isTaken
        have wasWaiting :=
          (compared.pending.perm_take decl.name.text).mem_iff.mp
            (List.mem_append_left _ isTaken)
        exact ⟨comparedDrafts.waiting pending wasWaiting,
          comparedDrafts.stamped.taken isTaken⟩
      obtain ⟨others, finished⟩ :=
        inferWaiting_drafts waitingRun
          ((accounts.compare comparedRun).takeOf decl _ _)
          (comparedDrafts.without decl.name.text)
          (by rw [Context.narrow_knows, decl.bindFun_knows, FunDecl.knows]; simp)
          waits
      rw [List.append_assoc] at finished
      exact ⟨_, finished⟩

/-- Globals place their numbered calls. -/
theorem inferGlobals_drafts
    {decls decls' : List Decl}
    {context context' : Context}
    {queued placed : List Call}
    {before after : State}
    (run :
      Runs (inferGlobals decls context) before (decls', context') after)
    (drafts : Drafts queued placed before)
    (unstamped : Unstamped (decls.flatMap Decl.calls)) :
    ∃ more,
      Drafts (queued ++ more)
        (placed ++ (decls'.filterMap Decl.var?).flatMap VarDecl.numbered)
        after := by
  induction decls generalizing decls' context queued placed before with
  | nil =>
      cases globalsRun_of_runs run
      refine ⟨[], ?_⟩
      rw [List.filterMap_nil, List.flatMap_nil, List.append_nil,
        List.append_nil]
      exact drafts
  | cons decl rest inductionHypothesis =>
      obtain ⟨declUnstamped, restUnstamped⟩ := unstamped.of_append
      cases globalsRun_of_runs run with
      | fn restRun =>
          have restDrafts := inductionHypothesis restRun drafts restUnstamped
          exact restDrafts
      | var declRun restRun =>
          obtain ⟨more, declDrafts, _⟩ :=
            drafts.place
              ((inferVarDecl_places declRun declUnstamped).after_quiet rfl)
              (inferVarDecl_declares declRun).resolved
          obtain ⟨others, finished⟩ :=
            inductionHypothesis restRun (declDrafts.change rfl rfl)
              restUnstamped
          rw [List.append_assoc, List.append_assoc] at finished
          exact ⟨_, finished⟩

/-- Functions place their numbered calls and copy those that waited. -/
theorem inferFunctions_drafts
    {decls decls' : List Decl}
    {context context' : Context}
    {queued placed : List Call}
    {before after : State}
    (run :
      Runs (inferFunctions decls context) before (decls', context') after)
    (accounts : Accounts context [] before)
    (drafts : Drafts queued placed before)
    (unstamped : ∀ decl ∈ decls.filterMap Decl.fn?, Unstamped decl.calls) :
    ∃ more,
      Drafts (queued ++ more)
        (placed ++ (decls'.filterMap Decl.fn?).flatMap FunDecl.numbered)
        after := by
  induction decls generalizing decls' context queued placed before with
  | nil =>
      cases functionsRun_of_runs run
      refine ⟨[], ?_⟩
      rw [List.filterMap_nil, List.flatMap_nil, List.append_nil,
        List.append_nil]
      exact drafts
  | cons decl rest inductionHypothesis =>
      cases functionsRun_of_runs run with
      | var restRun =>
          have restDrafts :=
            inductionHypothesis restRun accounts drafts unstamped
          exact restDrafts
      | fn declRun restRun =>
          obtain ⟨declUnstamped, restUnstamped⟩ :=
            List.forall_mem_cons.mp unstamped
          have started : Accounts context [] (before.draw 1) :=
            accounts.change rfl rfl rfl
          obtain ⟨more, declDrafts⟩ :=
            inferFunDecl_drafts declRun started (drafts.change rfl rfl)
              declUnstamped
          obtain ⟨others, finished⟩ :=
            inductionHypothesis restRun
              ((inferFunDecl_accounts declRun started).change rfl rfl
                (Context.narrow_knows _ _))
              (declDrafts.change rfl rfl) restUnstamped
          rw [List.append_assoc, List.append_assoc] at finished
          exact ⟨_, finished⟩

/-- At the end every call that was set aside stands in one place. -/
theorem Program.inferredState_drafts
    {program : Program}
    (unstamped : Unstamped program.calls) :
    ∃ queued,
      Drafts queued program.infer.program.numbered program.inferredState := by
  obtain ⟨globals, context, middle, globalsRun, functionsRun⟩ :=
    program.inferredState_runs
  have functionsUnstamped := unstamped.functions
  have sameFunctions := inferGlobals_functions globalsRun
  rw [← sameFunctions] at functionsUnstamped
  obtain ⟨queued, globalsDrafts⟩ :=
    inferGlobals_drafts globalsRun .initial unstamped
  obtain ⟨more, drafts⟩ :=
    inferFunctions_drafts functionsRun
      (inferGlobals_accounts globalsRun .initial) globalsDrafts
      functionsUnstamped
  rw [← inferFunctions_globals functionsRun] at drafts
  have sorted :=
    perm_flatMap_decls Decl.numbered program.infer.program.decls
  exact ⟨_, { drafts with nodes := (sorted.append_right _).trans drafts.nodes }⟩

end SplTyping
