import SplTyping.Proofs.Freshness
import SplTyping.Proofs.WrittenTypes

namespace SplTyping

/-!
# What declarations keep, and where their findings live

A declaration may give type variables to names; otherwise it changes a state as
its expressions and statements do. If its written type mentions no variable that
has been bound before, the findings of a declaration keep to live variables. In
any case they keep to variables that have been drawn.
-/

namespace State

/-- How a state may change while a variable is declared. -/
structure Declares (before after : State) : Prop where
  nextVar : before.nextVar ≤ after.nextVar
  names :
    ∀ name id, before.names.get? name = some id →
      after.names.get? name = some id
  drawn : before.NamesDrawn → after.NamesDrawn
  resolved : after.resolved = before.resolved
  settled : after.settled = before.settled
  clean : after.Clean → before.Clean

namespace Declares

variable {before middle after : State}

theorem refl (state : State) : state.Declares state where
  nextVar := Nat.le_refl _
  names := fun _ _ known => known
  drawn := id
  resolved := rfl
  settled := rfl
  clean := id

/-- Declarations may follow each other. -/
theorem trans
    (first : before.Declares middle)
    (second : middle.Declares after) :
    before.Declares after where
  nextVar := Nat.le_trans first.nextVar second.nextVar
  names := fun name id known => second.names name id (first.names name id known)
  drawn := fun drawn => second.drawn (first.drawn drawn)
  resolved := second.resolved.trans first.resolved
  settled := second.settled.trans first.settled
  clean := fun isClean => first.clean (second.clean isClean)

end Declares

/-- What expressions and statements do is allowed to declarations. -/
theorem Grows.declares
    {before after : State}
    (grows : before.Grows after) :
    before.Declares after where
  nextVar := grows.nextVar
  names := fun name id known => by rwa [grows.names]
  drawn := fun drawn name id known => by
    rw [grows.names] at known
    exact Nat.lt_of_lt_of_le (drawn name id known) grows.nextVar
  resolved := grows.resolved
  settled := grows.settled
  clean := grows.clean

/-- Giving names is allowed to declarations. -/
theorem Names.declares
    {before after : State}
    (names : before.Names after) :
    before.Declares after where
  nextVar := names.nextVar_le
  names := fun _ _ known => names.kept known
  drawn := names.drawn
  resolved := names.same.2.1
  settled := names.same.2.2.1
  clean := fun isClean => by rwa [Clean, names.same.2.2.2] at isClean

end State

/-- Reading a declared type gives names at most. -/
theorem declaredTy_declares
    {written : Option WrittenTy}
    {declared : Ty}
    {before after : State}
    (run : Runs (declaredTy written) before declared after) :
    before.Declares after := by
  cases written with
  | some written => exact (writtenTy_names run).declares
  | none =>
      obtain ⟨_, rfl⟩ := runs_fresh.mp run
      exact (State.Grows.draw _ _).declares

/-- Reading a declared type leaves the calls that wait alone. -/
theorem declaredTy_pending
    {written : Option WrittenTy}
    {declared : Ty}
    {before after : State}
    (run : Runs (declaredTy written) before declared after) :
    after.pending = before.pending := by
  cases written with
  | some written => exact (writtenTy_names run).same.1
  | none =>
      obtain ⟨_, rfl⟩ := runs_fresh.mp run
      rfl

/-- An assignment that agrees with names agrees with earlier ones. -/
theorem State.NamesAgree.of_declares
    {assign : Assignment}
    {named : String → Ty}
    {before after : State}
    (agree : after.NamesAgree assign named)
    (declares : before.Declares after) :
    before.NamesAgree assign named :=
  fun name id known => agree name id (declares.names name id known)

/-- A declared type means what it is read as. -/
theorem declaredTy_meaning
    {assign : Assignment}
    {named : String → Ty}
    {written : Option WrittenTy}
    {declared : Ty}
    {before after : State}
    (run : Runs (declaredTy written) before declared after)
    (agree : after.NamesAgree assign named) :
    ∀ ty ∈ written, ty.meaning named = declared.instantiate assign := by
  rintro ty ⟨⟩
  exact writtenTy_meaning run agree

/-- What the declaration of a variable does to the state. -/
theorem inferVarDecl_declares
    {decl decl' : VarDecl}
    {context context' : Context}
    {expected : Ty}
    {found : Substitution}
    {before after : State}
    (run :
      Runs (inferVarDecl decl context expected) before
        (decl', context', found) after) :
    before.Declares after := by
  cases varDeclRun_of_runs run with
  | taken => exact (State.Grows.record _ _).declares
  | void _ declaredRun valueRun =>
      exact (declaredTy_declares declaredRun).trans
        ((inferExpr_grows valueRun).trans (.record _ _)).declares
  | bound _ declaredRun valueRun _ asked =>
      exact (declaredTy_declares declaredRun).trans
        ((inferExpr_grows valueRun).trans
          (unifyOrReport_grows asked)).declares

/-- What the declarations of locals do to the state. -/
theorem inferLocals_declares
    {decls decls' : List VarDecl}
    {context context' : Context}
    {found : Substitution}
    {before after : State}
    (run :
      Runs (inferLocals decls context) before (decls', context', found)
        after) :
    before.Declares after := by
  induction decls generalizing decls' context found before with
  | nil =>
      obtain ⟨_, _, _, rfl⟩ := runs_inferLocals_nil run
      exact .refl _
  | cons decl rest inductionHypothesis =>
      obtain ⟨_, _, _, _, _, _, declRun, restRun, _, _⟩ :=
        runs_inferLocals_cons run
      exact ((State.Grows.draw _ _).declares.trans
        (inferVarDecl_declares declRun)).trans (inductionHypothesis restRun)

/-- A written type whose names are live or new is a type over live variables. -/
theorem declaredTy_within
    {live : TypeVar → Prop}
    {written : Option WrittenTy}
    {declared : Ty}
    {before after : State}
    (run : Runs (declaredTy written) before declared after)
    (supply : Supply live before.nextVar)
    (named :
      ∀ ty ∈ written, ∀ name ∈ ty.names, ∀ id,
        before.names.get? name = some id → Below live before.nextVar id) :
    declared.Within (Below live after.nextVar) := by
  cases written with
  | none =>
      obtain ⟨rfl, rfl⟩ := runs_fresh.mp run
      exact supply.within_var (Nat.le_refl _) (Nat.lt_succ_self _)
  | some written =>
      intro id member
      have names := writtenTy_names run
      obtain ⟨name, isName, known⟩ := writtenTy_vars run member
      rcases names.known_or_drawn known with seen | ⟨_, lower, upper⟩
      · exact Below.mono names.nextVar_le id
          (named written rfl name isName id seen)
      · exact ⟨supply id lower, upper⟩

/-- A written type is read as a type over variables that have been drawn. -/
theorem declaredTy_drawn
    {written : Option WrittenTy}
    {declared : Ty}
    {before after : State}
    (run : Runs (declaredTy written) before declared after)
    (drawn : before.NamesDrawn) :
    declared.Within (Below anyVar after.nextVar) :=
  declaredTy_within run (fun _ _ => trivial) fun _ _ name _ id known =>
    ⟨trivial, drawn name id known⟩

/-- The findings of a variable declaration keep to live variables. -/
theorem inferVarDecl_keepsTo
    {live : TypeVar → Prop}
    {decl decl' : VarDecl}
    {context context' : Context}
    {expected : Ty}
    {found : Substitution}
    {before after : State}
    (run :
      Runs (inferVarDecl decl context expected) before
        (decl', context', found) after)
    (scene : Scene live before context)
    (expectedWithin : expected.Within (Below live before.nextVar))
    (declaredWithin :
      ∀ declared middle,
        Runs (declaredTy decl.written) before declared middle →
          declared.Within (Below live middle.nextVar)) :
    found.KeepsTo live after.nextVar ∧ Scene live after context' := by
  have declares := inferVarDecl_declares run
  have grown : Scene live after context :=
    ⟨scene.supply.mono declares.nextVar,
      scene.context.mono (Below.mono declares.nextVar)⟩
  cases varDeclRun_of_runs run with
  | taken | void => exact ⟨.nil, grown⟩
  | bound _ declaredRun valueRun _ asked =>
      have declaredLe := (declaredTy_declares declaredRun).nextVar
      have isDeclared := declaredWithin _ _ declaredRun
      have valueGrows := inferExpr_grows valueRun
      have valueKeeps :=
        inferExpr_keepsTo valueRun
          ⟨scene.supply.mono declaredLe,
            scene.context.mono (Below.mono declaredLe)⟩
          isDeclared
      have allKeep :=
        valueKeeps.unified asked
          (valueKeeps.apply
            ((expectedWithin.mono (Below.mono declaredLe)).grow valueGrows))
          (valueKeeps.apply (isDeclared.grow valueGrows))
      refine ⟨allKeep, grown.bindVar _ ?_⟩
      have narrowed :=
        allKeep.apply
          (isDeclared.grow (valueGrows.trans (unifyOrReport_grows asked)))
      exact narrowed.mono fun _ ⟨isLeft, seen⟩ => ⟨isLeft.1, seen⟩

/-- The findings of local variables without names keep to live variables. -/
theorem inferLocals_keepsTo
    {live : TypeVar → Prop}
    {decls decls' : List VarDecl}
    {context context' : Context}
    {found : Substitution}
    {before after : State}
    (run :
      Runs (inferLocals decls context) before (decls', context', found)
        after)
    (unnamed : ∀ decl ∈ decls, ∀ ty ∈ decl.written, ty.names = [])
    (scene : Scene live before context) :
    found.KeepsTo live after.nextVar ∧
      Scene (found.leaves live) after context' := by
  induction decls generalizing live decls' context found before with
  | nil =>
      obtain ⟨_, rfl, rfl, rfl⟩ := runs_inferLocals_nil run
      refine ⟨.nil, ?_⟩
      rwa [Substitution.leaves_nil]
  | cons decl rest inductionHypothesis =>
      obtain ⟨_, _, between, first, more, middle, declRun, restRun, _, rfl⟩ :=
        runs_inferLocals_cons run
      obtain ⟨declUnnamed, restUnnamed⟩ := List.forall_mem_cons.mp unnamed
      have drawn : before.Grows (before.draw 1) := .draw _ _
      obtain ⟨firstKeeps, betweenScene⟩ :=
        inferVarDecl_keepsTo declRun (scene.grow drawn) (scene.within_next 0)
          (fun _ _ declaredRun =>
            declaredTy_within declaredRun (scene.grow drawn).supply
              fun ty isWritten _ isName => by
                rw [declUnnamed ty isWritten] at isName
                cases isName)
      obtain ⟨restKeeps, restScene⟩ :=
        inductionHypothesis restRun restUnnamed
          (betweenScene.narrow (.refl _) firstKeeps)
      refine ⟨firstKeeps.append restKeeps
        (inferLocals_declares restRun).nextVar, ?_⟩
      rwa [Substitution.leaves_append]

/-- The findings of a variable mention only variables that were drawn. -/
theorem inferVarDecl_drawn
    {decl decl' : VarDecl}
    {context context' : Context}
    {expected : Ty}
    {found : Substitution}
    {before after : State}
    (run :
      Runs (inferVarDecl decl context expected) before
        (decl', context', found) after)
    (drawn : before.NamesDrawn)
    (scene : Scene anyVar before context)
    (expectedWithin : expected.Within (Below anyVar before.nextVar)) :
    found.Within (Below anyVar after.nextVar) ∧
      Scene anyVar after (context'.narrow found) := by
  obtain ⟨keeps, betweenScene⟩ :=
    inferVarDecl_keepsTo run scene expectedWithin fun _ _ declaredRun =>
      declaredTy_drawn declaredRun drawn
  exact ⟨keeps.within, (betweenScene.narrow (.refl _) keeps).any⟩

/-- The findings of local variables mention only variables that were drawn. -/
theorem inferLocals_drawn
    {decls decls' : List VarDecl}
    {context context' : Context}
    {found : Substitution}
    {before after : State}
    (run :
      Runs (inferLocals decls context) before (decls', context', found)
        after)
    (drawn : before.NamesDrawn)
    (scene : Scene anyVar before context) :
    found.Within (Below anyVar after.nextVar) ∧
      Scene anyVar after context' := by
  induction decls generalizing decls' context found before with
  | nil =>
      obtain ⟨_, rfl, rfl, rfl⟩ := runs_inferLocals_nil run
      exact ⟨Substitution.within_nil, scene⟩
  | cons decl rest inductionHypothesis =>
      obtain ⟨_, _, between, first, more, middle, declRun, restRun, _, rfl⟩ :=
        runs_inferLocals_cons run
      have grows : before.Grows (before.draw 1) := .draw _ _
      have declares := inferVarDecl_declares declRun
      obtain ⟨firstWithin, narrowedScene⟩ :=
        inferVarDecl_drawn declRun (grows.declares.drawn drawn)
          (scene.grow grows) (scene.within_next 0)
      obtain ⟨restWithin, restScene⟩ :=
        inductionHypothesis restRun
          (declares.drawn (grows.declares.drawn drawn)) narrowedScene
      refine ⟨Substitution.within_append.mpr ⟨?_, restWithin⟩, restScene⟩
      exact firstWithin.mono
        (Below.mono (inferLocals_declares restRun).nextVar)

namespace State

/-- How a state may change while a function is declared. -/
structure Advances (before after : State) : Prop where
  nextVar : before.nextVar ≤ after.nextVar
  settled : after.settled = before.settled
  clean : after.Clean → before.Clean

theorem Advances.trans
    {before middle after : State}
    (first : before.Advances middle)
    (second : middle.Advances after) :
    before.Advances after where
  nextVar := Nat.le_trans first.nextVar second.nextVar
  settled := second.settled.trans first.settled
  clean := fun isClean => first.clean (second.clean isClean)

theorem Declares.advances
    {before after : State}
    (declares : before.Declares after) :
    before.Advances after where
  nextVar := declares.nextVar
  settled := declares.settled
  clean := declares.clean

/-- How a state may change while declarations are finished. -/
structure Settles (before after : State) : Prop where
  nextVar : before.nextVar ≤ after.nextVar
  settled : before.settled <+: after.settled
  clean : after.Clean → before.Clean

theorem Settles.refl (state : State) : state.Settles state where
  nextVar := Nat.le_refl _
  settled := List.prefix_rfl
  clean := id

/-- A declaration is finished, and others come after it. -/
theorem Advances.settles
    {before middle after : State}
    {found : Substitution}
    (advances : before.Advances middle)
    (rest : (middle.settle found).Settles after) :
    before.Settles after where
  nextVar := Nat.le_trans advances.nextVar rest.nextVar
  settled := by
    refine List.IsPrefix.trans ?_ rest.settled
    rw [← advances.settled]
    exact List.prefix_append _ _
  clean := fun isClean => advances.clean (rest.clean isClean)

end State

/-- What the comparison of signatures does to the state. -/
theorem signatureFindings_declares
    {name : Name}
    {written : Option WrittenSignature}
    {inferred : Ty}
    {found : Substitution}
    {before after : State}
    (run : Runs (signatureFindings name written inferred) before found after) :
    before.Declares after := by
  cases written with
  | none =>
      obtain ⟨_, rfl⟩ := runs_pure.mp run
      exact .refl _
  | some written =>
      cases signatureRun_of_runs run with
      | unshared signatureRun _ asked =>
          exact (signatureTy_names signatureRun).declares.trans
            ((State.Grows.record _ _).trans
              (unifyOrReport_grows asked)).declares
      | shared signatureRun _ asked =>
          exact (signatureTy_names signatureRun).declares.trans
            (unifyOrReport_grows asked).declares

theorem signatureFindings_pending
    {name : Name}
    {written : Option WrittenSignature}
    {inferred : Ty}
    {found : Substitution}
    {before after : State}
    (run : Runs (signatureFindings name written inferred) before found after) :
    after.pending = before.pending := by
  cases written with
  | none =>
      obtain ⟨_, rfl⟩ := runs_pure.mp run
      rfl
  | some written =>
      cases signatureRun_of_runs run with
      | unshared signatureRun _ asked | shared signatureRun _ asked =>
          have askedKept := unifyOrReport_pending asked
          exact askedKept.trans (signatureTy_names signatureRun).same.1

/-- The findings about a written signature keep to live variables. -/
theorem signatureFindings_keepsTo
    {live : TypeVar → Prop}
    {name : Name}
    {written : Option WrittenSignature}
    {inferred : Ty}
    {found : Substitution}
    {before after : State}
    (run : Runs (signatureFindings name written inferred) before found after)
    (supply : Supply live before.nextVar)
    (named :
      ∀ name id, before.names.get? name = some id →
        Below live before.nextVar id)
    (inferredWithin : inferred.Within (Below live before.nextVar)) :
    found.KeepsTo live after.nextVar := by
  have declaredWithin
      {ty : WrittenSignature}
      {declared : Ty}
      {middle : State}
      (signatureRun : Runs (signatureTy ty) before declared middle) :
      declared.Within (Below live middle.nextVar) := by
    intro id member
    have names := signatureTy_names signatureRun
    obtain ⟨name, _, known⟩ := signatureTy_vars signatureRun member
    rcases names.known_or_drawn known with seen | ⟨_, lower, upper⟩
    · exact Below.mono names.nextVar_le id (named name id seen)
    · exact ⟨supply id lower, upper⟩
  cases written with
  | none =>
      obtain ⟨rfl, _⟩ := runs_pure.mp run
      exact .nil
  | some written =>
      cases signatureRun_of_runs run with
      | unshared signatureRun _ asked | shared signatureRun _ asked =>
          have isDeclared := declaredWithin signatureRun
          have isInferred :=
            inferredWithin.mono
              (Below.mono (signatureTy_names signatureRun).nextVar_le)
          exact unifyOrReport_keepsTo asked isDeclared isInferred

/-- Checking calls that waited advances the state. -/
theorem inferWaiting_advances
    {function : String}
    {waiting : List PendingCall}
    {context context' : Context}
    {found extended : Substitution}
    {before after : State}
    (run :
      Runs (inferWaiting function waiting context found) before
        (context', extended) after) :
    before.Advances after := by
  induction waiting generalizing context found before with
  | nil =>
      cases waitingRun_of_runs run
      exact (State.Grows.refl _).declares.advances
  | cons pending rest inductionHypothesis =>
      cases waitingRun_of_runs run with
      | void _ callRun _ _ restRun =>
          have callAdvances := (inferCall_grows callRun).declares.advances
          have restAdvances := inductionHypothesis restRun
          exact callAdvances.trans
            ⟨restAdvances.nextVar, restAdvances.settled, fun isClean =>
              absurd (restAdvances.clean isClean)
                (State.not_clean_record _ _)⟩
      | next _ callRun _ restRun =>
          have callAdvances := (inferCall_grows callRun).declares.advances
          have restAdvances := inductionHypothesis restRun
          exact callAdvances.trans
            ⟨restAdvances.nextVar, restAdvances.settled, restAdvances.clean⟩

/-- How a state changes up to the comparison with a written signature. -/
theorem comparedFunDecl_declares
    {decl : FunDecl}
    {locals : List VarDecl}
    {body : List Stmt}
    {context inner : Context}
    {expected left right inferred : Ty}
    {flow : Flow}
    {explain : UnifyError → TypeError}
    {found more shaped written : Substitution}
    {count : Nat}
    {before middle last asked' compared : State}
    (localsRun :
      Runs (inferLocals decl.locals context) (before.draw count)
        (locals, inner, found) middle)
    (bodyRun :
      Runs (inferBlock decl.body inner expected) middle (body, more) last)
    (asked :
      Runs (unifyOrReport left right flow explain) last shaped asked')
    (signatureRun :
      Runs (signatureFindings decl.name decl.written inferred) asked' written
        compared) :
    before.Declares compared :=
  ((((State.Grows.draw before count).declares.trans
    (inferLocals_declares localsRun)).trans
    (inferBlock_grows bodyRun).declares).trans
    (unifyOrReport_grows asked).declares).trans
    (signatureFindings_declares signatureRun)

/-- A function advances the state. -/
theorem inferFunDecl_advances
    {decl decl' : FunDecl}
    {context context' : Context}
    {expected : Ty}
    {found : Substitution}
    {before after : State}
    (run :
      Runs (inferFunDecl decl context expected) before
        (decl', context', found) after) :
    before.Advances after := by
  have unnamed : before.Advances before.unnamed :=
    ⟨Nat.le_refl _, rfl, id⟩
  cases funDeclRun_of_runs run with
  | taken | repeated =>
      exact unnamed.trans (State.Grows.record _ _).declares.advances
  | @bound _ _ _ _ _ _ _ _ _ _ _ _ _ compared _
      _ _ _ localsRun bodyRun asked signatureRun waitingRun =>
      have without : compared.Advances (compared.without decl.name.text) :=
        ⟨Nat.le_refl _, rfl, id⟩
      have declares := comparedFunDecl_declares localsRun bodyRun asked signatureRun
      exact (unnamed.trans declares.advances).trans
        (without.trans (inferWaiting_advances waitingRun))

/-- The pass over globals settles what it found. -/
theorem inferGlobals_settles
    {decls decls' : List Decl}
    {context context' : Context}
    {before after : State}
    (run :
      Runs (inferGlobals decls context) before (decls', context') after) :
    before.Settles after := by
  induction decls generalizing decls' context before with
  | nil =>
      cases globalsRun_of_runs run
      exact .refl _
  | cons decl rest inductionHypothesis =>
      cases globalsRun_of_runs run with
      | var declRun restRun =>
          have drawn : before.Advances (before.draw 1).unnamed :=
            ⟨Nat.le_succ _, rfl, id⟩
          exact (drawn.trans (inferVarDecl_declares declRun).advances).settles
            (inductionHypothesis restRun)
      | fn restRun => exact inductionHypothesis restRun

/-- The pass over functions settles what it found. -/
theorem inferFunctions_settles
    {decls decls' : List Decl}
    {context context' : Context}
    {before after : State}
    (run :
      Runs (inferFunctions decls context) before (decls', context') after) :
    before.Settles after := by
  induction decls generalizing decls' context before with
  | nil =>
      cases functionsRun_of_runs run
      exact .refl _
  | cons decl rest inductionHypothesis =>
      cases functionsRun_of_runs run with
      | fn declRun restRun =>
          have drawn : before.Advances (before.draw 1) :=
            (State.Grows.draw _ _).declares.advances
          exact (drawn.trans (inferFunDecl_advances declRun)).settles
            (inductionHypothesis restRun)
      | var restRun => exact inductionHypothesis restRun

/-- Global variables leave functions as they are. -/
theorem inferGlobals_functions
    {decls decls' : List Decl}
    {context context' : Context}
    {before after : State}
    (run : Runs (inferGlobals decls context) before (decls', context') after) :
    decls'.filterMap Decl.fn? = decls.filterMap Decl.fn? := by
  induction decls generalizing decls' context before with
  | nil =>
      cases globalsRun_of_runs run
      rfl
  | cons decl rest inductionHypothesis =>
      cases globalsRun_of_runs run with
      | var _ restRun =>
          have sameRest := inductionHypothesis restRun
          exact sameRest
      | @fn decl _ _ _ _ restRun =>
          have sameRest := inductionHypothesis restRun
          exact congrArg (decl :: ·) sameRest

/-- Functions leave global variables as they are. -/
theorem inferFunctions_globals
    {decls decls' : List Decl}
    {context context' : Context}
    {before after : State}
    (run : Runs (inferFunctions decls context) before (decls', context') after) :
    decls'.filterMap Decl.var? = decls.filterMap Decl.var? := by
  induction decls generalizing decls' context before with
  | nil =>
      cases functionsRun_of_runs run
      rfl
  | cons decl rest inductionHypothesis =>
      cases functionsRun_of_runs run with
      | fn _ restRun =>
          have sameRest := inductionHypothesis restRun
          exact sameRest
      | @var decl _ _ _ _ restRun =>
          have sameRest := inductionHypothesis restRun
          exact congrArg (decl :: ·) sameRest

/-- There is no repeated name if all are different and none was seen. -/
theorem firstRepeated?_eq_none
    {seen : List String}
    {names : List Name} :
    firstRepeated? seen names = none ↔
      (names.map Name.text).Nodup ∧ ∀ name ∈ names, name.text ∉ seen := by
  induction names generalizing seen with
  | nil => simp [firstRepeated?]
  | cons name rest inductionHypothesis =>
      rw [firstRepeated?, List.map_cons, List.nodup_cons, List.forall_mem_cons]
      split
      · rename_i isSeen
        exact ⟨nofun, fun ⟨_, unseen, _⟩ => absurd isSeen unseen⟩
      · rename_i unseen
        rw [inductionHypothesis]
        simp only [List.mem_map, List.mem_cons, not_or, not_exists, not_and]
        constructor
        · rintro ⟨distinct, restUnseen⟩
          exact ⟨⟨fun other inRest => (restUnseen other inRest).1, distinct⟩,
            unseen, fun other inRest => (restUnseen other inRest).2⟩
        · rintro ⟨⟨differ, distinct⟩, _, restUnseen⟩
          exact ⟨distinct, fun other inRest =>
            ⟨differ other inRest, restUnseen other inRest⟩⟩

/-- Checking calls that waited binds no function. -/
theorem inferWaiting_contains
    {function : String}
    {waiting : List PendingCall}
    {context context' : Context}
    {found extended : Substitution}
    {before after : State}
    (run :
      Runs (inferWaiting function waiting context found) before
        (context', extended) after)
    (name : String) :
    context'.funs.contains name = context.funs.contains name := by
  induction waiting generalizing context found before with
  | nil =>
      cases waitingRun_of_runs run
      rfl
  | cons pending rest inductionHypothesis =>
      cases waitingRun_of_runs run with
      | void _ _ _ _ restRun => exact inductionHypothesis restRun
      | next _ _ _ restRun =>
          rw [inductionHypothesis restRun, Context.narrow_contains]

/-- Global variables bind no functions. -/
theorem inferGlobals_contains
    {decls decls' : List Decl}
    {context context' : Context}
    {before after : State}
    (run : Runs (inferGlobals decls context) before (decls', context') after)
    (name : String) :
    context'.funs.contains name = context.funs.contains name := by
  induction decls generalizing decls' context before with
  | nil =>
      cases globalsRun_of_runs run
      rfl
  | cons decl rest inductionHypothesis =>
      cases globalsRun_of_runs run with
      | fn restRun => exact inductionHypothesis restRun
      | var declRun restRun =>
          rw [inductionHypothesis restRun, Context.narrow_contains,
            (varDeclRun_of_runs declRun).funs]

/-- A function that is declared without error is the only one of its name. -/
theorem inferFunDecl_contains
    {decl decl' : FunDecl}
    {context context' : Context}
    {expected : Ty}
    {found : Substitution}
    {before after : State}
    (run :
      Runs (inferFunDecl decl context expected) before
        (decl', context', found) after)
    (clean : after.Clean) :
    decl'.name = decl.name ∧
      context.funs.contains decl.name.text = false ∧
      ∀ name, context'.funs.contains name = true ↔
        name = decl.name.text ∨ context.funs.contains name = true := by
  cases funDeclRun_of_runs run with
  | taken | repeated => exact absurd clean (State.not_clean_record _ _)
  | bound free _ _ _ _ _ _ waitingRun =>
      refine ⟨rfl, free, fun name => ?_⟩
      rw [inferWaiting_contains waitingRun, Context.narrow_contains,
        Context.bindFun, Table.contains, Table.get?_insert, Table.contains]
      split <;> simp [*]

/-- A function declaration binds no other function. -/
theorem inferFunDecl_binds
    {decl decl' : FunDecl}
    {context context' : Context}
    {expected : Ty}
    {found : Substitution}
    {name : String}
    {before after : State}
    (run :
      Runs (inferFunDecl decl context expected) before
        (decl', context', found) after)
    (bound : context'.funs.contains name = true) :
    name = decl.name.text ∨ context.funs.contains name = true := by
  cases funDeclRun_of_runs run with
  | taken | repeated => exact Or.inr bound
  | bound _ _ _ _ _ _ _ waitingRun =>
      rw [inferWaiting_contains waitingRun, Context.narrow_contains,
        Context.bindFun, Table.contains, Table.get?_insert] at bound
      split at bound
      · rename_i isName
        exact Or.inl isName
      · exact Or.inr bound

/-- Functions that are declared without error have different names. -/
theorem inferFunctions_contains
    {decls decls' : List Decl}
    {context context' : Context}
    {before after : State}
    (run : Runs (inferFunctions decls context) before (decls', context') after)
    (clean : after.Clean) :
    ((decls'.filterMap Decl.fn?).map fun decl => decl.name.text).Nodup ∧
      (∀ decl ∈ decls'.filterMap Decl.fn?,
        context.funs.contains decl.name.text = false) ∧
      ∀ name, context'.funs.contains name = true →
        context.funs.contains name = true ∨
          ∃ decl ∈ decls'.filterMap Decl.fn?, decl.name.text = name := by
  induction decls generalizing decls' context before with
  | nil =>
      cases functionsRun_of_runs run
      exact ⟨List.nodup_nil, by simp, fun _ => Or.inl⟩
  | cons decl rest inductionHypothesis =>
      cases functionsRun_of_runs run with
      | var restRun =>
          have restContains := inductionHypothesis restRun
          exact restContains
      | @fn decl decl' _ rest' _ _ _ _ _ declRun restRun =>
          have declClean := (inferFunctions_settles restRun).clean clean
          obtain ⟨sameName, free, declContains⟩ :=
            inferFunDecl_contains declRun declClean
          obtain ⟨distinct, restFree, restContains⟩ :=
            inductionHypothesis restRun
          simp only [Context.narrow_contains] at restFree restContains
          have later (other : FunDecl) (member : other ∈ rest'.filterMap Decl.fn?) :
              other.name.text ≠ decl.name.text ∧
                context.funs.contains other.name.text = false := by
            have unbound := restFree other member
            rw [Bool.eq_false_iff, Ne, declContains, not_or] at unbound
            exact ⟨unbound.1, Bool.eq_false_iff.mpr unbound.2⟩
          rw [← sameName] at free
          refine ⟨List.nodup_cons.mpr ⟨?_, distinct⟩,
            List.forall_mem_cons.mpr ⟨free, fun other member =>
              (later other member).2⟩, ?_⟩
          · intro isName
            obtain ⟨other, member, same⟩ := List.mem_map.mp isName
            exact (later other member).1 (same.trans (congrArg Name.text sameName))
          · intro name bound
            rcases restContains name bound with inBetween | ⟨other, member, same⟩
            · rcases (declContains name).mp inBetween with rfl | inContext
              · exact Or.inr
                  ⟨decl', List.mem_cons_self, congrArg Name.text sameName⟩
              · exact Or.inl inContext
            · exact Or.inr ⟨other, List.mem_cons_of_mem _ member, same⟩

theorem Signature.Within.mono
    {live wider : TypeVar → Prop}
    {signature : Signature}
    (within : signature.Within live)
    (widens : ∀ id, live id → wider id) :
    signature.Within wider :=
  ⟨fun param member => (within.1 param member).mono widens,
    within.2.mono widens⟩

theorem Signature.Within.toTy
    {live : TypeVar → Prop}
    {signature : Signature}
    (within : signature.Within live) :
    signature.toTy.Within live :=
  Ty.within_fn.mpr within

/-- New types are of variables that were drawn for them. -/
theorem drawnTys_within
    {live : TypeVar → Prop}
    {start : TypeVar}
    {count : Nat}
    (supply : Supply live start) :
    ∀ ty ∈ drawnTys start count, ty.Within (Below live (start + count)) := by
  induction count generalizing start with
  | zero => simp [drawnTys]
  | succ count inductionHypothesis =>
      rw [drawnTys, List.forall_mem_cons]
      refine ⟨supply.within_var (Nat.le_refl _)
        (Nat.lt_add_of_pos_right (Nat.succ_pos count)), ?_⟩
      have rest := inductionHypothesis (supply.mono (Nat.le_succ start))
      rwa [Nat.succ_add_eq_add_succ] at rest

/-- The new types of a function are of variables that were drawn for it. -/
theorem freshShape_within
    {live : TypeVar → Prop}
    {start : TypeVar}
    (supply : Supply live start)
    (count : Nat) :
    (freshShape start count).Within (Below live (start + (count + 1))) := by
  refine ⟨fun param member => ?_, ?_⟩
  · exact (drawnTys_within supply param member).mono
      (Below.mono (Nat.le_succ _))
  · exact supply.within_var (Nat.le_add_right _ _) (Nat.lt_succ_self _)

/-- Arguments may be bound to types of live variables. -/
theorem Context.Within.bindArgs
    {live : TypeVar → Prop}
    {context : Context}
    {types : List Ty}
    (within : context.Within live)
    (args : List Name)
    (typesWithin : ∀ ty ∈ types, ty.Within live) :
    (context.bindArgs args types).Within live := by
  induction args generalizing context types with
  | nil => exact within
  | cons arg args inductionHypothesis =>
      cases types with
      | nil => exact within
      | cons ty types =>
          obtain ⟨tyWithin, restWithin⟩ := List.forall_mem_cons.mp typesWithin
          exact inductionHypothesis (within.bindVar arg.text tyWithin)
            restWithin

/-- A call that waited is checked in a context over live variables. -/
theorem PendingCall.reached_within
    {live : TypeVar → Prop}
    {pending : PendingCall}
    {context : Context}
    {settled found : Substitution}
    (pendingWithin : pending.context.Within live)
    (settledWithin : settled.Within live)
    (foundWithin : found.Within live)
    (contextWithin : context.Within live) :
    (pending.reached settled found context).Within live := by
  have narrowed :=
    (pendingWithin.narrow_of_apply fun _ tyWithin =>
      settledWithin.apply tyWithin).narrow_of_apply fun _ tyWithin =>
        foundWithin.apply tyWithin
  exact { vars := narrowed.vars, funs := contextWithin.funs }

/-- The context in which a body is inferred mentions live variables only. -/
theorem FunDecl.inner_scene
    {live : TypeVar → Prop}
    {context : Context}
    {before : State}
    (decl : FunDecl)
    (scene : Scene live before context) :
    Scene live (before.unnamed.draw (decl.args.length + 1))
      (decl.inner context (freshShape before.nextVar decl.args.length)) := by
  have grows : before.nextVar ≤ before.nextVar + (decl.args.length + 1) :=
    Nat.le_add_right _ _
  have shapeWithin := freshShape_within scene.supply decl.args.length
  refine ⟨scene.supply.mono grows, ?_⟩
  exact ((scene.context.mono (Below.mono grows)).bindArgs decl.args
    shapeWithin.1).bindFun decl.name.text shapeWithin

end SplTyping
