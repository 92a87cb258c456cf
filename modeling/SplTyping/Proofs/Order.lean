import Mathlib
import SplTyping.Proofs.Acceptance
import SplTyping.Proofs.Completeness
import SplTyping.Proofs.Errors
import SplTyping.Proofs.Sharing

namespace SplTyping

/-!
# Declarations in any order

A program that is typed by the rules is accepted, unless it names a type
variable in two places of a signature that need not have the same type
(`ProgramTyped.errors_split`). The rules do not look at the order of the
functions, so without such names all orders of a typed program are accepted: a
call that waits is checked later, in the types that the rules give to the
variables around it. The main result is `typeCheck_reordered`.

Programs that the rules do not type may be accepted in one order only. What a
call asks of an argument whose type is still open is forgotten after the call,
while a call that waits is checked later, when more is known about its
arguments.
-/

namespace State

/-- Named type variables have been drawn, and stand for what their names mean. -/
structure NamesFollow
    (assign : Assignment)
    (named : String → Ty)
    (state : State) :
    Prop where
  agree : state.NamesAgree assign named
  drawn : state.NamesDrawn

theorem NamesFollow.unnamed
    (assign : Assignment)
    (named : String → Ty)
    (state : State) :
    state.unnamed.NamesFollow assign named :=
  ⟨nofun, nofun⟩

theorem NamesFollow.change
    {assign changed : Assignment}
    {named : String → Ty}
    {before after : State}
    (follow : before.NamesFollow assign named)
    (agrees : Assignment.AgreesBelow before.nextVar assign changed)
    (sameNames : after.names = before.names)
    (grows : before.nextVar ≤ after.nextVar) :
    after.NamesFollow changed named where
  agree := by
    intro name id known
    rw [sameNames] at known
    rw [follow.agree name id known, agrees id (follow.drawn name id known)]
  drawn := by
    intro name id known
    rw [sameNames] at known
    exact Nat.lt_of_lt_of_le (follow.drawn name id known) grows

/-- Variables that are drawn for names can stand for what the names mean. -/
theorem Names.follow
    {assign : Assignment}
    {named : String → Ty}
    {before after : State}
    (names : before.Names after)
    (follow : before.NamesFollow assign named) :
    ∃ changed,
      Assignment.AgreesBelow before.nextVar assign changed ∧
        after.NamesFollow changed named := by
  induction names with
  | refl => exact ⟨assign, .refl _ _, follow⟩
  | @next middle name earlier unnamed inductionHypothesis =>
      obtain ⟨changed, agrees, middleFollow⟩ := inductionHypothesis
      have setAgrees :=
        changed.agreesBelow_set (named name) (Nat.le_refl middle.nextVar)
      refine ⟨changed.set middle.nextVar (named name),
        agrees.trans setAgrees earlier.nextVar_le, ?_,
        (Names.next .refl unnamed).drawn middleFollow.drawn⟩
      intro other id known
      simp only [nameNext, Table.get?_insert] at known
      split at known
      · rename_i isName
        cases known
        rw [isName, changed.set_self]
      · rw [setAgrees id (middleFollow.drawn other id known)]
        exact middleFollow.agree other id known

end State

section Variables

variable {scope : Scope} {known : String → Prop} {named : String → Ty}

/-- Names are given variables that stand for what the names mean. -/
theorem State.Names.reaches
    {context : Context}
    {before after : State}
    {assign : Assignment}
    (names : before.Names after)
    (setting : Setting scope known assign before context)
    (follow : before.NamesFollow assign named) :
    ∃ changed,
      Reaches scope.funs known before assign [] after changed ∧
        after.NamesFollow changed named := by
  obtain ⟨samePending, _, _, sameDiagnostics⟩ := names.same
  obtain ⟨changed, agrees, afterFollow⟩ := names.follow follow
  have ready :=
    setting.ready.change agrees names.nextVar_le sameDiagnostics samePending
  exact ⟨changed,
    { grows := names.nextVar_le
      agrees := agrees
      within := Substitution.within_nil
      solved := Substitution.solvedBy_nil changed
      ready := ready },
    afterFollow⟩

/-- The type that a declaration asks for stands for the declared type. -/
theorem declaredTy_complete
    {written : Option WrittenTy}
    {declared ty : Ty}
    {context : Context}
    {before after : State}
    {assign : Assignment}
    (run : Runs (declaredTy written) before declared after)
    (setting : Setting scope known assign before context)
    (follow : before.NamesFollow assign named)
    (means : ∀ ty' ∈ written, ty'.meaning named = ty) :
    ∃ changed,
      Reaches scope.funs known before assign [] after changed ∧
        after.NamesFollow changed named ∧
        declared.instantiate changed = ty := by
  cases written with
  | none =>
      obtain ⟨rfl, rfl⟩ := runs_fresh.mp run
      obtain ⟨changed, reaches, _, isTy⟩ := setting.drawOne ty
      exact ⟨changed, reaches,
        follow.change reaches.agrees rfl reaches.grows, isTy⟩
  | some written =>
      obtain ⟨changed, reaches, afterFollow⟩ :=
        (writtenTy_names run).reaches setting follow
      refine ⟨changed, reaches, afterFollow, ?_⟩
      rw [← means written rfl, writtenTy_meaning run afterFollow.agree]

/-- The value of a declaration is inferred at the type that is asked for. -/
theorem declaredValue_complete
    {decl : VarDecl}
    {value : Expr}
    {declared ty : Ty}
    {demand : Demand}
    {guard : Option ValueGuard}
    {context : Context}
    {found : Substitution}
    {before middle last : State}
    {assign : Assignment}
    (declaredRun : Runs (declaredTy decl.written) before declared middle)
    (valueRun :
      Runs (inferExpr decl.value context declared demand guard) middle
        (value, found) last)
    (setting : Setting scope known assign before context)
    (follow : before.NamesFollow assign named)
    (typed : VarDeclTyped .inferable scope named decl ty) :
    ∃ drawn changed,
      Reaches scope.funs known before assign [] middle drawn ∧
        middle.NamesFollow drawn named ∧
        declared.instantiate drawn = ty ∧
        Reaches scope.funs known middle drawn found last changed := by
  obtain ⟨drawn, declaredReaches, drawnFollow, isDeclared⟩ :=
    declaredTy_complete declaredRun setting follow typed.written
  obtain ⟨changed, valueReaches⟩ :=
    inferExpr_complete decl.value valueRun (setting.change declaredReaches)
      (declaredTy_drawn declaredRun follow.drawn) typed.valueHas isDeclared
      fun _ => typed.isValue
  exact ⟨drawn, changed, declaredReaches, drawnFollow, isDeclared,
    valueReaches⟩

/-- The declaration of a variable reaches its type. -/
theorem inferVarDecl_complete
    {decl decl' : VarDecl}
    {context context' : Context}
    {expected ty : Ty}
    {found : Substitution}
    {before after : State}
    {assign : Assignment}
    (run :
      Runs (inferVarDecl decl context expected) before
        (decl', context', found) after)
    (setting : Setting scope known assign before context)
    (follow : before.NamesFollow assign named)
    (expectedWithin : expected.Within (Below anyVar before.nextVar))
    (isTy : expected.instantiate assign = ty)
    (typed : VarDeclTyped .inferable scope named decl ty) :
    ∃ changed,
      Reaches scope.funs known before assign found after changed ∧
        after.NamesFollow changed named ∧
        Setting (scope.bindVar decl.name.text ty) known changed after
          context' := by
  cases varDeclRun_of_runs run with
  | taken isTaken =>
      have free := (setting.vars.eq_none_iff _).mp typed.free
      rw [isTaken] at free
      cases free
  | void _ declaredRun valueRun isVoid =>
      obtain ⟨_, _, _, _, isDeclared, valueReaches⟩ :=
        declaredValue_complete declaredRun valueRun setting follow typed
      have declaredWithin := declaredTy_drawn declaredRun follow.drawn
      have notVoid :=
        valueReaches.not_void declaredWithin isDeclared typed.isValue
      exact absurd isVoid (Bool.eq_false_iff.mp notVoid)
  | bound _ declaredRun valueRun _ asked =>
      obtain ⟨drawn, changed, declaredReaches, drawnFollow, isDeclared,
          valueReaches⟩ :=
        declaredValue_complete declaredRun valueRun setting follow typed
      have declaredWithin := declaredTy_drawn declaredRun follow.drawn
      have declaredIs := valueReaches.instantiate_apply declaredWithin
      have whole := declaredReaches.append valueReaches
      have same :=
        (whole.instantiate_apply expectedWithin).trans
          (isTy.trans (declaredIs.trans isDeclared).symm)
      have reaches :=
        whole.unified asked same (whole.applyWithin expectedWithin)
          (valueReaches.applyWithin declaredWithin)
      have grows :=
        (inferExpr_grows valueRun).trans (unifyOrReport_grows asked)
      have bound :=
        (setting.change reaches).bindVar decl.name.text
          (reaches.within.apply
            (declaredWithin.mono (Below.mono grows.nextVar)))
      rw [reaches.solved.instantiate_apply,
        valueReaches.agrees.instantiate declaredWithin, isDeclared] at bound
      exact ⟨changed, reaches,
        drawnFollow.change valueReaches.agrees grows.names grows.nextVar,
        bound⟩

theorem LocalsTyped.funs
    {rules : Rules}
    {inner : Scope}
    {decls : List VarDecl}
    (typed : LocalsTyped rules named scope decls inner) :
    inner.funs = scope.funs := by
  induction typed with
  | nil => rfl
  | cons _ _ inductionHypothesis => exact inductionHypothesis

/-- Locals reach their types in turn. -/
theorem inferLocals_complete
    {decls decls' : List VarDecl}
    {inner : Scope}
    {context context' : Context}
    {found : Substitution}
    {before after : State}
    {assign : Assignment}
    (run :
      Runs (inferLocals decls context) before (decls', context', found) after)
    (setting : Setting scope known assign before context)
    (follow : before.NamesFollow assign named)
    (typed : LocalsTyped .inferable named scope decls inner) :
    ∃ changed,
      Reaches scope.funs known before assign found after changed ∧
        after.NamesFollow changed named ∧
        Setting inner known changed after context' := by
  induction typed generalizing decls' context found before assign with
  | nil =>
      obtain ⟨_, rfl, rfl, rfl⟩ := runs_inferLocals_nil run
      exact ⟨assign, .refl setting.ready, follow, setting⟩
  | @cons scope inner decl rest ty declTyped _ inductionHypothesis =>
      obtain ⟨_, _, _, _, _, _, declRun, restRun, _, rfl⟩ :=
        runs_inferLocals_cons run
      obtain ⟨drawn, drawReaches, drawSetting, isTy⟩ := setting.drawOne ty
      obtain ⟨_, declReaches, declFollow, declSetting⟩ :=
        inferVarDecl_complete declRun drawSetting
          (follow.change drawReaches.agrees rfl drawReaches.grows)
          (before.within_firstDrawn 0) isTy declTyped
      obtain ⟨changed, restReaches, restFollow, restSetting⟩ :=
        inductionHypothesis restRun
          (declSetting.narrow declReaches.within declReaches.solved)
          declFollow
      exact ⟨changed,
        drawReaches.append (declReaches.append restReaches), restFollow,
        restSetting⟩

end Variables

namespace Setting

variable {scope : Scope} {known : String → Prop} {context : Context}
variable {state : State} {assign : Assignment}

theorem bindFun
    {name : String}
    {signature : Signature}
    (setting : Setting scope known assign state context)
    (within : signature.Within (Below anyVar state.nextVar))
    (inScope : scope.funs name = some (signature.instantiate assign)) :
    Setting scope known assign state (context.bindFun name signature) where
  scene := ⟨setting.scene.supply, setting.scene.context.bindFun name within⟩
  vars := setting.vars
  funs := by
    intro other otherSignature bound
    rw [Context.bindFun, Table.get?_insert] at bound
    split at bound
    · rename_i isName
      cases bound
      rw [isName, inScope]
    · exact setting.funs other otherSignature bound
  knows := by
    intro other isKnown
    have bound := setting.knows other isKnown
    rw [Table.contains] at bound
    rw [Context.bindFun, Table.contains, Table.get?_insert]
    split
    · rfl
    · exact bound
  ready := setting.ready

theorem bindArgs
    {types : List Ty}
    (setting : Setting scope known assign state context)
    (args : List Name)
    (within : ∀ ty ∈ types, ty.Within (Below anyVar state.nextVar)) :
    Setting (scope.bindArgs args (types.map (Ty.instantiate assign))) known
      assign state (context.bindArgs args types) := by
  induction args generalizing scope context types with
  | nil => exact setting
  | cons arg args inductionHypothesis =>
      cases types with
      | nil => exact setting
      | cons ty types =>
          obtain ⟨tyWithin, restWithin⟩ := List.forall_mem_cons.mp within
          exact inductionHypothesis (setting.bindVar arg.text tyWithin)
            restWithin

end Setting

namespace Assignment

/-- New variables may be given any types. -/
theorem exists_drawnTys
    (assign : Assignment)
    (start : TypeVar)
    (types : List Ty) :
    ∃ changed,
      AgreesBelow start assign changed ∧
        (drawnTys start types.length).map (Ty.instantiate changed) = types := by
  induction types generalizing assign start with
  | nil => exact ⟨assign, .refl _ _, rfl⟩
  | cons ty types inductionHypothesis =>
      obtain ⟨changed, agrees, areTypes⟩ :=
        inductionHypothesis (assign.set start ty) (start + 1)
      have setAgrees := assign.agreesBelow_set ty (Nat.le_refl start)
      have isTy : changed start = ty :=
        (agrees start (Nat.lt_succ_self _)).trans (assign.set_self start ty)
      refine ⟨changed, setAgrees.trans agrees (Nat.le_succ _), ?_⟩
      rw [List.length_cons, drawnTys, List.map_cons, areTypes]
      exact congrArg (· :: types) isTy

/-- The signature of a function can stand for any signature of its length. -/
theorem exists_freshShape
    {count : Nat}
    {signature : Signature}
    (assign : Assignment)
    (start : TypeVar)
    (sameLength : count = signature.params.length) :
    ∃ changed,
      AgreesBelow start assign changed ∧
        (freshShape start count).instantiate changed = signature := by
  subst sameLength
  obtain ⟨changed, agrees, areParams⟩ :=
    assign.exists_drawnTys start signature.params
  have setAgrees :=
    changed.agreesBelow_set signature.result
      (Nat.le_refl (start + signature.params.length))
  have sameParams :
      (drawnTys start signature.params.length).map
          (Ty.instantiate
            (changed.set (start + signature.params.length) signature.result)) =
        (drawnTys start signature.params.length).map
          (Ty.instantiate changed) :=
    List.map_congr_left fun param member =>
      setAgrees.instantiate (drawnTys_within (fun _ _ => trivial) param member)
  refine ⟨_, agrees.trans setAgrees (Nat.le_add_right _ _), ?_⟩
  rw [Signature.instantiate, freshShape, sameParams, areParams]
  exact congrArg (Signature.mk _) (changed.set_self _ _)

end Assignment

/-- From a state without errors there are none to take away. -/
theorem State.Clean.withErrors
    {state : State}
    (clean : state.Clean) :
    state.withErrors [] = state := by
  rw [← (clean : state.diagnostics.errors = [])]
  rfl

/-- Types that stand for the same type are unified in any state alike. -/
theorem unifyOrReport_elsewhere
    {assign : Assignment}
    {left right : Ty}
    {flow : Flow}
    {explain : UnifyError → TypeError}
    {found : Substitution}
    {before after : State}
    (run : Runs (unifyOrReport left right flow explain) before found after)
    (same : left.instantiate assign = right.instantiate assign)
    (state : State) :
    Runs (unifyOrReport left right flow explain) state found state := by
  obtain ⟨bindings, unified, _⟩ := unify_of_equal flow same
  rw [unifyOrReport, unified] at run ⊢
  exact runs_pure.mpr ⟨(runs_pure.mp run).1, rfl⟩

section Functions

variable {scope : Scope} {known : String → Prop} {named : String → Ty}

/-- A written signature and the inferred type stand for what is meant. -/
theorem signatureTy_complete
    {written : WrittenSignature}
    {signature : Signature}
    {declared inferred : Ty}
    {context : Context}
    {before after : State}
    {assign : Assignment}
    (run : Runs (signatureTy written) before declared after)
    (setting : Setting scope known assign before context)
    (follow : before.NamesFollow assign named)
    (means : written.meaning named = signature)
    (inferredWithin : inferred.Within (Below anyVar before.nextVar))
    (isSignature : inferred.instantiate assign = signature.toTy) :
    ∃ changed,
      Reaches scope.funs known before assign [] after changed ∧
        after.NamesAgree changed named ∧
        declared.Within (Below anyVar after.nextVar) ∧
        declared.instantiate changed = signature.toTy ∧
        inferred.instantiate changed = signature.toTy := by
  obtain ⟨changed, reaches, afterFollow⟩ :=
    (signatureTy_names run).reaches setting follow
  refine ⟨changed, reaches, afterFollow.agree, ?_, ?_, ?_⟩
  · intro id member
    obtain ⟨name, _, isNamed⟩ := signatureTy_vars run member
    exact ⟨trivial, afterFollow.drawn name id isNamed⟩
  · rw [← signatureTy_meaning run afterFollow.agree, means]
  · rw [reaches.agrees.instantiate inferredWithin, isSignature]

/--
A function is compared with the signature that is written for it. Its names
stand for distinct type variables, so the only errors are about names that are
split.
-/
theorem signatureFindings_complete
    {decl : FunDecl}
    {signature : Signature}
    {inferred : Ty}
    {context : Context}
    {found : Substitution}
    {before after : State}
    {assign : Assignment}
    (run :
      Runs (signatureFindings decl.name decl.written inferred) before found
        after)
    (setting : Setting scope known assign before context)
    (follow : before.NamesFollow assign named)
    (generic : ∀ ty ∈ decl.written, ty.Generic named)
    (means : ∀ ty ∈ decl.written, ty.meaning named = signature)
    (inferredWithin : inferred.Within (Below anyVar before.nextVar))
    (isSignature : inferred.instantiate assign = signature.toTy) :
    ∃ changed,
      Reaches scope.funs known before assign found (after.withErrors [])
          changed ∧
        ∀ error ∈ after.diagnostics.errors,
          SplitName signature decl error := by
  have startClean := setting.ready.clean
  cases isWritten : decl.written with
  | none =>
      rw [isWritten] at run
      obtain ⟨rfl, rfl⟩ := runs_pure.mp run
      rw [startClean.withErrors, startClean]
      exact ⟨assign, .refl setting.ready, nofun⟩
  | some written =>
      rw [isWritten] at run
      cases signatureRun_of_runs run with
      | @unshared _ _ middle _ _ signatureRun differs asked =>
          obtain ⟨changed, reaches, agree, declaredWithin, isDeclared,
              isInferred⟩ :=
            signatureTy_complete signatureRun setting follow
              (means written isWritten) inferredWithin isSignature
          have same := isDeclared.trans isInferred.symm
          have unified :=
            reaches.unified (unifyOrReport_elsewhere asked same _) same
              declaredWithin (inferredWithin.mono (Below.mono reaches.grows))
          obtain ⟨_, rfl⟩ := unifyOrReport_of_equal asked same
          refine ⟨changed, ?_, ?_⟩
          · rwa [← unified.ready.clean.withErrors] at unified
          · intro error member
            have only : error ∈ middle.diagnostics.errors ++ [_] := member
            rw [reaches.ready.clean, List.nil_append,
              List.mem_singleton] at only
            rw [only]
            exact signatureTy_split isWritten signatureRun agree
              (generic written isWritten) isDeclared isInferred differs
      | shared signatureRun _ asked =>
          obtain ⟨changed, reaches, _, declaredWithin, isDeclared,
              isInferred⟩ :=
            signatureTy_complete signatureRun setting follow
              (means written isWritten) inferredWithin isSignature
          have unified :=
            reaches.unified asked (isDeclared.trans isInferred.symm)
              declaredWithin (inferredWithin.mono (Below.mono reaches.grows))
          have clean := unified.ready.clean
          rw [clean.withErrors, clean]
          exact ⟨changed, unified, nofun⟩

/--
What holds before a declaration: all findings of earlier declarations are solved
as well.
-/
structure Course
    (scope : Scope)
    (known : String → Prop)
    (assign : Assignment)
    (state : State)
    (context : Context) :
    Prop extends Setting scope known assign state context where
  settledWithin : state.settled.Within (Below anyVar state.nextVar)
  settledSolved : state.settled.SolvedBy assign

namespace Course

variable {context : Context} {before after : State}
variable {assign changed : Assignment} {found : Substitution}

theorem of_setting
    (course : Course scope known assign before context)
    {later : String → Prop}
    {outer : Scope}
    {context' : Context}
    (setting : Setting outer later changed after context')
    (agrees : Assignment.AgreesBelow before.nextVar assign changed)
    (grows : before.nextVar ≤ after.nextVar)
    (sameSettled : after.settled = before.settled) :
    Course outer later changed after context' where
  toSetting := setting
  settledWithin := by
    rw [sameSettled]
    exact course.settledWithin.mono (Below.mono grows)
  settledSolved := by
    rw [sameSettled]
    exact agrees.solvedBy course.settledWithin course.settledSolved

/-- The findings of a declaration are settled, and narrow what comes after it. -/
theorem settle
    (course : Course scope known assign before context)
    (within : found.Within (Below anyVar before.nextVar))
    (solved : found.SolvedBy assign) :
    Course scope known assign (before.settle found)
      (context.narrow found) :=
  have narrowed := course.toSetting.narrow within solved
  { narrowed with
    scene := ⟨narrowed.scene.supply, narrowed.scene.context⟩
    ready := ⟨narrowed.ready.clean, narrowed.ready.waiting⟩
    settledWithin :=
      Substitution.within_append.mpr ⟨course.settledWithin, within⟩
    settledSolved :=
      Substitution.solvedBy_append.mpr ⟨course.settledSolved, solved⟩ }

end Course

/-- The context in which a call that waited is checked is again a setting. -/
theorem PendingTyped.reachedSetting
    {earlier : String → Prop}
    {function : String}
    {pending : PendingCall}
    {context : Context}
    {found : Substitution}
    {state : State}
    {assign : Assignment}
    (typed : PendingTyped scope.funs earlier assign state.nextVar function pending)
    (course : Course scope known assign state context)
    (foundWithin : found.Within (Below anyVar state.nextVar))
    (foundSolved : found.SolvedBy assign) :
    ∃ vars,
      CallHasType .inferable ⟨vars, scope.funs⟩ pending.call
          (pending.expected.instantiate assign) ∧
        Setting ⟨vars, scope.funs⟩ known assign state
          (pending.reached state.settled found context) := by
  obtain ⟨vars, varsModel, callHas⟩ := typed.typed
  have narrowedVars :=
    (varsModel.narrow course.settledSolved).narrow foundSolved
  have reachedWithin :=
    PendingCall.reached_within typed.contextWithin course.settledWithin
      foundWithin course.scene.context
  exact ⟨vars, callHas,
    { scene := ⟨fun _ _ => trivial, reachedWithin⟩
      vars := narrowedVars
      funs := course.funs
      knows := course.knows
      ready := course.ready }⟩

/-- Recording the checked copy of a call changes nothing else. -/
theorem Reaches.resolve
    {before after : State}
    {assign changed : Assignment}
    {found : Substitution}
    (reaches : Reaches scope.funs known before assign found after changed)
    (id : CallId)
    (call : Call) :
    Reaches scope.funs known before assign found (after.resolve id call)
      changed where
  grows := reaches.grows
  agrees := reaches.agrees
  within := reaches.within
  solved := reaches.solved
  ready := ⟨reaches.ready.clean, reaches.ready.waiting⟩

/-- Well-typed calls that waited reach their types. -/
theorem inferWaiting_complete
    {earlier : String → Prop}
    {function : String}
    {waiting : List PendingCall}
    {context context' : Context}
    {found extended : Substitution}
    {start before after : State}
    {assign changed : Assignment}
    (run :
      Runs (inferWaiting function waiting context found) before
        (context', extended) after)
    (course : Course scope known changed before context)
    (reaches : Reaches scope.funs known start assign found before changed)
    (typed :
      ∀ pending ∈ waiting,
        PendingTyped scope.funs earlier changed before.nextVar function
          pending) :
    ∃ later,
      Reaches scope.funs known start assign extended after later ∧
        Course scope known later after context' := by
  induction waiting generalizing context found before changed with
  | nil =>
      cases waitingRun_of_runs run
      exact ⟨changed, reaches, course⟩
  | cons pending rest inductionHypothesis =>
      obtain ⟨pendingTyped, restTyped⟩ := List.forall_mem_cons.mp typed
      obtain ⟨vars, callHas, reached⟩ :=
        pendingTyped.reachedSetting course reaches.within reaches.solved
      have expectedWithin :=
        reaches.within.apply
          (course.settledWithin.apply pendingTyped.expectedWithin)
      have isExpected :
          (found.apply (before.settled.apply pending.expected)).instantiate
              changed =
            pending.expected.instantiate changed := by
        rw [reaches.solved.instantiate_apply,
          course.settledSolved.instantiate_apply]
      cases waitingRun_of_runs run with
      | void expectedEq callRun guarded isVoid =>
          subst expectedEq
          obtain ⟨_, callReaches⟩ :=
            inferCall_complete pending.call callRun reached expectedWithin
              callHas isExpected (fun guarded => by cases guarded)
          have notVoid :=
            callReaches.not_void expectedWithin isExpected
              (pendingTyped.value guarded)
          exact absurd isVoid (Bool.eq_false_iff.mp notVoid)
      | @next _ _ call _ _ _ _ _ _ expectedEq callRun _ restRun =>
          subst expectedEq
          obtain ⟨_, callReaches⟩ :=
            inferCall_complete pending.call callRun reached expectedWithin
              callHas isExpected (fun guarded => by cases guarded)
          have resolved :
              Reaches scope.funs known before changed _ _ _ :=
            callReaches.resolve pending.id call
          have nextCourse :=
            course.of_setting (course.toSetting.step resolved) resolved.agrees
              resolved.grows (inferCall_grows callRun).settled
          exact inductionHypothesis restRun nextCourse
            (reaches.append resolved)
            fun other member =>
              (restTyped other member).change resolved.agrees resolved.grows

theorem Scope.bindArgs_funs
    (scope : Scope)
    (args : List Name)
    (types : List Ty) :
    (scope.bindArgs args types).funs = scope.funs := by
  induction args generalizing scope types with
  | nil => rfl
  | cons arg args inductionHypothesis =>
      cases types with
      | nil => rfl
      | cons ty types => exact inductionHypothesis (scope.bindVar arg.text ty) types

/-- The parameters and the result of a function stand for its signature. -/
theorem FunDecl.start
    {decl : FunDecl}
    {inner : Scope}
    {signature : Signature}
    {context : Context}
    {before : State}
    {assign : Assignment}
    (setting : Setting scope known assign before context)
    (typed : FunDeclTyped .inferable scope decl signature named inner) :
    ∃ drawn,
      Reaches scope.funs known before assign []
          (before.unnamed.draw (decl.args.length + 1)) drawn ∧
        (freshShape before.nextVar decl.args.length).instantiate drawn =
          signature ∧
        Setting (scope.bindArgs decl.args signature.params) known drawn
          (before.unnamed.draw (decl.args.length + 1))
          (decl.inner context
            (freshShape before.nextVar decl.args.length)) := by
  obtain ⟨drawn, agrees, isShape⟩ :=
    assign.exists_freshShape before.nextVar typed.sameLength
  have grows : before.nextVar ≤ before.nextVar + (decl.args.length + 1) :=
    Nat.le_add_right _ _
  have reaches :
      Reaches scope.funs known before assign []
        (before.unnamed.draw (decl.args.length + 1)) drawn :=
    { grows
      agrees
      within := Substitution.within_nil
      solved := Substitution.solvedBy_nil drawn
      ready := setting.ready.change agrees grows rfl rfl }
  have shapeWithin :=
    freshShape_within setting.scene.supply decl.args.length
  have argsSetting :=
    (setting.change reaches).bindArgs decl.args shapeWithin.1
  have areParams :
      (freshShape before.nextVar decl.args.length).params.map
          (Ty.instantiate drawn) =
        signature.params :=
    congrArg Signature.params isShape
  rw [areParams] at argsSetting
  refine ⟨drawn, reaches, isShape, argsSetting.bindFun shapeWithin ?_⟩
  rw [Scope.bindArgs_funs, isShape]
  exact typed.known

/-- The local variables and the body of a function are inferred. -/
theorem inferBody_complete
    {decl : FunDecl}
    {inner : Scope}
    {signature : Signature}
    {locals : List VarDecl}
    {body : List Stmt}
    {context context' : Context}
    {found more : Substitution}
    {before middle last : State}
    {assign : Assignment}
    {shape : Signature}
    (localsRun :
      Runs (inferLocals decl.locals context) before (locals, context', found)
        middle)
    (bodyRun :
      Runs (inferBlock decl.body context' (found.apply shape.result)) middle
        (body, more) last)
    (setting :
      Setting (scope.bindArgs decl.args signature.params) known assign before
        context)
    (follow : before.NamesFollow assign named)
    (shapeWithin : shape.Within (Below anyVar before.nextVar))
    (isShape : shape.instantiate assign = signature)
    (typed : FunDeclTyped .inferable scope decl signature named inner) :
    ∃ changed,
      Reaches scope.funs known before assign (found ++ more) last changed ∧
        last.NamesFollow changed named := by
  obtain ⟨_, localsReaches, localsFollow, innerSetting⟩ :=
    inferLocals_complete localsRun setting follow typed.localsTyped
  have isResult := localsReaches.instantiate_apply shapeWithin.2
  obtain ⟨changed, bodyReaches⟩ :=
    inferBlock_complete decl.body bodyRun innerSetting
      (localsReaches.applyWithin shapeWithin.2) typed.bodyTyped
      (isResult.trans (congrArg Signature.result isShape))
  rw [typed.localsTyped.funs] at bodyReaches
  rw [Scope.bindArgs_funs] at localsReaches bodyReaches
  have grows := inferBlock_grows bodyRun
  exact ⟨changed, localsReaches.append bodyReaches,
    localsFollow.change bodyReaches.agrees grows.names grows.nextVar⟩

/-- What is asked of a call is not asked of the calls that are taken. -/
theorem State.Ready.without
    {state : State}
    {assign : Assignment}
    (ready : state.Ready scope.funs known assign)
    (function : String) :
    (state.without function).Ready scope.funs
      (fun name => name = function ∨ known name) assign where
  clean := ready.clean
  waiting :=
    (ready.waiting.without function).mono
      (fun _ _ ⟨typed, differs⟩ =>
        { typed with unknown := not_or.mpr ⟨differs, typed.unknown⟩ })
      rfl

/--
A function is inferred and compared with its written signature. The only errors
are about names that are split.
-/
theorem comparedFunDecl_complete
    {decl : FunDecl}
    {inner : Scope}
    {signature : Signature}
    {locals : List VarDecl}
    {body : List Stmt}
    {context context' : Context}
    {expected : Ty}
    {demand : Demand}
    {span : Span}
    {found more shaped written : Substitution}
    {before middle last asked' compared : State}
    {assign : Assignment}
    {shape : Signature}
    (shapeEq : shape = freshShape before.nextVar decl.args.length)
    (localsRun :
      Runs (inferLocals decl.locals (decl.inner context shape))
        (before.unnamed.draw (decl.args.length + 1))
        (locals, context', found) middle)
    (bodyRun :
      Runs (inferBlock decl.body context' (found.apply shape.result)) middle
        (body, more) last)
    (asked :
      Runs
        (constrain ((found ++ more).apply expected)
          ((found ++ more).apply shape.toTy) demand span)
        last shaped asked')
    (signatureRun :
      Runs
        (signatureFindings decl.name decl.written
          ((found ++ more ++ shaped).apply shape.toTy))
        asked' written compared)
    (setting : Setting scope known assign before context)
    (generic : ∀ ty ∈ decl.written, ty.Generic named)
    (expectedWithin : expected.Within (Below anyVar before.nextVar))
    (isSignature : expected.instantiate assign = signature.toTy)
    (typed : FunDeclTyped .inferable scope decl signature named inner) :
    ∃ changed,
      Reaches scope.funs known before assign
          (found ++ more ++ shaped ++ written) (compared.withErrors [])
          changed ∧
        shape.Within (Below anyVar compared.nextVar) ∧
        shape.instantiate changed = signature ∧
        ∀ error ∈ compared.diagnostics.errors,
          SplitName signature decl error := by
  subst shapeEq
  have shapeWithin := freshShape_within setting.scene.supply decl.args.length
  obtain ⟨drawn, startReaches, isShape, innerSetting⟩ :=
    FunDecl.start setting typed
  obtain ⟨bodyAssign, bodyReaches, bodyFollow⟩ :=
    inferBody_complete localsRun bodyRun innerSetting ⟨nofun, nofun⟩
      shapeWithin isShape typed
  have whole :
      Reaches scope.funs known before assign (found ++ more) last bodyAssign :=
    startReaches.append bodyReaches
  have shapeStill := bodyReaches.agrees.signature shapeWithin
  rw [isShape] at shapeStill
  have shapeIs := congrArg Signature.toTy shapeStill
  rw [← Signature.toTy_instantiate] at shapeIs
  have asking :=
    whole.unified asked
      (by
        rw [whole.instantiate_apply expectedWithin, isSignature,
          whole.solved.instantiate_apply, shapeIs])
      (whole.applyWithin expectedWithin)
      (bodyReaches.applyWithin shapeWithin.toTy)
  have askedGrows := unifyOrReport_grows asked
  have askedWithin :=
    shapeWithin.mono
      (Below.mono (Nat.le_trans bodyReaches.grows askedGrows.nextVar))
  obtain ⟨changed, writtenReaches, areSplit⟩ :=
    signatureFindings_complete signatureRun (setting.change asking)
      (bodyFollow.change (.refl _ _) askedGrows.names askedGrows.nextVar)
      generic typed.written (asking.within.apply askedWithin.toTy)
      ((asking.solved.instantiate_apply _).trans shapeIs)
  refine ⟨changed, asking.append writtenReaches,
    askedWithin.mono (Below.mono writtenReaches.grows), ?_, areSplit⟩
  rw [writtenReaches.agrees.signature askedWithin, shapeStill]

/--
A function is known once it is inferred, and the calls that waited for it are
taken from the state.
-/
theorem Course.declare
    {name : String}
    {shape : Signature}
    {context : Context}
    {found : Substitution}
    {before after : State}
    {assign changed : Assignment}
    (course : Course scope known assign before context)
    (reaches : Reaches scope.funs known before assign found after changed)
    (shapeWithin : shape.Within (Below anyVar after.nextVar))
    (inScope : scope.funs name = some (shape.instantiate changed))
    (sameSettled : after.settled = before.settled) :
    Course scope (fun other => other = name ∨ known other) changed
      (after.without name) ((context.bindFun name shape).narrow found) := by
  have outer :=
    ((course.toSetting.change reaches).bindFun shapeWithin inScope).narrow
      reaches.within reaches.solved
  have knows : ∀ other, other = name ∨ known other →
      ((context.bindFun name shape).narrow found).funs.contains other =
        true := by
    rintro other (rfl | isKnown)
    · rw [Context.narrow_contains, Context.bindFun, Table.contains,
        Table.get?_insert, if_pos rfl]
      rfl
    · exact outer.knows other isKnown
  exact course.of_setting
    { outer with
      scene := ⟨outer.scene.supply, outer.scene.context⟩
      knows
      ready := reaches.ready.without name }
    reaches.agrees reaches.grows sameSettled

/--
A function is declared, and the calls that waited for it are checked. The only
errors are about names that are split.
-/
theorem inferFunDecl_complete
    {decl decl' : FunDecl}
    {inner : Scope}
    {signature : Signature}
    {context context' : Context}
    {expected : Ty}
    {found : Substitution}
    {before after : State}
    {assign : Assignment}
    (run :
      Runs (inferFunDecl decl context expected) before
        (decl', context', found) after)
    (course : Course scope known assign before context)
    (free : context.funs.contains decl.name.text = false)
    (generic : ∀ ty ∈ decl.written, ty.Generic named)
    (expectedWithin : expected.Within (Below anyVar before.nextVar))
    (isSignature : expected.instantiate assign = signature.toTy)
    (typed : FunDeclTyped .inferable scope decl signature named inner) :
    ∃ changed,
      Reaches scope.funs (fun name => name = decl.name.text ∨ known name) before
          assign found (after.withErrors []) changed ∧
        Course scope (fun name => name = decl.name.text ∨ known name) changed
          (after.withErrors []) context' ∧
        ∀ error ∈ after.diagnostics.errors,
          SplitName signature decl error := by
  cases funDeclRun_of_runs run with
  | taken isTaken =>
      rw [isTaken] at free
      cases free
  | repeated isRepeated =>
      rw [firstRepeated?_eq_none.mpr ⟨typed.distinct, by simp⟩] at isRepeated
      cases isRepeated
  | bound _ _ shapeEq localsRun bodyRun asked signatureRun waitingRun =>
      obtain ⟨_, reaches, shapeWithin, isShape, areSplit⟩ :=
        comparedFunDecl_complete shapeEq localsRun bodyRun asked signatureRun
          course.toSetting generic expectedWithin isSignature typed
      have declares :=
        comparedFunDecl_declares localsRun bodyRun asked signatureRun
      have outerCourse :=
        course.declare reaches shapeWithin (isShape ▸ typed.known)
          declares.settled
      -- The calls that waited are checked as if no name had been split.
      obtain ⟨errors, addedErrors, _, replay⟩ :=
        (inferWaiting_reports _ _ _ _).added waitingRun
      obtain ⟨changed, waitingReaches, waitingCourse⟩ :=
        inferWaiting_complete (replay []) outerCourse
          { reaches with ready := outerCourse.ready }
          fun pending member => reaches.ready.waiting.taken member
      have noErrors : errors = [] := waitingReaches.ready.clean
      subst noErrors
      refine ⟨changed, waitingReaches, waitingCourse, ?_⟩
      rw [addedErrors, List.append_nil]
      exact areSplit

end Functions

section Programs

variable {scope : Scope} {known : String → Prop}

theorem CallHasType.inScope
    {rules : Rules}
    {call : Call}
    {ty : Ty}
    (has : CallHasType rules scope call ty) :
    ∃ signature, scope.funs call.callee.text = some signature := by
  cases has with
  | apply known => exact ⟨_, known⟩

/-- The pass over well-typed globals records no error. -/
theorem inferGlobals_complete
    {decls decls' : List Decl}
    {outer : Scope}
    {context context' : Context}
    {before after : State}
    {assign : Assignment}
    (run : Runs (inferGlobals decls context) before (decls', context') after)
    (course : Course scope known assign before context)
    (typed : GlobalsTyped .inferable scope (decls.filterMap Decl.var?) outer) :
    ∃ changed,
      Course outer known changed after context' ∧
        decls'.filterMap Decl.fn? = decls.filterMap Decl.fn? := by
  induction decls generalizing decls' scope context before assign with
  | nil =>
      cases globalsRun_of_runs run
      cases typed
      exact ⟨assign, course, rfl⟩
  | cons decl rest inductionHypothesis =>
      cases globalsRun_of_runs run with
      | @fn decl _ _ _ _ restRun =>
          obtain ⟨changed, restCourse, sameFns⟩ :=
            inductionHypothesis restRun course typed
          exact ⟨changed, restCourse, congrArg (decl :: ·) sameFns⟩
      | @var decl _ _ _ _ _ _ _ _ declRun restRun =>
          cases (typed : GlobalsTyped .inferable scope
            (decl :: rest.filterMap Decl.var?) outer) with
          | @cons _ _ named _ _ ty declTyped restTyped =>
              obtain ⟨drawn, drawReaches, _, isTy⟩ :=
                course.toSetting.drawOne ty
              have startReaches :
                  Reaches scope.funs known before assign []
                    (before.draw 1).unnamed drawn :=
                { drawReaches with
                  ready :=
                    ⟨drawReaches.ready.clean, drawReaches.ready.waiting⟩ }
              obtain ⟨_, declReaches, _, declSetting⟩ :=
                inferVarDecl_complete declRun
                  (course.toSetting.change startReaches)
                  (.unnamed drawn named _) (before.within_firstDrawn 0) isTy
                  declTyped
              have reaches := startReaches.append declReaches
              have declCourse :=
                course.of_setting declSetting reaches.agrees reaches.grows
                  (inferVarDecl_declares declRun).settled
              have restComplete :=
                inductionHypothesis restRun
                  (declCourse.settle declReaches.within declReaches.solved)
                  restTyped
              exact restComplete

/--
A function is declared at its signature, with written names that stand for
distinct type variables.
-/
def GenericallyTyped (scope : Scope) (decl : FunDecl) : Prop :=
  ∃ signature named inner,
    FunDeclTyped .inferable scope decl signature named inner ∧
      ∀ written ∈ decl.written, written.Generic named

/--
Functions are declared one after the other. A function that is inferred too
generally is reported, and its written signature is used for what comes after.
-/
theorem inferFunctions_complete
    {decls decls' : List Decl}
    {context context' : Context}
    {before after : State}
    {assign : Assignment}
    (run : Runs (inferFunctions decls context) before (decls', context') after)
    (course : Course scope known assign (before.withErrors []) context)
    (typed :
      ∀ decl ∈ decls.filterMap Decl.fn?, GenericallyTyped scope decl)
    (distinct :
      ((decls.filterMap Decl.fn?).map fun decl => decl.name.text).Nodup)
    (free :
      ∀ decl ∈ decls.filterMap Decl.fn?,
        context.funs.contains decl.name.text = false) :
    ∃ final changed,
      Course scope final changed (after.withErrors []) context' ∧
        (∀ name, known name → final name) ∧
        (∀ decl ∈ decls.filterMap Decl.fn?, final decl.name.text) ∧
        ∀ error ∈ after.diagnostics.errors,
          error ∈ before.diagnostics.errors ∨
            ∃ decl ∈ decls.filterMap Decl.fn?, ∃ signature,
              scope.funs decl.name.text = some signature ∧
                SplitName signature decl error := by
  induction decls generalizing decls' known context before assign with
  | nil =>
      cases functionsRun_of_runs run
      exact ⟨known, assign, course, fun _ => id, by simp, fun _ => Or.inl⟩
  | cons decl rest inductionHypothesis =>
      cases functionsRun_of_runs run with
      | var restRun =>
          have restComplete :=
            inductionHypothesis restRun course typed distinct free
          exact restComplete
      | @fn decl _ _ _ between _ found middle _ declRun restRun =>
          obtain ⟨⟨signature, named, inner, declTyped, generic⟩, restTyped⟩ :=
            List.forall_mem_cons.mp typed
          obtain ⟨declFree, restFree⟩ := List.forall_mem_cons.mp free
          obtain ⟨differ, restDistinct⟩ := List.nodup_cons.mp distinct
          obtain ⟨drawn, drawReaches, drawSetting, isSignature⟩ :=
            course.toSetting.drawOne signature.toTy
          have drawCourse :=
            course.of_setting drawSetting drawReaches.agrees drawReaches.grows
              rfl
          -- The function is inferred as if there had been no error before it.
          obtain ⟨errors, addedErrors, _, replay⟩ :=
            (inferFunDecl_reports _ _ _).added declRun
          obtain ⟨_, declReaches, declCourse, areSplit⟩ :=
            inferFunDecl_complete (replay []) drawCourse declFree generic
              (before.within_firstDrawn 0) isSignature declTyped
          have stillFree : ∀ other ∈ rest.filterMap Decl.fn?,
              (between.narrow found).funs.contains other.name.text = false := by
            intro other member
            rw [Context.narrow_contains, Bool.eq_false_iff]
            intro isBound
            rcases inferFunDecl_binds declRun isBound with same | wasBound
            · exact differ (List.mem_map.mpr ⟨other, member, same⟩)
            · rw [restFree other member] at wasBound
              cases wasBound
          obtain ⟨final, changed, finalCourse, widens, restFinal, restErrors⟩ :=
            inductionHypothesis restRun
              (declCourse.settle declReaches.within declReaches.solved)
              restTyped restDistinct stillFree
          refine ⟨final, changed, finalCourse,
            fun name isKnown => widens name (Or.inr isKnown),
            List.forall_mem_cons.mpr ⟨widens _ (Or.inl rfl), restFinal⟩, ?_⟩
          intro error isError
          rcases restErrors error isError with earlier | ⟨other, isOther, split⟩
          · have inMiddle : error ∈ middle.diagnostics.errors := earlier
            rw [addedErrors] at inMiddle
            rcases List.mem_append.mp inMiddle with wasError | isNew
            · exact Or.inl wasError
            · exact Or.inr ⟨decl, List.mem_cons_self, signature,
                declTyped.known, areSplit error isNew⟩
          · exact Or.inr ⟨other, List.mem_cons_of_mem _ isOther, split⟩

/-- A run starts with nothing bound and nothing known. -/
theorem Course.initial (funs : String → Option Signature) :
    Course ⟨fun _ => none, funs⟩ (fun _ => False) Ty.var .initial .empty where
  scene := ⟨fun _ _ => trivial, nofun, nofun⟩
  vars := fun _ => rfl
  funs := nofun
  knows := nofun
  ready := ⟨rfl, nofun⟩
  settledWithin := Substitution.within_nil
  settledSolved := Substitution.solvedBy_nil _

/--
A program that is typed by the rules, with names that stand for distinct type
variables, has no errors but those about names that are split.
-/
theorem ProgramTyped.errors_split
    {program : Program}
    (typed : ProgramTyped .inferable scope program)
    (generic : ∀ decl ∈ program.functions, GenericallyTyped scope decl) :
    ∀ error ∈ program.infer.state.diagnostics.errors,
      ∃ decl ∈ program.functions, ∃ signature,
        scope.funs decl.name.text = some signature ∧
          SplitName signature decl error := by
  obtain ⟨globals, context, middle, last, globalsRun, functionsRun, _,
    reportRun⟩ := program.infer_runs
  obtain ⟨_, globalsCourse, sameFns⟩ :=
    inferGlobals_complete globalsRun (.initial scope.funs) typed.globalsTyped
  have middleClean := globalsCourse.ready.clean
  rw [← middleClean.withErrors] at globalsCourse
  have sameFunctions : globals.filterMap Decl.fn? = program.functions := sameFns
  have free : ∀ decl ∈ globals.filterMap Decl.fn?,
      context.funs.contains decl.name.text = false := by
    intro decl _
    rw [inferGlobals_contains globalsRun]
    rfl
  obtain ⟨final, _, course, _, allFinal, areSplit⟩ :=
    inferFunctions_complete functionsRun globalsCourse
      (sameFunctions ▸ generic) (sameFunctions ▸ typed.distinct) free
  have noneWaits : last.pending.queues.flatMap CallQueue.calls = [] := by
    rw [List.flatMap_eq_nil_iff]
    intro queue inQueues
    rw [List.eq_nil_iff_forall_not_mem]
    intro pending inQueue
    -- A call that still waits has a callee in scope, which has been declared.
    have waits := course.ready.waiting queue inQueues pending inQueue
    obtain ⟨_, _, callHas⟩ := waits.typed
    obtain ⟨signature, inScope⟩ := callHas.inScope
    obtain ⟨decl, member, sameName⟩ := typed.declared _ signature inScope
    rw [← sameFunctions] at member
    have isFinal := allFinal decl member
    rw [sameName, waits.calleeEq] at isFinal
    exact waits.unknown isFinal
  intro error isError
  rw [reportWaiting_errors reportRun, noneWaits, List.map_nil,
    List.append_nil] at isError
  rcases areSplit error isError with inMiddle | ⟨decl, isDecl, split⟩
  · rw [middleClean] at inMiddle
    cases inMiddle
  · rw [sameFunctions] at isDecl
    exact ⟨decl, isDecl, split⟩

/-- A name that stands in its signature once is not split. -/
theorem ProgramTyped.accepted_of_nodup
    {program : Program}
    (typed : ProgramTyped .inferable scope program)
    (generic : ∀ decl ∈ program.functions, GenericallyTyped scope decl)
    (once :
      ∀ decl ∈ program.functions, ∀ written ∈ decl.written,
        written.names.Nodup) :
    program.Accepted := by
  rw [Program.Accepted, State.Clean, List.eq_nil_iff_forall_not_mem]
  intro error isError
  obtain ⟨decl, isDecl, _, _, split⟩ := typed.errors_split generic error isError
  obtain ⟨written, isWritten, repeats⟩ := split.repeated
  exact repeats (once decl isDecl written isWritten)

/-- A typed program with written signatures that name nothing is accepted. -/
theorem ProgramTyped.accepted
    {program : Program}
    (typed : ProgramTyped .inferable scope program)
    (closed :
      ∀ decl ∈ program.functions, ∀ ty ∈ decl.written, ty.names = []) :
    program.Accepted := by
  refine typed.accepted_of_nodup ?_ ?_
  · intro decl isDecl
    obtain ⟨signature, named, inner, declTyped⟩ :=
      typed.functionsTyped decl isDecl
    refine ⟨signature, named, inner, declTyped, fun written isWritten => ?_⟩
    have unnamed := closed decl isDecl written isWritten
    exact ⟨by simp [unnamed], by simp [unnamed]⟩
  · intro decl isDecl written isWritten
    rw [closed decl isDecl written isWritten]
    exact List.nodup_nil

/-- The rules do not look at the order of functions. -/
theorem ProgramTyped.reorder
    {rules : Rules}
    {program reordered : Program}
    (typed : ProgramTyped rules scope program)
    (sameVariables : reordered.globals = program.globals)
    (permuted : reordered.functions.Perm program.functions) :
    ProgramTyped rules scope reordered where
  globalsTyped := by
    rw [sameVariables]
    exact typed.globalsTyped
  functionsTyped := fun decl member =>
    typed.functionsTyped decl (permuted.mem_iff.mp member)
  distinct := (permuted.map _).nodup_iff.mpr typed.distinct
  declared := fun name signature inScope => by
    obtain ⟨decl, member, sameName⟩ := typed.declared name signature inScope
    exact ⟨decl, permuted.mem_iff.mpr member, sameName⟩

end Programs

/--
A program that is typed by the rules, with written signatures that name no type
variables, is accepted with its functions in any order.
-/
theorem typeCheck_reordered
    {program reordered : Program}
    {scope : Scope}
    (typed : ProgramTyped .inferable scope program)
    (closed : ∀ decl ∈ program.functions, ∀ ty ∈ decl.written, ty.names = [])
    (sameVariables : reordered.globals = program.globals)
    (permuted : reordered.functions.Perm program.functions)
    (source : String)
    (config : ReportConfig) :
    (∃ checked, (typeCheck program source config).2 = .ok checked) ∧
      ∃ checked, (typeCheck reordered source config).2 = .ok checked := by
  refine ⟨typeCheck_ok_iff.mpr (typed.accepted closed), ?_⟩
  have reorderedClosed :
      ∀ decl ∈ reordered.functions, ∀ ty ∈ decl.written, ty.names = [] :=
    fun decl member => closed decl (permuted.mem_iff.mp member)
  exact typeCheck_ok_iff.mpr
    ((typed.reorder sameVariables permuted).accepted reorderedClosed)

/--
A function that tells whether a number is even or odd: it answers at zero, and
asks the other function otherwise.
-/
def parityDecl (name other : String) (atZero : Bool) : FunDecl where
  name := .ofText name
  args := [.ofText "n"]
  written := some ⟨[.int], .bool, .unknown⟩
  locals := []
  body :=
    [.ifElse
        (.binary .eq (.ofText "n") (.int 0 .blank) .blank)
        [.ret (some (.bool atZero .blank)) .unknown]
        [.ret
            (some
              (.call
                { callee := .ofText other
                  args := [.binary .sub (.ofText "n") (.int 1 .blank) .blank]
                  mark := .blank
                  waiting := none }))
            .unknown]
        .unknown]
  mark := .blank

/-- The scope in which numbers are even or odd. -/
def parityScope : Scope where
  vars := fun _ => none
  funs := fun name =>
    if name = "even" ∨ name = "odd" then some ⟨[.int], .bool⟩ else none

theorem parityDecl_typed
    {name other : String}
    (atZero : Bool)
    (isName : name = "even" ∨ name = "odd")
    (isOther : other = "even" ∨ other = "odd") :
    FunDeclTyped .inferable parityScope (parityDecl name other atZero)
      ⟨[.int], .bool⟩ (fun _ => .int)
      (parityScope.bindArgs [.ofText "n"] [.int]) where
  known := if_pos isName
  distinct := by simp [parityDecl]
  sameLength := rfl
  localsTyped := .nil
  bodyTyped := by
    have number :
        HasType .inferable (parityScope.bindArgs [.ofText "n"] [.int])
          (.ofText "n") .int :=
      .read (.select rfl .nil trivial)
    have smaller :
        HasType .inferable (parityScope.bindArgs [.ofText "n"] [.int])
          (.binary .sub (.ofText "n") (.int 1 .blank) .blank) .int :=
      .binary (.arithmetic (by simp)) number (.int trivial) rfl rfl trivial
    have otherKnown : parityScope.funs other = some ⟨[.int], .bool⟩ :=
      if_pos isOther
    refine .cons (.ifElse ?_ ?_ ?_) .nil
    · exact .binary (.compared (Or.inl rfl)) number (.int trivial) rfl rfl
        trivial
    · exact .cons (.returnValue (.bool trivial) rfl) .nil
    · refine .cons (.returnValue (.call ?_) rfl) .nil
      exact .apply otherKnown (.cons smaller rfl .nil) trivial
  written := by
    rintro _ ⟨⟩
    rfl
  recorded := trivial

/-- The program that tells even from odd numbers, with a function for each. -/
def parityProgram : Program where
  decls :=
    [.fn (parityDecl "even" "odd" true), .fn (parityDecl "odd" "even" false)]

/-- The two functions for parity are well typed. -/
theorem parityProgram_typed :
    ProgramTyped .inferable parityScope parityProgram where
  globalsTyped := .nil
  functionsTyped := by
    intro decl member
    simp only [parityProgram, Program.functions, List.filterMap_cons, Decl.fn?,
      List.filterMap_nil, List.mem_cons, List.not_mem_nil, or_false] at member
    rcases member with rfl | rfl
    · exact ⟨_, _, _, parityDecl_typed _ (by simp) (by simp)⟩
    · exact ⟨_, _, _, parityDecl_typed _ (by simp) (by simp)⟩
  distinct := by decide
  declared := by
    intro name signature inScope
    simp only [parityScope] at inScope
    split at inScope
    · rename_i isName
      rcases isName with rfl | rfl
      · exact ⟨_, .head _, rfl⟩
      · exact ⟨_, .tail _ (.head _), rfl⟩
    · cases inScope

theorem parityProgram_reordered :
    (∃ checked, (typeCheck parityProgram "" .plain).2 = .ok checked) ∧
      ∃ checked,
        (typeCheck ⟨parityProgram.decls.reverse⟩ "" .plain).2 = .ok checked := by
  have sameVariables :
      Program.globals ⟨parityProgram.decls.reverse⟩ =
        parityProgram.globals :=
    rfl
  have permuted :
      (Program.functions ⟨parityProgram.decls.reverse⟩).Perm
        parityProgram.functions :=
    .swap _ _ []
  exact typeCheck_reordered parityProgram_typed (by decide) sameVariables
    permuted "" .plain

/-- A function that needs a number. -/
def successorDecl : FunDecl where
  name := .ofText "successor"
  args := [.ofText "n"]
  written := none
  locals := []
  body :=
    [.ret (some (.binary .add (.ofText "n") (.int 1 .blank) .blank)) .unknown]
  mark := .blank

/-- A function that passes its argument as a number, and then makes it a truth value. -/
def reassignDecl : FunDecl where
  name := .ofText "reassign"
  args := [.ofText "x"]
  written := none
  locals := []
  body :=
    [.call
        { callee := .ofText "successor"
          args := [.ofText "x"]
          mark := .blank
          waiting := none },
      .assign (.ofFields "x" []) (.bool true .blank) .unknown]
  mark := .blank

/--
What a call asks of a variable that is still open is forgotten after the call,
unless the call waits until the variable is known: here the order decides.
-/
theorem typeCheck_order_matters :
    (∃ checked,
        (typeCheck ⟨[.fn successorDecl, .fn reassignDecl]⟩ "" .plain).2 =
          .ok checked) ∧
      ¬ ∃ checked,
        (typeCheck ⟨[.fn reassignDecl, .fn successorDecl]⟩ "" .plain).2 =
          .ok checked := by
  rw [typeCheck_ok_iff, typeCheck_ok_iff]
  constructor
  · cbv
  · intro accepted
    cbv at accepted
    cases accepted

end SplTyping
