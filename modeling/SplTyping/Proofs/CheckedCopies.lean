import SplTyping.Proofs.Acceptance
import SplTyping.Proofs.Declarations
import SplTyping.Proofs.Recording

namespace SplTyping

/-!
# Checked copies of calls

A declaration records what its expressions and statements record. After a
function is declared, the calls that waited for it are checked one after the
other and their copies are recorded: each copy meets its arguments, and if the
value of the call is needed, the copy shows no `Void`.

So after a whole program, every call and every value in the tree is good, and so
is every copy that is left to be put into it.
-/

/-- The type recorded for a variable does not contain `Void`. -/
def VarDecl.SlotVoidFree (decl : VarDecl) : Prop :=
  ∀ ty, decl.mark.ty = some ty → ty.contains .void = false

/-- A variable that stands for nothing yet is bound to the other type. -/
theorem unify_unseen
    {id : TypeVar}
    {ty : Ty}
    {flow : Flow}
    {found : Substitution}
    (unified : unify (.var id) ty flow = .ok found)
    (unseen : id ∉ ty.vars) :
    found = [⟨id, ty, flow⟩] := by
  have differ : Ty.var id ≠ ty := by
    rintro rfl
    exact unseen (List.mem_singleton.mpr rfl)
  have oriented :
      Equation.orient? flow ⟨.var id, ty⟩ = some ⟨id, ty, flow⟩ :=
    if_neg unseen
  rw [unify, solve_cons_bind differ oriented, Equation.replaceAll,
    List.map_nil, solve_nil] at unified
  cases unified
  rfl

/-- The type of a variable without a written one is new to the context. -/
theorem declaredTy_unseen
    {written : Option WrittenTy}
    {context : Context}
    {declared : Ty}
    {before after : State}
    (run : Runs (declaredTy written) before declared after)
    (scene : Scene anyVar before context)
    (unwritten : written.isSome = false) :
    Unseen after context declared := by
  cases written with
  | some => cases unwritten
  | none =>
      obtain ⟨rfl, rfl⟩ := runs_fresh.mp run
      exact scene.unseen_next 0

/-- The declaration of a variable records its value, which is free of void. -/
theorem inferVarDecl_records
    {taken : List PendingCall}
    {decl decl' : VarDecl}
    {context context' : Context}
    {id : TypeVar}
    {found : Substitution}
    {before after : State}
    (run :
      Runs (inferVarDecl decl context (.var id)) before
        (decl', context', found) after)
    (blank : decl.erased .slots = decl)
    (book : before.Book taken)
    (scene : Scene (fun other => anyVar other ∧ other ≠ id) before context)
    (named :
      ∀ name other, before.names.get? name = some other →
        other < before.nextVar ∧ other ≠ id)
    (clean : after.Clean) :
    Records taken before after decl'.calls decl'.values ∧
      decl'.SlotVoidFree := by
  cases varDeclRun_of_runs run with
  | taken | void => exact absurd clean (State.not_clean_record _ _)
  | @bound declared _ found final middle last _ _ declaredRun valueRun isValue
      asked =>
      obtain ⟨unified, rfl⟩ := unifyOrReport_clean asked clean
      have declares := declaredTy_declares declaredRun
      have samePending := declaredTy_pending declaredRun
      have declaredWithin :=
        declaredTy_within declaredRun scene.supply fun _ _ name _ other known =>
          have ⟨seen, differs⟩ := named name other known
          ⟨⟨trivial, differs⟩, seen⟩
      have valueScene :
          Scene (fun other => anyVar other ∧ other ≠ id) middle context :=
        ⟨scene.supply.mono declares.nextVar,
          scene.context.mono (Below.mono declares.nextVar)⟩
      obtain ⟨valueRecords, valueShows⟩ :=
        inferExpr_records valueRun (congrArg VarDecl.value blank)
          ⟨book.change declares.nextVar samePending declares.resolved,
            valueScene.any,
            declaredWithin.mono fun _ ⟨_, seen⟩ => ⟨trivial, seen⟩⟩
          clean
      have records := valueRecords.of_change samePending declares.resolved
      have valueGood :=
        valueShows.valueGood decl.written.isSome rfl isValue
          (declaredTy_unseen declaredRun scene.any)
      refine ⟨records.addValue valueGood, ?_⟩
      -- What is expected of the declaration is a variable of its own, so the
      -- type of the value stays as it is.
      have valueKeeps := inferExpr_keepsTo valueRun valueScene declaredWithin
      have narrowedWithin :=
        valueKeeps.within.apply
          (declaredWithin.mono
            (Below.mono (inferExpr_grows valueRun).nextVar))
      have untouched : found.apply (.var id) = .var id := by
        refine Substitution.apply_of_unbound (Ty.within_var.mpr ?_)
        rintro binding member same
        exact (valueKeeps.within binding member).1.1.2 same.symm
      rw [untouched] at unified
      have isFinal :=
        unify_unseen unified fun member =>
          (narrowedWithin id member).1.2 rfl
      have slot : (found ++ final).apply declared = found.apply declared := by
        rw [Substitution.apply_append, isFinal]
        refine Substitution.apply_of_unbound (narrowedWithin.mono ?_)
        rintro other ⟨⟨_, differs⟩, _⟩ binding isBinding
        rw [List.mem_singleton.mp isBinding]
        exact differs
      rintro ty ⟨⟩
      rw [slot]
      exact isValue

/-- Locals record their values, each free of void. -/
theorem inferLocals_records
    {taken : List PendingCall}
    {decls decls' : List VarDecl}
    {context context' : Context}
    {found : Substitution}
    {before after : State}
    (run :
      Runs (inferLocals decls context) before (decls', context', found)
        after)
    (blank : ∀ decl ∈ decls, decl.erased .slots = decl)
    (drawn : before.NamesDrawn)
    (book : before.Book taken)
    (scene : Scene anyVar before context)
    (clean : after.Clean) :
    Records taken before after (decls'.flatMap VarDecl.calls)
        (decls'.flatMap VarDecl.values) ∧
      ∀ decl ∈ decls', decl.SlotVoidFree := by
  induction decls generalizing decls' context found before with
  | nil =>
      obtain ⟨rfl, _, _, rfl⟩ := runs_inferLocals_nil run
      exact ⟨.refl book, nofun⟩
  | cons decl rest inductionHypothesis =>
      obtain ⟨declBlank, restBlank⟩ := List.forall_mem_cons.mp blank
      obtain ⟨_, _, _, _, _, _, declRun, restRun, rfl, _⟩ :=
        runs_inferLocals_cons run
      have grows : before.Grows (before.draw 1) := .draw _ _
      have drawnNext := grows.declares.drawn drawn
      obtain ⟨declRecords, declVoidFree⟩ :=
        inferVarDecl_records declRun declBlank (book.draw 1)
          (scene.reserve grows (Nat.le_refl _) (Nat.lt_succ_self _))
          (fun name other known =>
            ⟨drawnNext name other known, Nat.ne_of_lt (drawn name other known)⟩)
          ((inferLocals_declares restRun).clean clean)
      obtain ⟨_, narrowedScene⟩ :=
        inferVarDecl_drawn declRun drawnNext (scene.grow grows)
          (scene.within_next 0)
      obtain ⟨restRecords, restVoidFree⟩ :=
        inductionHypothesis restRun restBlank
          ((inferVarDecl_declares declRun).drawn drawnNext) declRecords.book
          narrowedScene
      exact ⟨declRecords.of_draw.append restRecords,
        List.forall_mem_cons.mpr ⟨declVoidFree, restVoidFree⟩⟩

section Waiting

variable {pending : PendingCall} {rest : List PendingCall}
variable {before state : State} {call : Call}

/-- A call that was vouched for is a value once its copy is. -/
theorem State.Vouched.resolve
    {id : CallId}
    (vouched : state.Vouched (pending :: rest) id)
    (isValue : pending.guard.isSome = true → (Expr.call call).VoidFree) :
    (state.resolve pending.id call).Vouched rest id where
  idBelow := vouched.idBelow
  resolved := by
    intro copy recorded
    simp only [State.resolve, Table.get?_insert] at recorded
    split at recorded
    · rename_i isPending
      cases recorded
      exact isValue
        (vouched.taken pending List.mem_cons_self isPending.symm)
    · exact vouched.resolved copy recorded
  waiting := vouched.waiting.mono (fun _ _ guarded => guarded) rfl
  taken := (List.forall_mem_cons.mp vouched.taken).2

/-- The copy of a call takes the place of the call in the book. -/
theorem Records.resolve
    (records :
      Records (pending :: rest) before state call.calls call.values)
    (stamped : call.waiting.isSome = true)
    (isValue : pending.guard.isSome = true → (Expr.call call).VoidFree) :
    (state.resolve pending.id call).Book rest where
  waiting := records.book.waiting.mono (fun _ _ kept => kept) rfl
  takenKept := (List.forall_mem_cons.mp records.book.takenKept).2
  resolved := by
    intro id copy recorded
    simp only [State.resolve, Table.get?_insert] at recorded
    split at recorded
    · rename_i isPending
      cases recorded
      have pendingKept := records.book.takenKept pending List.mem_cons_self
      refine ⟨?_, stamped, records.nodes.mono fun _ vouched =>
        vouched.resolve isValue⟩
      rw [isPending]
      exact pendingKept.idBelow
    · obtain ⟨idBelow, isStamped, good⟩ :=
        records.book.resolved id copy recorded
      exact ⟨idBelow, isStamped, good.mono fun _ vouched =>
        vouched.resolve isValue⟩

end Waiting

section Copies

variable {taken : List PendingCall} {guard : Option ValueGuard} {unseen : Prop}
variable {expected : Ty} {found : Substitution} {after : State}
variable {call call' : Call}

/-- A call with an expected type free of void is free of it. -/
theorem CallShows.voidFree
    (shows : CallShows taken guard unseen expected found after call call')
    (isValue : (found.apply expected).contains .void = false) :
    (Expr.call call').VoidFree := by
  intro argsPlain ty recorded
  cases shows with
  | checked _ shown =>
      have isShown := shown (Or.inl argsPlain)
      rw [isShown.ty?_eq, Option.some.injEq] at recorded
      rw [← recorded]
      exact ⟨isShown, isValue⟩
  | waits _ _ slotBlank =>
      rw [Expr.ty?, slotBlank] at recorded
      cases recorded

/-- A call that had a number keeps it. -/
theorem CallShows.stamped
    (shows : CallShows taken guard unseen expected found after call call')
    (isStamped : call.waiting.isSome = true) :
    call'.waiting.isSome = true := by
  cases shows with
  | checked sameStamp => rwa [sameStamp]
  | waits _ stamped =>
      rw [stamped]
      rfl

end Copies

/-- All calls that waited for a function are checked. -/
theorem inferWaiting_records
    {function : String}
    {waiting : List PendingCall}
    {context context' : Context}
    {found extended : Substitution}
    {before after : State}
    (run :
      Runs (inferWaiting function waiting context found) before
        (context', extended) after)
    (book : before.Book waiting)
    (scene : Scene anyVar before context)
    (settledWithin : before.settled.Within (Below anyVar before.nextVar))
    (foundWithin : found.Within (Below anyVar before.nextVar))
    (clean : after.Clean) :
    after.Book [] ∧
      (∀ id, before.Vouched waiting id → after.Vouched [] id) ∧
      extended.Within (Below anyVar after.nextVar) ∧
      Scene anyVar after context' := by
  induction waiting generalizing context found before with
  | nil =>
      cases waitingRun_of_runs run
      exact ⟨book, fun _ => id, foundWithin, scene⟩
  | cons pending rest inductionHypothesis =>
      cases waitingRun_of_runs run with
      | void _ _ _ _ restRun =>
          exact absurd ((inferWaiting_advances restRun).clean clean)
            (State.not_clean_record _ _)
      | @next _ _ call expected more _ _ middle _ expectedEq callRun isValue
          restRun =>
          have callClean : middle.Clean :=
            (inferWaiting_advances restRun).clean clean
          have kept := book.takenKept pending List.mem_cons_self
          have expectedWithin : expected.Within (Below anyVar before.nextVar) :=
            expectedEq ▸
              foundWithin.apply (settledWithin.apply kept.expectedWithin)
          have reachedScene :
              Scene anyVar before
                (pending.reached before.settled found context) :=
            ⟨fun _ _ => trivial,
              PendingCall.reached_within kept.contextWithin settledWithin
                foundWithin scene.context⟩
          obtain ⟨callRecords, callShows⟩ :=
            inferCall_records callRun kept.argsBlank kept.slotBlank
              ⟨book, reachedScene, expectedWithin⟩ callClean
          have callGrows := inferCall_grows callRun
          have moreWithin :=
            (inferCall_keepsTo callRun reachedScene expectedWithin).within
          have stamped :=
            callShows.stamped (by rw [kept.stamped]; rfl)
          have voidFree (guarded : pending.guard.isSome = true) :=
            callShows.voidFree (isValue guarded)
          have narrowedScene := scene.narrowAny callGrows moreWithin
          obtain ⟨restBook, restVouches, restKeeps⟩ :=
            inductionHypothesis restRun (callRecords.resolve stamped voidFree)
              ⟨narrowedScene.supply, narrowedScene.context⟩
              (callGrows.settled ▸
                settledWithin.mono (Below.mono callGrows.nextVar))
              (Substitution.within_append.mpr
                ⟨foundWithin.mono (Below.mono callGrows.nextVar), moreWithin⟩)
          refine ⟨restBook, fun id vouched => ?_, restKeeps⟩
          exact restVouches id
            ((callRecords.vouches id vouched).resolve voidFree)

theorem State.Vouched.take
    {state : State}
    {id : CallId}
    (vouched : state.Vouched [] id)
    (function : String) :
    (state.without function).Vouched (state.pending.take function).1 id where
  idBelow := vouched.idBelow
  resolved := vouched.resolved
  waiting :=
    (vouched.waiting.without function).mono (fun _ _ guarded => guarded.1) rfl
  taken := fun _ isTaken => vouched.waiting.taken isTaken

/-- Calls that are taken are counted as waiting in the book. -/
theorem State.Book.take
    {state : State}
    (book : state.Book [])
    (function : String) :
    (state.without function).Book (state.pending.take function).1 where
  waiting := (book.waiting.without function).mono (fun _ _ kept => kept.1) rfl
  takenKept := fun _ isTaken => book.waiting.taken isTaken
  resolved := by
    intro id copy recorded
    obtain ⟨idBelow, isStamped, good⟩ := book.resolved id copy recorded
    exact ⟨idBelow, isStamped, good.mono fun _ vouched =>
      vouched.take function⟩

/-- What holds between two declarations. -/
structure Standing (state : State) (context : Context) : Prop where
  book : state.Book []
  scene : Scene anyVar state context
  settledWithin : state.settled.Within (Below anyVar state.nextVar)

namespace Standing

variable {before after : State} {context between : Context}
variable {found : Substitution}

theorem initial : Standing .initial .empty where
  book := ⟨nofun, nofun, nofun⟩
  scene := ⟨fun _ _ => trivial, Context.within_empty⟩
  settledWithin := Substitution.within_nil

/-- A declaration is finished, and its findings are settled. -/
theorem finish
    (standing : Standing before context)
    (advances : before.Advances after)
    (book : after.Book [])
    (within : found.Within (Below anyVar after.nextVar))
    (scene : Scene anyVar after (between.narrow found)) :
    Standing (after.settle found) (between.narrow found) where
  book := book.change (Nat.le_refl _) rfl rfl
  scene := ⟨scene.supply, scene.context⟩
  settledWithin := by
    simp only [State.settle, advances.settled]
    exact Substitution.within_append.mpr
      ⟨standing.settledWithin.mono (Below.mono advances.nextVar), within⟩

end Standing

/-- What is known about a function once its signature has been compared. -/
theorem comparedFunDecl_records
    {decl : FunDecl}
    {locals : List VarDecl}
    {body : List Stmt}
    {context inner : Context}
    {shape : Signature}
    {expected : Ty}
    {demand : Demand}
    {span : Span}
    {found more shaped written : Substitution}
    {before middle last asked' compared : State}
    (shapeEq : shape = freshShape before.nextVar decl.args.length)
    (localsRun :
      Runs (inferLocals decl.locals (decl.inner context shape))
        (before.unnamed.draw (decl.args.length + 1)) (locals, inner, found)
        middle)
    (bodyRun :
      Runs (inferBlock decl.body inner (found.apply shape.result)) middle
        (body, more) last)
    (asked :
      Runs
        (constrain ((found ++ more).apply expected)
          ((found ++ more).apply shape.toTy) demand span)
        last shaped asked')
    (signatureRun :
      Runs
        (signatureFindings decl.name decl.written
          ((found ++ more ++ shaped).apply shape.toTy))
        asked' written compared)
    (blank : decl.erased .slots = decl)
    (standing : Standing before context)
    (expectedWithin : expected.Within (Below anyVar before.nextVar))
    (clean : compared.Clean) :
    Records [] before compared
        (locals.flatMap VarDecl.calls ++ Stmt.callsAll body)
        (locals.flatMap VarDecl.values ++ Stmt.valuesAll body) ∧
      (∀ item ∈ locals, item.SlotVoidFree) ∧
      (found ++ more ++ shaped ++ written).Within
        (Below anyVar compared.nextVar) ∧
      Scene anyVar compared
        ((context.bindFun decl.name.text shape).narrow
          (found ++ more ++ shaped ++ written)) := by
  subst shapeEq
  obtain ⟨localsBlank, bodyBlank⟩ := FunDecl.parts_of_blank blank
  have signatureDeclares := signatureFindings_declares signatureRun
  have askedClean := signatureDeclares.clean clean
  have declares :=
    comparedFunDecl_declares localsRun bodyRun asked signatureRun
  have samePending := signatureFindings_pending signatureRun
  obtain ⟨_, rfl⟩ := unifyOrReport_clean asked askedClean
  have bodyGrows := inferBlock_grows bodyRun
  have localsDeclare := inferLocals_declares localsRun
  have startLe :
      before.nextVar ≤
        (before.unnamed.draw (decl.args.length + 1)).nextVar :=
    Nat.le_add_right _ _
  have startDrawn :
      (before.unnamed.draw (decl.args.length + 1)).NamesDrawn :=
    fun _ _ known => by cases known
  have innerScene := decl.inner_scene standing.scene
  have shapeWithin :=
    freshShape_within standing.scene.supply decl.args.length
  obtain ⟨localsRecords, localsVoidFree⟩ :=
    inferLocals_records localsRun localsBlank startDrawn
      (standing.book.change startLe rfl rfl) innerScene
      (bodyGrows.clean askedClean)
  obtain ⟨localsWithin, bodyScene⟩ :=
    inferLocals_drawn localsRun startDrawn innerScene
  have resultWithin :=
    localsWithin.apply (shapeWithin.2.mono (Below.mono localsDeclare.nextVar))
  have bodyRecords :=
    inferBlock_records bodyRun bodyBlank
      ⟨localsRecords.book, bodyScene, resultWithin⟩ askedClean
  have bodyWithin :=
    (inferBlock_keepsTo bodyRun bodyScene resultWithin).within
  -- Whatever was found stays within the variables drawn so far.
  have bothWithin :=
    Substitution.within_append.mpr
      ⟨localsWithin.mono (Below.mono bodyGrows.nextVar), bodyWithin⟩
  have lastLe := Nat.le_trans localsDeclare.nextVar bodyGrows.nextVar
  have shapeTyWithin := shapeWithin.toTy.mono (Below.mono lastLe)
  have shapedWithin :=
    (unifyOrReport_keepsTo asked
      (bothWithin.apply
        (expectedWithin.mono (Below.mono (Nat.le_trans startLe lastLe))))
      (bothWithin.apply shapeTyWithin)).within
  have askedWithin :=
    Substitution.within_append.mpr ⟨bothWithin, shapedWithin⟩
  have lastDrawn := (localsDeclare.trans bodyGrows.declares).drawn startDrawn
  have writtenWithin :=
    (signatureFindings_keepsTo signatureRun (fun _ _ => trivial)
      (fun name id known => ⟨trivial, lastDrawn name id known⟩)
      (askedWithin.apply shapeTyWithin)).within
  have allWithin :=
    Substitution.within_append.mpr
      ⟨askedWithin.mono (Below.mono signatureDeclares.nextVar), writtenWithin⟩
  have outerWithin :=
    (standing.scene.context.mono (Below.mono declares.nextVar)).bindFun
      decl.name.text
      (shapeWithin.mono
        (Below.mono (Nat.le_trans lastLe signatureDeclares.nextVar)))
  have both := localsRecords.append bodyRecords
  have comparedBook :=
    both.book.change signatureDeclares.nextVar samePending
      signatureDeclares.resolved
  have keeps {id : CallId} (vouched : State.Vouched [] _ id) :=
    vouched.change samePending signatureDeclares.resolved
  refine ⟨⟨comparedBook, fun id vouched => ?_, ?_⟩, localsVoidFree, allWithin,
    fun _ _ => trivial, ?_⟩
  · exact keeps (both.vouches id (vouched.change rfl rfl))
  · exact both.nodes.mono fun _ => keeps
  · exact outerWithin.narrow_of_apply fun _ tyWithin => allWithin.apply tyWithin

/--
A function records its tree, and the copies of all calls that waited for it.
-/
theorem inferFunDecl_records
    {decl decl' : FunDecl}
    {context context' : Context}
    {expected : Ty}
    {found : Substitution}
    {before after : State}
    (run :
      Runs (inferFunDecl decl context expected) before
        (decl', context', found) after)
    (blank : decl.erased .slots = decl)
    (standing : Standing before context)
    (expectedWithin : expected.Within (Below anyVar before.nextVar))
    (clean : after.Clean) :
    Records [] before after decl'.calls decl'.values ∧
      (∀ item ∈ decl'.locals, item.SlotVoidFree) ∧
      found.Within (Below anyVar after.nextVar) ∧
      Scene anyVar after context' := by
  cases funDeclRun_of_runs run with
  | taken | repeated => exact absurd clean (State.not_clean_record _ _)
  | @bound _ _ _ _ _ _ _ _ _ _ _ _ _ compared _ _ _ shapeEq localsRun bodyRun
      asked signatureRun waitingRun =>
      have comparedClean : compared.Clean :=
        (inferWaiting_advances waitingRun).clean clean
      have declares :=
        comparedFunDecl_declares localsRun bodyRun asked signatureRun
      obtain ⟨records, voidFree, allWithin, outerScene⟩ :=
        comparedFunDecl_records shapeEq localsRun bodyRun asked signatureRun
          blank standing expectedWithin comparedClean
      obtain ⟨book, vouches, extendedWithin, scene⟩ :=
        inferWaiting_records waitingRun (records.book.take decl.name.text)
          ⟨outerScene.supply, outerScene.context⟩
          (declares.settled ▸
            standing.settledWithin.mono (Below.mono declares.nextVar))
          allWithin clean
      have later (id : CallId) (vouched : compared.Vouched [] id) :=
        vouches id (vouched.take decl.name.text)
      exact ⟨⟨book, fun id vouched => later id (records.vouches id vouched),
        records.nodes.mono later⟩, voidFree, extendedWithin, scene⟩

/-- Globals record their values one after the other. -/
theorem inferGlobals_records
    {decls decls' : List Decl}
    {context context' : Context}
    {before after : State}
    (run : Runs (inferGlobals decls context) before (decls', context') after)
    (blank : ∀ decl ∈ decls.filterMap Decl.var?, decl.erased .slots = decl)
    (standing : Standing before context)
    (clean : after.Clean) :
    Records [] before after
        ((decls'.filterMap Decl.var?).flatMap VarDecl.calls)
        ((decls'.filterMap Decl.var?).flatMap VarDecl.values) ∧
      (∀ decl ∈ decls'.filterMap Decl.var?, decl.SlotVoidFree) ∧
      decls'.filterMap Decl.fn? = decls.filterMap Decl.fn? ∧
      Standing after context' := by
  induction decls generalizing decls' context before with
  | nil =>
      cases globalsRun_of_runs run
      exact ⟨.refl standing.book, nofun, rfl, standing⟩
  | cons decl rest inductionHypothesis =>
      cases globalsRun_of_runs run with
      | fn restRun =>
          obtain ⟨records, voidFree, sameFunctions, restStanding⟩ :=
            inductionHypothesis restRun blank standing
          exact ⟨records, voidFree, congrArg (List.cons _) sameFunctions,
            restStanding⟩
      | var declRun restRun =>
          obtain ⟨declBlank, restBlank⟩ := List.forall_mem_cons.mp blank
          have grows : before.Grows (before.draw 1) := .draw _ _
          have drawn : before.Advances (before.draw 1).unnamed :=
            ⟨Nat.le_succ _, rfl, id⟩
          have reserved :=
            standing.scene.reserve grows (Nat.le_refl _) (Nat.lt_succ_self _)
          have grown := standing.scene.grow grows
          obtain ⟨declRecords, declVoidFree⟩ :=
            inferVarDecl_records declRun declBlank
              (standing.book.change (Nat.le_succ _) rfl rfl)
              ⟨reserved.supply, reserved.context⟩
              (fun _ _ known => by cases known)
              ((inferGlobals_settles restRun).clean clean)
          obtain ⟨within, narrowedScene⟩ :=
            inferVarDecl_drawn declRun (fun _ _ known => by cases known)
              ⟨grown.supply, grown.context⟩ (standing.scene.within_next 0)
          obtain ⟨restRecords, restVoidFree, sameFunctions, restStanding⟩ :=
            inductionHypothesis restRun restBlank
              (standing.finish
                (drawn.trans (inferVarDecl_declares declRun).advances)
                declRecords.book within narrowedScene)
          have records := declRecords.append (restRecords.of_change rfl rfl)
          exact ⟨records.of_change rfl rfl,
            List.forall_mem_cons.mpr ⟨declVoidFree, restVoidFree⟩,
            sameFunctions, restStanding⟩

/-- Functions record their trees one after the other. -/
theorem inferFunctions_records
    {decls decls' : List Decl}
    {context context' : Context}
    {before after : State}
    (run : Runs (inferFunctions decls context) before (decls', context') after)
    (blank : ∀ decl ∈ decls.filterMap Decl.fn?, decl.erased .slots = decl)
    (standing : Standing before context)
    (clean : after.Clean) :
    Records [] before after
        ((decls'.filterMap Decl.fn?).flatMap FunDecl.calls)
        ((decls'.filterMap Decl.fn?).flatMap FunDecl.values) ∧
      (∀ decl ∈ decls'.filterMap Decl.fn?, ∀ item ∈ decl.locals,
        item.SlotVoidFree) ∧
      decls'.filterMap Decl.var? = decls.filterMap Decl.var? := by
  induction decls generalizing decls' context before with
  | nil =>
      cases functionsRun_of_runs run
      exact ⟨.refl standing.book, nofun, rfl⟩
  | cons decl rest inductionHypothesis =>
      cases functionsRun_of_runs run with
      | var restRun =>
          obtain ⟨records, voidFree, sameVariables⟩ :=
            inductionHypothesis restRun blank standing
          exact ⟨records, voidFree, congrArg (List.cons _) sameVariables⟩
      | fn declRun restRun =>
          obtain ⟨declBlank, restBlank⟩ := List.forall_mem_cons.mp blank
          have grows : before.Grows (before.draw 1) := .draw _ _
          have grown : Standing (before.draw 1) context :=
            ⟨standing.book.draw 1, standing.scene.grow grows,
              standing.settledWithin.mono (Below.mono grows.nextVar)⟩
          obtain ⟨declRecords, declVoidFree, within, scene⟩ :=
            inferFunDecl_records declRun declBlank grown
              (standing.scene.within_next 0)
              ((inferFunctions_settles restRun).clean clean)
          obtain ⟨restRecords, restVoidFree, sameVariables⟩ :=
            inductionHypothesis restRun restBlank
              (grown.finish (inferFunDecl_advances declRun) declRecords.book
                within (scene.narrowAny (.refl _) within))
          have records :=
            declRecords.of_draw.append (restRecords.of_change rfl rfl)
          exact ⟨records, List.forall_mem_cons.mpr ⟨declVoidFree, restVoidFree⟩,
            sameVariables⟩

/-- Recorded copies are good, and those that are vouched for show no `Void`. -/
structure CopiesGood
    (vouched : CallId → Prop)
    (copies : ResolvedCalls) :
    Prop where
  stamped :
    ∀ id copy, copies.get? id = some copy → copy.waiting.isSome = true
  nodes :
    ∀ id copy, copies.get? id = some copy →
      NodesGood vouched copy.calls copy.values
  voidFree :
    ∀ id copy, copies.get? id = some copy → vouched id →
      (Expr.call copy).VoidFree

/-- After an accepted program, all that was recorded is good. -/
theorem Program.infer_records
    {program : Program}
    (blank : program.Blank)
    (accepted : program.Accepted) :
    (∃ vouched,
      NodesGood vouched program.infer.program.calls
          program.infer.program.values ∧
        CopiesGood vouched program.infer.state.resolved) ∧
      ∀ decl ∈ program.infer.program.varDecls, decl.SlotVoidFree := by
  obtain ⟨globals, _, middle, last, globalsRun, functionsRun, _, waitingRun⟩ :=
    program.infer_runs
  obtain ⟨sameResolved, isClean⟩ := runs_reportWaiting waitingRun
  have clean := (isClean.mp accepted).1
  obtain ⟨globalRecords, globalsVoidFree, sameFunctions, standing⟩ :=
    inferGlobals_records globalsRun blank.globals .initial
      ((inferFunctions_settles functionsRun).clean clean)
  obtain ⟨functionRecords, localsVoidFree, sameVariables⟩ :=
    inferFunctions_records functionsRun (sameFunctions ▸ blank.functions)
      standing clean
  rw [← sameVariables] at globalRecords globalsVoidFree
  have nodes :=
    (globalRecords.append functionRecords).nodes
  refine ⟨⟨last.Vouched [], ⟨?_, ?_⟩, ?_⟩, ?_⟩
  · intro call member
    refine nodes.calls call (List.mem_append.mpr ?_)
    exact (mem_flatMap_decls member).imp List.mem_flatMap.mpr
      List.mem_flatMap.mpr
  · intro value member
    refine nodes.values value (List.mem_append.mpr ?_)
    exact (mem_flatMap_decls member).imp List.mem_flatMap.mpr
      List.mem_flatMap.mpr
  · rw [sameResolved]
    have resolved := functionRecords.book.resolved
    exact
      { stamped := fun id copy recorded => (resolved id copy recorded).2.1
        nodes := fun id copy recorded => (resolved id copy recorded).2.2
        voidFree := fun _ copy recorded vouched =>
          vouched.resolved copy recorded }
  · intro item member
    rcases mem_flatMap_decls member with
      ⟨decl, isDecl, isItem⟩ | ⟨decl, isDecl, isItem⟩
    · rw [List.mem_singleton.mp isItem]
      exact globalsVoidFree decl isDecl
    · exact localsVoidFree decl isDecl item isItem

end SplTyping
