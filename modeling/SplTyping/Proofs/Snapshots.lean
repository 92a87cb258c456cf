import SplTyping.Proofs.Declarations
import SplTyping.Proofs.Waiting

namespace SplTyping

/-!
# What waiting calls remember

A call that is set aside remembers the context in which it was reached and the
type that is expected of it. However inference goes on, and whatever errors it
records, these mention only type variables that have been drawn.
-/

/-- A call waits with types over variables that have been drawn. -/
structure PendingCall.Drawn (bound : TypeVar) (pending : PendingCall) : Prop where
  context : pending.context.Within (Below anyVar bound)
  expected : pending.expected.Within (Below anyVar bound)

/-- A call waits with drawn variables as more are drawn. -/
theorem PendingCall.Drawn.mono
    {bound later : TypeVar}
    {pending : PendingCall}
    (drawn : pending.Drawn bound)
    (grows : bound ≤ later) :
    pending.Drawn later where
  context := drawn.context.mono (Below.mono grows)
  expected := drawn.expected.mono (Below.mono grows)

/-- All calls that wait do so with types over drawn variables. -/
def State.WaitingDrawn (state : State) : Prop :=
  state.AllWaiting fun _ pending => pending.Drawn state.nextVar

namespace State.WaitingDrawn

variable {before after : State}

/-- No call waits at the start. -/
theorem initial : State.initial.WaitingDrawn := by
  intro queue inQueues
  cases inQueues

/-- Variables are drawn, and the waiting calls are left alone. -/
theorem change
    (waiting : before.WaitingDrawn)
    (grows : before.nextVar ≤ after.nextVar)
    (samePending : after.pending = before.pending) :
    after.WaitingDrawn :=
  waiting.mono (fun _ _ drawn => drawn.mono grows) samePending

theorem record (waiting : before.WaitingDrawn) (error : TypeError) :
    (before.record error).WaitingDrawn :=
  waiting.change (Nat.le_refl _) rfl

/-- Unification leaves the calls that wait alone. -/
theorem unified
    {left right : Ty}
    {flow : Flow}
    {explain : UnifyError → TypeError}
    {found : Substitution}
    (waiting : before.WaitingDrawn)
    (run : Runs (unifyOrReport left right flow explain) before found after) :
    after.WaitingDrawn :=
  waiting.change (unifyOrReport_grows run).nextVar (unifyOrReport_pending run)

/-- Calls that are left after some were taken wait as before. -/
theorem without (waiting : before.WaitingDrawn) (function : String) :
    (before.without function).WaitingDrawn :=
  (State.AllWaiting.without waiting function).mono
    (fun _ _ ⟨drawn, _⟩ => drawn) rfl

end State.WaitingDrawn

/-- A step of inference starts while calls wait. -/
structure Posed (state : State) (context : Context) (expected : Ty) : Prop where
  waiting : state.WaitingDrawn
  scene : Scene anyVar state context
  expected : expected.Within (Below anyVar state.nextVar)

namespace Posed

variable {before after : State} {context : Context} {expected other : Ty}
variable {found : Substitution}

/-- A variable is drawn, and a step is started with it. -/
theorem draw (posed : Posed before context expected) (count : Nat) :
    Posed (before.draw (count + 1)) context (.var before.nextVar) where
  waiting := posed.waiting.change (Nat.le_add_right _ _) rfl
  scene := posed.scene.grow (.draw _ _)
  expected := posed.scene.within_next count

/-- Another type may be expected if its variables have been drawn. -/
theorem expect
    (posed : Posed before context expected)
    (within : other.Within (Below anyVar before.nextVar)) :
    Posed before context other :=
  { posed with expected := within }

/-- After a step, the next one starts with what was found out. -/
theorem next
    (posed : Posed before context expected)
    (grows : before.Grows after)
    (waiting : after.WaitingDrawn)
    (keeps : found.KeepsTo anyVar after.nextVar)
    (within : other.Within (Below anyVar after.nextVar)) :
    Posed after (context.narrow found) other where
  waiting := waiting
  scene := posed.scene.narrowAny grows keeps.within
  expected := within

/-- After an expression, the next step starts with what was found out. -/
theorem afterExpr
    {expr expr' : Expr}
    {demand : Demand}
    {guard : Option ValueGuard}
    (posed : Posed before context expected)
    (run :
      Runs (inferExpr expr context expected demand guard) before (expr', found)
        after)
    (waiting : after.WaitingDrawn)
    (within : other.Within (Below anyVar after.nextVar)) :
    Posed after (context.narrow found) other :=
  posed.next (inferExpr_grows run) waiting
    (inferExpr_keepsTo run posed.scene posed.expected) within

end Posed

/-- The bound of a range leaves the calls that wait alone. -/
theorem BoundRun.waiting
    {found extended : Substitution}
    {first bound : Ty}
    {before after : State}
    (run : BoundRun found before first bound extended after)
    (waiting : before.WaitingDrawn) :
    after.WaitingDrawn := by
  cases run with
  | int | char | unknown => exact waiting
  | other => exact waiting.record _

section Operands

variable {op : BinOp} {left right result expected : Ty} {context : Context}
variable {expr expr' : Expr} {demand : Demand} {guard : Option ValueGuard}
variable {found : Substitution} {before typed middle : State}

/-- The first operand may be expected to have the type of the operator. -/
theorem OperatorRun.posed
    (run : OperatorRun before op left right result typed)
    (posed : Posed before context expected) :
    Posed typed context left := by
  have grows := run.grows
  have samePending : typed.pending = before.pending := by
    cases run <;> rfl
  exact
    { waiting := posed.waiting.change grows.nextVar samePending
      scene := posed.scene.grow grows
      expected := (run.within posed.scene.supply).1 }

/-- The right operand is inferred with what the left one has found. -/
theorem OperatorRun.posedRight
    (run : OperatorRun before op left right result typed)
    (posed : Posed before context expected)
    (leftRun :
      Runs (inferExpr expr context left demand guard) typed (expr', found)
        middle)
    (waiting : middle.WaitingDrawn) :
    Posed middle (context.narrow found) (found.apply right) := by
  have leftPosed := run.posed posed
  have leftKeeps := inferExpr_keepsTo leftRun leftPosed.scene leftPosed.expected
  have rightWithin := (run.within posed.scene.supply).2.1
  exact leftPosed.afterExpr leftRun waiting
    (leftKeeps.within.apply (rightWithin.grow (inferExpr_grows leftRun)))

/-- The second component is inferred with what the first one has found. -/
theorem Posed.second
    (posed : Posed before context expected)
    (firstRun :
      Runs (inferExpr expr context (.var before.nextVar) demand guard)
        (before.draw 2) (expr', found) middle)
    (waiting : middle.WaitingDrawn) :
    Posed middle (context.narrow found) (.var (before.nextVar + 1)) :=
  (posed.draw 1).afterExpr firstRun waiting
    (Ty.within_var.mpr ⟨trivial, (inferExpr_grows firstRun).nextVar⟩)

end Operands

/-- An argument is inferred in the context that the call has reached. -/
theorem CallProgress.KeepsTo.posed
    {progress : CallProgress}
    {before : State}
    (keeps : progress.KeepsTo anyVar before.nextVar)
    (waiting : before.WaitingDrawn) :
    Posed (before.draw 1) progress.context (.var before.nextVar) where
  waiting := waiting.change (Nat.le_succ _) rfl
  scene :=
    { supply := fun _ _ => trivial
      context :=
        keeps.context.mono fun _ ⟨isLeft, seen⟩ =>
          ⟨isLeft.1, Nat.lt_succ_of_lt seen⟩ }
  expected := Ty.within_var.mpr ⟨trivial, Nat.lt_succ_self _⟩

mutual

/-- Calls that an expression sets aside wait with drawn variables. -/
theorem inferExpr_waiting
    {expr expr' : Expr}
    {context : Context}
    {expected : Ty}
    {demand : Demand}
    {guard : Option ValueGuard}
    {found : Substitution}
    {before after : State}
    (run :
      Runs (inferExpr expr context expected demand guard) before (expr', found)
        after)
    (posed : Posed before context expected) :
    after.WaitingDrawn := by
  cases exprRun_of_runs run with
  | int asked | bool asked | char asked => exact posed.waiting.unified asked
  | read placeRun => exact inferPlace_waiting placeRun posed
  | pairVoid firstRun secondRun =>
      have firstWaiting := inferExpr_waiting firstRun (posed.draw 1)
      have secondPosed := posed.second firstRun firstWaiting
      exact (inferExpr_waiting secondRun secondPosed).record _
  | pair firstRun secondRun _ _ asked =>
      have firstWaiting := inferExpr_waiting firstRun (posed.draw 1)
      have secondPosed := posed.second firstRun firstWaiting
      exact (inferExpr_waiting secondRun secondPosed).unified asked
  | nil asked => exact (posed.draw 0).waiting.unified asked
  | range firstRun boundRun lastRun asked =>
      have firstPosed := posed.draw 0
      have firstWaiting := inferExpr_waiting firstRun firstPosed
      have firstGrows := inferExpr_grows firstRun
      have firstKeeps :=
        inferExpr_keepsTo firstRun firstPosed.scene firstPosed.expected
      have boundWaiting := boundRun.waiting firstWaiting
      have boundKeeps :=
        boundRun.keepsTo firstKeeps
          (firstKeeps.apply (firstPosed.expected.grow firstGrows))
      have lastPosed :=
        firstPosed.next (firstGrows.trans boundRun.grows) boundWaiting
          boundKeeps boundRun.within
      exact (inferExpr_waiting lastRun lastPosed).unified asked
  | binaryLeftVoid operatorRun leftRun =>
      have leftPosed := operatorRun.posed posed
      exact (inferExpr_waiting leftRun leftPosed).record _
  | binaryRightVoid operatorRun leftRun rightRun =>
      have leftPosed := operatorRun.posed posed
      have leftWaiting := inferExpr_waiting leftRun leftPosed
      have rightPosed := operatorRun.posedRight posed leftRun leftWaiting
      exact (inferExpr_waiting rightRun rightPosed).record _
  | binary operatorRun leftRun _ rightRun _ asked =>
      have leftPosed := operatorRun.posed posed
      have leftWaiting := inferExpr_waiting leftRun leftPosed
      have rightPosed := operatorRun.posedRight posed leftRun leftWaiting
      exact (inferExpr_waiting rightRun rightPosed).unified asked
  | @unary op _ _ _ _ _ _ _ operandRun asked =>
      have operandPosed := posed.expect op.ty_within
      exact (inferExpr_waiting operandRun operandPosed).unified asked
  | call callRun => exact inferCall_waiting callRun posed
termination_by structural expr

/-- Calls that a place sets aside wait with drawn variables. -/
theorem inferPlace_waiting
    {place place' : Place}
    {context : Context}
    {expected : Ty}
    {demand : Demand}
    {found : Substitution}
    {before after : State}
    (run :
      Runs (inferPlace place context expected demand) before (place', found)
        after)
    (posed : Posed before context expected) :
    after.WaitingDrawn := by
  cases placeRun_of_runs run with
  | unknown => exact posed.waiting.record _
  | known bound fieldsRun asked =>
      have basePosed := posed.expect (posed.scene.context.vars _ _ bound)
      have baseWithin := basePosed.expected
      rw [← Substitution.leaves_nil anyVar] at baseWithin
      exact (inferFields_waiting fieldsRun basePosed .nil baseWithin).unified
        asked
termination_by structural place

/-- Calls that fields set aside wait with drawn variables. -/
theorem inferFields_waiting
    {fields fields' : List Field}
    {name : String}
    {span : Span}
    {context : Context}
    {current selected : Ty}
    {found extended : Substitution}
    {before after : State}
    (run :
      Runs (inferFields fields name span context current found) before
        (fields', selected, extended) after)
    (posed : Posed before context current)
    (keeps : found.KeepsTo anyVar before.nextVar)
    (within : current.Within (Below (found.leaves anyVar) before.nextVar)) :
    after.WaitingDrawn := by
  cases fields with
  | nil =>
      obtain ⟨_, _, _, rfl⟩ := runs_inferFields_nil run
      exact posed.waiting
  | cons field rest =>
      obtain ⟨_, _, _, _, _, fieldRun, restRun, _⟩ := runs_inferFields_cons run
      obtain ⟨fieldKeeps, betweenWithin⟩ :=
        inferField_keepsTo fieldRun posed.scene keeps within
      have betweenPosed :=
        { waiting := inferField_waiting fieldRun posed keeps within
          scene := posed.scene.grow (inferField_grows fieldRun)
          expected :=
            betweenWithin.mono fun _ ⟨isLeft, seen⟩ => ⟨isLeft.1, seen⟩ :
          Posed _ _ _ }
      exact inferFields_waiting restRun betweenPosed fieldKeeps betweenWithin
termination_by structural fields

theorem inferField_waiting
    {field field' : Field}
    {name : String}
    {span : Span}
    {context : Context}
    {current selected : Ty}
    {found extended : Substitution}
    {before after : State}
    (run :
      Runs (inferField field name span context current found) before
        (field', selected, extended) after)
    (posed : Posed before context current)
    (keeps : found.KeepsTo anyVar before.nextVar)
    (within : current.Within (Below (found.leaves anyVar) before.nextVar)) :
    after.WaitingDrawn := by
  cases fieldRun_of_runs run with
  | hd asked | tl asked => exact (posed.draw 0).waiting.unified asked
  | fst asked | snd asked => exact (posed.draw 1).waiting.unified asked
  | index asked positionRun =>
      have drawn : before.Grows (before.draw 1) := .draw _ _
      have elementDrawn :
          (Ty.var before.nextVar).Within (Drawn before (before.draw 1)) :=
        Ty.within_var.mpr ⟨Nat.le_refl _, Nat.lt_succ_self _⟩
      obtain ⟨bothKeep, _⟩ :=
        keeps.select posed.scene.supply within drawn asked
          (Ty.within_list.mpr elementDrawn)
      have positionPosed :=
        posed.next (drawn.trans (unifyOrReport_grows asked))
          ((posed.draw 0).waiting.unified asked) bothKeep Ty.within_int
      exact inferExpr_waiting positionRun positionPosed
termination_by structural field

/-- A call that is set aside waits with drawn variables. -/
theorem inferCall_waiting
    {call call' : Call}
    {context : Context}
    {expected : Ty}
    {demand : Demand}
    {guard : Option ValueGuard}
    {found : Substitution}
    {before after : State}
    (run :
      Runs (inferCall call context expected demand guard) before (call', found)
        after)
    (posed : Posed before context expected) :
    after.WaitingDrawn := by
  cases callRun_of_runs run with
  | waits =>
      exact State.AllWaiting.setAside posed.waiting
        ⟨posed.scene.context, posed.expected⟩
  | arity => exact posed.waiting.record _
  | void known _ argsRun =>
      exact inferArgs_waiting argsRun posed.waiting
        (CallProgress.keepsTo_start posed.scene.context)
        (posed.scene.context.funs _ _ known).1
  | checked known _ argsRun asked =>
      have argsWaiting :=
        inferArgs_waiting argsRun posed.waiting
          (CallProgress.keepsTo_start posed.scene.context)
          (posed.scene.context.funs _ _ known).1
      exact argsWaiting.unified asked
termination_by structural call

/-- Calls that arguments set aside wait with drawn variables. -/
theorem inferArgs_waiting
    {args args' : List Expr}
    {params : List Ty}
    {function : String}
    {number : Nat}
    {progress : CallProgress}
    {outcome : Option CallProgress}
    {before after : State}
    (run :
      Runs (inferArgs args params function number progress) before
        (args', outcome) after)
    (waiting : before.WaitingDrawn)
    (keeps : progress.KeepsTo anyVar before.nextVar)
    (paramsWithin :
      ∀ param ∈ params, param.Within (Below anyVar before.nextVar)) :
    after.WaitingDrawn := by
  have supply : Supply anyVar before.nextVar := fun _ _ => trivial
  cases argsRun_of_runs run with
  | done => exact waiting
  | void argRun =>
      exact (inferExpr_waiting argRun (keeps.posed waiting)).record _
  | @next arg _ _ _ param _ _ found more _ middle unified _
      argRun argTyEq _ asked restRun =>
      have argGrows := inferExpr_grows argRun
      have leftSupply := keeps.outward.supply supply (Nat.le_refl _)
      have foundKeeps :
          found.KeepsTo (progress.outward.leaves anyVar) middle.nextVar :=
        inferExpr_keepsTo argRun
          ((Scene.mk leftSupply keeps.context).grow (.draw _ _))
          (leftSupply.within_var (Nat.le_refl _) (Nat.lt_succ_self _))
      obtain ⟨_, nextKeeps⟩ :=
        keeps.step foundKeeps asked argTyEq supply argGrows.nextVar
          (paramsWithin param List.mem_cons_self)
      have argWaiting := inferExpr_waiting argRun (keeps.posed waiting)
      have grows : before.Grows unified :=
        ((State.Grows.draw _ _).trans argGrows).trans
          (unifyOrReport_grows asked)
      exact inferArgs_waiting restRun (argWaiting.unified asked) nextKeeps
        fun other member =>
          (paramsWithin other (List.mem_cons_of_mem _ member)).grow grows
termination_by structural args

end

mutual

/-- Calls that a statement sets aside wait with drawn variables. -/
theorem inferStmt_waiting
    {stmt stmt' : Stmt}
    {context : Context}
    {expected : Ty}
    {found : Substitution}
    {before after : State}
    (run : Runs (inferStmt stmt context expected) before (stmt', found) after)
    (posed : Posed before context expected) :
    after.WaitingDrawn := by
  cases stmtRun_of_runs run with
  | ifElse thenRun elseRun conditionRun =>
      have thenGrows := inferBlock_grows thenRun
      have thenKeeps := inferBlock_keepsTo thenRun posed.scene posed.expected
      have elsePosed :=
        posed.next thenGrows (inferBlock_waiting thenRun posed) thenKeeps
          (thenKeeps.within.apply (posed.expected.grow thenGrows))
      have elseKeeps :=
        inferBlock_keepsTo elseRun elsePosed.scene elsePosed.expected
      have elseWaiting := inferBlock_waiting elseRun elsePosed
      have conditionPosed :=
        elsePosed.next (inferBlock_grows elseRun) elseWaiting elseKeeps
          Ty.within_bool
      rw [← Context.narrow_append] at conditionPosed
      exact inferExpr_waiting conditionRun conditionPosed
  | whileDo bodyRun conditionRun =>
      have bodyKeeps := inferBlock_keepsTo bodyRun posed.scene posed.expected
      have conditionPosed :=
        posed.next (inferBlock_grows bodyRun) (inferBlock_waiting bodyRun posed)
          bodyKeeps Ty.within_bool
      exact inferExpr_waiting conditionRun conditionPosed
  | forTaken iterableRun =>
      have drawnPosed := posed.draw 0
      have iterablePosed :=
        drawnPosed.expect (Ty.within_list.mpr drawnPosed.expected)
      exact (inferExpr_waiting iterableRun iterablePosed).record _
  | forIn iterableRun _ bodyRun =>
      have drawnPosed := posed.draw 0
      have iterablePosed :=
        drawnPosed.expect (Ty.within_list.mpr drawnPosed.expected)
      have grows := inferExpr_grows iterableRun
      have iterableKeeps :=
        inferExpr_keepsTo iterableRun iterablePosed.scene iterablePosed.expected
      have bodyPosed :=
        iterablePosed.afterExpr iterableRun
          (inferExpr_waiting iterableRun iterablePosed)
          (iterableKeeps.within.apply
            (posed.expected.grow ((State.Grows.draw _ _).trans grows)))
      have elementWithin :=
        iterableKeeps.within.apply (drawnPosed.expected.grow grows)
      exact inferBlock_waiting bodyRun
        { bodyPosed with scene := bodyPosed.scene.bindVar _ elementWithin }
  | assignVoid valueRun targetRun =>
      have valuePosed := posed.draw 0
      have targetPosed :=
        (valuePosed.afterExpr valueRun (inferExpr_waiting valueRun valuePosed)
          Ty.within_int).draw 0
      exact (inferPlace_waiting targetRun targetPosed).record _
  | assign valueRun targetRun _ _ asked =>
      have valuePosed := posed.draw 0
      have targetPosed :=
        (valuePosed.afterExpr valueRun (inferExpr_waiting valueRun valuePosed)
          Ty.within_int).draw 0
      exact (inferPlace_waiting targetRun targetPosed).unified asked
  | call callRun => exact inferCall_waiting callRun (posed.draw 0)
  | returnVoid valueRun =>
      exact (inferExpr_waiting valueRun (posed.draw 0)).record _
  | returnValue valueRun _ asked =>
      exact (inferExpr_waiting valueRun (posed.draw 0)).unified asked
  | returnNothing asked => exact posed.waiting.unified asked
termination_by structural stmt

/-- Calls that statements set aside wait with drawn variables. -/
theorem inferBlock_waiting
    {stmts stmts' : List Stmt}
    {context : Context}
    {expected : Ty}
    {found : Substitution}
    {before after : State}
    (run :
      Runs (inferBlock stmts context expected) before (stmts', found) after)
    (posed : Posed before context expected) :
    after.WaitingDrawn := by
  cases stmts with
  | nil =>
      obtain ⟨_, _, rfl⟩ := runs_inferBlock_nil run
      exact posed.waiting
  | cons stmt rest =>
      obtain ⟨_, _, _, _, _, stmtRun, restRun, _, _⟩ := runs_inferBlock_cons run
      have grows := inferStmt_grows stmtRun
      have keeps := inferStmt_keepsTo stmtRun posed.scene posed.expected
      exact inferBlock_waiting restRun
        (posed.next grows (inferStmt_waiting stmtRun posed) keeps
          (keeps.within.apply (posed.expected.grow grows)))
termination_by structural stmts

end

/-- Calls that a declaration sets aside wait with drawn variables. -/
theorem inferVarDecl_waiting
    {decl decl' : VarDecl}
    {context context' : Context}
    {expected : Ty}
    {found : Substitution}
    {before after : State}
    (run :
      Runs (inferVarDecl decl context expected) before
        (decl', context', found) after)
    (names : before.NamesDrawn)
    (scene : Scene anyVar before context)
    (waiting : before.WaitingDrawn) :
    after.WaitingDrawn := by
  have valuePosed
      {declared : Ty}
      {middle : State}
      (declaredRun : Runs (declaredTy decl.written) before declared middle) :
      Posed middle context declared := by
    have grows := (declaredTy_declares declaredRun).nextVar
    exact
      { waiting := waiting.change grows (declaredTy_pending declaredRun)
        scene :=
          ⟨scene.supply.mono grows, scene.context.mono (Below.mono grows)⟩
        expected := declaredTy_drawn declaredRun names }
  cases varDeclRun_of_runs run with
  | taken => exact waiting.record _
  | void _ declaredRun valueRun =>
      exact (inferExpr_waiting valueRun (valuePosed declaredRun)).record _
  | bound _ declaredRun valueRun _ asked =>
      exact (inferExpr_waiting valueRun (valuePosed declaredRun)).unified asked

/-- Calls that locals set aside wait with drawn variables. -/
theorem inferLocals_waiting
    {decls decls' : List VarDecl}
    {context context' : Context}
    {found : Substitution}
    {before after : State}
    (run :
      Runs (inferLocals decls context) before (decls', context', found)
        after)
    (names : before.NamesDrawn)
    (scene : Scene anyVar before context)
    (waiting : before.WaitingDrawn) :
    after.WaitingDrawn := by
  induction decls generalizing decls' context found before with
  | nil =>
      obtain ⟨_, _, _, rfl⟩ := runs_inferLocals_nil run
      exact waiting
  | cons decl rest inductionHypothesis =>
      obtain ⟨_, _, _, _, _, _, declRun, restRun, _, _⟩ :=
        runs_inferLocals_cons run
      have drawn : before.Grows (before.draw 1) := .draw _ _
      have drawnNames := drawn.declares.drawn names
      have drawnScene := scene.grow drawn
      have declWaiting :=
        inferVarDecl_waiting declRun drawnNames drawnScene
          (waiting.change drawn.nextVar rfl)
      obtain ⟨_, restScene⟩ :=
        inferVarDecl_drawn declRun drawnNames drawnScene (scene.within_next 0)
      exact inductionHypothesis restRun
        ((inferVarDecl_declares declRun).drawn drawnNames) restScene
        declWaiting

end SplTyping
