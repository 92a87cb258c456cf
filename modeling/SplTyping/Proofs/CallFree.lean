import SplTyping.Calls.Resolved
import SplTyping.Proofs.Growth
import SplTyping.Proofs.Nodes

namespace SplTyping

/-!
# Trees without calls

Inference puts no call into a tree that has none, and sets nothing aside for it.
Putting checked copies in leaves such a tree as it is.
-/

/-- Finding the types of an operator leaves waiting calls alone. -/
theorem OperatorRun.pending
    {op : BinOp}
    {left right result : Ty}
    {before after : State}
    (run : OperatorRun before op left right result after) :
    after.pending = before.pending := by
  cases run <;> rfl

/-- Looking at the bound of a range leaves waiting calls alone. -/
theorem BoundRun.pending
    {found extended : Substitution}
    {first bound : Ty}
    {before after : State}
    (run : BoundRun found before first bound extended after) :
    after.pending = before.pending := by
  cases run <;> rfl

mutual

/-- An expression without calls stays without calls, and sets none aside. -/
theorem inferExpr_callFree
    {expr expr' : Expr}
    {context : Context}
    {expected : Ty}
    {demand : Demand}
    {guard : Option ValueGuard}
    {found : Substitution}
    {before after : State}
    (run :
      Runs (inferExpr expr context expected demand guard) before (expr', found)
        after)
    (callFree : expr.calls = []) :
    expr'.calls = [] ∧ after.pending = before.pending := by
  cases exprRun_of_runs run with
  | int asked | bool asked | char asked | nil asked =>
      have kept := unifyOrReport_pending asked
      exact ⟨rfl, kept⟩
  | read placeRun =>
      rw [Expr.calls] at callFree ⊢
      exact inferPlace_callFree placeRun callFree
  | pairVoid firstRun secondRun =>
      rw [Expr.calls, List.append_eq_nil_iff] at callFree ⊢
      obtain ⟨firstFree, firstKept⟩ := inferExpr_callFree firstRun callFree.1
      obtain ⟨secondFree, secondKept⟩ :=
        inferExpr_callFree secondRun callFree.2
      exact ⟨⟨firstFree, secondFree⟩, secondKept.trans firstKept⟩
  | pair firstRun secondRun _ _ asked =>
      rw [Expr.calls, List.append_eq_nil_iff] at callFree ⊢
      obtain ⟨firstFree, firstKept⟩ := inferExpr_callFree firstRun callFree.1
      obtain ⟨secondFree, secondKept⟩ :=
        inferExpr_callFree secondRun callFree.2
      exact ⟨⟨firstFree, secondFree⟩,
        (unifyOrReport_pending asked).trans (secondKept.trans firstKept)⟩
  | range firstRun boundRun lastRun asked =>
      rw [Expr.calls, List.append_eq_nil_iff] at callFree ⊢
      obtain ⟨firstFree, firstKept⟩ := inferExpr_callFree firstRun callFree.1
      obtain ⟨lastFree, lastKept⟩ := inferExpr_callFree lastRun callFree.2
      exact ⟨⟨firstFree, lastFree⟩,
        (unifyOrReport_pending asked).trans
          (lastKept.trans (boundRun.pending.trans firstKept))⟩
  | binaryLeftVoid operatorRun leftRun =>
      rw [Expr.calls, List.append_eq_nil_iff] at callFree ⊢
      obtain ⟨leftFree, leftKept⟩ := inferExpr_callFree leftRun callFree.1
      exact ⟨⟨leftFree, callFree.2⟩, leftKept.trans operatorRun.pending⟩
  | binaryRightVoid operatorRun leftRun rightRun =>
      rw [Expr.calls, List.append_eq_nil_iff] at callFree ⊢
      obtain ⟨leftFree, leftKept⟩ := inferExpr_callFree leftRun callFree.1
      obtain ⟨rightFree, rightKept⟩ := inferExpr_callFree rightRun callFree.2
      exact ⟨⟨leftFree, rightFree⟩,
        rightKept.trans (leftKept.trans operatorRun.pending)⟩
  | binary operatorRun leftRun _ rightRun _ asked =>
      rw [Expr.calls, List.append_eq_nil_iff] at callFree ⊢
      obtain ⟨leftFree, leftKept⟩ := inferExpr_callFree leftRun callFree.1
      obtain ⟨rightFree, rightKept⟩ := inferExpr_callFree rightRun callFree.2
      exact ⟨⟨leftFree, rightFree⟩,
        (unifyOrReport_pending asked).trans
          (rightKept.trans (leftKept.trans operatorRun.pending))⟩
  | unary operandRun asked =>
      rw [Expr.calls] at callFree ⊢
      obtain ⟨operandFree, operandKept⟩ :=
        inferExpr_callFree operandRun callFree
      exact ⟨operandFree, (unifyOrReport_pending asked).trans operandKept⟩
  | @call made =>
      obtain ⟨callee, args, mark, waiting⟩ := made
      rw [Expr.calls, Call.calls] at callFree
      cases callFree
termination_by structural expr

/-- A place without calls stays without calls, and sets none aside. -/
theorem inferPlace_callFree
    {place place' : Place}
    {context : Context}
    {expected : Ty}
    {demand : Demand}
    {found : Substitution}
    {before after : State}
    (run :
      Runs (inferPlace place context expected demand) before (place', found)
        after)
    (callFree : place.calls = []) :
    place'.calls = [] ∧ after.pending = before.pending := by
  cases placeRun_of_runs run with
  | unknown => exact ⟨callFree, rfl⟩
  | known _ fieldsRun asked =>
      rw [Place.calls] at callFree ⊢
      obtain ⟨fieldsFree, fieldsKept⟩ :=
        inferFields_callFree fieldsRun callFree
      exact ⟨fieldsFree, (unifyOrReport_pending asked).trans fieldsKept⟩
termination_by structural place

/-- Fields without calls stay without calls, and set none aside. -/
theorem inferFields_callFree
    {fields fields' : List Field}
    {name : String}
    {span : Span}
    {context : Context}
    {current selected : Ty}
    {found extended : Substitution}
    {before after : State}
    (run :
      Runs (inferFields fields name span context current found) before
        (fields', selected, extended) after)
    (callFree : Field.callsAll fields = []) :
    Field.callsAll fields' = [] ∧ after.pending = before.pending := by
  cases fields with
  | nil =>
      obtain ⟨rfl, _, _, rfl⟩ := runs_inferFields_nil run
      exact ⟨rfl, rfl⟩
  | cons field rest =>
      rw [Field.callsAll, List.append_eq_nil_iff] at callFree
      obtain ⟨_, _, _, _, _, fieldRun, restRun, rfl⟩ :=
        runs_inferFields_cons run
      obtain ⟨fieldFree, fieldKept⟩ := inferField_callFree fieldRun callFree.1
      obtain ⟨restFree, restKept⟩ := inferFields_callFree restRun callFree.2
      rw [Field.callsAll, List.append_eq_nil_iff]
      exact ⟨⟨fieldFree, restFree⟩, restKept.trans fieldKept⟩
termination_by structural fields

/-- A field without calls stays without calls, and sets none aside. -/
theorem inferField_callFree
    {field field' : Field}
    {name : String}
    {span : Span}
    {context : Context}
    {current selected : Ty}
    {found extended : Substitution}
    {before after : State}
    (run :
      Runs (inferField field name span context current found) before
        (field', selected, extended) after)
    (callFree : field.calls = []) :
    field'.calls = [] ∧ after.pending = before.pending := by
  cases fieldRun_of_runs run with
  | hd asked | tl asked | fst asked | snd asked =>
      have kept := unifyOrReport_pending asked
      exact ⟨rfl, kept⟩
  | index asked positionRun =>
      rw [Field.calls] at callFree ⊢
      obtain ⟨positionFree, positionKept⟩ :=
        inferExpr_callFree positionRun callFree
      have kept := unifyOrReport_pending asked
      exact ⟨positionFree, positionKept.trans kept⟩
termination_by structural field

end

mutual

/-- A statement without calls stays without calls, and sets none aside. -/
theorem inferStmt_callFree
    {stmt stmt' : Stmt}
    {context : Context}
    {expected : Ty}
    {found : Substitution}
    {before after : State}
    (run : Runs (inferStmt stmt context expected) before (stmt', found) after)
    (callFree : stmt.calls = []) :
    stmt'.calls = [] ∧ after.pending = before.pending := by
  cases stmtRun_of_runs run with
  | ifElse thenRun elseRun conditionRun =>
      simp only [Stmt.calls, List.append_eq_nil_iff] at callFree ⊢
      obtain ⟨⟨conditionFree, thenFree⟩, elseFree⟩ := callFree
      obtain ⟨thenFree, thenKept⟩ := inferBlock_callFree thenRun thenFree
      obtain ⟨elseFree, elseKept⟩ := inferBlock_callFree elseRun elseFree
      obtain ⟨conditionFree, conditionKept⟩ :=
        inferExpr_callFree conditionRun conditionFree
      exact ⟨⟨⟨conditionFree, thenFree⟩, elseFree⟩,
        conditionKept.trans (elseKept.trans thenKept)⟩
  | whileDo bodyRun conditionRun =>
      rw [Stmt.calls, List.append_eq_nil_iff] at callFree ⊢
      obtain ⟨bodyFree, bodyKept⟩ := inferBlock_callFree bodyRun callFree.2
      obtain ⟨conditionFree, conditionKept⟩ :=
        inferExpr_callFree conditionRun callFree.1
      exact ⟨⟨conditionFree, bodyFree⟩, conditionKept.trans bodyKept⟩
  | forTaken iterableRun =>
      rw [Stmt.calls, List.append_eq_nil_iff] at callFree ⊢
      obtain ⟨iterableFree, iterableKept⟩ :=
        inferExpr_callFree iterableRun callFree.1
      exact ⟨⟨iterableFree, callFree.2⟩, iterableKept⟩
  | forIn iterableRun _ bodyRun =>
      rw [Stmt.calls, List.append_eq_nil_iff] at callFree ⊢
      obtain ⟨iterableFree, iterableKept⟩ :=
        inferExpr_callFree iterableRun callFree.1
      obtain ⟨bodyFree, bodyKept⟩ := inferBlock_callFree bodyRun callFree.2
      exact ⟨⟨iterableFree, bodyFree⟩, bodyKept.trans iterableKept⟩
  | assignVoid valueRun targetRun =>
      rw [Stmt.calls, List.append_eq_nil_iff] at callFree ⊢
      obtain ⟨valueFree, valueKept⟩ := inferExpr_callFree valueRun callFree.2
      obtain ⟨targetFree, targetKept⟩ :=
        inferPlace_callFree targetRun callFree.1
      exact ⟨⟨targetFree, valueFree⟩, targetKept.trans valueKept⟩
  | assign valueRun targetRun _ _ asked =>
      rw [Stmt.calls, List.append_eq_nil_iff] at callFree ⊢
      obtain ⟨valueFree, valueKept⟩ := inferExpr_callFree valueRun callFree.2
      obtain ⟨targetFree, targetKept⟩ :=
        inferPlace_callFree targetRun callFree.1
      exact ⟨⟨targetFree, valueFree⟩,
        (unifyOrReport_pending asked).trans (targetKept.trans valueKept)⟩
  | @call made =>
      obtain ⟨callee, args, mark, waiting⟩ := made
      rw [Stmt.calls, Call.calls] at callFree
      cases callFree
  | returnVoid valueRun =>
      rw [Stmt.calls] at callFree ⊢
      obtain ⟨valueFree, valueKept⟩ := inferExpr_callFree valueRun callFree
      exact ⟨valueFree, valueKept⟩
  | returnValue valueRun _ asked =>
      rw [Stmt.calls] at callFree ⊢
      obtain ⟨valueFree, valueKept⟩ := inferExpr_callFree valueRun callFree
      exact ⟨valueFree, (unifyOrReport_pending asked).trans valueKept⟩
  | returnNothing asked => exact ⟨rfl, unifyOrReport_pending asked⟩
termination_by structural stmt

/-- Statements without calls stay without calls, and set none aside. -/
theorem inferBlock_callFree
    {stmts stmts' : List Stmt}
    {context : Context}
    {expected : Ty}
    {found : Substitution}
    {before after : State}
    (run :
      Runs (inferBlock stmts context expected) before (stmts', found) after)
    (callFree : Stmt.callsAll stmts = []) :
    Stmt.callsAll stmts' = [] ∧ after.pending = before.pending := by
  cases stmts with
  | nil =>
      obtain ⟨rfl, _, rfl⟩ := runs_inferBlock_nil run
      exact ⟨rfl, rfl⟩
  | cons stmt rest =>
      rw [Stmt.callsAll, List.append_eq_nil_iff] at callFree
      obtain ⟨_, _, _, _, _, stmtRun, restRun, rfl, _⟩ :=
        runs_inferBlock_cons run
      obtain ⟨stmtFree, stmtKept⟩ := inferStmt_callFree stmtRun callFree.1
      obtain ⟨restFree, restKept⟩ := inferBlock_callFree restRun callFree.2
      rw [Stmt.callsAll, List.append_eq_nil_iff]
      exact ⟨⟨stmtFree, restFree⟩, restKept.trans stmtKept⟩
termination_by structural stmts

end

mutual

/-- Without calls, no copy is put into an expression. -/
theorem Expr.settle_of_callFree
    (enter : Call → SettleM Call)
    {expr : Expr}
    (callFree : expr.calls = []) :
    expr.settle enter = pure expr := by
  cases expr with
  | int | bool | char | nil => rfl
  | read place =>
      rw [Expr.calls] at callFree
      rw [Expr.settle, Place.settle_of_callFree enter callFree, pure_bind]
  | pair first second mark =>
      rw [Expr.calls, List.append_eq_nil_iff] at callFree
      rw [Expr.settle, Expr.settle_of_callFree enter callFree.1,
        Expr.settle_of_callFree enter callFree.2, pure_bind, pure_bind]
  | range first last mark =>
      rw [Expr.calls, List.append_eq_nil_iff] at callFree
      rw [Expr.settle, Expr.settle_of_callFree enter callFree.1,
        Expr.settle_of_callFree enter callFree.2, pure_bind, pure_bind]
  | binary op left right mark =>
      rw [Expr.calls, List.append_eq_nil_iff] at callFree
      rw [Expr.settle, Expr.settle_of_callFree enter callFree.1,
        Expr.settle_of_callFree enter callFree.2, pure_bind, pure_bind]
  | unary op operand mark =>
      rw [Expr.calls] at callFree
      rw [Expr.settle, Expr.settle_of_callFree enter callFree, pure_bind]
  | call made =>
      obtain ⟨callee, args, mark, waiting⟩ := made
      rw [Expr.calls, Call.calls] at callFree
      cases callFree
termination_by structural expr

/-- Without calls, no copy is put into a place. -/
theorem Place.settle_of_callFree
    (enter : Call → SettleM Call)
    {place : Place}
    (callFree : place.calls = []) :
    place.settle enter = pure place := by
  obtain ⟨name, fields, mark⟩ := place
  rw [Place.calls] at callFree
  rw [Place.settle, Field.settleAll_of_callFree enter callFree, pure_bind]
termination_by structural place

/-- Without calls, no copy is put into fields. -/
theorem Field.settleAll_of_callFree
    (enter : Call → SettleM Call)
    {fields : List Field}
    (callFree : Field.callsAll fields = []) :
    Field.settleAll enter fields = pure fields := by
  cases fields with
  | nil => rfl
  | cons field rest =>
      rw [Field.callsAll, List.append_eq_nil_iff] at callFree
      rw [Field.settleAll, Field.settle_of_callFree enter callFree.1,
        Field.settleAll_of_callFree enter callFree.2, pure_bind, pure_bind]
termination_by structural fields

/-- Without calls, no copy is put into a field. -/
theorem Field.settle_of_callFree
    (enter : Call → SettleM Call)
    {field : Field}
    (callFree : field.calls = []) :
    field.settle enter = pure field := by
  cases field with
  | hd | tl | fst | snd => rfl
  | index position =>
      rw [Field.calls] at callFree
      rw [Field.settle, Expr.settle_of_callFree enter callFree, pure_bind]
termination_by structural field

end

mutual

/-- Without calls, no copy is put into a statement. -/
theorem Stmt.settle_of_callFree
    (enter : Call → SettleM Call)
    {stmt : Stmt}
    (callFree : stmt.calls = []) :
    stmt.settle enter = pure stmt := by
  match stmt with
  | .ifElse condition thenBody elseBody span =>
      simp only [Stmt.calls, List.append_eq_nil_iff] at callFree
      rw [Stmt.settle, Expr.settle_of_callFree enter callFree.1.1,
        Stmt.settleAll_of_callFree enter callFree.1.2,
        Stmt.settleAll_of_callFree enter callFree.2, pure_bind, pure_bind,
        pure_bind]
  | .whileDo condition body span =>
      rw [Stmt.calls, List.append_eq_nil_iff] at callFree
      rw [Stmt.settle, Expr.settle_of_callFree enter callFree.1,
        Stmt.settleAll_of_callFree enter callFree.2, pure_bind, pure_bind]
  | .forIn element iterable body span =>
      rw [Stmt.calls, List.append_eq_nil_iff] at callFree
      rw [Stmt.settle, Expr.settle_of_callFree enter callFree.1,
        Stmt.settleAll_of_callFree enter callFree.2, pure_bind, pure_bind]
  | .assign target value span =>
      rw [Stmt.calls, List.append_eq_nil_iff] at callFree
      rw [Stmt.settle, Place.settle_of_callFree enter callFree.1,
        Expr.settle_of_callFree enter callFree.2, pure_bind, pure_bind]
  | .call ⟨callee, args, mark, waiting⟩ =>
      rw [Stmt.calls, Call.calls] at callFree
      cases callFree
  | .ret none span => rfl
  | .ret (some value) span =>
      rw [Stmt.calls] at callFree
      rw [Stmt.settle, Expr.settle_of_callFree enter callFree, pure_bind]
termination_by structural stmt

/-- Without calls, no copy is put into statements. -/
theorem Stmt.settleAll_of_callFree
    (enter : Call → SettleM Call)
    {stmts : List Stmt}
    (callFree : Stmt.callsAll stmts = []) :
    Stmt.settleAll enter stmts = pure stmts := by
  cases stmts with
  | nil => rfl
  | cons stmt rest =>
      rw [Stmt.callsAll, List.append_eq_nil_iff] at callFree
      rw [Stmt.settleAll, Stmt.settle_of_callFree enter callFree.1,
        Stmt.settleAll_of_callFree enter callFree.2, pure_bind, pure_bind]
termination_by structural stmts

end

/-- A step that keeps every item of a list keeps the list. -/
private theorem mapM_eq_pure
    {α : Type}
    {step : α → SettleM α}
    {items : List α}
    (keeps : ∀ item ∈ items, step item = pure item) :
    items.mapM step = pure items := by
  induction items with
  | nil => rfl
  | cons item rest inductionHypothesis =>
      obtain ⟨itemKept, restKept⟩ := List.forall_mem_cons.mp keeps
      rw [List.mapM_cons, itemKept, inductionHypothesis restKept, pure_bind,
        pure_bind]

/-- Without calls, no copy is put into a function. -/
theorem FunDecl.settle_of_callFree
    (enter : Call → SettleM Call)
    {decl : FunDecl}
    (callFree : decl.calls = []) :
    decl.settle enter = pure decl := by
  rw [FunDecl.calls, List.append_eq_nil_iff, List.flatMap_eq_nil_iff] at callFree
  have localsKept : ∀ item ∈ decl.locals, item.settle enter = pure item := by
    intro item member
    rw [VarDecl.settle, Expr.settle_of_callFree enter (callFree.1 item member),
      pure_bind]
  rw [FunDecl.settle, mapM_eq_pure localsKept,
    Stmt.settleAll_of_callFree enter callFree.2, pure_bind, pure_bind]

/-- A program without calls is left as it is. -/
theorem Program.settle_of_callFree
    {program : Program}
    (callFree : program.calls = [])
    (resolved : ResolvedCalls) :
    program.settle.run resolved = (program, resolved) := by
  rw [Program.calls, List.flatMap_eq_nil_iff] at callFree
  have declsKept (enter : Call → SettleM Call) :
      ∀ decl ∈ program.decls, decl.settle enter = pure decl := by
    intro decl member
    have declFree := callFree decl member
    cases decl with
    | var decl =>
        rw [Decl.settle, VarDecl.settle,
          Expr.settle_of_callFree enter declFree, pure_bind, pure_bind]
    | fn decl =>
        rw [Decl.settle, FunDecl.settle_of_callFree enter declFree, pure_bind]
  have kept (enter : Call → SettleM Call) :
      program.decls.mapM (Decl.settle enter) = pure program.decls :=
    mapM_eq_pure (declsKept enter)
  simp only [Program.settle, kept, pure_bind]
  rfl

end SplTyping
