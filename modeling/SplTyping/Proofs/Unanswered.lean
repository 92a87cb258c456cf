import SplTyping.Proofs.CallFree
import SplTyping.Proofs.Declarations
import SplTyping.Proofs.Nodes
import SplTyping.Proofs.Settlement

namespace SplTyping

/-!
# Unanswered calls

A call whose callee is not known is set aside as it is, with its arguments. So
what a tree sets aside are its outermost unanswered calls (`unanswered`), each of
them once; where an error is recorded, a part of the tree may be left out.
-/

mutual

/-- The outermost calls of an expression whose callees are not known. -/
def Expr.unanswered (known : String → Bool) : Expr → List Call
  | .int _ _ | .bool _ _ | .char _ _ | .nil _ => []
  | .read place => place.unanswered known
  | .pair first second _ => first.unanswered known ++ second.unanswered known
  | .range first last _ => first.unanswered known ++ last.unanswered known
  | .binary _ left right _ => left.unanswered known ++ right.unanswered known
  | .unary _ operand _ => operand.unanswered known
  | .call made => made.unanswered known

/-- The outermost unanswered calls of a place. -/
def Place.unanswered (known : String → Bool) : Place → List Call
  | ⟨_, fields, _⟩ => Field.unansweredAll known fields

/-- The outermost unanswered calls of a field. -/
def Field.unanswered (known : String → Bool) : Field → List Call
  | .hd | .tl | .fst | .snd => []
  | .index position => position.unanswered known

/-- The outermost unanswered calls of several fields. -/
def Field.unansweredAll (known : String → Bool) : List Field → List Call
  | [] => []
  | field :: rest => field.unanswered known ++ Field.unansweredAll known rest

/-- A call if its callee is not known, or else what its arguments hold. -/
def Call.unanswered (known : String → Bool) : Call → List Call
  | ⟨callee, args, mark, waiting⟩ =>
      if known callee.text then
        Expr.unansweredAll known args
      else
        [⟨callee, args, mark, waiting⟩]

/-- The outermost unanswered calls of several expressions. -/
def Expr.unansweredAll (known : String → Bool) : List Expr → List Call
  | [] => []
  | expr :: rest => expr.unanswered known ++ Expr.unansweredAll known rest

end

/-- The calls of a call are itself and those in its arguments. -/
theorem Call.calls_eq (call : Call) :
    call.calls = call :: Expr.callsAll call.args := by
  rcases call with ⟨callee, args, mark, waiting⟩
  rw [Call.calls]

/-- A call of a known function is answered; its arguments may hold others. -/
theorem Call.unanswered_of_known
    {known : String → Bool}
    {call : Call}
    (isKnown : known call.callee.text = true) :
    call.unanswered known = Expr.unansweredAll known call.args := by
  rcases call with ⟨callee, args, mark, waiting⟩
  rw [Call.unanswered, if_pos isKnown]

/-- A call of an unknown function hides the calls in its arguments. -/
theorem Call.unanswered_of_unknown
    {known : String → Bool}
    {call : Call}
    (isUnknown : known call.callee.text = false) :
    call.unanswered known = [call] := by
  rcases call with ⟨callee, args, mark, waiting⟩
  rw [Call.unanswered, if_neg (Bool.eq_false_iff.mp isUnknown)]

mutual

/-- The outermost unanswered calls of a statement. -/
def Stmt.unanswered (known : String → Bool) : Stmt → List Call
  | .ifElse condition thenBody elseBody _ =>
      condition.unanswered known ++ Stmt.unansweredAll known thenBody ++
        Stmt.unansweredAll known elseBody
  | .whileDo condition body _ =>
      condition.unanswered known ++ Stmt.unansweredAll known body
  | .forIn _ iterable body _ =>
      iterable.unanswered known ++ Stmt.unansweredAll known body
  | .assign target value _ => target.unanswered known ++ value.unanswered known
  | .call made => made.unanswered known
  | .ret none _ => []
  | .ret (some value) _ => value.unanswered known

/-- The outermost unanswered calls of several statements. -/
def Stmt.unansweredAll (known : String → Bool) : List Stmt → List Call
  | [] => []
  | stmt :: rest => stmt.unanswered known ++ Stmt.unansweredAll known rest

end

/-- The outermost unanswered calls of the declaration of a variable. -/
def VarDecl.unanswered (known : String → Bool) (decl : VarDecl) : List Call :=
  decl.value.unanswered known

/-- The outermost unanswered calls of a function. -/
def FunDecl.unanswered (known : String → Bool) (decl : FunDecl) : List Call :=
  decl.locals.flatMap (VarDecl.unanswered known) ++
    Stmt.unansweredAll known decl.body

/-- The outermost unanswered calls of a declaration. -/
def Decl.unanswered (known : String → Bool) : Decl → List Call
  | .var decl => decl.unanswered known
  | .fn decl => decl.unanswered known

/-- The outermost unanswered calls of a program. -/
def Program.unanswered (known : String → Bool) (program : Program) : List Call :=
  program.decls.flatMap (Decl.unanswered known)

/--
A relation between the calls of a tree, those unanswered by some functions, and
those unanswered by others, which follows the tree.
-/
structure AlongTrees
    (known declared : String → Bool)
    (related : List Call → List Call → List Call → Prop) :
    Prop where
  nil : related [] [] []
  append :
    ∀ {calls calls' first first' second second'},
      related calls first second → related calls' first' second' →
        related (calls ++ calls') (first ++ first') (second ++ second')
  call :
    ∀ call : Call,
      related (Expr.callsAll call.args) (Expr.unansweredAll known call.args)
          (Expr.unansweredAll declared call.args) →
        related call.calls (call.unanswered known) (call.unanswered declared)

namespace AlongTrees

variable
  {known declared : String → Bool}
  {related : List Call → List Call → List Call → Prop}

mutual

/-- What holds along trees holds of an expression. -/
theorem expr
    (along : AlongTrees known declared related)
    (tree : Expr) :
    related tree.calls (tree.unanswered known) (tree.unanswered declared) := by
  cases tree with
  | int | bool | char | nil => exact along.nil
  | read place => exact along.place place
  | pair first second | range first second | binary _ first second =>
      exact along.append (along.expr first) (along.expr second)
  | unary _ operand => exact along.expr operand
  | call made => exact along.ofCall made
termination_by structural tree

/-- What holds along trees holds of a place. -/
theorem place
    (along : AlongTrees known declared related)
    (tree : Place) :
    related tree.calls (tree.unanswered known) (tree.unanswered declared) := by
  rcases tree with ⟨name, fields, mark⟩
  exact along.fields fields
termination_by structural tree

/-- What holds along trees holds of a field. -/
theorem field
    (along : AlongTrees known declared related)
    (tree : Field) :
    related tree.calls (tree.unanswered known) (tree.unanswered declared) := by
  cases tree with
  | hd | tl | fst | snd => exact along.nil
  | index position => exact along.expr position
termination_by structural tree

/-- What holds along trees holds of fields. -/
theorem fields
    (along : AlongTrees known declared related)
    (trees : List Field) :
    related (Field.callsAll trees) (Field.unansweredAll known trees)
      (Field.unansweredAll declared trees) := by
  cases trees with
  | nil => exact along.nil
  | cons field rest => exact along.append (along.field field) (along.fields rest)
termination_by structural trees

/--
What holds along trees holds of a call: both sides know it, or one or none.
-/
theorem ofCall
    (along : AlongTrees known declared related)
    (tree : Call) :
    related tree.calls (tree.unanswered known) (tree.unanswered declared) := by
  rcases tree with ⟨callee, args, mark, waiting⟩
  exact along.call _ (along.exprs args)
termination_by structural tree

/-- What holds along trees holds of expressions. -/
theorem exprs
    (along : AlongTrees known declared related)
    (trees : List Expr) :
    related (Expr.callsAll trees) (Expr.unansweredAll known trees)
      (Expr.unansweredAll declared trees) := by
  cases trees with
  | nil => exact along.nil
  | cons expr rest => exact along.append (along.expr expr) (along.exprs rest)
termination_by structural trees

end

mutual

/-- What holds along trees holds of a statement. -/
theorem stmt
    (along : AlongTrees known declared related)
    (tree : Stmt) :
    related tree.calls (tree.unanswered known) (tree.unanswered declared) := by
  cases tree with
  | ifElse condition thenBody elseBody =>
      exact along.append
        (along.append (along.expr condition) (along.stmts thenBody))
        (along.stmts elseBody)
  | whileDo condition body | forIn _ condition body =>
      exact along.append (along.expr condition) (along.stmts body)
  | assign target value =>
      exact along.append (along.place target) (along.expr value)
  | call made => exact along.ofCall made
  | ret value =>
      cases value with
      | none => exact along.nil
      | some value => exact along.expr value
termination_by structural tree

/-- What holds along trees holds of statements. -/
theorem stmts
    (along : AlongTrees known declared related)
    (trees : List Stmt) :
    related (Stmt.callsAll trees) (Stmt.unansweredAll known trees)
      (Stmt.unansweredAll declared trees) := by
  cases trees with
  | nil => exact along.nil
  | cons stmt rest => exact along.append (along.stmt stmt) (along.stmts rest)
termination_by structural trees

end

/-- What holds along trees holds of declarations of variables. -/
theorem varDecls
    (along : AlongTrees known declared related)
    (decls : List VarDecl) :
    related (decls.flatMap VarDecl.calls)
      (decls.flatMap (VarDecl.unanswered known))
      (decls.flatMap (VarDecl.unanswered declared)) := by
  induction decls with
  | nil => exact along.nil
  | cons decl rest inductionHypothesis =>
      exact along.append (along.expr decl.value) inductionHypothesis

/-- What holds along trees holds of a function. -/
theorem funDecl
    (along : AlongTrees known declared related)
    (decl : FunDecl) :
    related decl.calls (decl.unanswered known) (decl.unanswered declared) :=
  along.append (along.varDecls decl.locals) (along.stmts decl.body)

/-- What holds along trees holds of all declarations. -/
theorem decls
    (along : AlongTrees known declared related)
    (decls : List Decl) :
    related (decls.flatMap Decl.calls) (decls.flatMap (Decl.unanswered known))
      (decls.flatMap (Decl.unanswered declared)) := by
  induction decls with
  | nil => exact along.nil
  | cons decl rest inductionHypothesis =>
      cases decl with
      | var decl => exact along.append (along.expr decl.value) inductionHypothesis
      | fn decl => exact along.append (along.funDecl decl) inductionHypothesis

end AlongTrees

/-- An unanswered call has no known callee, and its calls are calls of the tree. -/
theorem alongTrees_mem (known : String → Bool) :
    AlongTrees known known fun calls unanswered _ =>
      ∀ call ∈ unanswered,
        known call.callee.text = false ∧ call.calls ⊆ calls where
  nil := nofun
  append first second call isCall := by
    rcases List.mem_append.mp isCall with inFirst | inSecond
    · exact ⟨(first call inFirst).1,
        List.subset_append_of_subset_left _ (first call inFirst).2⟩
    · exact ⟨(second call inSecond).1,
        List.subset_append_of_subset_right _ (second call inSecond).2⟩
  call made inArgs call isCall := by
    by_cases isKnown : known made.callee.text = true
    · rw [Call.unanswered_of_known isKnown] at isCall
      rw [made.calls_eq]
      exact ⟨(inArgs call isCall).1,
        List.subset_cons_of_subset _ (inArgs call isCall).2⟩
    · rw [Bool.not_eq_true] at isKnown
      rw [Call.unanswered_of_unknown isKnown, List.mem_singleton] at isCall
      rw [isCall]
      exact ⟨isKnown, List.Subset.refl _⟩

/--
What more functions leave unanswered is what they leave of the calls that fewer
functions leave.
-/
theorem alongTrees_flatMap
    {known declared : String → Bool}
    (more : ∀ name, known name = true → declared name = true) :
    AlongTrees known declared fun _ unanswered fewer =>
      fewer = unanswered.flatMap (Call.unanswered declared) where
  nil := rfl
  append first second := by rw [List.flatMap_append, first, second]
  call made inArgs := by
    by_cases isKnown : known made.callee.text = true
    · rw [Call.unanswered_of_known (more _ isKnown),
        Call.unanswered_of_known isKnown]
      exact inArgs
    · rw [Bool.not_eq_true] at isKnown
      rw [Call.unanswered_of_unknown isKnown, List.flatMap_singleton]

/-- The waiting calls after some more are set aside, one after the other. -/
inductive PendingCalls.Receives :
    PendingCalls → List Call → PendingCalls → Prop where
  | nil
      {pending : PendingCalls} :
      Receives pending [] pending
  | cons
      {pending after : PendingCalls}
      {call : Call}
      {calls : List Call}
      {context : Context}
      {expected : Ty}
      {guard : Option ValueGuard}
      (rest : Receives (pending.defer call context expected guard).2 calls after) :
      Receives pending (call :: calls) after

/-- Calls may be received in two goes. -/
theorem PendingCalls.Receives.append
    {before middle after : PendingCalls}
    {calls more : List Call}
    (first : before.Receives calls middle)
    (second : middle.Receives more after) :
    before.Receives (calls ++ more) after := by
  induction first with
  | nil => exact second
  | cons _ inductionHypothesis => exact .cons (inductionHypothesis second)

/--
From one state to the other some of the given calls are set aside, and all of
them unless an error is recorded.
-/
def SetsAside (calls : List Call) (before after : State) : Prop :=
  ∃ made,
    before.pending.Receives made after.pending ∧ made ⊆ calls ∧
      (after.Clean → before.Clean ∧ made.Perm calls)

namespace SetsAside

variable {calls more : List Call} {before middle after : State}

/-- Doing nothing sets nothing aside. -/
theorem refl (state : State) : SetsAside [] state state :=
  ⟨[], .nil, List.Subset.refl _, fun clean => ⟨clean, .nil⟩⟩

/-- Drawing variables sets nothing aside. -/
theorem draw (state : State) (count : Nat) :
    SetsAside [] state (state.draw count) :=
  refl state

/-- Two steps set aside what either does. -/
theorem append
    (first : SetsAside calls before middle)
    (second : SetsAside more middle after) :
    SetsAside (calls ++ more) before after := by
  obtain ⟨made, firstReceives, firstSubset, firstClean⟩ := first
  obtain ⟨made', secondReceives, secondSubset, secondClean⟩ := second
  refine ⟨made ++ made', firstReceives.append secondReceives,
    List.append_subset.mpr
      ⟨List.subset_append_of_subset_left _ firstSubset,
        List.subset_append_of_subset_right _ secondSubset⟩,
    fun clean => ?_⟩
  obtain ⟨middleClean, secondAll⟩ := secondClean clean
  obtain ⟨beforeClean, firstAll⟩ := firstClean middleClean
  exact ⟨beforeClean, firstAll.append secondAll⟩

/-- The order in which the calls are listed does not matter. -/
theorem perm
    (sets : SetsAside calls before after)
    (same : calls.Perm more) :
    SetsAside more before after := by
  obtain ⟨made, receives, subset, all⟩ := sets
  exact ⟨made, receives, List.Subset.trans subset same.subset, fun clean =>
    ⟨(all clean).1, (all clean).2.trans same⟩⟩

/-- After an error, calls may be left out. -/
theorem record
    (sets : SetsAside calls before after)
    (error : TypeError)
    (more : List Call) :
    SetsAside (calls ++ more) before (after.record error) := by
  obtain ⟨made, receives, subset, _⟩ := sets
  exact ⟨made, receives, List.subset_append_of_subset_left _ subset,
    fun clean => absurd clean (State.not_clean_record _ _)⟩

/-- An error that is recorded afterwards sets nothing more aside. -/
theorem recordAll
    (sets : SetsAside calls before after)
    (error : TypeError) :
    SetsAside calls before (after.record error) := by
  have recorded := sets.record error []
  rwa [List.append_nil] at recorded

/-- A unification afterwards sets nothing more aside. -/
theorem unified
    {left right : Ty}
    {flow : Flow}
    {explain : UnifyError → TypeError}
    {found : Substitution}
    (sets : SetsAside calls before middle)
    (asked : Runs (unifyOrReport left right flow explain) middle found after) :
    SetsAside calls before after := by
  rcases runs_unifyOrReport asked with ⟨_, rfl⟩ | ⟨_, _, _, rfl⟩
  · exact sets
  · exact sets.recordAll _

/-- A step that leaves waiting calls alone sets nothing more aside. -/
theorem declares
    (sets : SetsAside calls before middle)
    (declares : middle.Declares after)
    (samePending : after.pending = middle.pending) :
    SetsAside calls before after := by
  obtain ⟨made, receives, subset, all⟩ := sets
  rw [← samePending] at receives
  exact ⟨made, receives, subset, fun clean => all (declares.clean clean)⟩

end SetsAside

/-- Finding the types of an operator sets nothing aside. -/
theorem OperatorRun.setsAside
    {op : BinOp}
    {left right result : Ty}
    {before after : State}
    (run : OperatorRun before op left right result after) :
    SetsAside [] before after := by
  cases run with
  | cons | compared => exact .draw _ _
  | arithmetic | ordered | logical => exact .refl _

/-- Looking at the bound of a range sets nothing aside. -/
theorem BoundRun.setsAside
    {found extended : Substitution}
    {first bound : Ty}
    {before after : State}
    (run : BoundRun found before first bound extended after) :
    SetsAside [] before after := by
  cases run with
  | int | char | unknown => exact .refl _
  | other => exact (SetsAside.refl _).recordAll _

/-- Narrowing a context leaves its functions known. -/
@[simp]
theorem Context.narrow_knows (context : Context) (found : Substitution) :
    (context.narrow found).funs.contains = context.funs.contains :=
  funext (context.narrow_contains found)

mutual

/-- Only unanswered calls of an expression are set aside: all if there is no error. -/
theorem inferExpr_setsAside
    {expr expr' : Expr}
    {context : Context}
    {expected : Ty}
    {demand : Demand}
    {guard : Option ValueGuard}
    {found : Substitution}
    {before after : State}
    (run :
      Runs (inferExpr expr context expected demand guard) before (expr', found)
        after) :
    SetsAside (expr.unanswered context.funs.contains) before after := by
  cases exprRun_of_runs run with
  | int asked | bool asked | char asked => exact (SetsAside.refl _).unified asked
  | read placeRun => exact inferPlace_setsAside placeRun
  | pairVoid firstRun secondRun =>
      have second := inferExpr_setsAside secondRun
      rw [Context.narrow_knows] at second
      exact ((inferExpr_setsAside firstRun).append second).recordAll _
  | pair firstRun secondRun _ _ asked =>
      have second := inferExpr_setsAside secondRun
      rw [Context.narrow_knows] at second
      exact ((inferExpr_setsAside firstRun).append second).unified asked
  | nil asked => exact (SetsAside.draw _ _).unified asked
  | range firstRun boundRun lastRun asked =>
      have last := boundRun.setsAside.append (inferExpr_setsAside lastRun)
      rw [Context.narrow_knows] at last
      exact ((inferExpr_setsAside firstRun).append last).unified asked
  | binaryLeftVoid operatorRun leftRun =>
      exact (operatorRun.setsAside.append (inferExpr_setsAside leftRun)).record
        _ _
  | binaryRightVoid operatorRun leftRun rightRun =>
      have left := operatorRun.setsAside.append (inferExpr_setsAside leftRun)
      have right := inferExpr_setsAside rightRun
      rw [Context.narrow_knows] at right
      exact (left.append right).recordAll _
  | binary operatorRun leftRun _ rightRun _ asked =>
      have left := operatorRun.setsAside.append (inferExpr_setsAside leftRun)
      have right := inferExpr_setsAside rightRun
      rw [Context.narrow_knows] at right
      exact (left.append right).unified asked
  | unary operandRun asked => exact (inferExpr_setsAside operandRun).unified asked
  | call callRun => exact inferCall_setsAside callRun
termination_by structural expr

/-- The unanswered calls of a place are set aside. -/
theorem inferPlace_setsAside
    {place place' : Place}
    {context : Context}
    {expected : Ty}
    {demand : Demand}
    {found : Substitution}
    {before after : State}
    (run :
      Runs (inferPlace place context expected demand) before (place', found)
        after) :
    SetsAside (place.unanswered context.funs.contains) before after := by
  cases placeRun_of_runs run with
  | unknown => exact (SetsAside.refl _).record _ _
  | known _ fieldsRun asked => exact (inferFields_setsAside fieldsRun).unified asked
termination_by structural place

/-- The unanswered calls of fields are set aside. -/
theorem inferFields_setsAside
    {fields fields' : List Field}
    {name : String}
    {span : Span}
    {context : Context}
    {current selected : Ty}
    {found extended : Substitution}
    {before after : State}
    (run :
      Runs (inferFields fields name span context current found) before
        (fields', selected, extended) after) :
    SetsAside (Field.unansweredAll context.funs.contains fields) before after := by
  cases fields with
  | nil =>
      obtain ⟨_, _, _, rfl⟩ := runs_inferFields_nil run
      exact .refl _
  | cons field rest =>
      obtain ⟨_, _, _, _, _, fieldRun, restRun, _⟩ := runs_inferFields_cons run
      exact (inferField_setsAside fieldRun).append (inferFields_setsAside restRun)
termination_by structural fields

/-- The unanswered calls of a field are set aside. -/
theorem inferField_setsAside
    {field field' : Field}
    {name : String}
    {span : Span}
    {context : Context}
    {current selected : Ty}
    {found extended : Substitution}
    {before after : State}
    (run :
      Runs (inferField field name span context current found) before
        (field', selected, extended) after) :
    SetsAside (field.unanswered context.funs.contains) before after := by
  cases fieldRun_of_runs run with
  | hd asked | tl asked | fst asked | snd asked =>
      exact (SetsAside.draw _ _).unified asked
  | index asked positionRun =>
      have position := inferExpr_setsAside positionRun
      rw [Context.narrow_knows] at position
      exact ((SetsAside.draw _ _).unified asked).append position
termination_by structural field

/-- A call is set aside if it is unanswered, or else those in its arguments. -/
theorem inferCall_setsAside
    {call call' : Call}
    {context : Context}
    {expected : Ty}
    {demand : Demand}
    {guard : Option ValueGuard}
    {found : Substitution}
    {before after : State}
    (run :
      Runs (inferCall call context expected demand guard) before (call', found)
        after) :
    SetsAside (call.unanswered context.funs.contains) before after := by
  cases callRun_of_runs run with
  | waits unknown =>
      have isUnknown : context.funs.contains call.callee.text = false := by
        rw [Table.contains, unknown, Option.isSome_none]
      rw [Call.unanswered_of_unknown isUnknown]
      exact ⟨[_], .cons .nil, List.Subset.refl _, fun clean => ⟨clean, .refl _⟩⟩
  | arity => exact (SetsAside.refl _).record _ _
  | void known sameLength argsRun =>
      rw [Call.unanswered_of_known (Option.isSome_of_eq_some known)]
      exact inferArgs_setsAside argsRun sameLength
  | checked known sameLength argsRun asked =>
      rw [Call.unanswered_of_known (Option.isSome_of_eq_some known)]
      exact (inferArgs_setsAside argsRun sameLength).unified asked
termination_by structural call

/-- The unanswered calls of arguments are set aside. -/
theorem inferArgs_setsAside
    {args args' : List Expr}
    {params : List Ty}
    {function : String}
    {number : Nat}
    {progress : CallProgress}
    {outcome : Option CallProgress}
    {before after : State}
    (run :
      Runs (inferArgs args params function number progress) before
        (args', outcome) after)
    (sameLength : args.length = params.length) :
    SetsAside (Expr.unansweredAll progress.context.funs.contains args) before
      after := by
  cases argsRun_of_runs run with
  | done nothing =>
      have noArgs : args = [] := by
        rcases nothing with rfl | rfl
        · rfl
        · exact List.eq_nil_of_length_eq_zero sameLength
      subst noArgs
      exact .refl _
  | void argRun => exact (inferExpr_setsAside argRun).record _ _
  | next argRun _ _ asked restRun =>
      have rest := inferArgs_setsAside restRun (Nat.succ.inj sameLength)
      rw [CallProgress.next, Context.narrow_knows, Context.narrow_knows] at rest
      exact ((inferExpr_setsAside argRun).unified asked).append rest
termination_by structural args

end

mutual

/-- The unanswered calls of a statement are set aside. -/
theorem inferStmt_setsAside
    {stmt stmt' : Stmt}
    {context : Context}
    {expected : Ty}
    {found : Substitution}
    {before after : State}
    (run : Runs (inferStmt stmt context expected) before (stmt', found) after) :
    SetsAside (stmt.unanswered context.funs.contains) before after := by
  cases stmtRun_of_runs run with
  | ifElse thenRun elseRun conditionRun =>
      have elseAside := inferBlock_setsAside elseRun
      have conditionAside := inferExpr_setsAside conditionRun
      rw [Context.narrow_knows] at elseAside conditionAside
      have branches := (inferBlock_setsAside thenRun).append elseAside
      rw [Stmt.unanswered, List.append_assoc]
      exact (branches.append conditionAside).perm List.perm_append_comm
  | whileDo bodyRun conditionRun =>
      have conditionAside := inferExpr_setsAside conditionRun
      rw [Context.narrow_knows] at conditionAside
      exact ((inferBlock_setsAside bodyRun).append conditionAside).perm
        List.perm_append_comm
  | forTaken iterableRun => exact (inferExpr_setsAside iterableRun).record _ _
  | forIn iterableRun _ bodyRun =>
      have bodyAside := inferBlock_setsAside bodyRun
      rw [Context.bindVar, Context.narrow_knows] at bodyAside
      exact (inferExpr_setsAside iterableRun).append bodyAside
  | assignVoid valueRun targetRun =>
      have targetAside := inferPlace_setsAside targetRun
      rw [Context.narrow_knows] at targetAside
      exact (((inferExpr_setsAside valueRun).append targetAside).perm
        List.perm_append_comm).recordAll _
  | assign valueRun targetRun _ _ asked =>
      have targetAside := inferPlace_setsAside targetRun
      rw [Context.narrow_knows] at targetAside
      exact (((inferExpr_setsAside valueRun).append targetAside).perm
        List.perm_append_comm).unified asked
  | call callRun =>
      exact (SetsAside.draw _ _).append (inferCall_setsAside callRun)
  | returnVoid valueRun => exact (inferExpr_setsAside valueRun).recordAll _
  | returnValue valueRun _ asked =>
      exact (inferExpr_setsAside valueRun).unified asked
  | returnNothing asked => exact (SetsAside.refl _).unified asked
termination_by structural stmt

/-- The unanswered calls of statements are set aside. -/
theorem inferBlock_setsAside
    {stmts stmts' : List Stmt}
    {context : Context}
    {expected : Ty}
    {found : Substitution}
    {before after : State}
    (run :
      Runs (inferBlock stmts context expected) before (stmts', found) after) :
    SetsAside (Stmt.unansweredAll context.funs.contains stmts) before after := by
  cases stmts with
  | nil =>
      obtain ⟨_, _, rfl⟩ := runs_inferBlock_nil run
      exact .refl _
  | cons stmt rest =>
      obtain ⟨_, _, _, _, _, stmtRun, restRun, _⟩ := runs_inferBlock_cons run
      have restAside := inferBlock_setsAside restRun
      rw [Context.narrow_knows] at restAside
      exact (inferStmt_setsAside stmtRun).append restAside
termination_by structural stmts

end

/-- The unanswered calls of a declared value are set aside. -/
theorem inferVarDecl_setsAside
    {decl decl' : VarDecl}
    {context context' : Context}
    {expected : Ty}
    {found : Substitution}
    {before after : State}
    (run :
      Runs (inferVarDecl decl context expected) before
        (decl', context', found) after) :
    SetsAside (decl.unanswered context.funs.contains) before after := by
  have declared {ty : Ty} {middle : State}
      (declaredRun : Runs (declaredTy decl.written) before ty middle) :
      SetsAside [] before middle :=
    (SetsAside.refl _).declares (declaredTy_declares declaredRun)
      (declaredTy_pending declaredRun)
  cases varDeclRun_of_runs run with
  | taken => exact (SetsAside.refl _).record _ _
  | void _ declaredRun valueRun =>
      exact ((declared declaredRun).append
        (inferExpr_setsAside valueRun)).recordAll _
  | bound _ declaredRun valueRun _ asked =>
      exact ((declared declaredRun).append
        (inferExpr_setsAside valueRun)).unified asked

/-- The unanswered calls of locals are set aside. -/
theorem inferLocals_setsAside
    {decls decls' : List VarDecl}
    {context context' : Context}
    {found : Substitution}
    {before after : State}
    (run :
      Runs (inferLocals decls context) before (decls', context', found)
        after) :
    SetsAside (decls.flatMap (VarDecl.unanswered context.funs.contains)) before
      after := by
  induction decls generalizing decls' context found before with
  | nil =>
      obtain ⟨_, _, _, rfl⟩ := runs_inferLocals_nil run
      exact .refl _
  | cons decl rest inductionHypothesis =>
      obtain ⟨_, _, _, _, _, _, declRun, restRun, _⟩ := runs_inferLocals_cons run
      have restAside := inductionHypothesis restRun
      rw [Context.narrow_knows, (varDeclRun_of_runs declRun).funs] at restAside
      exact (inferVarDecl_setsAside declRun).append restAside

/-- Whether a function is known in the body of a function. -/
def FunDecl.knows (decl : FunDecl) (context : Context) (name : String) : Bool :=
  name = decl.name.text || context.funs.contains name

/-- Binding a function makes it known. -/
theorem FunDecl.bindFun_knows
    (decl : FunDecl)
    (context : Context)
    (shape : Signature) :
    (context.bindFun decl.name.text shape).funs.contains =
      decl.knows context := by
  funext name
  rw [Context.bindFun, Table.contains, Table.get?_insert, FunDecl.knows,
    Table.contains]
  by_cases isSelf : name = decl.name.text <;> simp [isSelf]

/-- Inside of a function, it is known along with the others. -/
theorem FunDecl.inner_knows
    (decl : FunDecl)
    (context : Context)
    (shape : Signature) :
    (decl.inner context shape).funs.contains = decl.knows context := by
  funext name
  rw [FunDecl.inner, decl.bindFun_knows, FunDecl.knows, FunDecl.knows,
    Context.bindArgs_funs]

/--
The unanswered calls of a function are set aside before its waiting calls are
taken.
-/
theorem ComparedRun.setsAside
    {decl : FunDecl}
    {locals : List VarDecl}
    {body : List Stmt}
    {context : Context}
    {expected : Ty}
    {found : Substitution}
    {before compared : State}
    (run : ComparedRun decl context expected before locals body found compared) :
    SetsAside (decl.unanswered (decl.knows context)) before compared := by
  cases run with
  | intro localsRun bodyRun asked signatureRun =>
      have localsAside := inferLocals_setsAside localsRun
      have bodyAside := inferBlock_setsAside bodyRun
      rw [runs_inferLocals_funs localsRun, Context.narrow_knows] at bodyAside
      rw [decl.inner_knows] at localsAside bodyAside
      exact ((localsAside.append bodyAside).unified asked).declares
        (signatureFindings_declares signatureRun)
        (signatureFindings_pending signatureRun)

end SplTyping
