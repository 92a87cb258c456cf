import SplTyping.Proofs.Acceptance
import SplTyping.Proofs.Nodes

namespace SplTyping

/-!
# What inference leaves alone

Two trees are compared by what is left of them once some things are left out:
the types and numbers that inference writes into a tree, and if wanted also the
places of nodes and the values of literals. Inference changes nothing but types
and numbers, whether or not it records errors on the way.
-/

/-- What is left out of trees when they are compared. -/
inductive Erasure where
  /-- Types, and the numbers of calls. -/
  | slots
  /-- These, the places of nodes and the values of literals. -/
  | details

namespace Erasure

/-- What is left of a place in the source text. -/
def span : Erasure → Span → Span
  | .slots, span => span
  | .details, _ => .unknown

/-- What is left of an integer literal. -/
def int : Erasure → Int → Int
  | .slots, value => value
  | .details, _ => 0

/-- What is left of a boolean literal. -/
def bool : Erasure → Bool → Bool
  | .slots, value => value
  | .details, _ => false

/-- What is left of a character literal. -/
def char : Erasure → Char → Char
  | .slots, value => value
  | .details, _ => ' '

/-- Of two places, the one that is known is chosen before or after erasure. -/
theorem span_choice
    (erasure : Erasure)
    (first second : Span) :
    (if (erasure.span first).isUnknown then
        erasure.span second
      else
        erasure.span first) =
      erasure.span (if first.isUnknown then second else first) := by
  cases erasure with
  | slots => rfl
  | details => exact ite_self _

end Erasure

/-- A name without what is left out. -/
def Name.erased (erasure : Erasure) (name : Name) : Name where
  text := name.text
  span := erasure.span name.span

/-- A mark without what is left out. -/
def Mark.erased (erasure : Erasure) (mark : Mark) : Mark where
  span := erasure.span mark.span
  ty := none

mutual

/-- An expression without what is left out. -/
def Expr.erased (erasure : Erasure) : Expr → Expr
  | .int value mark => .int (erasure.int value) (mark.erased erasure)
  | .bool value mark => .bool (erasure.bool value) (mark.erased erasure)
  | .char value mark => .char (erasure.char value) (mark.erased erasure)
  | .read place => .read (place.erased erasure)
  | .pair first second mark =>
      .pair (first.erased erasure) (second.erased erasure) (mark.erased erasure)
  | .nil mark => .nil (mark.erased erasure)
  | .range first last mark =>
      .range (first.erased erasure) (last.erased erasure) (mark.erased erasure)
  | .binary op left right mark =>
      .binary op (left.erased erasure) (right.erased erasure)
        (mark.erased erasure)
  | .unary op operand mark =>
      .unary op (operand.erased erasure) (mark.erased erasure)
  | .call made => .call (made.erased erasure)

/-- A field without what is left out. -/
def Field.erased (erasure : Erasure) : Field → Field
  | .hd => .hd
  | .tl => .tl
  | .fst => .fst
  | .snd => .snd
  | .index position => .index (position.erased erasure)

/-- A place without what is left out. -/
def Place.erased (erasure : Erasure) : Place → Place
  | ⟨name, fields, mark⟩ =>
      ⟨name.erased erasure, Field.erasedAll erasure fields,
        mark.erased erasure⟩

/-- A call without what is left out. -/
def Call.erased (erasure : Erasure) : Call → Call
  | ⟨callee, args, mark, _⟩ =>
      ⟨callee.erased erasure, Expr.erasedAll erasure args, mark.erased erasure,
        none⟩

/-- Fields without what is left out. -/
def Field.erasedAll (erasure : Erasure) : List Field → List Field
  | [] => []
  | field :: rest => field.erased erasure :: Field.erasedAll erasure rest

/-- Expressions without what is left out. -/
def Expr.erasedAll (erasure : Erasure) : List Expr → List Expr
  | [] => []
  | expr :: rest => expr.erased erasure :: Expr.erasedAll erasure rest

end

mutual

/-- A statement without what is left out. -/
def Stmt.erased (erasure : Erasure) : Stmt → Stmt
  | .ifElse condition thenBody elseBody span =>
      .ifElse (condition.erased erasure) (Stmt.erasedAll erasure thenBody)
        (Stmt.erasedAll erasure elseBody) (erasure.span span)
  | .whileDo condition body span =>
      .whileDo (condition.erased erasure) (Stmt.erasedAll erasure body)
        (erasure.span span)
  | .forIn element iterable body span =>
      .forIn (element.erased erasure) (iterable.erased erasure)
        (Stmt.erasedAll erasure body) (erasure.span span)
  | .assign target value span =>
      .assign (target.erased erasure) (value.erased erasure)
        (erasure.span span)
  | .call made => .call (made.erased erasure)
  | .ret value span =>
      .ret (value.map (Expr.erased erasure)) (erasure.span span)

/-- Statements without what is left out. -/
def Stmt.erasedAll (erasure : Erasure) : List Stmt → List Stmt
  | [] => []
  | stmt :: rest => stmt.erased erasure :: Stmt.erasedAll erasure rest

end

/-- A written signature without what is left out. -/
def WrittenSignature.erased
    (erasure : Erasure)
    (written : WrittenSignature) :
    WrittenSignature where
  params := written.params
  result := written.result
  span := erasure.span written.span

/-- The declaration of a variable without what is left out. -/
def VarDecl.erased (erasure : Erasure) (decl : VarDecl) : VarDecl where
  written := decl.written
  name := decl.name.erased erasure
  value := decl.value.erased erasure
  mark := decl.mark.erased erasure

/-- A function without what is left out. -/
def FunDecl.erased (erasure : Erasure) (decl : FunDecl) : FunDecl where
  name := decl.name.erased erasure
  args := decl.args.map (Name.erased erasure)
  written := decl.written.map (WrittenSignature.erased erasure)
  locals := decl.locals.map (VarDecl.erased erasure)
  body := Stmt.erasedAll erasure decl.body
  mark := decl.mark.erased erasure

/-- A declaration without what is left out. -/
def Decl.erased (erasure : Erasure) : Decl → Decl
  | .var decl => .var (decl.erased erasure)
  | .fn decl => .fn (decl.erased erasure)

/-- A program without what is left out. -/
def Program.erased (erasure : Erasure) (program : Program) : Program where
  decls := program.decls.map (Decl.erased erasure)

variable (erasure : Erasure)

/-- A type that is written into a mark is left out. -/
theorem Mark.erased_withTy
    (mark : Mark)
    (ty : Ty) :
    (mark.withTy ty).erased erasure = mark.erased erasure :=
  rfl

/-- Types of a mark that are changed are left out. -/
theorem Mark.erased_mapTypes
    (change : Ty → Ty)
    (mark : Mark) :
    (mark.mapTypes change).erased erasure = mark.erased erasure :=
  rfl

/-- What is left of a call, by its parts. -/
theorem Call.erased_eq
    (call : Call) :
    call.erased erasure =
      ⟨call.callee.erased erasure, Expr.erasedAll erasure call.args,
        call.mark.erased erasure, none⟩ := by
  rcases call with ⟨callee, args, mark, waiting⟩
  rfl

/-- Expressions stay as many as they were. -/
theorem Expr.length_erasedAll
    (exprs : List Expr) :
    (Expr.erasedAll erasure exprs).length = exprs.length := by
  induction exprs with
  | nil => rfl
  | cons expr rest inductionHypothesis =>
      simp [Expr.erasedAll, inductionHypothesis]

/-- What is left of the place of an expression. -/
theorem Expr.span_erased
    (expr : Expr) :
    (expr.erased erasure).span = erasure.span expr.span := by
  cases expr with
  | read place => rcases place with ⟨name, fields, mark⟩; rfl
  | call made => rcases made with ⟨callee, args, mark, waiting⟩; rfl
  | _ => rfl

/-- Expressions that differ in slots only stand in the same place. -/
theorem Expr.span_eq_of_erased
    {expr expr' : Expr}
    (same : expr'.erased .slots = expr.erased .slots) :
    expr'.span = expr.span := by
  have spans := congrArg Expr.span same
  rwa [Expr.span_erased, Expr.span_erased] at spans

mutual

/-- Inference changes nothing but slots in an expression. -/
theorem inferExpr_erased
    {expr expr' : Expr}
    {context : Context}
    {expected : Ty}
    {demand : Demand}
    {guard : Option ValueGuard}
    {found : Substitution}
    {before after : State}
    (run :
      Runs (inferExpr expr context expected demand guard) before (expr', found)
        after) :
    expr'.erased erasure = expr.erased erasure := by
  cases exprRun_of_runs run with
  | int | bool | char | nil => rfl
  | read placeRun => rw [Expr.erased, Expr.erased, inferPlace_erased placeRun]
  | pairVoid firstRun secondRun | pair firstRun secondRun =>
      simp only [Expr.erased, Mark.erased_withTy, inferExpr_erased firstRun,
        inferExpr_erased secondRun]
  | range firstRun _ lastRun =>
      simp only [Expr.erased, Mark.erased_withTy, inferExpr_erased firstRun,
        inferExpr_erased lastRun]
  | binaryLeftVoid _ leftRun =>
      rw [Expr.erased, Expr.erased, inferExpr_erased leftRun]
  | binaryRightVoid _ leftRun rightRun | binary _ leftRun _ rightRun =>
      simp only [Expr.erased, Mark.erased_withTy, inferExpr_erased leftRun,
        inferExpr_erased rightRun]
  | unary operandRun =>
      simp only [Expr.erased, Mark.erased_withTy, inferExpr_erased operandRun]
  | call callRun => rw [Expr.erased, Expr.erased, inferCall_erased callRun]
termination_by structural expr

/-- Inference changes nothing but slots in a place. -/
theorem inferPlace_erased
    {place place' : Place}
    {context : Context}
    {expected : Ty}
    {demand : Demand}
    {found : Substitution}
    {before after : State}
    (run :
      Runs (inferPlace place context expected demand) before (place', found)
        after) :
    place'.erased erasure = place.erased erasure := by
  cases placeRun_of_runs run with
  | unknown => rfl
  | known _ fieldsRun =>
      simp only [Place.erased, Mark.erased_withTy, inferFields_erased fieldsRun]
termination_by structural place

/-- Inference changes nothing but slots in fields. -/
theorem inferFields_erased
    {fields fields' : List Field}
    {name : String}
    {span : Span}
    {context : Context}
    {current selected : Ty}
    {found extended : Substitution}
    {before after : State}
    (run :
      Runs (inferFields fields name span context current found) before
        (fields', selected, extended) after) :
    Field.erasedAll erasure fields' = Field.erasedAll erasure fields := by
  match fields, run with
  | [], run =>
      obtain ⟨rfl, _⟩ := runs_inferFields_nil run
      rfl
  | field :: rest, run =>
      obtain ⟨_, _, _, _, _, fieldRun, restRun, rfl⟩ :=
        runs_inferFields_cons run
      rw [Field.erasedAll, Field.erasedAll, inferField_erased fieldRun,
        inferFields_erased restRun]
termination_by structural fields

/-- Inference changes nothing but slots in a field. -/
theorem inferField_erased
    {field field' : Field}
    {name : String}
    {span : Span}
    {context : Context}
    {current selected : Ty}
    {found extended : Substitution}
    {before after : State}
    (run :
      Runs (inferField field name span context current found) before
        (field', selected, extended) after) :
    field'.erased erasure = field.erased erasure := by
  cases fieldRun_of_runs run with
  | hd | tl | fst | snd => rfl
  | index _ positionRun =>
      rw [Field.erased, Field.erased, inferExpr_erased positionRun]
termination_by structural field

/-- Inference changes nothing but slots and numbers in a call. -/
theorem inferCall_erased
    {call call' : Call}
    {context : Context}
    {expected : Ty}
    {demand : Demand}
    {guard : Option ValueGuard}
    {found : Substitution}
    {before after : State}
    (run :
      Runs (inferCall call context expected demand guard) before (call', found)
        after) :
    call'.erased erasure = call.erased erasure := by
  cases callRun_of_runs run with
  | waits => rw [Call.erased, Call.erased_eq]
  | arity => rfl
  | void _ _ argsRun | checked _ _ argsRun =>
      simp only [Call.erased, Mark.erased_withTy, inferArgs_erased argsRun]
termination_by structural call

/-- Inference changes nothing but slots in arguments, aborted or not. -/
theorem inferArgs_erased
    {args args' : List Expr}
    {params : List Ty}
    {function : String}
    {number : Nat}
    {progress : CallProgress}
    {outcome : Option CallProgress}
    {before after : State}
    (run :
      Runs (inferArgs args params function number progress) before
        (args', outcome) after) :
    Expr.erasedAll erasure args' = Expr.erasedAll erasure args := by
  cases argsRun_of_runs run with
  | done => rfl
  | void argRun =>
      rw [Expr.erasedAll, Expr.erasedAll, inferExpr_erased argRun]
  | next argRun _ _ _ restRun =>
      rw [Expr.erasedAll, Expr.erasedAll, inferExpr_erased argRun,
        inferArgs_erased restRun]
termination_by structural args

end

mutual

/-- Inference changes nothing but slots in a statement. -/
theorem inferStmt_erased
    {stmt stmt' : Stmt}
    {context : Context}
    {expected : Ty}
    {found : Substitution}
    {before after : State}
    (run : Runs (inferStmt stmt context expected) before (stmt', found) after) :
    stmt'.erased erasure = stmt.erased erasure := by
  cases stmtRun_of_runs run with
  | ifElse thenRun elseRun conditionRun =>
      simp only [Stmt.erased, inferBlock_erased thenRun,
        inferBlock_erased elseRun, inferExpr_erased erasure conditionRun]
  | whileDo bodyRun conditionRun =>
      simp only [Stmt.erased, inferBlock_erased bodyRun,
        inferExpr_erased erasure conditionRun]
  | forTaken iterableRun =>
      rw [Stmt.erased, Stmt.erased, inferExpr_erased erasure iterableRun]
  | forIn iterableRun _ bodyRun =>
      simp only [Stmt.erased, inferExpr_erased erasure iterableRun,
        inferBlock_erased bodyRun]
  | assignVoid valueRun targetRun | assign valueRun targetRun =>
      simp only [Stmt.erased, inferExpr_erased erasure valueRun,
        inferPlace_erased erasure targetRun]
  | call callRun =>
      rw [Stmt.erased, Stmt.erased, inferCall_erased erasure callRun]
  | returnVoid valueRun | returnValue valueRun =>
      simp only [Stmt.erased, Option.map_some,
        inferExpr_erased erasure valueRun]
  | returnNothing => rfl
termination_by structural stmt

/-- Inference changes nothing but slots in statements. -/
theorem inferBlock_erased
    {stmts stmts' : List Stmt}
    {context : Context}
    {expected : Ty}
    {found : Substitution}
    {before after : State}
    (run :
      Runs (inferBlock stmts context expected) before (stmts', found) after) :
    Stmt.erasedAll erasure stmts' = Stmt.erasedAll erasure stmts := by
  match stmts, run with
  | [], run =>
      obtain ⟨rfl, _⟩ := runs_inferBlock_nil run
      rfl
  | stmt :: rest, run =>
      obtain ⟨_, _, _, _, _, stmtRun, restRun, rfl, _⟩ :=
        runs_inferBlock_cons run
      rw [Stmt.erasedAll, Stmt.erasedAll, inferStmt_erased stmtRun,
        inferBlock_erased restRun]
termination_by structural stmts

end

/-- Inference changes nothing but slots in the declaration of a variable. -/
theorem inferVarDecl_erased
    {decl decl' : VarDecl}
    {context context' : Context}
    {expected : Ty}
    {found : Substitution}
    {before after : State}
    (run :
      Runs (inferVarDecl decl context expected) before
        (decl', context', found) after) :
    decl'.erased erasure = decl.erased erasure := by
  cases varDeclRun_of_runs run with
  | taken => rfl
  | void _ _ valueRun | bound _ _ valueRun =>
      simp only [VarDecl.erased, Mark.erased_withTy,
        inferExpr_erased erasure valueRun]

/-- Inference changes nothing but slots in locals. -/
theorem inferLocals_erased
    {decls decls' : List VarDecl}
    {context context' : Context}
    {found : Substitution}
    {before after : State}
    (run :
      Runs (inferLocals decls context) before (decls', context', found)
        after) :
    decls'.map (VarDecl.erased erasure) =
      decls.map (VarDecl.erased erasure) := by
  induction decls generalizing decls' context found before with
  | nil =>
      obtain ⟨rfl, _⟩ := runs_inferLocals_nil run
      rfl
  | cons decl rest inductionHypothesis =>
      obtain ⟨_, _, _, _, _, _, declRun, restRun, rfl, _⟩ :=
        runs_inferLocals_cons run
      rw [List.map_cons, List.map_cons, inferVarDecl_erased erasure declRun,
        inductionHypothesis restRun]

/-- Inference changes nothing but slots in a function. -/
theorem inferFunDecl_erased
    {decl decl' : FunDecl}
    {context context' : Context}
    {expected : Ty}
    {found : Substitution}
    {before after : State}
    (run :
      Runs (inferFunDecl decl context expected) before
        (decl', context', found) after) :
    decl'.erased erasure = decl.erased erasure := by
  cases funDeclRun_of_runs run with
  | taken | repeated => rfl
  | bound _ _ _ localsRun bodyRun =>
      simp only [FunDecl.erased, Mark.erased_withTy,
        inferLocals_erased erasure localsRun, inferBlock_erased erasure bodyRun]

/-- The pass over globals changes nothing but slots. -/
theorem inferGlobals_erased
    {decls decls' : List Decl}
    {context context' : Context}
    {before after : State}
    (run :
      Runs (inferGlobals decls context) before (decls', context') after) :
    decls'.map (Decl.erased erasure) = decls.map (Decl.erased erasure) := by
  induction decls generalizing decls' context before with
  | nil =>
      cases globalsRun_of_runs run with
      | nil => rfl
  | cons decl rest inductionHypothesis =>
      cases globalsRun_of_runs run with
      | var declRun restRun =>
          simp only [List.map_cons, Decl.erased,
            inferVarDecl_erased erasure declRun, inductionHypothesis restRun]
      | fn restRun =>
          rw [List.map_cons, List.map_cons, inductionHypothesis restRun]

/-- The pass over functions changes nothing but slots. -/
theorem inferFunctions_erased
    {decls decls' : List Decl}
    {context context' : Context}
    {before after : State}
    (run :
      Runs (inferFunctions decls context) before (decls', context') after) :
    decls'.map (Decl.erased erasure) = decls.map (Decl.erased erasure) := by
  induction decls generalizing decls' context before with
  | nil =>
      cases functionsRun_of_runs run with
      | nil => rfl
  | cons decl rest inductionHypothesis =>
      cases functionsRun_of_runs run with
      | fn declRun restRun =>
          simp only [List.map_cons, Decl.erased,
            inferFunDecl_erased erasure declRun, inductionHypothesis restRun]
      | var restRun =>
          rw [List.map_cons, List.map_cons, inductionHypothesis restRun]

/-- Inference changes nothing in a program but what the slots hold. -/
theorem Program.infer_erased (program : Program) :
    program.infer.program.erased erasure = program.erased erasure := by
  obtain ⟨_, _, _, _, globalsRun, functionsRun, _⟩ := program.infer_runs
  simp only [Program.erased, inferFunctions_erased erasure functionsRun,
    inferGlobals_erased erasure globalsRun]

end SplTyping
