import SplTyping.Context
import SplTyping.Inference.Decl
import SplTyping.Proofs.Nodes

namespace SplTyping

/-!
# The typing rules

A declarative account of what it means for a tree to be well typed, without
substitutions and without an order of work. Every name has one type, and there
is one rule per kind of node. What is asked beyond the shape of types is left
open in `Rules`: what a slot must hold, over what a range may run, and which
types a value may have.
-/

/-- The types of the variables and the signatures of the functions in scope. -/
structure Scope where
  vars : String → Option Ty
  funs : String → Option Signature

namespace Scope

/-- The scope with one variable bound. -/
def bindVar (scope : Scope) (name : String) (ty : Ty) : Scope where
  vars := fun other => if other = name then some ty else scope.vars other
  funs := scope.funs

/-- The scope with arguments bound to their types, from left to right. -/
def bindArgs (scope : Scope) : List Name → List Ty → Scope
  | name :: names, ty :: types =>
      (scope.bindVar name.text ty).bindArgs names types
  | _, _ => scope

end Scope

/-- The scope that a context describes. -/
def Context.scope (context : Context) : Scope where
  vars := context.vars.get?
  funs := context.funs.get?

/-- What the typing rules ask beyond the shape of types. -/
structure Rules where
  /-- What the slot of a node of a given type may hold. -/
  recorded : Mark → Ty → Prop
  /-- What type the bounds of a range may have, given the first of them. -/
  bound : Expr → Ty → Prop
  /-- What types are types of values. -/
  value : Ty → Prop

/-- The types of the operands and of the result of a binary operator. -/
inductive OperatorHasTypes : BinOp → Ty → Ty → Ty → Prop where
  | cons
      {element : Ty} :
      OperatorHasTypes .cons element (.list element) (.list element)
  | compared
      {op : BinOp}
      {operand : Ty}
      (isEquality : op = .eq ∨ op = .ne) :
      OperatorHasTypes op operand operand .bool
  | arithmetic
      {op : BinOp}
      (isArithmetic :
        op = .add ∨ op = .sub ∨ op = .mul ∨ op = .div ∨ op = .mod) :
      OperatorHasTypes op .int .int .int
  | ordered
      {op : BinOp}
      (isOrder : op = .lt ∨ op = .gt ∨ op = .le ∨ op = .ge) :
      OperatorHasTypes op .int .int .bool
  | logical
      {op : BinOp}
      (isLogical : op = .and ∨ op = .or) :
      OperatorHasTypes op .bool .bool .bool

mutual

/-- An expression has a type. -/
inductive HasType (rules : Rules) (scope : Scope) : Expr → Ty → Prop where
  | int
      {value : Int}
      {mark : Mark}
      (recorded : rules.recorded mark .int) :
      HasType rules scope (.int value mark) .int
  | bool
      {value : Bool}
      {mark : Mark}
      (recorded : rules.recorded mark .bool) :
      HasType rules scope (.bool value mark) .bool
  | char
      {value : Char}
      {mark : Mark}
      (recorded : rules.recorded mark .char) :
      HasType rules scope (.char value mark) .char
  | read
      {place : Place}
      {ty : Ty}
      (placeHas : PlaceHasType rules scope place ty) :
      HasType rules scope (.read place) ty
  | pair
      {first second : Expr}
      {mark : Mark}
      {firstTy secondTy : Ty}
      (firstHas : HasType rules scope first firstTy)
      (secondHas : HasType rules scope second secondTy)
      (firstValue : rules.value firstTy)
      (secondValue : rules.value secondTy)
      (recorded : rules.recorded mark (.pair firstTy secondTy)) :
      HasType rules scope (.pair first second mark) (.pair firstTy secondTy)
  | nil
      {mark : Mark}
      {element : Ty}
      (recorded : rules.recorded mark (.list element)) :
      HasType rules scope (.nil mark) (.list element)
  | range
      {first last : Expr}
      {mark : Mark}
      {bound : Ty}
      (isBound : rules.bound first bound)
      (firstHas : HasType rules scope first bound)
      (lastHas : HasType rules scope last bound)
      (recorded : rules.recorded mark (.list bound)) :
      HasType rules scope (.range first last mark) (.list bound)
  | binary
      {op : BinOp}
      {left right : Expr}
      {mark : Mark}
      {leftTy rightTy resultTy : Ty}
      (operator : OperatorHasTypes op leftTy rightTy resultTy)
      (leftHas : HasType rules scope left leftTy)
      (rightHas : HasType rules scope right rightTy)
      (leftValue : rules.value leftTy)
      (rightValue : rules.value rightTy)
      (recorded : rules.recorded mark resultTy) :
      HasType rules scope (.binary op left right mark) resultTy
  | unary
      {op : UnOp}
      {operand : Expr}
      {mark : Mark}
      (operandHas : HasType rules scope operand op.ty)
      (recorded : rules.recorded mark op.ty) :
      HasType rules scope (.unary op operand mark) op.ty
  | call
      {made : Call}
      {ty : Ty}
      (callHas : CallHasType rules scope made ty) :
      HasType rules scope (.call made) ty

/-- A place has the type that its fields select from the variable's. -/
inductive PlaceHasType (rules : Rules) (scope : Scope) : Place → Ty → Prop where
  | select
      {name : Name}
      {fields : List Field}
      {mark : Mark}
      {base ty : Ty}
      (bound : scope.vars name.text = some base)
      (selects : FieldsSelect rules scope fields base ty)
      (recorded : rules.recorded mark ty) :
      PlaceHasType rules scope ⟨name, fields, mark⟩ ty

/-- Fields select one type from another. -/
inductive FieldsSelect (rules : Rules) (scope : Scope) :
    List Field → Ty → Ty → Prop where
  | nil
      {ty : Ty} :
      FieldsSelect rules scope [] ty ty
  | cons
      {field : Field}
      {rest : List Field}
      {whole part ty : Ty}
      (selects : FieldSelects rules scope field whole part)
      (restSelects : FieldsSelect rules scope rest part ty) :
      FieldsSelect rules scope (field :: rest) whole ty

/-- A field selects one type from another. -/
inductive FieldSelects (rules : Rules) (scope : Scope) :
    Field → Ty → Ty → Prop where
  | hd
      {element : Ty} :
      FieldSelects rules scope .hd (.list element) element
  | tl
      {element : Ty} :
      FieldSelects rules scope .tl (.list element) (.list element)
  | fst
      {first second : Ty} :
      FieldSelects rules scope .fst (.pair first second) first
  | snd
      {first second : Ty} :
      FieldSelects rules scope .snd (.pair first second) second
  | index
      {position : Expr}
      {element : Ty}
      (positionHas : HasType rules scope position .int) :
      FieldSelects rules scope (.index position) (.list element) element

/-- A call has the result type of its callee. -/
inductive CallHasType (rules : Rules) (scope : Scope) : Call → Ty → Prop where
  | apply
      {callee : Name}
      {args : List Expr}
      {mark : Mark}
      {waiting : Option CallId}
      {signature : Signature}
      (known : scope.funs callee.text = some signature)
      (argsHave : ArgsHaveTypes rules scope args signature.params)
      (recorded : rules.recorded mark signature.toTy) :
      CallHasType rules scope ⟨callee, args, mark, waiting⟩ signature.result

/-- Arguments have the types of the parameters, one by one. -/
inductive ArgsHaveTypes (rules : Rules) (scope : Scope) :
    List Expr → List Ty → Prop where
  | nil : ArgsHaveTypes rules scope [] []
  | cons
      {arg : Expr}
      {args : List Expr}
      {ty : Ty}
      {types : List Ty}
      (argHas : HasType rules scope arg ty)
      (isValue : rules.value ty)
      (argsHave : ArgsHaveTypes rules scope args types) :
      ArgsHaveTypes rules scope (arg :: args) (ty :: types)

end

mutual

/-- A statement is well typed in a function with a given result type. -/
inductive StmtTyped (rules : Rules) (result : Ty) : Scope → Stmt → Prop where
  | ifElse
      {scope : Scope}
      {condition : Expr}
      {thenBody elseBody : List Stmt}
      {span : Span}
      (conditionHas : HasType rules scope condition .bool)
      (thenTyped : BlockTyped rules result scope thenBody)
      (elseTyped : BlockTyped rules result scope elseBody) :
      StmtTyped rules result scope (.ifElse condition thenBody elseBody span)
  | whileDo
      {scope : Scope}
      {condition : Expr}
      {body : List Stmt}
      {span : Span}
      (conditionHas : HasType rules scope condition .bool)
      (bodyTyped : BlockTyped rules result scope body) :
      StmtTyped rules result scope (.whileDo condition body span)
  | forIn
      {scope : Scope}
      {element : Name}
      {iterable : Expr}
      {body : List Stmt}
      {span : Span}
      {ty : Ty}
      (free : scope.vars element.text = none)
      (iterableHas : HasType rules scope iterable (.list ty))
      (bodyTyped :
        BlockTyped rules result (scope.bindVar element.text ty) body) :
      StmtTyped rules result scope (.forIn element iterable body span)
  | assign
      {scope : Scope}
      {target : Place}
      {value : Expr}
      {span : Span}
      {ty : Ty}
      (targetHas : PlaceHasType rules scope target ty)
      (valueHas : HasType rules scope value ty)
      (isValue : rules.value ty) :
      StmtTyped rules result scope (.assign target value span)
  | call
      {scope : Scope}
      {made : Call}
      {ty : Ty}
      (callHas : CallHasType rules scope made ty) :
      StmtTyped rules result scope (.call made)
  | returnValue
      {scope : Scope}
      {value : Expr}
      {span : Span}
      (valueHas : HasType rules scope value result)
      (isValue : rules.value result) :
      StmtTyped rules result scope (.ret (some value) span)
  | returnNothing
      {scope : Scope}
      {span : Span}
      (isVoid : result = .void) :
      StmtTyped rules result scope (.ret none span)

/-- All statements of a block are well typed. -/
inductive BlockTyped (rules : Rules) (result : Ty) :
    Scope → List Stmt → Prop where
  | nil
      {scope : Scope} :
      BlockTyped rules result scope []
  | cons
      {scope : Scope}
      {stmt : Stmt}
      {rest : List Stmt}
      (stmtTyped : StmtTyped rules result scope stmt)
      (restTyped : BlockTyped rules result scope rest) :
      BlockTyped rules result scope (stmt :: rest)

end

namespace WrittenTy

/-- What a written type means once its names are given types. -/
def meaning (named : String → Ty) : WrittenTy → Ty
  | .int => .int
  | .bool => .bool
  | .char => .char
  | .void => .void
  | .list element => .list (element.meaning named)
  | .pair first second => .pair (first.meaning named) (second.meaning named)
  | .named name => named name

/-- The names that a written type mentions. -/
def names : WrittenTy → List String
  | .int | .bool | .char | .void => []
  | .list element => element.names
  | .pair first second => first.names ++ second.names
  | .named name => [name]

end WrittenTy

namespace WrittenSignature

/-- What a written signature means once its names are given types. -/
def meaning (named : String → Ty) (written : WrittenSignature) : Signature where
  params := written.params.map (WrittenTy.meaning named)
  result := written.result.meaning named

/-- The names that a written signature mentions. -/
def names (written : WrittenSignature) : List String :=
  written.params.flatMap WrittenTy.names ++ written.result.names

end WrittenSignature

/--
A variable is declared at a type: its name is new, its value has the type, and
what is written means the type.
-/
structure VarDeclTyped
    (rules : Rules)
    (scope : Scope)
    (named : String → Ty)
    (decl : VarDecl)
    (ty : Ty) :
    Prop where
  free : scope.vars decl.name.text = none
  written : ∀ written ∈ decl.written, written.meaning named = ty
  valueHas : HasType rules scope decl.value ty
  isValue : rules.value ty
  recorded : rules.recorded decl.mark ty

/-- Local variables are declared one after the other. -/
inductive LocalsTyped (rules : Rules) (named : String → Ty) :
    Scope → List VarDecl → Scope → Prop where
  | nil
      {scope : Scope} :
      LocalsTyped rules named scope [] scope
  | cons
      {scope inner : Scope}
      {decl : VarDecl}
      {rest : List VarDecl}
      {ty : Ty}
      (declTyped : VarDeclTyped rules scope named decl ty)
      (restTyped :
        LocalsTyped rules named (scope.bindVar decl.name.text ty) rest inner) :
      LocalsTyped rules named scope (decl :: rest) inner

/--
Global variables are declared one after the other. The names in their written
types have a meaning of their own in each declaration.
-/
inductive GlobalsTyped (rules : Rules) :
    Scope → List VarDecl → Scope → Prop where
  | nil
      {scope : Scope} :
      GlobalsTyped rules scope [] scope
  | cons
      {scope outer : Scope}
      {named : String → Ty}
      {decl : VarDecl}
      {rest : List VarDecl}
      {ty : Ty}
      (declTyped : VarDeclTyped rules scope named decl ty)
      (restTyped :
        GlobalsTyped rules (scope.bindVar decl.name.text ty) rest outer) :
      GlobalsTyped rules scope (decl :: rest) outer

/--
A function is declared at a signature: with the arguments at the parameter
types, its local variables and its body are well typed, and what is written
means the signature.
-/
structure FunDeclTyped
    (rules : Rules)
    (scope : Scope)
    (decl : FunDecl)
    (signature : Signature)
    (named : String → Ty)
    (inner : Scope) :
    Prop where
  known : scope.funs decl.name.text = some signature
  distinct : (decl.args.map Name.text).Nodup
  sameLength : decl.args.length = signature.params.length
  localsTyped :
    LocalsTyped rules named (scope.bindArgs decl.args signature.params)
      decl.locals inner
  bodyTyped : BlockTyped rules signature.result inner decl.body
  written : ∀ written ∈ decl.written, written.meaning named = signature
  recorded : rules.recorded decl.mark signature.toTy

/--
A program is well typed in the scope of its globals: the global variables are
declared in order, every function is declared once with all of them in scope,
and no other function is in scope.
-/
structure ProgramTyped
    (rules : Rules)
    (scope : Scope)
    (program : Program) :
    Prop where
  globalsTyped :
    GlobalsTyped rules ⟨fun _ => none, scope.funs⟩ program.globals scope
  functionsTyped :
    ∀ decl ∈ program.functions,
      ∃ signature named inner,
        FunDeclTyped rules scope decl signature named inner
  distinct : (program.functions.map fun decl => decl.name.text).Nodup
  declared :
    ∀ name signature, scope.funs name = some signature →
      ∃ decl ∈ program.functions, decl.name.text = name

end SplTyping
