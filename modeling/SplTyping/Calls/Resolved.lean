import SplTyping.Program.Slots
import SplTyping.Substitution
import SplTyping.Table

namespace SplTyping

/-!
# Putting checked calls back into the tree

A call that waited for its callee is checked on a copy. Once inference is over
the copies take the places of the calls that carry their numbers, and every type
in the tree is narrowed by all that has been found out.

A copy is put in once only, and its arguments may hold further calls that wait.
So the copies that stand inside one another are at most as many as there are
copies, and `Call.settleArgs` goes that deep.
-/

/-- The checked copies by the numbers of their calls. -/
abbrev ResolvedCalls := Table CallId Call

/-- A step that may take checked copies away. -/
abbrev SettleM := StateM ResolvedCalls

/-- Take the checked copy of a call, if the call waited and has one. -/
def takeCopy (waiting : Option CallId) : SettleM (Option Call) := do
  match waiting with
  | none => return none
  | some id =>
      let resolved ← get
      match resolved.get? id with
      | none => return none
      | some copy =>
          set (resolved.erase id)
          return some copy

mutual

/--
An expression with checked copies put in; `enter` goes on inside of a copy.
-/
def Expr.settle (enter : Call → SettleM Call) : Expr → SettleM Expr
  | .int value mark => return .int value mark
  | .bool value mark => return .bool value mark
  | .char value mark => return .char value mark
  | .read place => do
      let place ← place.settle enter
      return .read place
  | .pair first second mark => do
      let first ← first.settle enter
      let second ← second.settle enter
      return .pair first second mark
  | .nil mark => return .nil mark
  | .range first last mark => do
      let first ← first.settle enter
      let last ← last.settle enter
      return .range first last mark
  | .binary op left right mark => do
      let left ← left.settle enter
      let right ← right.settle enter
      return .binary op left right mark
  | .unary op operand mark => do
      let operand ← operand.settle enter
      return .unary op operand mark
  | .call made => do
      let made ← made.settle enter
      return .call made

/-- A field with checked copies put in. -/
def Field.settle (enter : Call → SettleM Call) : Field → SettleM Field
  | .hd => return .hd
  | .tl => return .tl
  | .fst => return .fst
  | .snd => return .snd
  | .index position => do
      let position ← position.settle enter
      return .index position

/-- A place with checked copies put in. -/
def Place.settle (enter : Call → SettleM Call) : Place → SettleM Place
  | ⟨name, fields, mark⟩ => do
      let fields ← Field.settleAll enter fields
      return ⟨name, fields, mark⟩

/-- A call, or its checked copy, with checked copies put in. -/
def Call.settle (enter : Call → SettleM Call) : Call → SettleM Call
  | ⟨callee, args, mark, waiting⟩ => do
      match ← takeCopy waiting with
      | some copy => enter copy
      | none =>
          let args ← Expr.settleAll enter args
          return ⟨callee, args, mark, waiting⟩

/-- Fields with checked copies put in. -/
def Field.settleAll
    (enter : Call → SettleM Call) :
    List Field → SettleM (List Field)
  | [] => return []
  | field :: rest => do
      let field ← field.settle enter
      let rest ← Field.settleAll enter rest
      return field :: rest

/-- Expressions with checked copies put in. -/
def Expr.settleAll
    (enter : Call → SettleM Call) :
    List Expr → SettleM (List Expr)
  | [] => return []
  | expr :: rest => do
      let expr ← expr.settle enter
      let rest ← Expr.settleAll enter rest
      return expr :: rest

end

/-- A copy with checked copies put into its arguments, `depth` of them deep. -/
def Call.settleArgs : Nat → Call → SettleM Call
  | 0, call => return call
  | depth + 1, call => do
      let args ← Expr.settleAll (Call.settleArgs depth) call.args
      return { call with args }

mutual

/-- A statement with checked copies put in. -/
def Stmt.settle (enter : Call → SettleM Call) : Stmt → SettleM Stmt
  | .ifElse condition thenBody elseBody span => do
      let condition ← condition.settle enter
      let thenBody ← Stmt.settleAll enter thenBody
      let elseBody ← Stmt.settleAll enter elseBody
      return .ifElse condition thenBody elseBody span
  | .whileDo condition body span => do
      let condition ← condition.settle enter
      let body ← Stmt.settleAll enter body
      return .whileDo condition body span
  | .forIn element iterable body span => do
      let iterable ← iterable.settle enter
      let body ← Stmt.settleAll enter body
      return .forIn element iterable body span
  | .assign target value span => do
      let target ← target.settle enter
      let value ← value.settle enter
      return .assign target value span
  | .call made => do
      let made ← made.settle enter
      return .call made
  | .ret none span => return .ret none span
  | .ret (some value) span => do
      let value ← value.settle enter
      return .ret (some value) span

/-- Statements with checked copies put in. -/
def Stmt.settleAll
    (enter : Call → SettleM Call) :
    List Stmt → SettleM (List Stmt)
  | [] => return []
  | stmt :: rest => do
      let stmt ← stmt.settle enter
      let rest ← Stmt.settleAll enter rest
      return stmt :: rest

end

/-- A variable declaration with checked copies put in. -/
def VarDecl.settle
    (enter : Call → SettleM Call)
    (decl : VarDecl) :
    SettleM VarDecl := do
  let value ← decl.value.settle enter
  return { decl with value }

/-- A function declaration with checked copies put in. -/
def FunDecl.settle
    (enter : Call → SettleM Call)
    (decl : FunDecl) :
    SettleM FunDecl := do
  let locals ← decl.locals.mapM (VarDecl.settle enter)
  let body ← Stmt.settleAll enter decl.body
  return { decl with locals, body }

/-- A declaration with checked copies put in. -/
def Decl.settle (enter : Call → SettleM Call) : Decl → SettleM Decl
  | .var decl => do
      let decl ← decl.settle enter
      return .var decl
  | .fn decl => do
      let decl ← decl.settle enter
      return .fn decl

/-- A program with checked copies put in. -/
def Program.settle (program : Program) : SettleM Program := do
  let resolved ← get
  let decls ←
    program.decls.mapM (Decl.settle (Call.settleArgs resolved.size))
  return { decls }

/-- A program with checked copies put in and every type in it narrowed. -/
def Program.writeBack
    (program : Program)
    (found : Substitution) :
    SettleM Program := do
  let settled ← program.settle
  return settled.mapTypes found.apply

end SplTyping
