import SplTyping.Program.Written
import SplTyping.Program.Expr

namespace SplTyping

/-!
# Statements, declarations and programs
-/

/-- A statement. -/
inductive Stmt where
  | ifElse (condition : Expr) (thenBody elseBody : List Stmt) (span : Span)
  | whileDo (condition : Expr) (body : List Stmt) (span : Span)
  | forIn (element : Name) (iterable : Expr) (body : List Stmt) (span : Span)
  | assign (target : Place) (value : Expr) (span : Span)
  | call (call : Call)
  | ret (value : Option Expr) (span : Span)

/-- The declaration of a variable. -/
structure VarDecl where
  written : Option WrittenTy
  name : Name
  value : Expr
  mark : Mark

/-- The declaration of a function. -/
structure FunDecl where
  name : Name
  args : List Name
  written : Option WrittenSignature
  locals : List VarDecl
  body : List Stmt
  mark : Mark

/-- A declaration at the top of a program. -/
inductive Decl where
  | var (decl : VarDecl)
  | fn (decl : FunDecl)

/-- A program is a list of declarations. -/
structure Program where
  decls : List Decl

namespace Stmt

/-- Where a statement stands. -/
def span : Stmt → Span
  | .ifElse _ _ _ span
  | .whileDo _ _ span
  | .forIn _ _ _ span
  | .assign _ _ span
  | .ret _ span => span
  | .call made => made.mark.span

end Stmt

namespace FunDecl

/-- The first local variable of a given name. -/
def local? (decl : FunDecl) (name : String) : Option VarDecl :=
  decl.locals.find? fun candidate => candidate.name.text = name

end FunDecl

namespace Decl

/-- The function declaration of a given name, if this is one. -/
def asFun? (name : String) : Decl → Option FunDecl
  | .fn decl => if decl.name.text = name then some decl else none
  | .var _ => none

/-- The variable declaration of a given name, if this is one. -/
def asVar? (name : String) : Decl → Option VarDecl
  | .var decl => if decl.name.text = name then some decl else none
  | .fn _ => none

end Decl

namespace Program

/-- The first function of a given name. -/
def fun? (program : Program) (name : String) : Option FunDecl :=
  program.decls.findSome? (Decl.asFun? name)

/-- The first global variable of a given name. -/
def var? (program : Program) (name : String) : Option VarDecl :=
  program.decls.findSome? (Decl.asVar? name)

end Program

end SplTyping
