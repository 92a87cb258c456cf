import SplTyping.Inference.Expr
import SplTyping.Program.Decl

namespace SplTyping

/-!
# Inference for statements

The expected type of a statement is the result type of the function around it.
Each statement of a block sees what the ones before it have found out. The
condition of a branch or loop comes after the bodies, so that it is checked with
all that they say.
-/

/-- Infer an assignment: first the value, then the place it goes to. -/
def inferAssign
    (target : Place)
    (value : Expr)
    (span : Span)
    (context : Context) :
    InferM (Stmt × Substitution) := do
  let name := target.name.text
  let valueVar ← fresh
  let (value, found) ←
    inferExpr value context valueVar .general (some ⟨.assignment name, span⟩)
  let targetVar ← fresh
  let (target, more) ←
    inferPlace target (context.narrow found) targetVar (.assignment name)
  let found := found ++ more
  let valueTy := found.apply valueVar
  let targetTy := found.apply targetVar
  if valueTy.contains .void || targetTy.contains .void then
    report (.voidValue (.assignment name) span)
    return (.assign target value span, [])
  else
    let more ← constrain targetTy valueTy (.assignment name) span
    return (.assign target value span, found ++ more)

/--
Infer a `return` with a value. The value is inferred on its own first, so that
`Void` is told apart from a value of the wrong type.
-/
def inferReturn
    (value : Expr)
    (span : Span)
    (context : Context)
    (expected : Ty) :
    InferM (Stmt × Substitution) := do
  let valueVar ← fresh
  let (value, found) ←
    inferExpr value context valueVar .general (some ⟨.returned, span⟩)
  let valueTy := found.apply valueVar
  if valueTy.contains .void then
    report (.voidValue .returned span)
    return (.ret (some value) span, [])
  else
    let more ← constrain (found.apply expected) valueTy .returned span
    return (.ret (some value) span, found ++ more)

mutual

/-- Infer a statement. -/
def inferStmt
    (stmt : Stmt)
    (context : Context)
    (expected : Ty) :
    InferM (Stmt × Substitution) :=
  match stmt with
  | .ifElse condition thenBody elseBody span => do
      let (thenBody, found) ← inferBlock thenBody context expected
      let (elseBody, more) ←
        inferBlock elseBody (context.narrow found) (found.apply expected)
      let found := found ++ more
      let (condition, more) ←
        inferExpr condition (context.narrow found) .bool .ifCondition none
      return (.ifElse condition thenBody elseBody span, found ++ more)
  | .whileDo condition body span => do
      let (body, found) ← inferBlock body context expected
      let (condition, more) ←
        inferExpr condition (context.narrow found) .bool .whileCondition none
      return (.whileDo condition body span, found ++ more)
  | .forIn element iterable body span => do
      let elementVar ← fresh
      let (iterable, found) ←
        inferExpr iterable context (.list elementVar) .forIterable none
      let inner := context.narrow found
      if inner.vars.contains element.text then
        report (.redefinition .loopVariable element.text element.span)
        return (.forIn element iterable body span, found)
      else
        let (body, more) ←
          inferBlock body
            (inner.bindVar element.text (found.apply elementVar))
            (found.apply expected)
        return (.forIn element iterable body span, found ++ more)
  | .assign target value span => inferAssign target value span context
  | .call made => do
      let discarded ← fresh
      let (made, found) ←
        inferCall made context discarded (.callResult made.callee.text) none
      return (.call made, found)
  | .ret (some value) span => inferReturn value span context expected
  | .ret none span => do
      let found ← constrain expected .void .returned span
      return (.ret none span, found)

/-- Infer the statements of a block in order. -/
def inferBlock
    (stmts : List Stmt)
    (context : Context)
    (expected : Ty) :
    InferM (List Stmt × Substitution) :=
  match stmts with
  | [] => return ([], [])
  | stmt :: rest => do
      let (stmt, found) ← inferStmt stmt context expected
      let (rest, more) ←
        inferBlock rest (context.narrow found) (found.apply expected)
      return (stmt :: rest, found ++ more)

end

end SplTyping
