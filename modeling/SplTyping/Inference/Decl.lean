import SplTyping.Inference.Written
import SplTyping.Inference.Stmt
import SplTyping.Sharing

namespace SplTyping

/-!
# Inference for declarations

A variable is bound to the type of its value, a function to the signature that
its body and its written signature agree on. Once a function is declared, the
calls that waited for it are checked, with all that has become known since they
were reached.
-/

/--
Infer the declaration of a variable, and bind it. If the name is taken or the
type of the value contains `Void`, nothing is bound.
-/
def inferVarDecl
    (decl : VarDecl)
    (context : Context)
    (expected : Ty) :
    InferM (VarDecl × Context × Substitution) := do
  let name := decl.name.text
  let span := decl.mark.span
  if context.vars.contains name then
    report (.redefinition .var name decl.name.span)
    return (decl, context, [])
  else
    let declared ←
      match decl.written with
      | some written => writtenTy written
      | none => fresh
    let (value, found) ←
      inferExpr decl.value context declared (.declaration name)
        (some ⟨.declaration name, span⟩)
    let decl := { decl with value }
    let ty := found.apply declared
    if ty.contains .void then
      report (.voidValue (.declaration name) span)
      return (decl, context, [])
    else
      let more ← constrain (found.apply expected) ty .general span
      let found := found ++ more
      let ty := found.apply declared
      return ({ decl with mark := decl.mark.withTy ty },
        context.bindVar name ty, found)

/-- Infer the local variables of a function, each in the scope of the next. -/
def inferLocals
    (decls : List VarDecl)
    (context : Context) :
    InferM (List VarDecl × Context × Substitution) :=
  match decls with
  | [] => return ([], context, [])
  | decl :: rest => do
      let expected ← fresh
      let (decl, context, found) ← inferVarDecl decl context expected
      let (rest, context, more) ← inferLocals rest (context.narrow found)
      return (decl :: rest, context, found ++ more)

/-- The first name that has occurred before, given the names seen so far. -/
def firstRepeated? (seen : List String) : List Name → Option Name
  | [] => none
  | name :: rest =>
      if name.text ∈ seen then
        some name
      else
        firstRepeated? (name.text :: seen) rest

/-- The context with arguments bound to their types. -/
def Context.bindArgs
    (context : Context)
    (args : List Name)
    (types : List Ty) :
    Context :=
  (args.zip types).foldl
    (fun bound (arg, ty) => bound.bindVar arg.text ty) context

/--
Compare a function with its written signature: both must share type variables
alike, and they must be equal.
-/
def inferSignature
    (name : Name)
    (written : WrittenSignature)
    (inferred : Ty) :
    InferM Substitution := do
  let declared ← signatureTy written
  if !sharesLike declared inferred then
    report (.sharing name.text declared inferred name.span)
  let span :=
    if written.span.isUnknown then name.span else written.span
  unifyOrReport declared inferred .global
    (TypeError.ofSignature name.text span)

/-- Record the checked copy of a call that waited. -/
def recordResolved (id : CallId) (call : Call) : InferM Unit :=
  modify fun state =>
    { state with resolved := state.resolved.insert id call }

/--
Check the calls that waited for a function, in the order in which they were
reached, with the functions of the current context. A call whose value turns out
to be `Void` where one is needed finds nothing.
-/
def inferWaiting
    (function : String)
    (waiting : List PendingCall)
    (context : Context)
    (found : Substitution) :
    InferM (Context × Substitution) :=
  match waiting with
  | [] => return (context, found)
  | pending :: rest => do
      let settled := (← get).settled
      let reached := (pending.context.narrow settled).narrow found
      let expected := found.apply (settled.apply pending.expected)
      let (call, more) ←
        inferCall pending.call { reached with funs := context.funs } expected
          (.callResult function) none
      recordResolved pending.id call
      match pending.guard with
      | some guard =>
          if (more.apply expected).contains .void then
            report (.voidValue guard.use guard.span)
            inferWaiting function rest context found
          else
            inferWaiting function rest (context.narrow more) (found ++ more)
      | none =>
          inferWaiting function rest (context.narrow more) (found ++ more)

/--
Infer the declaration of a function, bind it, and check the calls that waited
for it. The function may call itself. Its arguments and local variables hide
globals of the same name, which come back afterwards.
-/
def inferFunDecl
    (decl : FunDecl)
    (context : Context)
    (expected : Ty) :
    InferM (FunDecl × Context × Substitution) := do
  resetNames
  let name := decl.name.text
  if context.funs.contains name then
    report (.redefinition .function name decl.name.span)
    return (decl, context, [])
  else
    match firstRepeated? [] decl.args with
    | some arg =>
        report (.redefinition .argument arg.text arg.span)
        return (decl, context, [])
    | none =>
        let params ← decl.args.mapM fun _ => fresh
        let result ← fresh
        let shape : Signature := { params, result }
        let inner := (context.bindArgs decl.args params).bindFun name shape
        let (locals, inner, found) ← inferLocals decl.locals inner
        let (body, more) ← inferBlock decl.body inner (found.apply result)
        let inner := inner.narrow more
        let found := found ++ more
        let more ←
          constrain (found.apply expected) (found.apply shape.toTy) .general
            decl.mark.span
        let inner := inner.narrow more
        let found := found ++ more
        let more ←
          match decl.written with
          | some written =>
              inferSignature decl.name written (found.apply shape.toTy)
          | none => pure []
        let inner := inner.narrow more
        let found := found ++ more
        let signature := shape.narrow found
        let outer : Context :=
          { vars := (context.narrow found).vars, funs := inner.funs }
        let waiting ← takeCalls name
        let (context, found) ←
          inferWaiting name waiting (outer.bindFun name signature) found
        return ({ decl with
            locals
            body
            mark := decl.mark.withTy signature.toTy },
          context, found)

end SplTyping
