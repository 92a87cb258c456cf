import SplTyping.Inference.State

namespace SplTyping

/-!
# Inference for expressions

Each function takes a node, the context in which it stands and the type that is
expected of it. It returns the node with its type slots filled, and what it has
found out about type variables. Whoever asked applies these findings before
going on.

Arguments of a call are unified with the parameters of the callee. What this
says about the argument alone is confined to the call; what it says about the
parameter is passed on, and so narrows the callee for everyone else too. An
argument that nothing is known about passes on everything.
-/

/-- The operand types and the result type of a binary operator. -/
def operatorTypes : BinOp → InferM (Ty × Ty × Ty)
  | .cons => do
      let element ← fresh
      return (element, .list element, .list element)
  | .add | .sub | .mul | .div | .mod => return (.int, .int, .int)
  | .lt | .gt | .le | .ge => return (.int, .int, .bool)
  | .and | .or => return (.bool, .bool, .bool)
  | .eq | .ne => do
      let operand ← fresh
      return (operand, operand, .bool)

namespace UnOp

/-- The type of the operand and of the result of a unary operator. -/
def ty : UnOp → Ty
  | .not => .bool
  | .neg => .int

end UnOp

/--
The type of the bounds of a range, given that of its first bound: `Int` or
`Char`, and `Int` if nothing is known.
-/
def rangeBound
    (first : Ty)
    (found : Substitution)
    (span : Span) :
    InferM (Ty × Substitution) :=
  match first with
  | .int => return (.int, found)
  | .char => return (.char, found)
  | .var id => return (.int, found.push id .int .global)
  | other => do
      report (.mismatch .rangeBound .int other span)
      return (.int, found)

/-- What is known while the arguments of a call are gone through. -/
structure CallProgress where
  /-- The findings that are passed on. -/
  outward : Substitution
  /-- All findings, those confined to the call included. -/
  view : Substitution
  /-- The context for the next argument. -/
  context : Context
  /-- The types of the arguments so far. -/
  types : List Ty

namespace CallProgress

/-- No argument has been looked at. -/
def start (context : Context) : CallProgress where
  outward := []
  view := []
  context := context
  types := []

end CallProgress

mutual

/--
Infer an expression. The guard is for a call that has to wait: it says what the
value will be needed for.
-/
def inferExpr
    (expr : Expr)
    (context : Context)
    (expected : Ty)
    (demand : Demand)
    (guard : Option ValueGuard) :
    InferM (Expr × Substitution) :=
  match expr with
  | .int value mark => do
      let found ← constrain expected .int demand mark.span
      return (.int value (mark.withTy .int), found)
  | .bool value mark => do
      let found ← constrain expected .bool demand mark.span
      return (.bool value (mark.withTy .bool), found)
  | .char value mark => do
      let found ← constrain expected .char demand mark.span
      return (.char value (mark.withTy .char), found)
  | .read place => do
      let (place, found) ← inferPlace place context expected demand
      return (.read place, found)
  | .pair first second mark => do
      let firstVar ← fresh
      let secondVar ← fresh
      let inner := some ⟨.pairComponent, mark.span⟩
      let (first, found) ← inferExpr first context firstVar .general inner
      let (second, more) ←
        inferExpr second (context.narrow found) secondVar .general inner
      let found := found ++ more
      let firstTy := found.apply firstVar
      let secondTy := found.apply secondVar
      if firstTy.contains .void || secondTy.contains .void then
        report (.voidValue .pairComponent mark.span)
        return (.pair first second mark, [])
      else
        let ty := Ty.pair firstTy secondTy
        let more ← constrain (found.apply expected) ty demand mark.span
        let found := found ++ more
        return (.pair first second (mark.withTy (found.apply ty)), found)
  | .nil mark => do
      let element ← fresh
      let found ← constrain expected (.list element) demand mark.span
      return (.nil (mark.withTy (found.apply (.list element))), found)
  | .range first last mark => do
      let firstVar ← fresh
      let (first, found) ← inferExpr first context firstVar .rangeBound none
      let (bound, found) ← rangeBound (found.apply firstVar) found first.span
      let (last, more) ←
        inferExpr last (context.narrow found) bound .rangeBound none
      let found := found ++ more
      let more ←
        constrain (found.apply expected) (.list bound) demand mark.span
      return (.range first last (mark.withTy (.list bound)), found ++ more)
  | .binary op left right mark => do
      let (leftTy, rightTy, resultTy) ← operatorTypes op
      let inner := some ⟨.operand op, mark.span⟩
      let (left, found) ←
        inferExpr left context leftTy (.binaryOperand op) inner
      if (found.apply leftTy).contains .void then
        report (.voidValue (.operand op) mark.span)
        return (.binary op left right mark, [])
      else
        let (right, more) ←
          inferExpr right (context.narrow found) (found.apply rightTy)
            (.binaryOperand op) inner
        let found := found ++ more
        if (found.apply rightTy).contains .void then
          report (.voidValue (.operand op) mark.span)
          return (.binary op left right mark, [])
        else
          let ty := found.apply resultTy
          let more ← constrain (found.apply expected) ty demand mark.span
          let found := found ++ more
          return (.binary op left right (mark.withTy (found.apply ty)), found)
  | .unary op operand mark => do
      let (operand, found) ←
        inferExpr operand context op.ty (.unaryOperand op) none
      let more ← constrain (found.apply expected) op.ty demand mark.span
      return (.unary op operand (mark.withTy op.ty), found ++ more)
  | .call made => do
      let (made, found) ← inferCall made context expected demand guard
      return (.call made, found)

/--
Infer a place: the fields are selected from left to right, and each asks for a
type of its shape.
-/
def inferPlace
    (place : Place)
    (context : Context)
    (expected : Ty)
    (demand : Demand) :
    InferM (Place × Substitution) :=
  match place with
  | ⟨name, fields, mark⟩ =>
      match context.vars.get? name.text with
      | none => do
          report (.unknownVariable name.text name.span)
          return (⟨name, fields, mark⟩, [])
      | some base => do
          let (fields, current, found) ←
            inferFields fields name.text mark.span context base []
          let more ← constrain (found.apply expected) current demand mark.span
          let found := found ++ more
          return (⟨name, fields, mark.withTy (found.apply current)⟩, found)

/-- Infer the selection of fields from a value of type `current`. -/
def inferFields
    (fields : List Field)
    (name : String)
    (span : Span)
    (context : Context)
    (current : Ty)
    (found : Substitution) :
    InferM (List Field × Ty × Substitution) :=
  match fields with
  | [] => return ([], current, found)
  | field :: rest => do
      let (field, current, found) ←
        inferField field name span context current found
      let (rest, current, found) ←
        inferFields rest name span context current found
      return (field :: rest, current, found)

/-- Infer the selection of one field from a value of type `current`. -/
def inferField
    (field : Field)
    (name : String)
    (span : Span)
    (context : Context)
    (current : Ty)
    (found : Substitution) :
    InferM (Field × Ty × Substitution) :=
  match field with
  | .hd => do
      let element ← fresh
      let more ←
        constrain (.list element) current (.field name Field.hd.render) span
      let found := found ++ more
      return (.hd, found.apply element, found)
  | .tl => do
      let element ← fresh
      let more ←
        constrain (.list element) current (.field name Field.tl.render) span
      let found := found ++ more
      return (.tl, found.apply (.list element), found)
  | .fst => do
      let first ← fresh
      let second ← fresh
      let more ←
        constrain (.pair first second) current (.field name Field.fst.render)
          span
      let found := found ++ more
      return (.fst, found.apply first, found)
  | .snd => do
      let first ← fresh
      let second ← fresh
      let more ←
        constrain (.pair first second) current (.field name Field.snd.render)
          span
      let found := found ++ more
      return (.snd, found.apply second, found)
  | .index position => do
      let element ← fresh
      let more ←
        constrain (.list element) current
          (.field name (Field.index position).render) span
      let found := found ++ more
      let (position, more) ←
        inferExpr position (context.narrow found) .int .index none
      let found := found ++ more
      return (.index position, found.apply element, found)

/-- Infer a call, or set it aside if its callee is not declared yet. -/
def inferCall
    (call : Call)
    (context : Context)
    (expected : Ty)
    (demand : Demand)
    (guard : Option ValueGuard) :
    InferM (Call × Substitution) :=
  match call with
  | ⟨callee, args, mark, waiting⟩ =>
      match context.funs.get? callee.text with
      | none => do
          let stamped ←
            defer ⟨callee, args, mark, waiting⟩ context expected guard
          return (stamped, [])
      | some signature =>
          if args.length = signature.params.length then do
            let (args, outcome) ←
              inferArgs args signature.params callee.text 1 (.start context)
            match outcome with
            | none => return (⟨callee, args, mark, waiting⟩, [])
            | some progress =>
                let result := progress.view.apply signature.result
                let more ←
                  constrain (progress.view.apply expected) result demand
                    mark.span
                let view := progress.view ++ more
                let ty :=
                  Ty.fn (progress.types.map view.apply) (view.apply result)
                return (⟨callee, args, mark.withTy ty, waiting⟩,
                  progress.outward ++ more)
          else do
            report
              (.arity .call callee.text signature.params.length args.length
                mark.span)
            return (⟨callee, args, mark, waiting⟩, [])

/--
Infer the arguments of a call against the parameters of its callee, and count
them from `number`. A `Void` argument ends the call: there is no outcome, and
the arguments behind it are left as they are.
-/
def inferArgs
    (args : List Expr)
    (params : List Ty)
    (function : String)
    (number : Nat)
    (progress : CallProgress) :
    InferM (List Expr × Option CallProgress) :=
  match args, params with
  | arg :: args, param :: params => do
      let span := arg.span
      let argVar ← fresh
      let (arg, found) ←
        inferExpr arg progress.context argVar .general
          (some ⟨.argument function number, span⟩)
      let view := progress.view ++ found
      let argTy := view.apply argVar
      if argTy.contains .void then
        report (.voidValue (.argument function number) span)
        return (arg :: args, none)
      else
        let flow := if argTy = argVar then Flow.global else Flow.confined
        let more ←
          unifyOrReport argTy (view.apply param) flow
            (TypeError.ofArgument function number span)
        let shared := more.split.1
        let (args, outcome) ←
          inferArgs args params function (number + 1)
            { outward := progress.outward ++ found ++ shared
              view := view ++ more
              context := (progress.context.narrow found).narrow shared
              types := progress.types ++ [argTy] }
        return (arg :: args, outcome)
  | args, _ => return (args, some progress)

end

end SplTyping
