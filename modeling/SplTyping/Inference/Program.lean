import SplTyping.Inference.Decl

namespace SplTyping

/-!
# Inference for programs

Global variables come first and functions after them, both in the order of the
source, so that a function may use a variable declared behind it.
-/

/-- Add the findings of a finished declaration to what is settled. -/
def settleFindings (found : Substitution) : InferM Unit :=
  modify fun state => { state with settled := state.settled ++ found }

/-- Infer the global variables among some declarations. -/
def inferGlobals
    (decls : List Decl)
    (context : Context) :
    InferM (List Decl × Context) :=
  match decls with
  | [] => return ([], context)
  | .var decl :: rest => do
      let expected ← fresh
      resetNames
      let (decl, context, found) ← inferVarDecl decl context expected
      settleFindings found
      let (rest, context) ← inferGlobals rest (context.narrow found)
      return (.var decl :: rest, context)
  | .fn decl :: rest => do
      let (rest, context) ← inferGlobals rest context
      return (.fn decl :: rest, context)

/-- Infer the functions among some declarations. -/
def inferFunctions
    (decls : List Decl)
    (context : Context) :
    InferM (List Decl × Context) :=
  match decls with
  | [] => return ([], context)
  | .fn decl :: rest => do
      let expected ← fresh
      let (decl, context, found) ← inferFunDecl decl context expected
      settleFindings found
      let (rest, context) ← inferFunctions rest (context.narrow found)
      return (.fn decl :: rest, context)
  | .var decl :: rest => do
      let (rest, context) ← inferFunctions rest context
      return (.var decl :: rest, context)

/-- Infer a program; the findings are all that is settled afterwards. -/
def inferProgram
    (program : Program)
    (context : Context) :
    InferM (Program × Context × Substitution) := do
  let (decls, context) ← inferGlobals program.decls context
  let (decls, context) ← inferFunctions decls context
  return ({ decls }, context, (← get).settled)

/-- Report every call that still waits. -/
def reportWaiting : InferM Unit :=
  modify fun state =>
    let (waiting, pending) := state.pending.drain
    let diagnostics :=
      waiting.foldl
        (fun diagnostics unanswered =>
          diagnostics.report
            (.unknownFunction unanswered.call.callee.text
              unanswered.call.mark.span))
        state.diagnostics
    { state with pending, diagnostics }

end SplTyping
