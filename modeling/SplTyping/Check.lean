import SplTyping.Calls.Resolved
import SplTyping.Inference.Program

namespace SplTyping

/-!
# Checking a program

`typeCheck` infers a program, reports the calls that nobody answered and writes
all types into the tree. The tree is returned whether or not the check succeeds.
-/

/-- A program that has passed the check. -/
structure Checked where
  /-- The types of the global variables and the signatures of the functions. -/
  context : Context
  warnings : List Warning

/-- What inference leaves behind: the tree, the context and all findings. -/
structure Inferred where
  program : Program
  context : Context
  found : Substitution
  state : State

/-- Infer a program from nothing, and report the calls that still wait. -/
def Program.infer (program : Program) : Inferred :=
  let inference : InferM (Program × Context × Substitution) := do
    let result ← inferProgram program .empty
    reportWaiting
    return result
  let ((program, context, found), state) := inference.run .initial
  { program, context, found, state }

/-- The tree with all findings written back, and the copies without a call. -/
def Inferred.writeBack (inferred : Inferred) : Program × ResolvedCalls :=
  (inferred.program.writeBack inferred.found).run inferred.state.resolved

/-- Check a program, and report on it against its source text. -/
def typeCheck
    (program : Program)
    (source : String)
    (config : ReportConfig) :
    Program × Except Failure Checked :=
  let inferred := program.infer
  (inferred.writeBack.1,
    (inferred.state.diagnostics.finish source config).map fun warnings =>
      { context := inferred.context, warnings })

end SplTyping
