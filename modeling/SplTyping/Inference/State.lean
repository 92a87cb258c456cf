import SplTyping.Calls.Pending
import SplTyping.Report.Diagnostics

namespace SplTyping

/-!
# The state of inference

Inference draws fresh type variables, remembers what the written type variables
of the current declaration stand for, sets calls aside, and collects errors. An
error never stops it: whatever fails contributes the empty substitution, and the
work goes on with what comes next.
-/

/-- What inference carries from node to node. -/
structure State where
  /-- The next type variable to draw. -/
  nextVar : TypeVar
  /-- What the written type variables of the current declaration stand for. -/
  names : Table String TypeVar
  /-- The calls whose callee is not declared yet. -/
  pending : PendingCalls
  /-- The calls that waited and have been checked since. -/
  resolved : Table CallId Call
  /-- All that is known about types from the declarations finished so far. -/
  settled : Substitution
  diagnostics : Diagnostics

/-- A step of inference. -/
abbrev InferM := StateM State

namespace State

/-- The state before the first declaration. -/
def initial : State where
  nextVar := 0
  names := .empty
  pending := .empty
  resolved := .empty
  settled := []
  diagnostics := .empty

end State

/-- Draw a type variable that has not been drawn before. -/
def freshVar : InferM TypeVar :=
  modifyGet fun state =>
    (state.nextVar, { state with nextVar := state.nextVar + 1 })

/-- Draw a type that nothing is known about. -/
def fresh : InferM Ty := do
  let id ← freshVar
  return .var id

/-- Record an error. -/
def report (error : TypeError) : InferM Unit :=
  modify fun state =>
    { state with diagnostics := state.diagnostics.report error }

/-- Forget what written type variables stand for. -/
def resetNames : InferM Unit :=
  modify fun state => { state with names := .empty }

/-- Set a call aside until its callee is declared. -/
def defer
    (call : Call)
    (context : Context)
    (expected : Ty)
    (guard : Option ValueGuard) :
    InferM Call :=
  modifyGet fun state =>
    let (stamped, pending) := state.pending.defer call context expected guard
    (stamped, { state with pending })

/-- Take the calls that wait for a function. -/
def takeCalls (function : String) : InferM (List PendingCall) :=
  modifyGet fun state =>
    let (taken, pending) := state.pending.take function
    (taken, { state with pending })

/-- Make two types equal, or record why that is impossible. -/
def unifyOrReport
    (left right : Ty)
    (flow : Flow)
    (explain : UnifyError → TypeError) :
    InferM Substitution :=
  match unify left right flow with
  | .ok found => return found
  | .error failure => do
      report (explain failure)
      return []

/-- Make the type of a node equal to the type that is expected of it. -/
def constrain
    (expected found : Ty)
    (demand : Demand)
    (span : Span) :
    InferM Substitution :=
  unifyOrReport expected found .global (TypeError.ofUnify demand "" span)

end SplTyping
