import SplTyping.Inference.State
import SplTyping.Program.Written

namespace SplTyping

/-!
# The meaning of written types

Within one declaration, a written type variable stands for the same type
wherever it is mentioned.
-/

/-- The type variable that a written one stands for. -/
def namedVar (name : String) : InferM TypeVar := do
  match (← get).names.get? name with
  | some id => return id
  | none =>
      let id ← freshVar
      modify fun state => { state with names := state.names.insert name id }
      return id

/-- The type that a written type stands for. -/
def writtenTy : WrittenTy → InferM Ty
  | .int => return .int
  | .bool => return .bool
  | .char => return .char
  | .void => return .void
  | .list element => do
      let element ← writtenTy element
      return .list element
  | .pair first second => do
      let first ← writtenTy first
      let second ← writtenTy second
      return .pair first second
  | .named name => do
      let id ← namedVar name
      return .var id

/-- The types that several written types stand for. -/
def writtenTys : List WrittenTy → InferM (List Ty)
  | [] => return []
  | written :: rest => do
      let ty ← writtenTy written
      let rest ← writtenTys rest
      return ty :: rest

/-- The function type that a written signature stands for. -/
def signatureTy (written : WrittenSignature) : InferM Ty := do
  let params ← writtenTys written.params
  let result ← writtenTy written.result
  return .fn params result

end SplTyping
