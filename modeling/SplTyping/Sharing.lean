import SplTyping.Substitution
import SplTyping.Table

namespace SplTyping

/-!
# Sharing of type variables

A written signature says which positions have the same type by naming them
alike. `sharesLike` asks whether the inferred type keeps to that: laid over each
other, every written variable meets one inferred type only, and every inferred
variable meets one written variable only. Differences of shape are left to
unification.
-/

namespace Table

variable {κ α : Type} [DecidableEq κ] [DecidableEq α]

/-- The table with an entry for a key, unless the key has another value. -/
def record? (table : Table κ α) (key : κ) (value : α) : Option (Table κ α) :=
  match table.get? key with
  | none => some (table.insert key value)
  | some known => if known = value then some table else none

end Table

mutual

/--
What the variables of the first type meet when the second type is laid over it,
from left to right.
-/
def aligned : Ty → Ty → List (TypeVar × Ty)
  | .var id, ty => [(id, ty)]
  | .list declared, .list inferred => aligned declared inferred
  | .pair declared declared', .pair inferred inferred' =>
      aligned declared inferred ++ aligned declared' inferred'
  | .fn params result, .fn params' result' =>
      if params.length = params'.length then
        alignedAll params params' ++ aligned result result'
      else
        []
  | _, _ => []

/-- What the variables of several types meet. -/
def alignedAll : List Ty → List Ty → List (TypeVar × Ty)
  | declared :: rest, inferred :: rest' =>
      aligned declared inferred ++ alignedAll rest rest'
  | _, _ => []

end

/-- What has been met so far, seen from either side. -/
structure Sharing where
  /-- The type met by a written variable. -/
  types : Table TypeVar Ty
  /-- The written variable met by an inferred variable. -/
  owners : Table TypeVar TypeVar

namespace Sharing

/-- Nothing has been met. -/
def empty : Sharing where
  types := .empty
  owners := .empty

/-- One more meeting, unless it contradicts an earlier one. -/
def meet? (sharing : Sharing) (meeting : TypeVar × Ty) : Option Sharing := do
  let types ← sharing.types.record? meeting.1 meeting.2
  match meeting.2 with
  | .var id =>
      let owners ← sharing.owners.record? id meeting.1
      return { types, owners }
  | _ => return { types, owners := sharing.owners }

end Sharing

/-- Whether an inferred type shares its variables as the declared one does. -/
def sharesLike (declared inferred : Ty) : Bool :=
  ((aligned declared inferred).foldlM Sharing.meet? Sharing.empty).isSome

end SplTyping
