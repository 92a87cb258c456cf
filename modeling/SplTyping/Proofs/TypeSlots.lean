import Mathlib.Data.List.Forall2
import SplTyping.Program.Decl
import SplTyping.Proofs.Settled

namespace SplTyping

/-!
# The slots that inference writes

`slots` lists the type slots of a tree in a fixed order, which depends on its
shape only. Inference keeps the shape, so the slots of a tree before and after
it can be compared one by one: `SlotsWritten live` says that a slot is either
left as it was or holds a type over live variables.
-/

mutual

/-- The slots of an expression, each behind those of its parts. -/
def Expr.slots : Expr → List (Option Ty)
  | .int _ mark | .bool _ mark | .char _ mark | .nil mark => [mark.ty]
  | .read place => place.slots
  | .pair first second mark => first.slots ++ second.slots ++ [mark.ty]
  | .range first last mark => first.slots ++ last.slots ++ [mark.ty]
  | .binary _ left right mark => left.slots ++ right.slots ++ [mark.ty]
  | .unary _ operand mark => operand.slots ++ [mark.ty]
  | .call made => made.slots

/-- The slots of a place. -/
def Place.slots : Place → List (Option Ty)
  | ⟨_, fields, mark⟩ => Field.slotsAll fields ++ [mark.ty]

/-- The slots of a field. -/
def Field.slots : Field → List (Option Ty)
  | .hd | .tl | .fst | .snd => []
  | .index position => position.slots

/-- The slots of several fields. -/
def Field.slotsAll : List Field → List (Option Ty)
  | [] => []
  | field :: rest => field.slots ++ Field.slotsAll rest

/-- The slots of a call; its number does not matter. -/
def Call.slots : Call → List (Option Ty)
  | ⟨_, args, mark, _⟩ => Expr.slotsAll args ++ [mark.ty]

/-- The slots of several expressions. -/
def Expr.slotsAll : List Expr → List (Option Ty)
  | [] => []
  | expr :: rest => expr.slots ++ Expr.slotsAll rest

end

theorem Call.slots_stamped (call : Call) (stamp : Option CallId) :
    Call.slots { call with waiting := stamp } = call.slots := by
  rcases call with ⟨callee, args, mark, waiting⟩
  rfl

mutual

/-- The slots of a statement. -/
def Stmt.slots : Stmt → List (Option Ty)
  | .ifElse condition thenBody elseBody _ =>
      condition.slots ++ Stmt.slotsAll thenBody ++ Stmt.slotsAll elseBody
  | .whileDo condition body _ => condition.slots ++ Stmt.slotsAll body
  | .forIn _ iterable body _ => iterable.slots ++ Stmt.slotsAll body
  | .assign target value _ => target.slots ++ value.slots
  | .call made => made.slots
  | .ret none _ => []
  | .ret (some value) _ => value.slots

/-- The slots of several statements. -/
def Stmt.slotsAll : List Stmt → List (Option Ty)
  | [] => []
  | stmt :: rest => stmt.slots ++ Stmt.slotsAll rest

end

/-- The slots of the declaration of a variable. -/
def VarDecl.slots (decl : VarDecl) : List (Option Ty) :=
  decl.value.slots ++ [decl.mark.ty]

/-- The slots of a function. -/
def FunDecl.slots (decl : FunDecl) : List (Option Ty) :=
  decl.locals.flatMap VarDecl.slots ++ Stmt.slotsAll decl.body ++
    [decl.mark.ty]

/-- The slots of a declaration. -/
def Decl.slots : Decl → List (Option Ty)
  | .var decl => decl.slots
  | .fn decl => decl.slots

/-- The slots of a program. -/
def Program.slots (program : Program) : List (Option Ty) :=
  program.decls.flatMap Decl.slots

/-- A slot is left as it was, or holds a type over live variables. -/
def SlotWritten (live : TypeVar → Prop) (old new : Option Ty) : Prop :=
  new = old ∨ ∃ ty, new = some ty ∧ ty.Within live

/-- Slots are, one by one, left as they were or written. -/
def SlotsWritten (live : TypeVar → Prop) (old new : List (Option Ty)) : Prop :=
  List.Forall₂ (SlotWritten live) old new

namespace SlotsWritten

variable
  {live wider : TypeVar → Prop}
  {old new middle more more' : List (Option Ty)}

theorem refl (slots : List (Option Ty)) : SlotsWritten live slots slots :=
  List.forall₂_same.mpr fun _ _ => Or.inl rfl

/-- A single slot is filled. -/
theorem fill
    {slot : Option Ty}
    {ty : Ty}
    (within : ty.Within live) :
    SlotsWritten live [slot] [some ty] :=
  .cons (Or.inr ⟨ty, rfl, within⟩) .nil

theorem append
    (written : SlotsWritten live old new)
    (moreWritten : SlotsWritten live more more') :
    SlotsWritten live (old ++ more) (new ++ more') :=
  List.rel_append written moreWritten

theorem mono
    (written : SlotsWritten live old new)
    (widens : ∀ id, live id → wider id) :
    SlotsWritten wider old new := by
  refine List.Forall₂.imp ?_ written
  rintro slot slot' (same | ⟨ty, isTy, within⟩)
  · exact Or.inl same
  · exact Or.inr ⟨ty, isTy, within.mono widens⟩

/-- What was written may be written again. -/
theorem trans
    (first : SlotsWritten live old middle)
    (second : SlotsWritten live middle new) :
    SlotsWritten live old new := by
  induction first generalizing new with
  | nil => exact second
  | cons slotWritten _ inductionHypothesis =>
      cases second with
      | cons slotWritten' restWritten =>
          refine .cons ?_ (inductionHypothesis restWritten)
          rcases slotWritten' with rfl | isWritten
          · exact slotWritten
          · exact Or.inr isWritten

end SlotsWritten

end SplTyping
