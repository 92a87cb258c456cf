import SplTyping.Program.Position
import SplTyping.Ty.Basic

namespace SplTyping

/-!
# Expressions

Expressions, the places they read and the calls they make. Every node carries a
mark: where it stands in the source, and a slot for its type that is empty until
inference fills it.
-/

/-- Where a node stands, and the type found for it. -/
structure Mark where
  span : Span
  ty : Option Ty
  deriving Inhabited, DecidableEq

/-- The binary operators. -/
inductive BinOp where
  | cons
  | add
  | sub
  | mul
  | div
  | mod
  | lt
  | gt
  | le
  | ge
  | and
  | or
  | eq
  | ne
  deriving Repr, DecidableEq

/-- The unary operators. -/
inductive UnOp where
  | not
  | neg
  deriving Repr, DecidableEq

/-- The number under which a call waits for its callee. -/
abbrev CallId := Nat

mutual

/-- An expression. -/
inductive Expr where
  | int (value : Int) (mark : Mark)
  | bool (value : Bool) (mark : Mark)
  | char (value : Char) (mark : Mark)
  | read (place : Place)
  | pair (first second : Expr) (mark : Mark)
  /-- The empty list. -/
  | nil (mark : Mark)
  /-- The list of all values from `first` to `last`. -/
  | range (first last : Expr) (mark : Mark)
  | binary (op : BinOp) (left right : Expr) (mark : Mark)
  | unary (op : UnOp) (operand : Expr) (mark : Mark)
  | call (call : Call)

/-- A selection from the value of a variable. -/
inductive Field where
  | hd
  | tl
  | fst
  | snd
  | index (position : Expr)

/-- A variable and the fields selected from it, in order. -/
structure Place where
  name : Name
  fields : List Field
  mark : Mark

/--
A call. Its slot holds the function type at which the callee is used, and
`waiting` the number under which it waits, if its callee was not known when the
call was reached.
-/
structure Call where
  callee : Name
  args : List Expr
  mark : Mark
  waiting : Option CallId

end

namespace BinOp

/-- How an operator is written. -/
def render : BinOp → String
  | .cons => ":"
  | .add => "+"
  | .sub => "-"
  | .mul => "*"
  | .div => "/"
  | .mod => "%"
  | .lt => "<"
  | .gt => ">"
  | .le => "<="
  | .ge => ">="
  | .and => "&&"
  | .or => "||"
  | .eq => "=="
  | .ne => "!="

end BinOp

namespace UnOp

/-- How an operator is written. -/
def render : UnOp → String
  | .not => "!"
  | .neg => "-"

end UnOp

namespace Field

/-- How a field is written; the position of an index is left out. -/
def render : Field → String
  | .hd => ".hd"
  | .tl => ".tl"
  | .fst => ".fst"
  | .snd => ".snd"
  | .index _ => "[..]"

end Field

namespace Mark

/-- The mark with its slot filled. -/
def withTy (mark : Mark) (ty : Ty) : Mark where
  span := mark.span
  ty := some ty

end Mark

namespace Ty

/-- The type of a call's value, read off the function type in its slot. -/
def callResult : Ty → Ty
  | .fn _ result => result
  | ty => ty

end Ty

namespace Expr

/-- The mark of an expression. -/
def mark : Expr → Mark
  | .int _ mark
  | .bool _ mark
  | .char _ mark
  | .pair _ _ mark
  | .nil mark
  | .range _ _ mark
  | .binary _ _ _ mark
  | .unary _ _ mark => mark
  | .read place => place.mark
  | .call made => made.mark

/-- Where an expression stands. -/
def span (expr : Expr) : Span :=
  expr.mark.span

/-- The type found for an expression; for a call, that of its result. -/
def ty? : Expr → Option Ty
  | .call made => made.mark.ty.map Ty.callResult
  | expr => expr.mark.ty

end Expr

end SplTyping
