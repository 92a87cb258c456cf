import SplTyping.Program.Position

namespace SplTyping

/-!
# Written types

Types as the programmer writes them, with names where a type variable is meant.
-/

/-- A type as written in the source. -/
inductive WrittenTy where
  | int
  | bool
  | char
  | void
  | list (element : WrittenTy)
  | pair (first second : WrittenTy)
  | named (name : String)
  deriving Inhabited, Repr, DecidableEq

/-- A function signature as written in the source. -/
structure WrittenSignature where
  params : List WrittenTy
  result : WrittenTy
  span : Span
  deriving Inhabited, Repr, DecidableEq

namespace WrittenTy

/-- The text of a written type. -/
def render : WrittenTy → String
  | .int => "Int"
  | .bool => "Bool"
  | .char => "Char"
  | .void => "Void"
  | .list element => "[" ++ element.render ++ "]"
  | .pair first second => "(" ++ first.render ++ ", " ++ second.render ++ ")"
  | .named name => name

end WrittenTy

namespace WrittenSignature

/-- The text of a written signature: the parameters, an arrow and the result. -/
def render (written : WrittenSignature) : String :=
  String.join (written.params.map fun param => param.render ++ " ") ++
    "-> " ++ written.result.render

end WrittenSignature

end SplTyping
