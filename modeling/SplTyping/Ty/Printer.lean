import SplTyping.Ty.Basic

namespace SplTyping

/-!
# The text of a type

Lists are written in brackets, pairs and parameter lists in parentheses, and a
variable as `'t` and its number.
-/

namespace Ty

mutual

/-- The text of a type. -/
def render : Ty → String
  | .int => "Int"
  | .bool => "Bool"
  | .char => "Char"
  | .void => "Void"
  | .list element => "[" ++ element.render ++ "]"
  | .pair first second => "(" ++ first.render ++ ", " ++ second.render ++ ")"
  | .fn params result =>
      "(" ++ ", ".intercalate (renderAll params) ++ ") -> " ++ result.render
  | .var id => "'t" ++ toString id

/-- The texts of several types. -/
def renderAll : List Ty → List String
  | [] => []
  | ty :: rest => ty.render :: renderAll rest

end

end Ty

end SplTyping
