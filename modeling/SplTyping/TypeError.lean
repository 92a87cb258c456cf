import SplTyping.Program.Expr
import SplTyping.Unification

namespace SplTyping

/-!
# Type errors

Everything that can be wrong with a program, each with its cause, its place and
its text. A failed unification does not know why its two types had to be equal:
`TypeError.ofUnify` adds the demand that made them so.
-/

/-- What asked for two types to be equal. -/
inductive Demand where
  | general
  | binaryOperand (op : BinOp)
  | unaryOperand (op : UnOp)
  | ifCondition
  | whileCondition
  | forIterable
  | returned
  | signature (function : String)
  | field (name selected : String)
  | index
  | rangeBound
  | declaration (name : String)
  | assignment (name : String)
  /-- Arguments count from one. -/
  | argument (function : String) (number : Nat)
  | callResult (function : String)
  deriving Repr, DecidableEq

/-- What asked for a value, which the type `Void` does not have. -/
inductive ValueUse where
  | assignment (name : String)
  | declaration (name : String)
  | pairComponent
  | operand (op : BinOp)
  /-- Arguments count from one. -/
  | argument (function : String) (number : Nat)
  | returned
  deriving Repr, DecidableEq

/-- What a name that is bound twice stands for. -/
inductive NameKind where
  | var
  | function
  | loopVariable
  | argument
  deriving Repr, DecidableEq

/-- What has the wrong number of arguments. -/
inductive ArityKind where
  | call
  | signature
  deriving Repr, DecidableEq

/-- Something wrong with a program. -/
inductive TypeError where
  /-- Two types that had to be equal have no common instance. -/
  | mismatch (demand : Demand) (expected found : Ty) (span : Span)
  | unknownVariable (name : String) (span : Span)
  /-- A call whose callee is declared nowhere. -/
  | unknownFunction (name : String) (span : Span)
  | redefinition (kind : NameKind) (name : String) (span : Span)
  | arity
      (kind : ArityKind)
      (name : String)
      (expected found : Nat)
      (span : Span)
  | voidValue (use : ValueUse) (span : Span)
  /-- A signature shares its type variables otherwise than the body does. -/
  | sharing (name : String) (declared inferred : Ty) (span : Span)
  deriving DecidableEq

/-- A demand for a value, and where it is made. -/
structure ValueGuard where
  use : ValueUse
  span : Span
  deriving Repr, DecidableEq

/-- A word of source text inside a message. -/
def quoted (text : String) : String :=
  "`" ++ text ++ "`"

namespace Demand

/-- The text of a demand. -/
def message : Demand → String
  | .general => "type mismatch"
  | .binaryOperand op =>
      "operand of " ++ quoted op.render ++ " has the wrong type"
  | .unaryOperand op =>
      "operand of " ++ quoted op.render ++ " has the wrong type"
  | .ifCondition => "condition of `if` must be Bool"
  | .whileCondition => "condition of `while` must be Bool"
  | .forIterable => "`for` must iterate over a list"
  | .returned => "returned value does not match the return type"
  | .signature function =>
      "signature of " ++ quoted function ++ " does not match its definition"
  | .field name selected =>
      "field " ++ quoted selected ++ " cannot be applied to " ++ quoted name
  | .index => "list index must be Int"
  | .rangeBound => "bounds of a list range must be Int or Char"
  | .declaration name =>
      "initializer of " ++ quoted name ++ " does not match its declaration"
  | .assignment name =>
      "value assigned to " ++ quoted name ++ " does not match its type"
  | .argument function number =>
      "argument " ++ toString number ++ " of " ++ quoted function ++
        " has the wrong type"
  | .callResult function =>
      "result of " ++ quoted function ++ " used at the wrong type"

end Demand

namespace ValueUse

/-- The text of a demand for a value. -/
def message : ValueUse → String
  | .assignment name => "cannot assign Void to " ++ quoted name
  | .declaration name => "cannot initialize " ++ quoted name ++ " with Void"
  | .pairComponent => "tuple component cannot be Void"
  | .operand op => "operand of " ++ quoted op.render ++ " cannot be Void"
  | .argument function number =>
      "argument " ++ toString number ++ " of " ++ quoted function ++
        " cannot be Void"
  | .returned => "cannot return Void"

end ValueUse

namespace NameKind

/-- The text of a kind of name. -/
def message : NameKind → String
  | .var => "variable"
  | .function => "function"
  | .loopVariable => "loop variable"
  | .argument => "argument"

end NameKind

namespace ArityKind

/-- The text of what has the wrong number of arguments. -/
def message : ArityKind → String
  | .call => "function"
  | .signature => "signature of"

end ArityKind

namespace TypeError

/-- The place of an error. -/
def span : TypeError → Span
  | .mismatch _ _ _ span
  | .unknownVariable _ span
  | .unknownFunction _ span
  | .redefinition _ _ span
  | .arity _ _ _ _ span
  | .voidValue _ span
  | .sharing _ _ _ span => span

/-- The text of an error. -/
def message : TypeError → String
  | .mismatch demand expected found _ =>
      demand.message ++ ": cannot unify " ++ expected.render ++ " with " ++
        found.render
  | .unknownVariable name _ => "unknown variable " ++ quoted name
  | .unknownFunction name _ => "call to undefined function " ++ quoted name
  | .redefinition kind name _ =>
      kind.message ++ " " ++ quoted name ++ " is already defined"
  | .arity kind name expected found _ =>
      kind.message ++ " " ++ quoted name ++ " expects " ++ toString expected ++
        " argument(s) but " ++ toString found ++ " were given"
  | .voidValue use _ => use.message ++ ": Void is not a value"
  | .sharing name declared inferred _ =>
      quoted name ++ " declares " ++ declared.render ++
        " but its body infers " ++ inferred.render ++
        ": type variables are not used consistently"

/--
The error for a demand that could not be met. Different numbers of parameters
are reported under the name of `subject`.
-/
def ofUnify
    (demand : Demand)
    (subject : String)
    (span : Span) :
    UnifyError → TypeError
  | .mismatch left right => .mismatch demand left right span
  | .arity expected found => .arity .signature subject expected found span

/-- The error for a function that does not match its written signature. -/
def ofSignature (function : String) (span : Span) : UnifyError → TypeError :=
  ofUnify (.signature function) function span

/--
The error for an argument that does not fit its parameter. Unification has the
argument on its left, but the parameter is what is expected.
-/
def ofArgument
    (function : String)
    (number : Nat)
    (span : Span) :
    UnifyError → TypeError
  | .mismatch left right => .mismatch (.argument function number) right left span
  | failure => ofUnify (.argument function number) "" span failure

end TypeError

end SplTyping
