import SplTyping.Program.Decl

namespace SplTyping

/-!
# The calls and values of a tree

`calls` lists the calls made anywhere in a tree. `values` lists the expressions
whose value is needed: the components of pairs, the operands of binary
operators, the arguments of calls, both sides of assignments, what is returned
and what variables are declared as. The target of an assignment is listed as the
expression that reads it.

Of most values nothing is asked, or a basic type. The right operand of some
operators has to agree in type with the left one, and what a variable is declared
as with a written type.
-/

/-- The mark of a node that has no place and no type yet. -/
def Mark.blank : Mark where
  span := .unknown
  ty := none

/-- A name that has no place. -/
def Name.ofText (text : String) : Name where
  text := text
  span := .unknown

/-- The place that some fields of a variable select. -/
def Place.ofFields (text : String) (fields : List Field) : Place where
  name := .ofText text
  fields := fields
  mark := .blank

/-- The expression that reads a variable. -/
def Expr.ofText (text : String) : Expr :=
  .read (.ofFields text [])

/-- A call of a function by its name. -/
def Call.ofText (callee : String) (args : List Expr) : Call where
  callee := .ofText callee
  args := args
  mark := .blank
  waiting := none

/-- A function without local variables and without a written signature. -/
def FunDecl.ofBody
    (name : String)
    (args : List String)
    (body : List Stmt) :
    FunDecl where
  name := .ofText name
  args := args.map .ofText
  written := none
  locals := []
  body := body
  mark := .blank

mutual

/-- The calls made in an expression. -/
def Expr.calls : Expr → List Call
  | .int _ _ | .bool _ _ | .char _ _ | .nil _ => []
  | .read place => place.calls
  | .pair first second _ => first.calls ++ second.calls
  | .range first last _ => first.calls ++ last.calls
  | .binary _ left right _ => left.calls ++ right.calls
  | .unary _ operand _ => operand.calls
  | .call made => made.calls

/-- The calls made in a place. -/
def Place.calls : Place → List Call
  | ⟨_, fields, _⟩ => Field.callsAll fields

/-- The calls made in a field. -/
def Field.calls : Field → List Call
  | .hd | .tl | .fst | .snd => []
  | .index position => position.calls

/-- The calls made in several fields. -/
def Field.callsAll : List Field → List Call
  | [] => []
  | field :: rest => field.calls ++ Field.callsAll rest

/-- A call and the calls made in its arguments. -/
def Call.calls : Call → List Call
  | ⟨callee, args, mark, waiting⟩ =>
      ⟨callee, args, mark, waiting⟩ :: Expr.callsAll args

/-- The calls made in several expressions. -/
def Expr.callsAll : List Expr → List Call
  | [] => []
  | expr :: rest => expr.calls ++ Expr.callsAll rest

end

mutual

/-- The calls made in a statement. -/
def Stmt.calls : Stmt → List Call
  | .ifElse condition thenBody elseBody _ =>
      condition.calls ++ Stmt.callsAll thenBody ++ Stmt.callsAll elseBody
  | .whileDo condition body _ => condition.calls ++ Stmt.callsAll body
  | .forIn _ iterable body _ => iterable.calls ++ Stmt.callsAll body
  | .assign target value _ => target.calls ++ value.calls
  | .call made => made.calls
  | .ret none _ => []
  | .ret (some value) _ => value.calls

/-- The calls made in several statements. -/
def Stmt.callsAll : List Stmt → List Call
  | [] => []
  | stmt :: rest => stmt.calls ++ Stmt.callsAll rest

end

/-- The calls made in the declaration of a variable. -/
def VarDecl.calls (decl : VarDecl) : List Call :=
  decl.value.calls

/-- The calls made in a function. -/
def FunDecl.calls (decl : FunDecl) : List Call :=
  decl.locals.flatMap VarDecl.calls ++ Stmt.callsAll decl.body

/-- The calls made in a declaration. -/
def Decl.calls : Decl → List Call
  | .var decl => decl.calls
  | .fn decl => decl.calls

/-- The calls made in a program. -/
def Program.calls (program : Program) : List Call :=
  program.decls.flatMap Decl.calls

/-- An expression whose value is needed. -/
structure Value where
  /-- The expression. -/
  expr : Expr
  /-- Whether its type has to agree with another one. -/
  agrees : Bool

/-- Whether an operator asks that its operands have types that agree. -/
def BinOp.agrees : BinOp → Bool
  | .cons | .eq | .ne => true
  | _ => false

mutual

/-- The parts of an expression whose value is needed. -/
def Expr.values : Expr → List Value
  | .int _ _ | .bool _ _ | .char _ _ | .nil _ => []
  | .read place => place.values
  | .pair first second _ =>
      ⟨first, false⟩ :: ⟨second, false⟩ :: (first.values ++ second.values)
  | .range first last _ => first.values ++ last.values
  | .binary op left right _ =>
      ⟨left, false⟩ :: ⟨right, op.agrees⟩ :: (left.values ++ right.values)
  | .unary _ operand _ => operand.values
  | .call made => made.values

/-- The parts of a place whose value is needed. -/
def Place.values : Place → List Value
  | ⟨_, fields, _⟩ => Field.valuesAll fields

/-- The parts of a field whose value is needed. -/
def Field.values : Field → List Value
  | .hd | .tl | .fst | .snd => []
  | .index position => position.values

/-- The parts of several fields whose value is needed. -/
def Field.valuesAll : List Field → List Value
  | [] => []
  | field :: rest => field.values ++ Field.valuesAll rest

/-- The parts of a call whose value is needed. -/
def Call.values : Call → List Value
  | ⟨_, args, _, _⟩ => args.map (⟨·, false⟩) ++ Expr.valuesAll args

/-- The parts of several expressions whose value is needed. -/
def Expr.valuesAll : List Expr → List Value
  | [] => []
  | expr :: rest => expr.values ++ Expr.valuesAll rest

end

mutual

/-- The expressions in a statement whose value is needed. -/
def Stmt.values : Stmt → List Value
  | .ifElse condition thenBody elseBody _ =>
      condition.values ++ Stmt.valuesAll thenBody ++ Stmt.valuesAll elseBody
  | .whileDo condition body _ => condition.values ++ Stmt.valuesAll body
  | .forIn _ iterable body _ => iterable.values ++ Stmt.valuesAll body
  | .assign target value _ =>
      ⟨.read target, false⟩ :: ⟨value, false⟩ ::
        (target.values ++ value.values)
  | .call made => made.values
  | .ret none _ => []
  | .ret (some value) _ => ⟨value, false⟩ :: value.values

/-- The expressions in several statements whose value is needed. -/
def Stmt.valuesAll : List Stmt → List Value
  | [] => []
  | stmt :: rest => stmt.values ++ Stmt.valuesAll rest

end

/-- The expressions in a variable declaration whose value is needed. -/
def VarDecl.values (decl : VarDecl) : List Value :=
  ⟨decl.value, decl.written.isSome⟩ :: decl.value.values

/-- The expressions in a function whose value is needed. -/
def FunDecl.values (decl : FunDecl) : List Value :=
  decl.locals.flatMap VarDecl.values ++ Stmt.valuesAll decl.body

/-- The expressions in a declaration whose value is needed. -/
def Decl.values : Decl → List Value
  | .var decl => decl.values
  | .fn decl => decl.values

/-- The expressions in a program whose value is needed. -/
def Program.values (program : Program) : List Value :=
  program.decls.flatMap Decl.values

namespace Decl

/-- The variable declaration, if this is one. -/
def var? : Decl → Option VarDecl
  | .var decl => some decl
  | .fn _ => none

/-- The function declaration, if this is one. -/
def fn? : Decl → Option FunDecl
  | .var _ => none
  | .fn decl => some decl

/-- The variables that a declaration declares, local ones included. -/
def varDecls : Decl → List VarDecl
  | .var decl => [decl]
  | .fn decl => decl.locals

end Decl

/-- What is listed for declarations is listed for a variable or a function. -/
theorem mem_flatMap_decls
    {α : Type}
    {decls : List Decl}
    {list : Decl → List α}
    {item : α}
    (member : item ∈ decls.flatMap list) :
    (∃ decl ∈ decls.filterMap Decl.var?, item ∈ list (.var decl)) ∨
      ∃ decl ∈ decls.filterMap Decl.fn?, item ∈ list (.fn decl) := by
  obtain ⟨decl, isDecl, isListed⟩ := List.mem_flatMap.mp member
  cases decl with
  | var decl =>
      exact Or.inl ⟨decl, List.mem_filterMap.mpr ⟨_, isDecl, rfl⟩, isListed⟩
  | fn decl =>
      exact Or.inr ⟨decl, List.mem_filterMap.mpr ⟨_, isDecl, rfl⟩, isListed⟩

/-- What is listed for declarations is listed for variables and for functions. -/
theorem perm_flatMap_decls
    {α : Type}
    (list : Decl → List α)
    (decls : List Decl) :
    (decls.flatMap list).Perm
      (((decls.filterMap Decl.var?).flatMap fun decl => list (.var decl)) ++
        (decls.filterMap Decl.fn?).flatMap fun decl => list (.fn decl)) := by
  induction decls with
  | nil => exact .refl _
  | cons decl rest inductionHypothesis =>
      have moved := inductionHypothesis.append_left (list decl)
      cases decl with
      | var decl =>
          rw [← List.append_assoc] at moved
          exact moved
      | fn decl => exact moved.trans (List.perm_append_comm_assoc _ _ _)

/-- No call among some has a number. -/
def Unstamped (calls : List Call) : Prop :=
  ∀ call ∈ calls, call.waiting = none

theorem Unstamped.of_append
    {calls more : List Call}
    (unstamped : Unstamped (calls ++ more)) :
    Unstamped calls ∧ Unstamped more :=
  List.forall_mem_append.mp unstamped

theorem Unstamped.append
    {calls more : List Call}
    (unstamped : Unstamped calls)
    (unstampedMore : Unstamped more) :
    Unstamped (calls ++ more) :=
  List.forall_mem_append.mpr ⟨unstamped, unstampedMore⟩

/-- If no call of a program has a number, no call of its functions has. -/
theorem Unstamped.functions
    {decls : List Decl}
    (unstamped : Unstamped (decls.flatMap Decl.calls)) :
    ∀ decl ∈ decls.filterMap Decl.fn?, Unstamped decl.calls := by
  intro decl isDecl
  obtain ⟨item, isItem, isFn⟩ := List.mem_filterMap.mp isDecl
  cases item with
  | var item => cases isFn
  | fn item =>
      cases isFn
      exact fun call isCall =>
        unstamped call (List.mem_flatMap.mpr ⟨_, isItem, isCall⟩)

namespace Program

/-- The global variables in the order of the source. -/
def globals (program : Program) : List VarDecl :=
  program.decls.filterMap Decl.var?

/-- The functions in the order of the source. -/
def functions (program : Program) : List FunDecl :=
  program.decls.filterMap Decl.fn?

/-- The variables declared in a program, global and local ones. -/
def varDecls (program : Program) : List VarDecl :=
  program.decls.flatMap Decl.varDecls

end Program

end SplTyping
