import SplTyping.Program.Decl

namespace SplTyping

/-!
# The type slots of a tree

`mapTypes` changes every type that inference has written into a tree and leaves
everything else as it is; an empty slot stays empty.
-/

namespace Mark

/-- The mark with its type changed. -/
def mapTypes (change : Ty → Ty) (mark : Mark) : Mark where
  span := mark.span
  ty := mark.ty.map change

end Mark

mutual

/-- An expression with every type in it changed. -/
def Expr.mapTypes (change : Ty → Ty) : Expr → Expr
  | .int value mark => .int value (mark.mapTypes change)
  | .bool value mark => .bool value (mark.mapTypes change)
  | .char value mark => .char value (mark.mapTypes change)
  | .read place => .read (place.mapTypes change)
  | .pair first second mark =>
      .pair (first.mapTypes change) (second.mapTypes change)
        (mark.mapTypes change)
  | .nil mark => .nil (mark.mapTypes change)
  | .range first last mark =>
      .range (first.mapTypes change) (last.mapTypes change)
        (mark.mapTypes change)
  | .binary op left right mark =>
      .binary op (left.mapTypes change) (right.mapTypes change)
        (mark.mapTypes change)
  | .unary op operand mark =>
      .unary op (operand.mapTypes change) (mark.mapTypes change)
  | .call made => .call (made.mapTypes change)

/-- A field with every type in it changed. -/
def Field.mapTypes (change : Ty → Ty) : Field → Field
  | .hd => .hd
  | .tl => .tl
  | .fst => .fst
  | .snd => .snd
  | .index position => .index (position.mapTypes change)

/-- A place with every type in it changed. -/
def Place.mapTypes (change : Ty → Ty) : Place → Place
  | ⟨name, fields, mark⟩ =>
      ⟨name, Field.mapTypesAll change fields, mark.mapTypes change⟩

/-- A call with every type in it changed. -/
def Call.mapTypes (change : Ty → Ty) : Call → Call
  | ⟨callee, args, mark, waiting⟩ =>
      ⟨callee, Expr.mapTypesAll change args, mark.mapTypes change, waiting⟩

/-- Fields with every type in them changed. -/
def Field.mapTypesAll (change : Ty → Ty) : List Field → List Field
  | [] => []
  | field :: rest => field.mapTypes change :: Field.mapTypesAll change rest

/-- Expressions with every type in them changed. -/
def Expr.mapTypesAll (change : Ty → Ty) : List Expr → List Expr
  | [] => []
  | expr :: rest => expr.mapTypes change :: Expr.mapTypesAll change rest

end

mutual

/-- A statement with every type in it changed. -/
def Stmt.mapTypes (change : Ty → Ty) : Stmt → Stmt
  | .ifElse condition thenBody elseBody span =>
      .ifElse (condition.mapTypes change) (Stmt.mapTypesAll change thenBody)
        (Stmt.mapTypesAll change elseBody) span
  | .whileDo condition body span =>
      .whileDo (condition.mapTypes change) (Stmt.mapTypesAll change body) span
  | .forIn element iterable body span =>
      .forIn element (iterable.mapTypes change) (Stmt.mapTypesAll change body)
        span
  | .assign target value span =>
      .assign (target.mapTypes change) (value.mapTypes change) span
  | .call made => .call (made.mapTypes change)
  | .ret value span => .ret (value.map (Expr.mapTypes change)) span

/-- Statements with every type in them changed. -/
def Stmt.mapTypesAll (change : Ty → Ty) : List Stmt → List Stmt
  | [] => []
  | stmt :: rest => stmt.mapTypes change :: Stmt.mapTypesAll change rest

end

/-- A variable declaration with every type in it changed. -/
def VarDecl.mapTypes (change : Ty → Ty) (decl : VarDecl) : VarDecl where
  written := decl.written
  name := decl.name
  value := decl.value.mapTypes change
  mark := decl.mark.mapTypes change

/-- A function declaration with every type in it changed. -/
def FunDecl.mapTypes (change : Ty → Ty) (decl : FunDecl) : FunDecl where
  name := decl.name
  args := decl.args
  written := decl.written
  locals := decl.locals.map (VarDecl.mapTypes change)
  body := Stmt.mapTypesAll change decl.body
  mark := decl.mark.mapTypes change

/-- A declaration with every type in it changed. -/
def Decl.mapTypes (change : Ty → Ty) : Decl → Decl
  | .var decl => .var (decl.mapTypes change)
  | .fn decl => .fn (decl.mapTypes change)

/-- A program with every type in it changed. -/
def Program.mapTypes (change : Ty → Ty) (program : Program) : Program where
  decls := program.decls.map (Decl.mapTypes change)

end SplTyping
