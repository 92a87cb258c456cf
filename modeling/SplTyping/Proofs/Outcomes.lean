import SplTyping.Proofs.Erasure

namespace SplTyping

/-!
# What becomes of numbered calls

A call that inference has set aside stands in the tree under its number, with
its arguments as they were. An outcome says which call takes the place of each
number and what becomes of the types in the tree. A tree under an outcome has
its numbered calls replaced; what stands inside of a replaced call does not
matter then. A number without a replacement leaves its call in place.
-/

mutual

/-- The outermost calls of an expression that carry a number. -/
def Expr.numbered : Expr → List Call
  | .int _ _ | .bool _ _ | .char _ _ | .nil _ => []
  | .read place => place.numbered
  | .pair first second _ | .range first second _ | .binary _ first second _ =>
      first.numbered ++ second.numbered
  | .unary _ operand _ => operand.numbered
  | .call made => made.numbered

/-- The outermost calls of a place that carry a number. -/
def Place.numbered : Place → List Call
  | ⟨_, fields, _⟩ => Field.numberedAll fields

/-- The outermost calls of a field that carry a number. -/
def Field.numbered : Field → List Call
  | .hd | .tl | .fst | .snd => []
  | .index position => position.numbered

/-- The outermost calls of several fields that carry a number. -/
def Field.numberedAll : List Field → List Call
  | [] => []
  | field :: rest => field.numbered ++ Field.numberedAll rest

/-- A call that carries a number, or else those in its arguments. -/
def Call.numbered : Call → List Call
  | ⟨callee, args, mark, some id⟩ => [⟨callee, args, mark, some id⟩]
  | ⟨_, args, _, none⟩ => Expr.numberedAll args

/-- The outermost calls of several expressions that carry a number. -/
def Expr.numberedAll : List Expr → List Call
  | [] => []
  | expr :: rest => expr.numbered ++ Expr.numberedAll rest

end

mutual

/-- The outermost calls of a statement that carry a number. -/
def Stmt.numbered : Stmt → List Call
  | .ifElse condition thenBody elseBody _ =>
      condition.numbered ++
        (Stmt.numberedAll thenBody ++ Stmt.numberedAll elseBody)
  | .whileDo head body _ | .forIn _ head body _ =>
      head.numbered ++ Stmt.numberedAll body
  | .assign target value _ => target.numbered ++ value.numbered
  | .call made => made.numbered
  | .ret none _ => []
  | .ret (some value) _ => value.numbered

/-- The outermost calls of several statements that carry a number. -/
def Stmt.numberedAll : List Stmt → List Call
  | [] => []
  | stmt :: rest => stmt.numbered ++ Stmt.numberedAll rest

end

/-- The outermost calls of a variable declaration that carry a number. -/
def VarDecl.numbered (decl : VarDecl) : List Call :=
  decl.value.numbered

/-- The outermost calls of a function that carry a number. -/
def FunDecl.numbered (decl : FunDecl) : List Call :=
  decl.locals.flatMap VarDecl.numbered ++ Stmt.numberedAll decl.body

/-- The outermost calls of a declaration that carry a number. -/
def Decl.numbered : Decl → List Call
  | .var decl => decl.numbered
  | .fn decl => decl.numbered

/-- The outermost calls of a program that carry a number. -/
def Program.numbered (program : Program) : List Call :=
  program.decls.flatMap Decl.numbered

/-- In a call without a number, what is numbered stands in its arguments. -/
theorem Call.numbered_of_none
    {call : Call}
    (unstamped : call.waiting = none) :
    call.numbered = Expr.numberedAll call.args := by
  rcases call with ⟨callee, args, mark, waiting⟩
  cases unstamped
  rw [Call.numbered]

/-- A call with a number hides what is numbered inside. -/
theorem Call.numbered_of_some
    {call : Call}
    {id : CallId}
    (stamped : call.waiting = some id) :
    call.numbered = [call] := by
  rcases call with ⟨callee, args, mark, waiting⟩
  cases stamped
  rw [Call.numbered]

mutual

/-- If no call in an expression has a number, nothing in it is numbered. -/
theorem Expr.numbered_eq_nil
    (expr : Expr)
    (unstamped : Unstamped expr.calls) :
    expr.numbered = [] := by
  cases expr with
  | int | bool | char | nil => rfl
  | read place => exact Place.numbered_eq_nil place unstamped
  | pair first second | range first second | binary _ first second =>
      obtain ⟨firstUnstamped, secondUnstamped⟩ := unstamped.of_append
      rw [Expr.numbered, Expr.numbered_eq_nil first firstUnstamped,
        Expr.numbered_eq_nil second secondUnstamped, List.append_nil]
  | unary _ operand => exact Expr.numbered_eq_nil operand unstamped
  | call made => exact Call.numbered_eq_nil made unstamped
termination_by structural expr

/-- If no call in a place has a number, nothing in it is numbered. -/
theorem Place.numbered_eq_nil
    (place : Place)
    (unstamped : Unstamped place.calls) :
    place.numbered = [] := by
  rcases place with ⟨name, fields, mark⟩
  exact Field.numberedAll_eq_nil fields unstamped
termination_by structural place

/-- If no call in a field has a number, nothing in it is numbered. -/
theorem Field.numbered_eq_nil
    (field : Field)
    (unstamped : Unstamped field.calls) :
    field.numbered = [] := by
  cases field with
  | hd | tl | fst | snd => rfl
  | index position => exact Expr.numbered_eq_nil position unstamped
termination_by structural field

/-- If no call in some fields has a number, nothing in them is numbered. -/
theorem Field.numberedAll_eq_nil
    (fields : List Field)
    (unstamped : Unstamped (Field.callsAll fields)) :
    Field.numberedAll fields = [] := by
  cases fields with
  | nil => rfl
  | cons field rest =>
      obtain ⟨fieldUnstamped, restUnstamped⟩ := unstamped.of_append
      rw [Field.numberedAll, Field.numbered_eq_nil field fieldUnstamped,
        Field.numberedAll_eq_nil rest restUnstamped, List.append_nil]
termination_by structural fields

/-- If neither a call nor one inside has a number, nothing in it is numbered. -/
theorem Call.numbered_eq_nil
    (call : Call)
    (unstamped : Unstamped call.calls) :
    call.numbered = [] := by
  rcases call with ⟨callee, args, mark, waiting⟩
  obtain ⟨isNone, argsUnstamped⟩ := List.forall_mem_cons.mp unstamped
  rw [Call.numbered_of_none isNone]
  exact Expr.numberedAll_eq_nil args argsUnstamped
termination_by structural call

/-- If no call in some expressions has a number, nothing in them is numbered. -/
theorem Expr.numberedAll_eq_nil
    (exprs : List Expr)
    (unstamped : Unstamped (Expr.callsAll exprs)) :
    Expr.numberedAll exprs = [] := by
  cases exprs with
  | nil => rfl
  | cons expr rest =>
      obtain ⟨exprUnstamped, restUnstamped⟩ := unstamped.of_append
      rw [Expr.numberedAll, Expr.numbered_eq_nil expr exprUnstamped,
        Expr.numberedAll_eq_nil rest restUnstamped, List.append_nil]
termination_by structural exprs

end

mutual

/-- If no call in a statement has a number, nothing in it is numbered. -/
theorem Stmt.numbered_eq_nil
    (stmt : Stmt)
    (unstamped : Unstamped stmt.calls) :
    stmt.numbered = [] := by
  match stmt with
  | .ifElse condition thenBody elseBody _ =>
      obtain ⟨headUnstamped, elseUnstamped⟩ := unstamped.of_append
      obtain ⟨conditionUnstamped, thenUnstamped⟩ := headUnstamped.of_append
      rw [Stmt.numbered, condition.numbered_eq_nil conditionUnstamped,
        Stmt.numberedAll_eq_nil thenBody thenUnstamped,
        Stmt.numberedAll_eq_nil elseBody elseUnstamped]
      rfl
  | .whileDo head body _ | .forIn _ head body _ =>
      obtain ⟨headUnstamped, bodyUnstamped⟩ := unstamped.of_append
      rw [Stmt.numbered, head.numbered_eq_nil headUnstamped,
        Stmt.numberedAll_eq_nil body bodyUnstamped, List.append_nil]
  | .assign target value _ =>
      obtain ⟨targetUnstamped, valueUnstamped⟩ := unstamped.of_append
      rw [Stmt.numbered, target.numbered_eq_nil targetUnstamped,
        value.numbered_eq_nil valueUnstamped, List.append_nil]
  | .call made => exact made.numbered_eq_nil unstamped
  | .ret none _ => rfl
  | .ret (some value) _ => exact value.numbered_eq_nil unstamped
termination_by structural stmt

/-- If no call in some statements has a number, nothing in them is numbered. -/
theorem Stmt.numberedAll_eq_nil
    (stmts : List Stmt)
    (unstamped : Unstamped (Stmt.callsAll stmts)) :
    Stmt.numberedAll stmts = [] := by
  cases stmts with
  | nil => rfl
  | cons stmt rest =>
      obtain ⟨stmtUnstamped, restUnstamped⟩ := unstamped.of_append
      rw [Stmt.numberedAll, Stmt.numbered_eq_nil stmt stmtUnstamped,
        Stmt.numberedAll_eq_nil rest restUnstamped, List.append_nil]
termination_by structural stmts

end

/--
If no call in some declarations has a number, nothing in them is numbered.
-/
theorem VarDecl.flatMap_numbered_eq_nil
    {decls : List VarDecl}
    (unstamped : Unstamped (decls.flatMap VarDecl.calls)) :
    decls.flatMap VarDecl.numbered = [] := by
  rw [List.flatMap_eq_nil_iff]
  intro decl isDecl
  exact decl.value.numbered_eq_nil fun call isCall =>
    unstamped call (List.mem_flatMap.mpr ⟨decl, isDecl, isCall⟩)

/-- If no call in a function has a number, nothing in it is numbered. -/
theorem FunDecl.numbered_eq_nil
    (decl : FunDecl)
    (unstamped : Unstamped decl.calls) :
    decl.numbered = [] := by
  obtain ⟨localsUnstamped, bodyUnstamped⟩ := unstamped.of_append
  rw [FunDecl.numbered, VarDecl.flatMap_numbered_eq_nil localsUnstamped,
    Stmt.numberedAll_eq_nil decl.body bodyUnstamped, List.append_nil]

/-- What becomes of numbered calls and of types. -/
structure Outcome where
  /-- The call that takes the place of the one with a given number. -/
  call : CallId → Option Call
  /-- What a type becomes. -/
  ty : Ty → Ty

section Under

variable (outcome : Outcome)

mutual

/-- An expression with its numbered calls replaced and its types changed. -/
def Expr.under : Expr → Expr
  | .int value mark => .int value (mark.mapTypes outcome.ty)
  | .bool value mark => .bool value (mark.mapTypes outcome.ty)
  | .char value mark => .char value (mark.mapTypes outcome.ty)
  | .read place => .read place.under
  | .pair first second mark =>
      .pair first.under second.under (mark.mapTypes outcome.ty)
  | .nil mark => .nil (mark.mapTypes outcome.ty)
  | .range first last mark =>
      .range first.under last.under (mark.mapTypes outcome.ty)
  | .binary op left right mark =>
      .binary op left.under right.under (mark.mapTypes outcome.ty)
  | .unary op operand mark =>
      .unary op operand.under (mark.mapTypes outcome.ty)
  | .call made => .call made.under

/-- A field with its numbered calls replaced and its types changed. -/
def Field.under : Field → Field
  | .hd => .hd
  | .tl => .tl
  | .fst => .fst
  | .snd => .snd
  | .index position => .index position.under

/-- A place with its numbered calls replaced and its types changed. -/
def Place.under : Place → Place
  | ⟨name, fields, mark⟩ =>
      ⟨name, Field.underAll fields, mark.mapTypes outcome.ty⟩

/-- What takes the place of a call, or else the call with its parts changed. -/
def Call.under : Call → Call
  | ⟨callee, args, mark, waiting⟩ =>
      (waiting.bind outcome.call).getD
        ⟨callee, Expr.underAll args, mark.mapTypes outcome.ty, waiting⟩

/-- Fields with their numbered calls replaced and their types changed. -/
def Field.underAll : List Field → List Field
  | [] => []
  | field :: rest => field.under :: Field.underAll rest

/-- Expressions with their numbered calls replaced and their types changed. -/
def Expr.underAll : List Expr → List Expr
  | [] => []
  | expr :: rest => expr.under :: Expr.underAll rest

end

mutual

/-- A statement with its numbered calls replaced and its types changed. -/
def Stmt.under : Stmt → Stmt
  | .ifElse condition thenBody elseBody span =>
      .ifElse (condition.under outcome) (Stmt.underAll thenBody)
        (Stmt.underAll elseBody) span
  | .whileDo condition body span =>
      .whileDo (condition.under outcome) (Stmt.underAll body) span
  | .forIn element iterable body span =>
      .forIn element (iterable.under outcome) (Stmt.underAll body) span
  | .assign target value span =>
      .assign (target.under outcome) (value.under outcome) span
  | .call made => .call (made.under outcome)
  | .ret value span => .ret (value.map (Expr.under outcome)) span

/-- Statements with their numbered calls replaced and their types changed. -/
def Stmt.underAll : List Stmt → List Stmt
  | [] => []
  | stmt :: rest => stmt.under :: Stmt.underAll rest

end

/-- The declaration of a variable under an outcome. -/
def VarDecl.under (decl : VarDecl) : VarDecl where
  written := decl.written
  name := decl.name
  value := decl.value.under outcome
  mark := decl.mark.mapTypes outcome.ty

/-- A function under an outcome. -/
def FunDecl.under (decl : FunDecl) : FunDecl where
  name := decl.name
  args := decl.args
  written := decl.written
  locals := decl.locals.map (VarDecl.under outcome)
  body := Stmt.underAll outcome decl.body
  mark := decl.mark.mapTypes outcome.ty

/-- A declaration under an outcome. -/
def Decl.under : Decl → Decl
  | .var decl => .var (decl.under outcome)
  | .fn decl => .fn (decl.under outcome)

/-- A program under an outcome. -/
def Program.under (program : Program) : Program where
  decls := program.decls.map (Decl.under outcome)

/-- A call that keeps its place, with its parts under an outcome. -/
def Call.innerUnder (call : Call) : Call where
  callee := call.callee
  args := Expr.underAll outcome call.args
  mark := call.mark.mapTypes outcome.ty
  waiting := call.waiting

end Under

/-- A call gives way to the final form of its number, if there is one. -/
theorem Call.under_eq
    (outcome : Outcome)
    (call : Call) :
    call.under outcome =
      (call.waiting.bind outcome.call).getD (call.innerUnder outcome) := by
  rcases call with ⟨callee, args, mark, waiting⟩
  rfl

section Erased

variable (outcome : Outcome) (erasure : Erasure)

mutual

/-- An outcome does nothing to an expression without types and numbers. -/
theorem Expr.erased_untouched
    (expr : Expr) :
    (expr.erased erasure).under outcome = expr.erased erasure ∧
      (expr.erased erasure).numbered = [] := by
  cases expr with
  | int | bool | char | nil => exact ⟨rfl, rfl⟩
  | read place =>
      obtain ⟨same, none⟩ := Place.erased_untouched place
      exact ⟨congrArg Expr.read same, none⟩
  | pair first second | range first second | binary _ first second =>
      obtain ⟨sameFirst, noneFirst⟩ := Expr.erased_untouched first
      obtain ⟨sameSecond, noneSecond⟩ := Expr.erased_untouched second
      simp only [Expr.erased, Expr.under, Expr.numbered, sameFirst, sameSecond,
        noneFirst, noneSecond, List.append_nil, and_true]
      rfl
  | unary _ operand =>
      obtain ⟨same, none⟩ := Expr.erased_untouched operand
      simp only [Expr.erased, Expr.under, Expr.numbered, same, none, and_true]
      rfl
  | call made =>
      obtain ⟨same, none⟩ := Call.erased_untouched made
      exact ⟨congrArg Expr.call same, none⟩
termination_by structural expr

/-- An outcome does nothing to a place without types and numbers. -/
theorem Place.erased_untouched
    (place : Place) :
    (place.erased erasure).under outcome = place.erased erasure ∧
      (place.erased erasure).numbered = [] := by
  rcases place with ⟨name, fields, mark⟩
  obtain ⟨same, none⟩ := Field.erasedAll_untouched fields
  simp only [Place.erased, Place.under, Place.numbered, same, none, and_true]
  rfl
termination_by structural place

/-- An outcome does nothing to a field without types and numbers. -/
theorem Field.erased_untouched
    (field : Field) :
    (field.erased erasure).under outcome = field.erased erasure ∧
      (field.erased erasure).numbered = [] := by
  cases field with
  | hd | tl | fst | snd => exact ⟨rfl, rfl⟩
  | index position =>
      obtain ⟨same, none⟩ := Expr.erased_untouched position
      exact ⟨congrArg Field.index same, none⟩
termination_by structural field

/-- An outcome does nothing to fields without types and numbers. -/
theorem Field.erasedAll_untouched
    (fields : List Field) :
    Field.underAll outcome (Field.erasedAll erasure fields) =
        Field.erasedAll erasure fields ∧
      Field.numberedAll (Field.erasedAll erasure fields) = [] := by
  cases fields with
  | nil => exact ⟨rfl, rfl⟩
  | cons field rest =>
      obtain ⟨sameField, noneField⟩ := Field.erased_untouched field
      obtain ⟨sameRest, noneRest⟩ := Field.erasedAll_untouched rest
      simp only [Field.erasedAll, Field.underAll, Field.numberedAll, sameField,
        sameRest, noneField, noneRest, List.append_nil, and_true]
termination_by structural fields

/-- An outcome does nothing to a call without types and numbers. -/
theorem Call.erased_untouched
    (call : Call) :
    (call.erased erasure).under outcome = call.erased erasure ∧
      (call.erased erasure).numbered = [] := by
  rcases call with ⟨callee, args, mark, waiting⟩
  obtain ⟨same, none⟩ := Expr.erasedAll_untouched args
  simp only [Call.erased, Call.under, Call.numbered, same, none, and_true]
  rfl
termination_by structural call

/-- An outcome does nothing to expressions without types and numbers. -/
theorem Expr.erasedAll_untouched
    (exprs : List Expr) :
    Expr.underAll outcome (Expr.erasedAll erasure exprs) =
        Expr.erasedAll erasure exprs ∧
      Expr.numberedAll (Expr.erasedAll erasure exprs) = [] := by
  cases exprs with
  | nil => exact ⟨rfl, rfl⟩
  | cons expr rest =>
      obtain ⟨sameExpr, noneExpr⟩ := Expr.erased_untouched expr
      obtain ⟨sameRest, noneRest⟩ := Expr.erasedAll_untouched rest
      simp only [Expr.erasedAll, Expr.underAll, Expr.numberedAll, sameExpr,
        sameRest, noneExpr, noneRest, List.append_nil, and_true]
termination_by structural exprs

end

mutual

/-- An outcome does nothing to a statement without types and numbers. -/
theorem Stmt.erased_untouched
    (stmt : Stmt) :
    (stmt.erased erasure).under outcome = stmt.erased erasure ∧
      (stmt.erased erasure).numbered = [] := by
  match stmt with
  | .ifElse condition thenBody elseBody _ =>
      obtain ⟨sameCondition, noneCondition⟩ :=
        condition.erased_untouched outcome erasure
      obtain ⟨sameThen, noneThen⟩ := Stmt.erasedAll_untouched thenBody
      obtain ⟨sameElse, noneElse⟩ := Stmt.erasedAll_untouched elseBody
      simp only [Stmt.erased, Stmt.under, Stmt.numbered, sameCondition,
        sameThen, sameElse, noneCondition, noneThen, noneElse, List.append_nil,
        and_true]
  | .whileDo head body _ | .forIn _ head body _ =>
      obtain ⟨sameHead, noneHead⟩ := head.erased_untouched outcome erasure
      obtain ⟨sameBody, noneBody⟩ := Stmt.erasedAll_untouched body
      simp only [Stmt.erased, Stmt.under, Stmt.numbered, sameHead, sameBody,
        noneHead, noneBody, List.append_nil, and_true]
  | .assign target value _ =>
      obtain ⟨sameTarget, noneTarget⟩ := target.erased_untouched outcome erasure
      obtain ⟨sameValue, noneValue⟩ := value.erased_untouched outcome erasure
      simp only [Stmt.erased, Stmt.under, Stmt.numbered, sameTarget, sameValue,
        noneTarget, noneValue, List.append_nil, and_true]
  | .call made =>
      obtain ⟨same, none⟩ := made.erased_untouched outcome erasure
      exact ⟨congrArg Stmt.call same, none⟩
  | .ret none _ => exact ⟨rfl, rfl⟩
  | .ret (some value) _ =>
      obtain ⟨same, none⟩ := value.erased_untouched outcome erasure
      simp only [Stmt.erased, Option.map_some, Stmt.under, Stmt.numbered, same,
        none, and_true]
termination_by structural stmt

/-- An outcome does nothing to statements without types and numbers. -/
theorem Stmt.erasedAll_untouched
    (stmts : List Stmt) :
    Stmt.underAll outcome (Stmt.erasedAll erasure stmts) =
        Stmt.erasedAll erasure stmts ∧
      Stmt.numberedAll (Stmt.erasedAll erasure stmts) = [] := by
  cases stmts with
  | nil => exact ⟨rfl, rfl⟩
  | cons stmt rest =>
      obtain ⟨sameStmt, noneStmt⟩ := Stmt.erased_untouched stmt
      obtain ⟨sameRest, noneRest⟩ := Stmt.erasedAll_untouched rest
      simp only [Stmt.erasedAll, Stmt.underAll, Stmt.numberedAll, sameStmt,
        sameRest, noneStmt, noneRest, List.append_nil, and_true]
termination_by structural stmts

end

/-- An outcome does nothing to a declaration without types and numbers. -/
theorem VarDecl.erased_untouched
    (decl : VarDecl) :
    (decl.erased erasure).under outcome = decl.erased erasure ∧
      (decl.erased erasure).numbered = [] := by
  obtain ⟨same, none⟩ := decl.value.erased_untouched outcome erasure
  refine ⟨?_, none⟩
  simp only [VarDecl.erased, VarDecl.under, same]
  rfl

/-- An outcome does nothing to a function without types and numbers. -/
theorem FunDecl.erased_untouched
    (decl : FunDecl) :
    (decl.erased erasure).under outcome = decl.erased erasure ∧
      (decl.erased erasure).numbered = [] := by
  obtain ⟨sameBody, noneBody⟩ :=
    Stmt.erasedAll_untouched outcome erasure decl.body
  have sameLocals (item : VarDecl) :=
    (item.erased_untouched outcome erasure).1
  have noneLocals (item : VarDecl) :=
    (item.erased_untouched outcome erasure).2
  constructor
  · simp only [FunDecl.erased, FunDecl.under, List.map_map, sameBody,
      Function.comp_def, sameLocals]
    rfl
  · simp only [FunDecl.erased, FunDecl.numbered, List.flatMap_map, noneBody,
      noneLocals, List.append_nil, List.flatMap_eq_nil_iff, implies_true]

end Erased

/--
The calls that take the place of some are the same, up to what is left out; and
nothing that carries a number stands inside of those that are replaced.
-/
def Outcome.Keeps
    (outcome : Outcome)
    (erasure : Erasure)
    (calls : List Call) :
    Prop :=
  ∀ call ∈ calls,
    Expr.numberedAll call.args = [] ∧
      ∀ id ∈ call.waiting, ∀ final ∈ outcome.call id,
        final.erased erasure = call.erased erasure

/-- What is kept of calls is kept of those before and of those behind. -/
theorem Outcome.Keeps.of_append
    {outcome : Outcome}
    {erasure : Erasure}
    {calls more : List Call}
    (keeps : outcome.Keeps erasure (calls ++ more)) :
    outcome.Keeps erasure calls ∧ outcome.Keeps erasure more :=
  List.forall_mem_append.mp keeps

section Kept

variable {outcome : Outcome} {erasure : Erasure}

mutual

/-- An outcome that keeps the numbered calls keeps an expression up to slots. -/
theorem Expr.erased_under
    (expr : Expr)
    (keeps : outcome.Keeps erasure expr.numbered) :
    (expr.under outcome).erased erasure = expr.erased erasure := by
  cases expr with
  | int | bool | char | nil => rfl
  | read place => exact congrArg Expr.read (Place.erased_under place keeps)
  | pair first second | range first second | binary _ first second =>
      obtain ⟨keepsFirst, keepsSecond⟩ := keeps.of_append
      simp only [Expr.under, Expr.erased, Mark.erased_mapTypes,
        Expr.erased_under first keepsFirst,
        Expr.erased_under second keepsSecond]
  | unary _ operand =>
      simp only [Expr.under, Expr.erased, Mark.erased_mapTypes,
        Expr.erased_under operand keeps]
  | call made => exact congrArg Expr.call (Call.erased_under made keeps)
termination_by structural expr

/-- An outcome that keeps the numbered calls keeps a place up to slots. -/
theorem Place.erased_under
    (place : Place)
    (keeps : outcome.Keeps erasure place.numbered) :
    (place.under outcome).erased erasure = place.erased erasure := by
  rcases place with ⟨name, fields, mark⟩
  simp only [Place.under, Place.erased, Mark.erased_mapTypes,
    Field.erasedAll_underAll fields keeps]
termination_by structural place

/-- An outcome that keeps the numbered calls keeps a field up to slots. -/
theorem Field.erased_under
    (field : Field)
    (keeps : outcome.Keeps erasure field.numbered) :
    (field.under outcome).erased erasure = field.erased erasure := by
  cases field with
  | hd | tl | fst | snd => rfl
  | index position =>
      exact congrArg Field.index (Expr.erased_under position keeps)
termination_by structural field

/-- An outcome that keeps the numbered calls keeps fields up to slots. -/
theorem Field.erasedAll_underAll
    (fields : List Field)
    (keeps : outcome.Keeps erasure (Field.numberedAll fields)) :
    Field.erasedAll erasure (Field.underAll outcome fields) =
      Field.erasedAll erasure fields := by
  cases fields with
  | nil => rfl
  | cons field rest =>
      obtain ⟨keepsField, keepsRest⟩ := keeps.of_append
      rw [Field.underAll, Field.erasedAll, Field.erasedAll,
        Field.erased_under field keepsField,
        Field.erasedAll_underAll rest keepsRest]
termination_by structural fields

/-- An outcome that keeps the numbered calls keeps a call up to slots. -/
theorem Call.erased_under
    (call : Call)
    (keeps : outcome.Keeps erasure call.numbered) :
    (call.under outcome).erased erasure = call.erased erasure := by
  rcases call with ⟨callee, args, mark, waiting⟩
  cases waiting with
  | none =>
      simp only [Call.under, Option.bind_none, Option.getD_none, Call.erased,
        Mark.erased_mapTypes, Expr.erasedAll_underAll args keeps]
  | some id =>
      obtain ⟨noneInside, same⟩ := keeps _ List.mem_cons_self
      simp only [Call.under, Option.bind_some]
      cases replaced : outcome.call id with
      | some final => exact same id rfl final replaced
      | none =>
          have keepsArgs : outcome.Keeps erasure (Expr.numberedAll args) := by
            rw [show Expr.numberedAll args = [] from noneInside]
            exact List.forall_mem_nil _
          simp only [Option.getD_none, Call.erased, Mark.erased_mapTypes,
            Expr.erasedAll_underAll args keepsArgs]
termination_by structural call

/-- An outcome that keeps the numbered calls keeps expressions up to slots. -/
theorem Expr.erasedAll_underAll
    (exprs : List Expr)
    (keeps : outcome.Keeps erasure (Expr.numberedAll exprs)) :
    Expr.erasedAll erasure (Expr.underAll outcome exprs) =
      Expr.erasedAll erasure exprs := by
  cases exprs with
  | nil => rfl
  | cons expr rest =>
      obtain ⟨keepsExpr, keepsRest⟩ := keeps.of_append
      rw [Expr.underAll, Expr.erasedAll, Expr.erasedAll,
        Expr.erased_under expr keepsExpr,
        Expr.erasedAll_underAll rest keepsRest]
termination_by structural exprs

end

mutual

/-- An outcome that keeps the numbered calls keeps a statement up to slots. -/
theorem Stmt.erased_under
    (stmt : Stmt)
    (keeps : outcome.Keeps erasure stmt.numbered) :
    (stmt.under outcome).erased erasure = stmt.erased erasure := by
  match stmt with
  | .ifElse condition thenBody elseBody _ =>
      obtain ⟨keepsCondition, keepsBodies⟩ := keeps.of_append
      obtain ⟨keepsThen, keepsElse⟩ := keepsBodies.of_append
      simp only [Stmt.under, Stmt.erased,
        condition.erased_under keepsCondition,
        Stmt.erasedAll_underAll thenBody keepsThen,
        Stmt.erasedAll_underAll elseBody keepsElse]
  | .whileDo head body _ | .forIn _ head body _ =>
      obtain ⟨keepsHead, keepsBody⟩ := keeps.of_append
      simp only [Stmt.under, Stmt.erased, head.erased_under keepsHead,
        Stmt.erasedAll_underAll body keepsBody]
  | .assign target value _ =>
      obtain ⟨keepsTarget, keepsValue⟩ := keeps.of_append
      simp only [Stmt.under, Stmt.erased, target.erased_under keepsTarget,
        value.erased_under keepsValue]
  | .call made => exact congrArg Stmt.call (made.erased_under keeps)
  | .ret none _ => rfl
  | .ret (some value) _ =>
      simp only [Stmt.under, Option.map_some, Stmt.erased,
        value.erased_under keeps]
termination_by structural stmt

/-- An outcome that keeps the numbered calls keeps statements up to slots. -/
theorem Stmt.erasedAll_underAll
    (stmts : List Stmt)
    (keeps : outcome.Keeps erasure (Stmt.numberedAll stmts)) :
    Stmt.erasedAll erasure (Stmt.underAll outcome stmts) =
      Stmt.erasedAll erasure stmts := by
  cases stmts with
  | nil => rfl
  | cons stmt rest =>
      obtain ⟨keepsStmt, keepsRest⟩ := keeps.of_append
      rw [Stmt.underAll, Stmt.erasedAll, Stmt.erasedAll,
        Stmt.erased_under stmt keepsStmt,
        Stmt.erasedAll_underAll rest keepsRest]
termination_by structural stmts

end

/-- What is kept of each item of a list is kept of the list. -/
theorem Outcome.Keeps.map_erased
    {α : Type}
    {numbered : α → List Call}
    {under erased : α → α}
    {items : List α}
    (keeps : outcome.Keeps erasure (items.flatMap numbered))
    (each :
      ∀ item,
        outcome.Keeps erasure (numbered item) →
          erased (under item) = erased item) :
    (items.map under).map erased = items.map erased := by
  rw [List.map_map]
  refine List.map_congr_left fun item isItem => each item ?_
  exact fun call isCall =>
    keeps call (List.mem_flatMap.mpr ⟨item, isItem, isCall⟩)

/-- An outcome that keeps the numbered calls keeps a declaration up to slots. -/
theorem VarDecl.erased_under
    (decl : VarDecl)
    (keeps : outcome.Keeps erasure decl.numbered) :
    (decl.under outcome).erased erasure = decl.erased erasure := by
  simp only [VarDecl.under, VarDecl.erased, Mark.erased_mapTypes,
    decl.value.erased_under keeps]

/-- A declaration of either kind is kept up to slots. -/
theorem Decl.erased_under
    (decl : Decl)
    (keeps : outcome.Keeps erasure decl.numbered) :
    (decl.under outcome).erased erasure = decl.erased erasure := by
  cases decl with
  | var decl => exact congrArg Decl.var (decl.erased_under keeps)
  | fn decl =>
      obtain ⟨keepsLocals, keepsBody⟩ := keeps.of_append
      have locals := keepsLocals.map_erased VarDecl.erased_under
      simp only [Decl.under, Decl.erased, FunDecl.under, FunDecl.erased,
        Mark.erased_mapTypes, locals,
        Stmt.erasedAll_underAll decl.body keepsBody]

/-- A program under an outcome that keeps its calls is the same otherwise. -/
theorem Program.erased_under
    {program : Program}
    (keeps : outcome.Keeps erasure program.numbered) :
    (program.under outcome).erased erasure = program.erased erasure :=
  congrArg Program.mk (keeps.map_erased Decl.erased_under)

end Kept

/--
Two outcomes agree on some calls and on all types; and nothing that carries a
number stands inside of these calls.
-/
structure Outcome.AgreeOn (first second : Outcome) (calls : List Call) :
    Prop where
  ty : first.ty = second.ty
  bare : ∀ call ∈ calls, Expr.numberedAll call.args = []
  call : ∀ call ∈ calls, ∀ id ∈ call.waiting, first.call id = second.call id

namespace Outcome.AgreeOn

variable {first second : Outcome} {calls more : List Call}

/-- Outcomes that agree on calls agree on those before and on those behind. -/
theorem of_append
    (agree : first.AgreeOn second (calls ++ more)) :
    first.AgreeOn second calls ∧ first.AgreeOn second more := by
  obtain ⟨bareCalls, bareMore⟩ := List.forall_mem_append.mp agree.bare
  obtain ⟨sameCalls, sameMore⟩ := List.forall_mem_append.mp agree.call
  exact ⟨⟨agree.ty, bareCalls, sameCalls⟩, ⟨agree.ty, bareMore, sameMore⟩⟩

/-- Outcomes that agree at all agree on types. -/
theorem of_nil
    (agree : first.AgreeOn second calls) :
    first.AgreeOn second [] :=
  ⟨agree.ty, nofun, nofun⟩

end Outcome.AgreeOn

section Agreeing

variable {first second : Outcome}

mutual

/-- Outcomes that agree on the numbered calls make the same of an expression. -/
theorem Expr.under_congr
    (expr : Expr)
    (agree : first.AgreeOn second expr.numbered) :
    expr.under first = expr.under second := by
  cases expr with
  | int | bool | char | nil => simp only [Expr.under, agree.ty]
  | read place => exact congrArg Expr.read (Place.under_congr place agree)
  | pair left right | range left right | binary _ left right =>
      obtain ⟨agreeLeft, agreeRight⟩ := agree.of_append
      simp only [Expr.under, agree.ty, Expr.under_congr left agreeLeft,
        Expr.under_congr right agreeRight]
  | unary _ operand =>
      simp only [Expr.under, agree.ty, Expr.under_congr operand agree]
  | call made => exact congrArg Expr.call (Call.under_congr made agree)
termination_by structural expr

/-- Outcomes that agree on the numbered calls make the same of a place. -/
theorem Place.under_congr
    (place : Place)
    (agree : first.AgreeOn second place.numbered) :
    place.under first = place.under second := by
  rcases place with ⟨name, fields, mark⟩
  simp only [Place.under, agree.ty, Field.underAll_congr fields agree]
termination_by structural place

/-- Outcomes that agree on the numbered calls make the same of a field. -/
theorem Field.under_congr
    (field : Field)
    (agree : first.AgreeOn second field.numbered) :
    field.under first = field.under second := by
  cases field with
  | hd | tl | fst | snd => rfl
  | index position => exact congrArg Field.index (Expr.under_congr position agree)
termination_by structural field

/-- Outcomes that agree on the numbered calls make the same of fields. -/
theorem Field.underAll_congr
    (fields : List Field)
    (agree : first.AgreeOn second (Field.numberedAll fields)) :
    Field.underAll first fields = Field.underAll second fields := by
  cases fields with
  | nil => rfl
  | cons field rest =>
      obtain ⟨agreeField, agreeRest⟩ := agree.of_append
      rw [Field.underAll, Field.underAll, Field.under_congr field agreeField,
        Field.underAll_congr rest agreeRest]
termination_by structural fields

/-- Outcomes that agree on the numbered calls make the same of a call. -/
theorem Call.under_congr
    (call : Call)
    (agree : first.AgreeOn second call.numbered) :
    call.under first = call.under second := by
  rcases call with ⟨callee, args, mark, waiting⟩
  cases waiting with
  | none =>
      simp only [Call.under, agree.ty, Expr.underAll_congr args agree]
      rfl
  | some id =>
      have noneInside : Expr.numberedAll args = [] :=
        agree.bare _ List.mem_cons_self
      have agreeArgs : first.AgreeOn second (Expr.numberedAll args) := by
        rw [noneInside]
        exact agree.of_nil
      have sameCall : first.call id = second.call id :=
        agree.call _ List.mem_cons_self id rfl
      simp only [Call.under, Option.bind_some, agree.ty, sameCall,
        Expr.underAll_congr args agreeArgs]
termination_by structural call

/-- Outcomes that agree on the numbered calls make the same of expressions. -/
theorem Expr.underAll_congr
    (exprs : List Expr)
    (agree : first.AgreeOn second (Expr.numberedAll exprs)) :
    Expr.underAll first exprs = Expr.underAll second exprs := by
  cases exprs with
  | nil => rfl
  | cons expr rest =>
      obtain ⟨agreeExpr, agreeRest⟩ := agree.of_append
      rw [Expr.underAll, Expr.underAll, Expr.under_congr expr agreeExpr,
        Expr.underAll_congr rest agreeRest]
termination_by structural exprs

end

/-- Outcomes that agree inside of a call make the same of its parts. -/
theorem Call.innerUnder_congr
    (call : Call)
    (agree : first.AgreeOn second (Expr.numberedAll call.args)) :
    call.innerUnder first = call.innerUnder second := by
  simp only [Call.innerUnder, agree.ty, Expr.underAll_congr call.args agree]

end Agreeing

end SplTyping
