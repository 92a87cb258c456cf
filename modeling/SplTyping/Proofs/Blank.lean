import SplTyping.Proofs.Erasure
import SplTyping.Proofs.Slots

namespace SplTyping

/-!
# Blank trees

A tree is blank before inference: its slots are empty, and none of its calls has
a number. So nothing changes if both are left out of it. What is left of any
tree is blank (`Program.blank_erased`); and in a blank tree no call has recorded
a type, and no value shows one.
-/

/-- The slots of a program are empty, and its calls have no numbers. -/
def Program.Blank (program : Program) : Prop :=
  program.erased .slots = program

mutual

/-- Nothing is left out of an expression twice. -/
theorem Expr.blank_erased (expr : Expr) :
    (expr.erased .slots).erased .slots = expr.erased .slots ∧
      Unstamped (expr.erased .slots).calls := by
  cases expr with
  | int | bool | char | nil => exact ⟨rfl, List.forall_mem_nil _⟩
  | read place =>
      obtain ⟨same, unstamped⟩ := Place.blank_erased place
      exact ⟨congrArg Expr.read same, unstamped⟩
  | pair first second mark
  | range first second mark
  | binary _ first second mark =>
      obtain ⟨sameFirst, firstUnstamped⟩ := Expr.blank_erased first
      obtain ⟨sameSecond, secondUnstamped⟩ := Expr.blank_erased second
      refine ⟨?_, firstUnstamped.append secondUnstamped⟩
      simp only [Expr.erased, sameFirst, sameSecond]
      rfl
  | unary _ operand mark =>
      obtain ⟨same, unstamped⟩ := Expr.blank_erased operand
      refine ⟨?_, unstamped⟩
      simp only [Expr.erased, same]
      rfl
  | call made =>
      obtain ⟨same, unstamped⟩ := Call.blank_erased made
      exact ⟨congrArg Expr.call same, unstamped⟩
termination_by structural expr

/-- A place without its slots has none, and no number either. -/
theorem Place.blank_erased (place : Place) :
    (place.erased .slots).erased .slots = place.erased .slots ∧
      Unstamped (place.erased .slots).calls := by
  rcases place with ⟨name, fields, mark⟩
  obtain ⟨same, unstamped⟩ := Field.blankAll_erased fields
  refine ⟨?_, unstamped⟩
  simp only [Place.erased, same]
  rfl
termination_by structural place

/-- A field without its slots has none, and no number either. -/
theorem Field.blank_erased (field : Field) :
    (field.erased .slots).erased .slots = field.erased .slots ∧
      Unstamped (field.erased .slots).calls := by
  cases field with
  | hd | tl | fst | snd => exact ⟨rfl, List.forall_mem_nil _⟩
  | index position =>
      obtain ⟨same, unstamped⟩ := Expr.blank_erased position
      exact ⟨congrArg Field.index same, unstamped⟩
termination_by structural field

theorem Field.blankAll_erased (fields : List Field) :
    Field.erasedAll .slots (Field.erasedAll .slots fields) =
        Field.erasedAll .slots fields ∧
      Unstamped (Field.callsAll (Field.erasedAll .slots fields)) := by
  cases fields with
  | nil => exact ⟨rfl, List.forall_mem_nil _⟩
  | cons field rest =>
      obtain ⟨sameField, fieldUnstamped⟩ := Field.blank_erased field
      obtain ⟨sameRest, restUnstamped⟩ := Field.blankAll_erased rest
      refine ⟨?_, fieldUnstamped.append restUnstamped⟩
      simp only [Field.erasedAll, sameField, sameRest]
termination_by structural fields

/-- A call without its slots has none, and no number either. -/
theorem Call.blank_erased (call : Call) :
    (call.erased .slots).erased .slots = call.erased .slots ∧
      Unstamped (call.erased .slots).calls := by
  rcases call with ⟨callee, args, mark, waiting⟩
  obtain ⟨same, unstamped⟩ := Expr.blankAll_erased args
  refine ⟨?_, List.forall_mem_cons.mpr ⟨rfl, unstamped⟩⟩
  simp only [Call.erased, same]
  rfl
termination_by structural call

/-- Expressions without their slots have none, and no number either. -/
theorem Expr.blankAll_erased (exprs : List Expr) :
    Expr.erasedAll .slots (Expr.erasedAll .slots exprs) =
        Expr.erasedAll .slots exprs ∧
      Unstamped (Expr.callsAll (Expr.erasedAll .slots exprs)) := by
  cases exprs with
  | nil => exact ⟨rfl, List.forall_mem_nil _⟩
  | cons expr rest =>
      obtain ⟨sameExpr, exprUnstamped⟩ := Expr.blank_erased expr
      obtain ⟨sameRest, restUnstamped⟩ := Expr.blankAll_erased rest
      refine ⟨?_, exprUnstamped.append restUnstamped⟩
      simp only [Expr.erasedAll, sameExpr, sameRest]
termination_by structural exprs

end

mutual

/-- Nothing is left out of a statement twice. -/
theorem Stmt.blank_erased (stmt : Stmt) :
    (stmt.erased .slots).erased .slots = stmt.erased .slots ∧
      Unstamped (stmt.erased .slots).calls := by
  match stmt with
  | .ifElse condition thenBody elseBody _ =>
      obtain ⟨same, unstamped⟩ := condition.blank_erased
      obtain ⟨sameThen, thenUnstamped⟩ := Stmt.blankAll_erased thenBody
      obtain ⟨sameElse, elseUnstamped⟩ := Stmt.blankAll_erased elseBody
      refine ⟨?_, (unstamped.append thenUnstamped).append elseUnstamped⟩
      simp only [Stmt.erased, same, sameThen, sameElse]
      rfl
  | .whileDo head body _ | .forIn _ head body _ =>
      obtain ⟨same, unstamped⟩ := head.blank_erased
      obtain ⟨sameBody, bodyUnstamped⟩ := Stmt.blankAll_erased body
      refine ⟨?_, unstamped.append bodyUnstamped⟩
      simp only [Stmt.erased, same, sameBody]
      rfl
  | .assign target value _ =>
      obtain ⟨same, unstamped⟩ := target.blank_erased
      obtain ⟨sameValue, valueUnstamped⟩ := value.blank_erased
      refine ⟨?_, unstamped.append valueUnstamped⟩
      simp only [Stmt.erased, same, sameValue]
      rfl
  | .call made =>
      obtain ⟨same, unstamped⟩ := made.blank_erased
      exact ⟨congrArg Stmt.call same, unstamped⟩
  | .ret none _ => exact ⟨rfl, List.forall_mem_nil _⟩
  | .ret (some value) _ =>
      obtain ⟨same, unstamped⟩ := value.blank_erased
      refine ⟨?_, unstamped⟩
      simp only [Stmt.erased, Option.map_some, same]
      rfl
termination_by structural stmt

/-- Statements without their slots have none, and no number either. -/
theorem Stmt.blankAll_erased (stmts : List Stmt) :
    Stmt.erasedAll .slots (Stmt.erasedAll .slots stmts) =
        Stmt.erasedAll .slots stmts ∧
      Unstamped (Stmt.callsAll (Stmt.erasedAll .slots stmts)) := by
  cases stmts with
  | nil => exact ⟨rfl, List.forall_mem_nil _⟩
  | cons stmt rest =>
      obtain ⟨sameStmt, stmtUnstamped⟩ := Stmt.blank_erased stmt
      obtain ⟨sameRest, restUnstamped⟩ := Stmt.blankAll_erased rest
      refine ⟨?_, stmtUnstamped.append restUnstamped⟩
      simp only [Stmt.erasedAll, sameStmt, sameRest]
termination_by structural stmts

end

/-- Nothing is left out of the items of a list twice. -/
theorem blank_erasedEach
    {α : Type}
    {erased : α → α}
    {calls : α → List Call}
    (each :
      ∀ item,
        erased (erased item) = erased item ∧ Unstamped (calls (erased item)))
    (items : List α) :
    (items.map erased).map erased = items.map erased ∧
      Unstamped ((items.map erased).flatMap calls) := by
  constructor
  · rw [List.map_map]
    exact List.map_congr_left fun item _ => (each item).1
  · intro call isCall
    obtain ⟨_, isErased, inItem⟩ := List.mem_flatMap.mp isCall
    obtain ⟨item, _, rfl⟩ := List.mem_map.mp isErased
    exact (each item).2 call inItem

/-- A declaration without its slots has none, and no number either. -/
theorem VarDecl.blank_erased (decl : VarDecl) :
    (decl.erased .slots).erased .slots = decl.erased .slots ∧
      Unstamped (decl.erased .slots).calls := by
  obtain ⟨same, unstamped⟩ := decl.value.blank_erased
  refine ⟨?_, unstamped⟩
  simp only [VarDecl.erased, same]
  rfl

/-- A declaration of either kind is blank without its slots. -/
theorem Decl.blank_erased (decl : Decl) :
    (decl.erased .slots).erased .slots = decl.erased .slots ∧
      Unstamped (decl.erased .slots).calls := by
  cases decl with
  | var decl =>
      obtain ⟨same, unstamped⟩ := decl.blank_erased
      exact ⟨congrArg Decl.var same, unstamped⟩
  | fn decl =>
      obtain ⟨sameLocals, localsUnstamped⟩ :=
        blank_erasedEach VarDecl.blank_erased decl.locals
      obtain ⟨sameBody, bodyUnstamped⟩ := Stmt.blankAll_erased decl.body
      refine ⟨?_, localsUnstamped.append bodyUnstamped⟩
      simp only [Decl.erased, FunDecl.erased, sameLocals, sameBody, List.map_map,
        Option.map_map]
      rfl

/-- What is left of a program is blank. -/
theorem Program.blank_erased (program : Program) :
    (program.erased .slots).Blank ∧ Unstamped (program.erased .slots).calls := by
  obtain ⟨same, unstamped⟩ := blank_erasedEach Decl.blank_erased program.decls
  exact ⟨congrArg Program.mk same, unstamped⟩

/-- A list is blank if each of its items is. -/
theorem blank_of_map_eq
    {α : Type}
    {erased : α → α}
    {items : List α}
    (blank : items.map erased = items) :
    ∀ item ∈ items, erased item = item :=
  List.map_inj_left.mp (blank.trans (List.map_id _).symm)

/-- The locals and the body of a blank function are blank. -/
theorem FunDecl.parts_of_blank
    {decl : FunDecl}
    (blank : decl.erased .slots = decl) :
    (∀ item ∈ decl.locals, item.erased .slots = item) ∧
      Stmt.erasedAll .slots decl.body = decl.body :=
  ⟨blank_of_map_eq (congrArg FunDecl.locals blank),
    congrArg FunDecl.body blank⟩

namespace Program.Blank

variable {program : Program}

/-- No call of a blank program has a number. -/
theorem unstamped (blank : program.Blank) : Unstamped program.calls := by
  rw [← show program.erased .slots = program from blank]
  exact program.blank_erased.2

/-- Each declaration of a blank program is blank. -/
theorem decls
    {decl : Decl}
    (blank : program.Blank)
    (isDecl : decl ∈ program.decls) :
    decl.erased .slots = decl :=
  blank_of_map_eq (congrArg Program.decls blank) decl isDecl

/-- Each global of a blank program is blank. -/
theorem globals (blank : program.Blank) :
    ∀ decl ∈ program.globals, decl.erased .slots = decl := by
  intro decl isGlobal
  obtain ⟨item, isItem, isVar⟩ := List.mem_filterMap.mp isGlobal
  cases item with
  | var => cases isVar; exact Decl.var.inj (blank.decls isItem)
  | fn => cases isVar

/-- Each function of a blank program is blank. -/
theorem functions (blank : program.Blank) :
    ∀ decl ∈ program.functions, decl.erased .slots = decl := by
  intro decl isFunction
  obtain ⟨item, isItem, isFn⟩ := List.mem_filterMap.mp isFunction
  cases item with
  | var => cases isFn
  | fn => cases isFn; exact Decl.fn.inj (blank.decls isItem)

end Program.Blank

/-- An empty slot is left as it is. -/
theorem Mark.ty_of_blank
    {mark : Mark}
    (blank : mark.erased .slots = mark) :
    mark.ty = none :=
  (congrArg Mark.ty blank).symm

/-- The parts of a blank call. -/
theorem Call.parts_of_blank
    {call : Call}
    (blank : call.erased .slots = call) :
    Expr.erasedAll .slots call.args = call.args ∧ call.mark.ty = none ∧
      call.waiting = none := by
  rcases call with ⟨callee, args, mark, waiting⟩
  obtain ⟨_, argsBlank, markBlank, isNone⟩ := Call.mk.inj blank
  exact ⟨argsBlank, Mark.ty_of_blank markBlank, isNone.symm⟩

/-- A blank expression is no call with a number. -/
theorem Expr.stamp?_of_blank
    {expr : Expr}
    (blank : expr.erased .slots = expr) :
    expr.stamp? = none := by
  cases expr with
  | call made => exact (Call.parts_of_blank (Expr.call.inj blank)).2.2
  | _ => rfl

/-- A blank expression has no type. -/
theorem Expr.ty?_of_blank
    {expr : Expr}
    (blank : expr.erased .slots = expr) :
    expr.ty? = none := by
  have slot := (congrArg Expr.ty? blank).symm
  cases expr with
  | read place => rcases place with ⟨name, fields, mark⟩; exact slot
  | call made => rcases made with ⟨callee, args, mark, waiting⟩; exact slot
  | _ => exact slot

/-- Calls have recorded nothing, and values are blank. -/
def BlankNodes (calls : List Call) (values : List Value) : Prop :=
  (∀ call ∈ calls, call.mark.ty = none) ∧
    ∀ value ∈ values, value.expr.erased .slots = value.expr

theorem BlankNodes.nil : BlankNodes [] [] :=
  ⟨List.forall_mem_nil _, List.forall_mem_nil _⟩

/-- The nodes of two blank trees are blank. -/
theorem BlankNodes.append
    {calls others : List Call}
    {values more : List Value}
    (first : BlankNodes calls values)
    (second : BlankNodes others more) :
    BlankNodes (calls ++ others) (values ++ more) :=
  ⟨List.forall_mem_append.mpr ⟨first.1, second.1⟩,
    List.forall_mem_append.mpr ⟨first.2, second.2⟩⟩

mutual

/-- The calls and values of a blank expression are blank. -/
theorem Expr.blankNodes
    (expr : Expr)
    (blank : expr.erased .slots = expr) :
    BlankNodes expr.calls expr.values := by
  cases expr with
  | int | bool | char | nil => exact .nil
  | read place => exact Place.blankNodes place (Expr.read.inj blank)
  | pair first second =>
      obtain ⟨firstBlank, secondBlank, _⟩ := Expr.pair.inj blank
      have nodes :=
        (Expr.blankNodes first firstBlank).append
          (Expr.blankNodes second secondBlank)
      refine ⟨nodes.1, ?_⟩
      simp only [Expr.values, List.forall_mem_cons]
      exact ⟨firstBlank, secondBlank, nodes.2⟩
  | binary _ left right =>
      obtain ⟨_, leftBlank, rightBlank, _⟩ := Expr.binary.inj blank
      have nodes :=
        (Expr.blankNodes left leftBlank).append
          (Expr.blankNodes right rightBlank)
      refine ⟨nodes.1, ?_⟩
      simp only [Expr.values, List.forall_mem_cons]
      exact ⟨leftBlank, rightBlank, nodes.2⟩
  | range first last =>
      obtain ⟨firstBlank, lastBlank, _⟩ := Expr.range.inj blank
      exact (Expr.blankNodes first firstBlank).append
        (Expr.blankNodes last lastBlank)
  | unary _ operand =>
      exact Expr.blankNodes operand (Expr.unary.inj blank).2.1
  | call made =>
      obtain ⟨argsBlank, slotBlank, _⟩ :=
        Call.parts_of_blank (Expr.call.inj blank)
      exact Call.blankNodes made argsBlank slotBlank
termination_by structural expr

/-- The nodes of a blank place are blank. -/
theorem Place.blankNodes
    (place : Place)
    (blank : place.erased .slots = place) :
    BlankNodes place.calls place.values := by
  rcases place with ⟨name, fields, mark⟩
  exact Field.blankNodesAll fields (Place.mk.inj blank).2.1
termination_by structural place

/-- The nodes of a blank field are blank. -/
theorem Field.blankNodes
    (field : Field)
    (blank : field.erased .slots = field) :
    BlankNodes field.calls field.values := by
  cases field with
  | hd | tl | fst | snd => exact .nil
  | index position => exact Expr.blankNodes position (Field.index.inj blank)
termination_by structural field

theorem Field.blankNodesAll
    (fields : List Field)
    (blank : Field.erasedAll .slots fields = fields) :
    BlankNodes (Field.callsAll fields) (Field.valuesAll fields) := by
  cases fields with
  | nil => exact .nil
  | cons field rest =>
      obtain ⟨fieldBlank, restBlank⟩ := List.cons.inj blank
      exact (Field.blankNodes field fieldBlank).append
        (Field.blankNodesAll rest restBlank)
termination_by structural fields

/-- A call may have a number if it is blank otherwise. -/
theorem Call.blankNodes
    (call : Call)
    (argsBlank : Expr.erasedAll .slots call.args = call.args)
    (slotBlank : call.mark.ty = none) :
    BlankNodes call.calls call.values := by
  rcases call with ⟨callee, args, mark, waiting⟩
  obtain ⟨callsBlank, valuesBlank, areBlank⟩ :=
    Expr.blankNodesAll args argsBlank
  refine ⟨List.forall_mem_cons.mpr ⟨slotBlank, callsBlank⟩, ?_⟩
  refine List.forall_mem_append.mpr ⟨?_, valuesBlank⟩
  exact List.forall_mem_map.mpr areBlank
termination_by structural call

/-- The nodes of blank expressions are blank, and so is each of them. -/
theorem Expr.blankNodesAll
    (exprs : List Expr)
    (blank : Expr.erasedAll .slots exprs = exprs) :
    (∀ call ∈ Expr.callsAll exprs, call.mark.ty = none) ∧
      (∀ value ∈ Expr.valuesAll exprs,
        value.expr.erased .slots = value.expr) ∧
      ∀ expr ∈ exprs, expr.erased .slots = expr := by
  cases exprs with
  | nil =>
      exact ⟨List.forall_mem_nil _, List.forall_mem_nil _,
        List.forall_mem_nil _⟩
  | cons expr rest =>
      obtain ⟨exprBlank, restBlank⟩ := List.cons.inj blank
      obtain ⟨restCalls, restValues, restExprs⟩ :=
        Expr.blankNodesAll rest restBlank
      obtain ⟨exprCalls, exprValues⟩ := Expr.blankNodes expr exprBlank
      exact ⟨List.forall_mem_append.mpr ⟨exprCalls, restCalls⟩,
        List.forall_mem_append.mpr ⟨exprValues, restValues⟩,
        List.forall_mem_cons.mpr ⟨exprBlank, restExprs⟩⟩
termination_by structural exprs

end

end SplTyping
