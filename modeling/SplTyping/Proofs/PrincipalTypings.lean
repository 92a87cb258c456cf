import Mathlib.Data.Fintype.EquivFin
import SplTyping.Proofs.Completeness
import SplTyping.Proofs.Isolation

namespace SplTyping

/-!
# The most general typing of a basic tree

If a basic tree can be typed at all, inference accepts it, and what it finds is
no more than every typing asks for: each typing, extended to the variables that
were drawn on the way, solves the findings. The main result is `infer_principal`.

Whether a typing uses `Void` makes no difference. Nothing in a basic tree forces
a type to be `Void`, so a variable may take its place throughout. The typing
without `Void` is followed through inference, and `Void` is put back afterwards.
-/

mutual

/-- A type with a variable in place of `Void`. -/
def Ty.hideVoid (hidden : TypeVar) : Ty → Ty
  | .int => .int
  | .bool => .bool
  | .char => .char
  | .void => .var hidden
  | .list element => .list (element.hideVoid hidden)
  | .pair first second => .pair (first.hideVoid hidden) (second.hideVoid hidden)
  | .fn params result =>
      .fn (Ty.hideVoidAll hidden params) (result.hideVoid hidden)
  | .var id => .var id

/-- Several types with a variable in place of `Void`. -/
def Ty.hideVoidAll (hidden : TypeVar) : List Ty → List Ty
  | [] => []
  | ty :: rest => ty.hideVoid hidden :: Ty.hideVoidAll hidden rest

end

/-- The assignment that puts `Void` back. -/
def Assignment.showVoid (hidden : TypeVar) : Assignment :=
  Assignment.set .var hidden .void

namespace Ty

variable {hidden : TypeVar}

theorem hideVoidAll_eq_map (types : List Ty) :
    hideVoidAll hidden types = types.map (hideVoid hidden) := by
  induction types with
  | nil => rfl
  | cons ty rest inductionHypothesis =>
      rw [hideVoidAll, inductionHypothesis, List.map_cons]

/-- Where void is hidden there is none. -/
theorem hideVoid_not_void (hidden : TypeVar) (ty : Ty) :
    (ty.hideVoid hidden).contains .void = false := by
  rw [← Bool.not_eq_true]
  induction ty with
  | int | bool | char | void | var => simp [hideVoid, contains]
  | list element inductionHypothesis =>
      rw [hideVoid, contains_void_list]
      exact inductionHypothesis
  | pair first second firstHypothesis secondHypothesis =>
      rw [hideVoid, contains_void_pair, not_or]
      exact ⟨firstHypothesis, secondHypothesis⟩
  | fn params result paramsHypothesis resultHypothesis =>
      rw [hideVoid, contains_void_fn, hideVoidAll_eq_map, not_or]
      refine ⟨?_, resultHypothesis⟩
      rintro ⟨_, isHidden, isVoid⟩
      obtain ⟨param, member, rfl⟩ := List.mem_map.mp isHidden
      exact paramsHypothesis param member isVoid

/-- In an instance of a type without `Void`, it comes from the assignment. -/
theorem hideVoid_instantiate
    {ty : Ty}
    (assign : Assignment)
    (notVoid : ty.contains .void = false) :
    (ty.instantiate assign).hideVoid hidden =
      ty.instantiate fun id => (assign id).hideVoid hidden := by
  rw [← Bool.not_eq_true] at notVoid
  induction ty with
  | int | bool | char | var => rfl
  | void => exact absurd rfl notVoid
  | list element inductionHypothesis =>
      rw [contains_void_list] at notVoid
      simp only [instantiate, hideVoid, inductionHypothesis notVoid]
  | pair first second firstHypothesis secondHypothesis =>
      rw [contains_void_pair, not_or] at notVoid
      simp only [instantiate, hideVoid, firstHypothesis notVoid.1,
        secondHypothesis notVoid.2]
  | fn params result paramsHypothesis resultHypothesis =>
      rw [contains_void_fn, not_or] at notVoid
      have paramsEqual :
          params.map (fun param => (param.instantiate assign).hideVoid hidden) =
            params.map
              (instantiate fun id => (assign id).hideVoid hidden) :=
        List.map_congr_left fun param member =>
          paramsHypothesis param member fun isVoid =>
            notVoid.1 ⟨param, member, isVoid⟩
      simp only [instantiate, hideVoid, instantiateAll_eq_map,
        hideVoidAll_eq_map, List.map_map, Function.comp_def, paramsEqual,
        resultHypothesis notVoid.2]

/-- A variable that did not occur before gives `Void` back. -/
theorem instantiate_hideVoid
    {ty : Ty}
    (unused : hidden ∉ ty.vars) :
    (ty.hideVoid hidden).instantiate (Assignment.showVoid hidden) = ty := by
  induction ty with
  | int | bool | char => rfl
  | void => exact Assignment.set_self _ _ _
  | var id =>
      refine if_neg fun same => unused ?_
      rw [vars, same]
      exact List.mem_singleton_self _
  | list element inductionHypothesis =>
      simp only [hideVoid, instantiate, inductionHypothesis unused]
  | pair first second firstHypothesis secondHypothesis =>
      rw [vars, List.mem_append, not_or] at unused
      simp only [hideVoid, instantiate, firstHypothesis unused.1,
        secondHypothesis unused.2]
  | fn params result paramsHypothesis resultHypothesis =>
      rw [vars, List.mem_append, not_or, mem_varsAll] at unused
      have paramsEqual :
          params.map
              (fun param =>
                (param.hideVoid hidden).instantiate (Assignment.showVoid hidden)) =
            params.map id :=
        List.map_congr_left fun param member =>
          paramsHypothesis param member fun inParam =>
            unused.1 ⟨param, member, inParam⟩
      simp only [hideVoid, instantiate, instantiateAll_eq_map,
        hideVoidAll_eq_map, List.map_map, Function.comp_def, paramsEqual,
        List.map_id, resultHypothesis unused.2]

end Ty

/-- Some variable is not used for the variables below a bound. -/
theorem Assignment.exists_unused (assign : Assignment) (bound : TypeVar) :
    ∃ id, ∀ source < bound, id ∉ (assign source).vars := by
  obtain ⟨id, notUsed⟩ :=
    Infinite.exists_notMem_finset
      ((List.range bound).flatMap fun source => (assign source).vars).toFinset
  refine ⟨id, fun source isBelow isUsed => notUsed ?_⟩
  rw [List.mem_toFinset, List.mem_flatMap]
  exact ⟨source, List.mem_range.mpr isBelow, isUsed⟩

/-- The variables of one scope have the types of another, without `Void`. -/
def Scope.HidesVoid (hidden : TypeVar) (scope shown : Scope) : Prop :=
  ∀ name, shown.vars name = (scope.vars name).map (Ty.hideVoid hidden)

/-- A variable is bound in both scopes. -/
theorem Scope.HidesVoid.bindVar
    {hidden : TypeVar}
    {scope shown : Scope}
    (hides : scope.HidesVoid hidden shown)
    (name : String)
    (ty : Ty) :
    (scope.bindVar name ty).HidesVoid hidden
      (shown.bindVar name (ty.hideVoid hidden)) := by
  intro other
  simp only [Scope.bindVar]
  split
  · rfl
  · exact hides other

/-- An operator has its types with void hidden. -/
theorem OperatorHasTypes.hideVoid
    {op : BinOp}
    {left right result : Ty}
    (operator : OperatorHasTypes op left right result)
    (hidden : TypeVar) :
    OperatorHasTypes op (left.hideVoid hidden) (right.hideVoid hidden)
      (result.hideVoid hidden) := by
  cases operator with
  | cons => exact .cons
  | compared isEquality => exact .compared isEquality
  | arithmetic isArithmetic => exact .arithmetic isArithmetic
  | ordered isOrder => exact .ordered isOrder
  | logical isLogical => exact .logical isLogical

section Typings

variable {rules : Rules} {hidden : TypeVar} {scope shown : Scope}

mutual

/-- A basic expression has its type with void hidden. -/
theorem HasType.hideVoid
    {expr : Expr}
    {ty : Ty}
    (has : HasType rules scope expr ty)
    (basic : expr.isBasic = true)
    (hides : scope.HidesVoid hidden shown) :
    HasType .inferable shown expr (ty.hideVoid hidden) := by
  match expr, has with
  | .int _ _, .int _ => exact .int trivial
  | .bool _ _, .bool _ => exact .bool trivial
  | .char _ _, .char _ => exact .char trivial
  | .read place, .read placeHas =>
      exact .read (placeHas.hideVoid basic hides)
  | .pair first second _, .pair firstHas secondHas _ _ _ =>
      rw [Expr.isBasic, Bool.and_eq_true] at basic
      exact .pair (firstHas.hideVoid basic.1 hides)
        (secondHas.hideVoid basic.2 hides) (Ty.hideVoid_not_void _ _)
        (Ty.hideVoid_not_void _ _) trivial
  | .nil _, .nil _ => exact .nil trivial
  | .range _ _ _, _ => cases basic
  | .binary op left right _, .binary operator leftHas rightHas _ _ _ =>
      rw [Expr.isBasic, Bool.and_eq_true] at basic
      exact .binary (operator.hideVoid hidden) (leftHas.hideVoid basic.1 hides)
        (rightHas.hideVoid basic.2 hides) (Ty.hideVoid_not_void _ _)
        (Ty.hideVoid_not_void _ _) trivial
  | .unary op operand _, .unary operandHas _ =>
      have operandShown := operandHas.hideVoid basic hides
      have kept : op.ty.hideVoid hidden = op.ty := by cases op <;> rfl
      rw [kept] at operandShown ⊢
      exact .unary operandShown trivial
  | .call _, _ => cases basic
termination_by structural expr

/-- A basic place has its type with void hidden. -/
theorem PlaceHasType.hideVoid
    {place : Place}
    {ty : Ty}
    (has : PlaceHasType rules scope place ty)
    (basic : place.isBasic = true)
    (hides : scope.HidesVoid hidden shown) :
    PlaceHasType .inferable shown place (ty.hideVoid hidden) := by
  match place, has with
  | ⟨name, fields, _⟩, .select bound selects _ =>
      refine .select ?_ (selects.hideVoid basic hides) trivial
      rw [hides, bound, Option.map_some]
termination_by structural place

/-- Basic fields select their type with void hidden. -/
theorem FieldsSelect.hideVoid
    {fields : List Field}
    {whole ty : Ty}
    (selects : FieldsSelect rules scope fields whole ty)
    (basic : Field.allBasic fields = true)
    (hides : scope.HidesVoid hidden shown) :
    FieldsSelect .inferable shown fields (whole.hideVoid hidden)
      (ty.hideVoid hidden) := by
  match fields, selects with
  | [], .nil => exact .nil
  | field :: rest, .cons fieldSelects restSelects =>
      rw [Field.allBasic, Bool.and_eq_true] at basic
      exact .cons (fieldSelects.hideVoid basic.1 hides)
        (restSelects.hideVoid basic.2 hides)
termination_by structural fields

theorem FieldSelects.hideVoid
    {field : Field}
    {whole ty : Ty}
    (selects : FieldSelects rules scope field whole ty)
    (basic : field.isBasic = true)
    (hides : scope.HidesVoid hidden shown) :
    FieldSelects .inferable shown field (whole.hideVoid hidden)
      (ty.hideVoid hidden) := by
  match field, selects with
  | .hd, .hd => exact .hd
  | .tl, .tl => exact .tl
  | .fst, .fst => exact .fst
  | .snd, .snd => exact .snd
  | .index position, .index positionHas =>
      exact .index (positionHas.hideVoid basic hides)
termination_by structural field

end

mutual

/-- A basic statement is well typed with void hidden. -/
theorem StmtTyped.hideVoid
    {stmt : Stmt}
    {result : Ty}
    {scope shown : Scope}
    (typed : StmtTyped rules result scope stmt)
    (basic : stmt.isBasic = true)
    (hides : scope.HidesVoid hidden shown) :
    StmtTyped .inferable (result.hideVoid hidden) shown stmt := by
  match stmt, typed with
  | .ifElse condition thenBody elseBody _,
      .ifElse conditionHas thenTyped elseTyped =>
      simp only [Stmt.isBasic, Bool.and_eq_true] at basic
      exact .ifElse (conditionHas.hideVoid basic.1.1 hides)
        (thenTyped.hideVoid basic.1.2 hides)
        (elseTyped.hideVoid basic.2 hides)
  | .whileDo condition body _, .whileDo conditionHas bodyTyped =>
      rw [Stmt.isBasic, Bool.and_eq_true] at basic
      exact .whileDo (conditionHas.hideVoid basic.1 hides)
        (bodyTyped.hideVoid basic.2 hides)
  | .forIn element iterable body _, .forIn free iterableHas bodyTyped =>
      rw [Stmt.isBasic, Bool.and_eq_true] at basic
      refine .forIn ?_ (iterableHas.hideVoid basic.1 hides)
        (bodyTyped.hideVoid basic.2 (hides.bindVar _ _))
      rw [hides, free, Option.map_none]
  | .assign target value _, .assign targetHas valueHas _ =>
      rw [Stmt.isBasic, Bool.and_eq_true] at basic
      exact .assign (targetHas.hideVoid basic.1 hides)
        (valueHas.hideVoid basic.2 hides) (Ty.hideVoid_not_void _ _)
  | .call _, _ => cases basic
  | .ret (some value) _, .returnValue valueHas _ =>
      exact .returnValue (valueHas.hideVoid basic hides)
        (Ty.hideVoid_not_void _ _)
  | .ret none _, _ => cases basic
termination_by structural stmt

/-- Basic statements are well typed with void hidden. -/
theorem BlockTyped.hideVoid
    {stmts : List Stmt}
    {result : Ty}
    {scope shown : Scope}
    (typed : BlockTyped rules result scope stmts)
    (basic : Stmt.allBasic stmts = true)
    (hides : scope.HidesVoid hidden shown) :
    BlockTyped .inferable (result.hideVoid hidden) shown stmts := by
  match stmts, typed with
  | [], .nil => exact .nil
  | stmt :: rest, .cons stmtTyped restTyped =>
      rw [Stmt.allBasic, Bool.and_eq_true] at basic
      exact .cons (stmtTyped.hideVoid basic.1 hides)
        (restTyped.hideVoid basic.2 hides)
termination_by structural stmts

end

end Typings

namespace Context

/-- The scope that a context describes under an assignment. -/
def instantiate (assign : Assignment) (context : Context) : Scope where
  vars := fun name => (context.vars.get? name).map (Ty.instantiate assign)
  funs := fun name => (context.funs.get? name).map (Signature.instantiate assign)

/-- No variable of a context has a type with `Void` in it. -/
def NoVoid (context : Context) : Prop :=
  ∀ name ty, context.vars.get? name = some ty → ty.contains .void = false

/-- In a context without void, hiding it is a matter of the assignment. -/
theorem NoVoid.hides
    {context : Context}
    (noVoid : context.NoVoid)
    (assign : Assignment)
    (hidden : TypeVar) :
    (context.instantiate assign).HidesVoid hidden
      (context.instantiate fun id => (assign id).hideVoid hidden) := by
  intro name
  simp only [instantiate]
  cases bound : context.vars.get? name with
  | none => rfl
  | some ty =>
      rw [Option.map_some, Option.map_some, Option.map_some,
        Ty.hideVoid_instantiate assign (noVoid name ty bound)]

/-- Nothing has happened yet, and any assignment may be followed. -/
theorem setting
    {context : Context}
    {nextVar : TypeVar}
    (within : context.Within (Below anyVar nextVar))
    (assign : Assignment) :
    Setting (context.instantiate assign) (fun _ => False) assign
      (State.initial.advance nextVar []) context where
  scene := ⟨fun _ _ => trivial, within⟩
  vars := fun _ => rfl
  funs := by
    intro name signature known
    simp only [instantiate, known, Option.map_some]
  knows := fun _ isKnown => isKnown.elim
  ready := by
    refine ⟨rfl, ?_⟩
    intro queue isQueue
    cases isQueue

end Context

/--
A step finds the most general typing. If there is a typing then no error is
recorded, and every typing, extended to the variables drawn, solves the findings.
-/
def Principal
    {α : Type}
    (step : InferM (α × Substitution))
    (before : State)
    (typed : Assignment → Prop) :
    Prop :=
  ∃ result found after,
    Runs step before (result, found) after ∧
      ∀ assign, typed assign →
        after.diagnostics = before.diagnostics ∧
          ∃ changed,
            Assignment.AgreesBelow before.nextVar assign changed ∧
              ∀ ty,
                (found.apply ty).instantiate changed = ty.instantiate changed

/--
It is enough to follow a typing without `Void` from a state in which nothing has
happened yet.
-/
theorem Isolated.principal
    {α : Type}
    {step : InferM (α × Substitution)}
    {before : State}
    {typed : Assignment → Prop}
    (isolated : Isolated step)
    (follows :
      ∀ assign hidden result found after,
        typed assign →
          Runs step (State.initial.advance before.nextVar []) (result, found)
            after →
            ∃ funs known changed,
              Reaches funs known (State.initial.advance before.nextVar [])
                (fun id => (assign id).hideVoid hidden) found after changed) :
    Principal step before typed := by
  obtain ⟨⟨result, found⟩, last, errors, runs⟩ := isolated before.nextVar
  refine ⟨result, found, _, runs before rfl, fun assign isTyped => ?_⟩
  obtain ⟨hidden, unused⟩ := assign.exists_unused before.nextVar
  obtain ⟨_, _, changed, reaches⟩ :=
    follows assign hidden result found _ isTyped (runs _ rfl)
  constructor
  · -- The errors added are the same as those added to none.
    have noErrors : errors = [] := reaches.ready.clean
    rw [State.advance, noErrors, List.append_nil]
  · have restored (id : TypeVar) (drawn : id < before.nextVar) :
        (changed id).instantiate (Assignment.showVoid hidden) = assign id := by
      rw [reaches.agrees id drawn]
      exact Ty.instantiate_hideVoid (unused id drawn)
    have solved :
        found.SolvedBy fun id =>
          (changed id).instantiate (Assignment.showVoid hidden) := by
      intro binding member
      rw [Binding.SolvedBy, reaches.solved binding member,
        Ty.instantiate_instantiate]
    exact ⟨_, restored, solved.instantiate_apply⟩

/--
Inference finds the most general typing of every basic expression and of every
basic statement, if the types around it are without `Void`. This holds of all
typing rules, whatever they ask of slots and values.
-/
theorem infer_principal
    (rules : Rules)
    (context : Context)
    (expected : Ty)
    (before : State)
    (contextWithin : context.Within (Below anyVar before.nextVar))
    (expectedWithin : expected.Within (Below anyVar before.nextVar))
    (contextNoVoid : context.NoVoid)
    (expectedNoVoid : expected.contains .void = false) :
    (∀ expr demand guard,
      expr.isBasic = true →
        Principal (inferExpr expr context expected demand guard) before
          fun assign =>
            HasType rules (context.instantiate assign) expr
              (expected.instantiate assign)) ∧
      ∀ stmt,
        stmt.isBasic = true →
          Principal (inferStmt stmt context expected) before
            fun assign =>
              StmtTyped rules (expected.instantiate assign)
                (context.instantiate assign) stmt := by
  constructor
  · intro expr demand guard basic
    refine (inferExpr_isolated expr basic _ _ _ _).principal ?_
    intro assign hidden expr' found after has run
    have shown := has.hideVoid basic (contextNoVoid.hides assign hidden)
    rw [Ty.hideVoid_instantiate assign expectedNoVoid] at shown
    have isValue := (expected.instantiate assign).hideVoid_not_void hidden
    rw [Ty.hideVoid_instantiate assign expectedNoVoid] at isValue
    exact ⟨_, _, inferExpr_complete expr run (Context.setting contextWithin _)
      expectedWithin shown rfl fun _ => isValue⟩
  · intro stmt basic
    refine (inferStmt_isolated stmt basic _ _).principal ?_
    intro assign hidden stmt' found after typed run
    have shown := typed.hideVoid basic (contextNoVoid.hides assign hidden)
    rw [Ty.hideVoid_instantiate assign expectedNoVoid] at shown
    exact ⟨_, _, inferStmt_complete stmt run (Context.setting contextWithin _)
      expectedWithin shown rfl⟩

/-- Rules that ask for nothing but the shape of types. -/
def Rules.shapes : Rules where
  recorded := fun _ _ => True
  bound := fun _ _ => True
  value := fun _ => True

/--
As long as the head of a list is the first component of a pair, that component
is copied there, and the second one is returned.
-/
def copyingLoop : Stmt :=
  .whileDo
    (.binary .eq (.read (.ofFields "xs" [.hd])) (.read (.ofFields "p" [.fst]))
      .blank)
    [.assign (.ofFields "xs" [.hd]) (.read (.ofFields "p" [.fst])) .unknown,
      .ret (some (.read (.ofFields "p" [.snd]))) .unknown]
    .unknown

/-- A list of elements of an open type, and a variable of an open type. -/
def copyingContext : Context :=
  (Context.empty.bindVar "xs" (.list (.var 0))).bindVar "p" (.var 1)

/-- A list of numbers, and a pair of a number and `Void`. -/
def copyingTypes : Assignment
  | 0 => .int
  | 1 => .pair .int .void
  | _ => .void

/-- The loop is well typed with a number and void as components. -/
theorem copyingLoop_typed :
    StmtTyped .shapes .void (copyingContext.instantiate copyingTypes)
      copyingLoop := by
  have head : PlaceHasType .shapes (copyingContext.instantiate copyingTypes)
      (.ofFields "xs" [.hd]) .int :=
    .select rfl (.cons .hd .nil) trivial
  have first : PlaceHasType .shapes (copyingContext.instantiate copyingTypes)
      (.ofFields "p" [.fst]) .int :=
    .select rfl (.cons .fst .nil) trivial
  have second : PlaceHasType .shapes (copyingContext.instantiate copyingTypes)
      (.ofFields "p" [.snd]) .void :=
    .select rfl (.cons .snd .nil) trivial
  refine .whileDo ?_ (.cons ?_ (.cons ?_ .nil))
  · exact .binary (.compared (Or.inl rfl)) (.read head) (.read first) trivial
      trivial trivial
  · exact .assign head (.read first) trivial
  · exact .returnValue (.read second) trivial

theorem copyingLoop_principal :
    StmtTyped .shapes .void (copyingContext.instantiate copyingTypes)
        copyingLoop ∧
      ∃ stmt' found after,
        Runs (inferStmt copyingLoop copyingContext (.var 2))
            ((State.initial.draw 3).record (.unknownVariable "q" .unknown))
            (stmt', found) after ∧
          after.diagnostics.errors = [.unknownVariable "q" .unknown] ∧
          ∃ changed : Assignment,
            changed 1 = .pair .int .void ∧
              ∀ ty,
                (found.apply ty).instantiate changed =
                  ty.instantiate changed := by
  have contextWithin : copyingContext.Within (Below anyVar 3) :=
    (Context.within_empty.bindVar "xs"
      (Ty.within_list.mpr (Ty.within_var.mpr ⟨trivial, by decide⟩))).bindVar "p"
      (Ty.within_var.mpr ⟨trivial, by decide⟩)
  have noVoid : copyingContext.NoVoid := by
    intro name ty bound
    simp only [copyingContext, Context.bindVar, Context.empty,
      Table.get?_insert, Table.get?_empty] at bound
    split at bound
    · cases bound
      rfl
    · split at bound
      · cases bound
        rfl
      · cases bound
  obtain ⟨stmt', found, after, run, accepts⟩ :=
    (infer_principal .shapes copyingContext (.var 2)
      ((State.initial.draw 3).record (.unknownVariable "q" .unknown))
      contextWithin (Ty.within_var.mpr ⟨trivial, by decide⟩) noVoid
      rfl).2 copyingLoop rfl
  obtain ⟨noErrors, changed, agrees, solves⟩ :=
    accepts copyingTypes copyingLoop_typed
  refine ⟨copyingLoop_typed, stmt', found, after, run, ?_, changed,
    agrees 1 (by decide), solves⟩
  rw [noErrors]
  rfl

end SplTyping
