import SplTyping.Proofs.Filled
import SplTyping.Proofs.Outcomes

namespace SplTyping

/-!
# Trees by kind

What is said about one kind of tree after the other is said once here: what
becomes of a tree under an outcome, which numbered calls stand in it, and when
it is filled up to these. All three go part by part, so that a statement about
trees of every kind need only be shown for two trees side by side
(`TreeKind.prod`) and for a tree that is built from its parts (`Builds`).
-/

/-- What is looked at in the trees of one kind. -/
structure TreeKind (α : Type) where
  under : Outcome → α → α
  numbered : α → List Call
  Filled : α → Prop

namespace TreeKind

/-- Two trees side by side. -/
abbrev prod
    {α β : Type}
    (left : TreeKind α)
    (right : TreeKind β) :
    TreeKind (α × β) where
  under outcome parts :=
    (left.under outcome parts.1, right.under outcome parts.2)
  numbered parts := left.numbered parts.1 ++ right.numbered parts.2
  Filled parts := left.Filled parts.1 ∧ right.Filled parts.2

/-- The trees of a list. -/
abbrev each {α : Type} (kind : TreeKind α) : TreeKind (List α) where
  under outcome := List.map (kind.under outcome)
  numbered := List.flatMap kind.numbered
  Filled items := ∀ item ∈ items, kind.Filled item

end TreeKind

abbrev Mark.kind : TreeKind Mark where
  under outcome := Mark.mapTypes outcome.ty
  numbered _ := []
  Filled mark := mark.ty.isSome = true

abbrev Expr.kind : TreeKind Expr := ⟨Expr.under, Expr.numbered, Expr.Filled true⟩

abbrev Expr.kindAll : TreeKind (List Expr) :=
  ⟨Expr.underAll, Expr.numberedAll, Expr.FilledAll true⟩

abbrev Place.kind : TreeKind Place :=
  ⟨Place.under, Place.numbered, Place.Filled true⟩

abbrev Field.kind : TreeKind Field :=
  ⟨Field.under, Field.numbered, Field.Filled true⟩

abbrev Field.kindAll : TreeKind (List Field) :=
  ⟨Field.underAll, Field.numberedAll, Field.FilledAll true⟩

abbrev Call.kind : TreeKind Call := ⟨Call.under, Call.numbered, Call.Filled true⟩

/-- Calls that keep their places, with or without a number. -/
abbrev Call.inside : TreeKind Call where
  under := Call.innerUnder
  numbered call := Expr.numberedAll call.args
  Filled := Call.Checked

abbrev Stmt.kind : TreeKind Stmt := ⟨Stmt.under, Stmt.numbered, Stmt.Filled true⟩

abbrev Stmt.kindAll : TreeKind (List Stmt) :=
  ⟨Stmt.underAll, Stmt.numberedAll, Stmt.FilledAll true⟩

abbrev VarDecl.kind : TreeKind VarDecl :=
  ⟨VarDecl.under, VarDecl.numbered, VarDecl.Filled true⟩

abbrev FunDecl.kind : TreeKind FunDecl :=
  ⟨FunDecl.under, FunDecl.numbered, FunDecl.Filled true⟩

abbrev Decl.kind : TreeKind Decl := ⟨Decl.under, Decl.numbered, Decl.Filled true⟩

/--
Trees are built from their parts, around details that an erasure may leave out.
-/
structure Builds
    {α β δ : Type}
    (parts : TreeKind α)
    (whole : TreeKind β)
    (build : δ → α → β) :
    Prop where
  under :
    ∀ outcome detail items,
      whole.under outcome (build detail items) =
        build detail (parts.under outcome items)
  numbered :
    ∀ detail items,
      whole.numbered (build detail items) = parts.numbered items
  filled :
    ∀ detail items,
      whole.Filled (build detail items) → parts.Filled items
  sameItems :
    ∀ {detail detail' items items'},
      build detail items = build detail' items' → items = items'

/-- A slot that is filled for some arity is filled. -/
theorem Mark.FilledFor.isSome
    {mark : Mark}
    {arity : Nat}
    (filled : mark.FilledFor arity) :
    mark.ty.isSome = true := by
  obtain ⟨_, _, isFilled, _⟩ := filled
  rw [isFilled]
  rfl

/-- A literal is its mark and its number: nothing in it may wait. -/
theorem Expr.builds_int : Builds Mark.kind Expr.kind Expr.int :=
  ⟨fun _ _ _ => rfl, fun _ _ => rfl, fun _ _ => id,
    fun same => (Expr.int.inj same).2⟩

theorem Expr.builds_bool : Builds Mark.kind Expr.kind Expr.bool :=
  ⟨fun _ _ _ => rfl, fun _ _ => rfl, fun _ _ => id,
    fun same => (Expr.bool.inj same).2⟩

theorem Expr.builds_char : Builds Mark.kind Expr.kind Expr.char :=
  ⟨fun _ _ _ => rfl, fun _ _ => rfl, fun _ _ => id,
    fun same => (Expr.char.inj same).2⟩

theorem Expr.builds_nil :
    Builds Mark.kind Expr.kind fun (_ : Unit) => Expr.nil :=
  ⟨fun _ _ _ => rfl, fun _ _ => rfl, fun _ _ => id,
    fun same => Expr.nil.inj same⟩

/-- A place that is read is filled where the place is. -/
theorem Expr.builds_read :
    Builds Place.kind Expr.kind fun (_ : Unit) => Expr.read :=
  ⟨fun _ _ _ => rfl, fun _ _ => rfl, fun _ _ => id,
    fun same => Expr.read.inj same⟩

/-- A pair is its mark and its two components. -/
theorem Expr.builds_pair :
    Builds (Mark.kind.prod (Expr.kind.prod Expr.kind)) Expr.kind
      fun (_ : Unit) parts => .pair parts.2.1 parts.2.2 parts.1 :=
  ⟨fun _ _ _ => rfl, fun _ _ => rfl, fun _ _ => id, fun same =>
    have ⟨sameFirst, sameSecond, sameMark⟩ := Expr.pair.inj same
    Prod.ext sameMark (Prod.ext sameFirst sameSecond)⟩

theorem Expr.builds_range :
    Builds (Mark.kind.prod (Expr.kind.prod Expr.kind)) Expr.kind
      fun (_ : Unit) parts => .range parts.2.1 parts.2.2 parts.1 :=
  ⟨fun _ _ _ => rfl, fun _ _ => rfl, fun _ _ => id, fun same =>
    have ⟨sameFirst, sameLast, sameMark⟩ := Expr.range.inj same
    Prod.ext sameMark (Prod.ext sameFirst sameLast)⟩

theorem Expr.builds_binary :
    Builds (Mark.kind.prod (Expr.kind.prod Expr.kind)) Expr.kind
      fun op parts => .binary op parts.2.1 parts.2.2 parts.1 :=
  ⟨fun _ _ _ => rfl, fun _ _ => rfl, fun _ _ => id, fun same =>
    have ⟨_, sameLeft, sameRight, sameMark⟩ := Expr.binary.inj same
    Prod.ext sameMark (Prod.ext sameLeft sameRight)⟩

/-- What a unary operator is about is the detail; its operand is the part. -/
theorem Expr.builds_unary :
    Builds (Mark.kind.prod Expr.kind) Expr.kind
      fun op parts => .unary op parts.2 parts.1 :=
  ⟨fun _ _ _ => rfl, fun _ _ => rfl, fun _ _ => id, fun same =>
    have ⟨_, sameOperand, sameMark⟩ := Expr.unary.inj same
    Prod.ext sameMark sameOperand⟩

/-- A call that is an expression may wait, and is filled where the call is. -/
theorem Expr.builds_call :
    Builds Call.kind Expr.kind fun (_ : Unit) => Expr.call :=
  ⟨fun _ _ _ => rfl, fun _ _ => rfl, fun _ _ => id,
    fun same => Expr.call.inj same⟩

/-- Expressions are the first one and the others. -/
theorem Expr.builds_cons :
    Builds (Expr.kind.prod Expr.kindAll) Expr.kindAll
      fun (_ : Unit) parts => parts.1 :: parts.2 :=
  ⟨fun _ _ _ => rfl, fun _ _ => rfl, fun _ _ => id, fun same =>
    have ⟨sameHead, sameTail⟩ := List.cons.inj same
    Prod.ext sameHead sameTail⟩

/-- Of the fields, only an index has a part. -/
theorem Field.builds_index :
    Builds Expr.kind Field.kind fun (_ : Unit) => Field.index :=
  ⟨fun _ _ _ => rfl, fun _ _ => rfl, fun _ _ => id,
    fun same => Field.index.inj same⟩

theorem Field.builds_cons :
    Builds (Field.kind.prod Field.kindAll) Field.kindAll
      fun (_ : Unit) parts => parts.1 :: parts.2 :=
  ⟨fun _ _ _ => rfl, fun _ _ => rfl, fun _ _ => id, fun same =>
    have ⟨sameHead, sameTail⟩ := List.cons.inj same
    Prod.ext sameHead sameTail⟩

/-- A place is its mark and its fields; its name is a detail. -/
theorem Place.builds :
    Builds (Mark.kind.prod Field.kindAll) Place.kind
      fun name parts => ⟨name, parts.2, parts.1⟩ :=
  ⟨fun _ _ _ => rfl, fun _ _ => rfl, fun _ _ => id, fun same =>
    have ⟨_, sameFields, sameMark⟩ := Place.mk.inj same
    Prod.ext sameMark sameFields⟩

/-- A call without a number keeps its place. -/
theorem Call.builds :
    Builds (Mark.kind.prod Expr.kindAll) Call.kind
      fun callee parts => ⟨callee, parts.2, parts.1, none⟩ where
  under _ _ _ := rfl
  numbered _ _ := rfl
  filled _ _ := by
    rintro (⟨_, isSome⟩ | ⟨slot, argsFilled⟩)
    · cases isSome
    · exact ⟨Mark.FilledFor.isSome slot, argsFilled⟩
  sameItems same :=
    have ⟨_, sameArgs, sameMark, _⟩ := Call.mk.inj same
    Prod.ext sameMark sameArgs

/-- Inside of a call are its mark and its arguments, whether it waits or not. -/
theorem Call.builds_inside :
    Builds (Mark.kind.prod Expr.kindAll) Call.inside
      fun (detail : Name × Option CallId) parts =>
        ⟨detail.1, parts.2, parts.1, detail.2⟩ where
  under _ _ _ := rfl
  numbered _ _ := rfl
  filled _ _ checked := ⟨checked.slot.isSome, checked.args⟩
  sameItems same :=
    have ⟨_, sameArgs, sameMark, _⟩ := Call.mk.inj same
    Prod.ext sameMark sameArgs

/-- A choice is its condition and its two branches. -/
theorem Stmt.builds_ifElse :
    Builds (Expr.kind.prod (Stmt.kindAll.prod Stmt.kindAll)) Stmt.kind
      fun span parts => .ifElse parts.1 parts.2.1 parts.2.2 span :=
  ⟨fun _ _ _ => rfl, fun _ _ => rfl, fun _ _ => id, fun same =>
    have ⟨sameCondition, sameThen, sameElse, _⟩ := Stmt.ifElse.inj same
    Prod.ext sameCondition (Prod.ext sameThen sameElse)⟩

theorem Stmt.builds_whileDo :
    Builds (Expr.kind.prod Stmt.kindAll) Stmt.kind
      fun span parts => .whileDo parts.1 parts.2 span :=
  ⟨fun _ _ _ => rfl, fun _ _ => rfl, fun _ _ => id, fun same =>
    have ⟨sameCondition, sameBody, _⟩ := Stmt.whileDo.inj same
    Prod.ext sameCondition sameBody⟩

/-- A loop over values is the values and its body; its variable is a detail. -/
theorem Stmt.builds_forIn :
    Builds (Expr.kind.prod Stmt.kindAll) Stmt.kind
      fun (detail : Name × Span) parts =>
        .forIn detail.1 parts.1 parts.2 detail.2 :=
  ⟨fun _ _ _ => rfl, fun _ _ => rfl, fun _ _ => id, fun same =>
    have ⟨_, sameIterable, sameBody, _⟩ := Stmt.forIn.inj same
    Prod.ext sameIterable sameBody⟩

/-- An assignment is its target and its value. -/
theorem Stmt.builds_assign :
    Builds (Place.kind.prod Expr.kind) Stmt.kind
      fun span parts => .assign parts.1 parts.2 span :=
  ⟨fun _ _ _ => rfl, fun _ _ => rfl, fun _ _ => id, fun same =>
    have ⟨sameTarget, sameValue, _⟩ := Stmt.assign.inj same
    Prod.ext sameTarget sameValue⟩

theorem Stmt.builds_call :
    Builds Call.kind Stmt.kind fun (_ : Unit) => Stmt.call :=
  ⟨fun _ _ _ => rfl, fun _ _ => rfl, fun _ _ => id,
    fun same => Stmt.call.inj same⟩

/-- A return with a value is the value. -/
theorem Stmt.builds_ret :
    Builds Expr.kind Stmt.kind fun span value => .ret (some value) span :=
  ⟨fun _ _ _ => rfl, fun _ _ => rfl, fun _ _ => id,
    fun same => Option.some.inj (Stmt.ret.inj same).1⟩

/-- Statements are the first one and the others. -/
theorem Stmt.builds_cons :
    Builds (Stmt.kind.prod Stmt.kindAll) Stmt.kindAll
      fun (_ : Unit) parts => parts.1 :: parts.2 :=
  ⟨fun _ _ _ => rfl, fun _ _ => rfl, fun _ _ => id, fun same =>
    have ⟨sameHead, sameTail⟩ := List.cons.inj same
    Prod.ext sameHead sameTail⟩

/-- A list of items of a kind is the first one and the others. -/
theorem TreeKind.builds_cons
    {α : Type}
    (kind : TreeKind α) :
    Builds (kind.prod kind.each) kind.each
      fun (_ : Unit) parts => parts.1 :: parts.2 where
  under _ _ _ := rfl
  numbered _ _ := rfl
  filled _ _ filled := List.forall_mem_cons.mp filled
  sameItems same :=
    have ⟨sameHead, sameTail⟩ := List.cons.inj same
    Prod.ext sameHead sameTail

/--
A declaration is its mark and its value; a written type and the name are
details.
-/
theorem VarDecl.builds :
    Builds (Mark.kind.prod Expr.kind) VarDecl.kind
      fun (detail : Option WrittenTy × Name) parts =>
        ⟨detail.1, detail.2, parts.2, parts.1⟩ :=
  ⟨fun _ _ _ => rfl, fun _ _ => rfl, fun _ _ => id, fun same =>
    have ⟨_, _, sameValue, sameMark⟩ := VarDecl.mk.inj same
    Prod.ext sameMark sameValue⟩

/--
A function is its mark, its locals and its body; what is written in its head are
details.
-/
theorem FunDecl.builds :
    Builds (Mark.kind.prod (VarDecl.kind.each.prod Stmt.kindAll)) FunDecl.kind
      fun (detail : Name × List Name × Option WrittenSignature) parts =>
        ⟨detail.1, detail.2.1, detail.2.2, parts.2.1, parts.2.2, parts.1⟩ :=
  ⟨fun _ _ _ => rfl, fun _ _ => rfl, fun _ _ => id, fun same =>
    have ⟨_, _, _, sameLocals, sameBody, sameMark⟩ := FunDecl.mk.inj same
    Prod.ext sameMark (Prod.ext sameLocals sameBody)⟩

theorem Decl.builds_var :
    Builds VarDecl.kind Decl.kind fun (_ : Unit) => Decl.var :=
  ⟨fun _ _ _ => rfl, fun _ _ => rfl, fun _ _ => id,
    fun same => Decl.var.inj same⟩

theorem Decl.builds_fn :
    Builds FunDecl.kind Decl.kind fun (_ : Unit) => Decl.fn :=
  ⟨fun _ _ _ => rfl, fun _ _ => rfl, fun _ _ => id,
    fun same => Decl.fn.inj same⟩

/-- Nothing is filled in an expression without its slots. -/
theorem Expr.not_filled_erased (expr : Expr) :
    ¬(expr.erased .slots).Filled true := by
  cases expr with
  | int | bool | char | nil => exact Bool.false_ne_true
  | pair | range | binary | unary =>
      exact fun filled => Bool.false_ne_true filled.1
  | read place =>
      rcases place with ⟨name, fields, mark⟩
      exact fun filled => Bool.false_ne_true filled.1
  | call made =>
      rcases made with ⟨callee, args, mark, waiting⟩
      rintro (⟨_, isSome⟩ | ⟨⟨_, _, isFilled, _⟩, _⟩)
      · cases isSome
      · cases isFilled

/-- Expressions that are filled without their slots are none. -/
theorem Expr.erasedAll_of_filled
    {exprs : List Expr}
    (filled : Expr.FilledAll true (Expr.erasedAll .slots exprs)) :
    Expr.erasedAll .slots exprs = exprs := by
  cases exprs with
  | nil => rfl
  | cons expr rest => exact absurd filled.1 expr.not_filled_erased

/-- Fields that are filled without their slots have no slots. -/
theorem Field.erasedAll_of_filled
    {fields : List Field}
    (filled : Field.FilledAll true (Field.erasedAll .slots fields)) :
    Field.erasedAll .slots fields = fields := by
  induction fields with
  | nil => rfl
  | cons field rest inductionHypothesis =>
      rw [Field.erasedAll, inductionHypothesis filled.2]
      cases field with
      | hd | tl | fst | snd => rfl
      | index position => exact absurd filled.1 position.not_filled_erased

/-- Statements that are filled without their slots have no slots. -/
theorem Stmt.erasedAll_of_filled
    {stmts : List Stmt}
    (filled : Stmt.FilledAll true (Stmt.erasedAll .slots stmts)) :
    Stmt.erasedAll .slots stmts = stmts := by
  induction stmts with
  | nil => rfl
  | cons stmt rest inductionHypothesis =>
      obtain ⟨stmtFilled, restFilled⟩ := filled
      rw [Stmt.erasedAll, inductionHypothesis restFilled]
      match stmt with
      | .ifElse head _ _ _ | .whileDo head _ _ | .forIn _ head _ _ =>
          exact absurd stmtFilled.1 head.not_filled_erased
      | .assign _ value _ => exact absurd stmtFilled.2 value.not_filled_erased
      | .call made =>
          exact absurd stmtFilled (Expr.call made).not_filled_erased
      | .ret none _ => rfl
      | .ret (some value) _ => exact absurd stmtFilled value.not_filled_erased

end SplTyping
