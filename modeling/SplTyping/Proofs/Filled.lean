import SplTyping.Proofs.Declarations
import SplTyping.Proofs.Settlement

namespace SplTyping

/-!
# Filled slots

Inference that records no error fills every slot, except in calls that it sets
aside: these are left as they are, with their arguments, under a number. So what
may be empty after inference stands in numbered calls, and a call whose callee
is known is filled at once.
-/

/-- A slot holds the type of a function with a given number of parameters. -/
def Mark.FilledFor (mark : Mark) (arity : Nat) : Prop :=
  ∃ params result, mark.ty = some (.fn params result) ∧ params.length = arity

mutual

/--
Every slot of an expression is filled, those of calls with the types of functions
of as many parameters as there are arguments. If `waived`, nothing is asked of
calls that carry a number.
-/
def Expr.Filled (waived : Bool) : Expr → Prop
  | .int _ mark | .bool _ mark | .char _ mark | .nil mark =>
      mark.ty.isSome = true
  | .read place => place.Filled waived
  | .pair first second mark
  | .range first second mark
  | .binary _ first second mark =>
      mark.ty.isSome = true ∧ first.Filled waived ∧ second.Filled waived
  | .unary _ operand mark => mark.ty.isSome = true ∧ operand.Filled waived
  | .call made => made.Filled waived

/-- Every slot of a place is filled. -/
def Place.Filled (waived : Bool) : Place → Prop
  | ⟨_, fields, mark⟩ => mark.ty.isSome = true ∧ Field.FilledAll waived fields

/-- Every slot of a field is filled. -/
def Field.Filled (waived : Bool) : Field → Prop
  | .hd | .tl | .fst | .snd => True
  | .index position => position.Filled waived

/-- Every slot of several fields is filled. -/
def Field.FilledAll (waived : Bool) : List Field → Prop
  | [] => True
  | field :: rest => field.Filled waived ∧ Field.FilledAll waived rest

/-- Every slot of a call is filled, unless it carries a number and is waived. -/
def Call.Filled (waived : Bool) : Call → Prop
  | ⟨_, args, mark, waiting⟩ =>
      waived = true ∧ waiting.isSome = true ∨
        mark.FilledFor args.length ∧ Expr.FilledAll waived args

/-- Every slot of several expressions is filled. -/
def Expr.FilledAll (waived : Bool) : List Expr → Prop
  | [] => True
  | expr :: rest => expr.Filled waived ∧ Expr.FilledAll waived rest

end

mutual

/-- Every slot of a statement is filled. -/
def Stmt.Filled (waived : Bool) : Stmt → Prop
  | .ifElse condition thenBody elseBody _ =>
      condition.Filled waived ∧ Stmt.FilledAll waived thenBody ∧
        Stmt.FilledAll waived elseBody
  | .whileDo head body _ | .forIn _ head body _ =>
      head.Filled waived ∧ Stmt.FilledAll waived body
  | .assign target value _ => target.Filled waived ∧ value.Filled waived
  | .call made => made.Filled waived
  | .ret none _ => True
  | .ret (some value) _ => value.Filled waived

/-- Every slot of several statements is filled. -/
def Stmt.FilledAll (waived : Bool) : List Stmt → Prop
  | [] => True
  | stmt :: rest => stmt.Filled waived ∧ Stmt.FilledAll waived rest

end

/-- Every slot of the declaration of a variable is filled. -/
def VarDecl.Filled (waived : Bool) (decl : VarDecl) : Prop :=
  decl.mark.ty.isSome = true ∧ decl.value.Filled waived

/-- Every slot of a function is filled. -/
def FunDecl.Filled (waived : Bool) (decl : FunDecl) : Prop :=
  decl.mark.ty.isSome = true ∧ (∀ item ∈ decl.locals, item.Filled waived) ∧
    Stmt.FilledAll waived decl.body

/-- Every slot of a declaration is filled. -/
def Decl.Filled (waived : Bool) : Decl → Prop
  | .var decl => decl.Filled waived
  | .fn decl => decl.Filled waived

/-- Every slot of a program is filled. -/
def Program.Filled (waived : Bool) (program : Program) : Prop :=
  ∀ decl ∈ program.decls, decl.Filled waived

/-- A call whose slot is filled, and whose arguments are up to numbered calls. -/
structure Call.Checked (call : Call) : Prop where
  slot : call.mark.FilledFor call.args.length
  args : Expr.FilledAll true call.args

mutual

/-- An expression is filled up to the calls that it sets aside. -/
theorem inferExpr_fills
    {expr expr' : Expr}
    {context : Context}
    {expected : Ty}
    {demand : Demand}
    {guard : Option ValueGuard}
    {found : Substitution}
    {before after : State}
    (run :
      Runs (inferExpr expr context expected demand guard) before (expr', found)
        after)
    (clean : after.Clean) :
    expr'.Filled true := by
  cases exprRun_of_runs run with
  | int | bool | char | nil => rfl
  | read placeRun => exact inferPlace_fills placeRun clean
  | pairVoid | binaryLeftVoid | binaryRightVoid =>
      exact absurd clean (State.not_clean_record _ _)
  | pair firstRun secondRun _ _ asked =>
      obtain ⟨_, rfl⟩ := unifyOrReport_clean asked clean
      have middleClean := (inferExpr_grows secondRun).clean clean
      exact ⟨rfl, inferExpr_fills firstRun middleClean,
        inferExpr_fills secondRun clean⟩
  | range firstRun boundRun lastRun asked =>
      obtain ⟨_, rfl⟩ := unifyOrReport_clean asked clean
      have boundedClean := (inferExpr_grows lastRun).clean clean
      exact ⟨rfl,
        inferExpr_fills firstRun (boundRun.grows.clean boundedClean),
        inferExpr_fills lastRun clean⟩
  | binary _ leftRun _ rightRun _ asked =>
      obtain ⟨_, rfl⟩ := unifyOrReport_clean asked clean
      have middleClean := (inferExpr_grows rightRun).clean clean
      exact ⟨rfl, inferExpr_fills leftRun middleClean,
        inferExpr_fills rightRun clean⟩
  | unary operandRun asked =>
      obtain ⟨_, rfl⟩ := unifyOrReport_clean asked clean
      exact ⟨rfl, inferExpr_fills operandRun clean⟩
  | call callRun => exact (inferCall_fills callRun clean).1
termination_by structural expr

/-- A place is filled up to the calls that it sets aside. -/
theorem inferPlace_fills
    {place place' : Place}
    {context : Context}
    {expected : Ty}
    {demand : Demand}
    {found : Substitution}
    {before after : State}
    (run :
      Runs (inferPlace place context expected demand) before (place', found)
        after)
    (clean : after.Clean) :
    place'.Filled true := by
  cases placeRun_of_runs run with
  | unknown => exact absurd clean (State.not_clean_record _ _)
  | known _ fieldsRun asked =>
      obtain ⟨_, rfl⟩ := unifyOrReport_clean asked clean
      exact ⟨rfl, inferFields_fills fieldsRun clean⟩
termination_by structural place

theorem inferFields_fills
    {fields fields' : List Field}
    {name : String}
    {span : Span}
    {context : Context}
    {current selected : Ty}
    {found extended : Substitution}
    {before after : State}
    (run :
      Runs (inferFields fields name span context current found) before
        (fields', selected, extended) after)
    (clean : after.Clean) :
    Field.FilledAll true fields' := by
  cases fields with
  | nil =>
      obtain ⟨rfl, _⟩ := runs_inferFields_nil run
      trivial
  | cons field rest =>
      obtain ⟨_, _, _, _, _, fieldRun, restRun, rfl⟩ := runs_inferFields_cons run
      have middleClean := (inferFields_grows restRun).clean clean
      exact ⟨inferField_fills fieldRun middleClean,
        inferFields_fills restRun clean⟩
termination_by structural fields

theorem inferField_fills
    {field field' : Field}
    {name : String}
    {span : Span}
    {context : Context}
    {current selected : Ty}
    {found extended : Substitution}
    {before after : State}
    (run :
      Runs (inferField field name span context current found) before
        (field', selected, extended) after)
    (clean : after.Clean) :
    field'.Filled true := by
  cases fieldRun_of_runs run with
  | hd | tl | fst | snd => trivial
  | index _ positionRun => exact inferExpr_fills positionRun clean
termination_by structural field

/-- A call is filled or waits, and it waits only if its callee is not known. -/
theorem inferCall_fills
    {call call' : Call}
    {context : Context}
    {expected : Ty}
    {demand : Demand}
    {guard : Option ValueGuard}
    {found : Substitution}
    {before after : State}
    (run :
      Runs (inferCall call context expected demand guard) before (call', found)
        after)
    (clean : after.Clean) :
    call'.Filled true ∧
      (context.funs.contains call.callee.text = true → call'.Checked) := by
  cases callRun_of_runs run with
  | waits unknown =>
      refine ⟨Or.inl ⟨rfl, rfl⟩, fun isKnown => ?_⟩
      rw [Table.contains, unknown] at isKnown
      cases isKnown
  | arity => exact absurd clean (State.not_clean_record _ _)
  | void _ _ argsRun => exact absurd clean (inferArgs_aborted argsRun)
  | @checked _ _ args' _ _ _ progress final _ _ _ sameLength argsRun asked =>
      obtain ⟨_, rfl⟩ := unifyOrReport_clean asked clean
      obtain ⟨argsFilled, argsLength, typesLength⟩ :=
        inferArgs_fills argsRun clean sameLength
      have sameArity : progress.types.length = args'.length := by
        rw [typesLength _ rfl, argsLength]
        exact Nat.zero_add _
      rw [← List.length_map (progress.view ++ final).apply] at sameArity
      exact ⟨Or.inr ⟨⟨_, _, rfl, sameArity⟩, argsFilled⟩,
        fun _ => ⟨⟨_, _, rfl, sameArity⟩, argsFilled⟩⟩
termination_by structural call

/-- Arguments are filled up to calls set aside, and each shows one type. -/
theorem inferArgs_fills
    {args args' : List Expr}
    {params : List Ty}
    {function : String}
    {number : Nat}
    {progress : CallProgress}
    {outcome : Option CallProgress}
    {before after : State}
    (run :
      Runs (inferArgs args params function number progress) before
        (args', outcome) after)
    (clean : after.Clean)
    (sameLength : args.length = params.length) :
    Expr.FilledAll true args' ∧ args'.length = args.length ∧
      ∀ reached ∈ outcome,
        reached.types.length = progress.types.length + args.length := by
  cases argsRun_of_runs run with
  | done nothing =>
      have noArgs : args = [] := by
        rcases nothing with rfl | rfl
        · rfl
        · exact List.eq_nil_of_length_eq_zero sameLength
      subst noArgs
      exact ⟨trivial, rfl, by simp⟩
  | void => exact absurd clean (State.not_clean_record _ _)
  | next argRun _ _ asked restRun =>
      have unifiedClean := (inferArgs_grows restRun).clean clean
      obtain ⟨_, rfl⟩ := unifyOrReport_clean asked unifiedClean
      obtain ⟨restFilled, restLength, typesLength⟩ :=
        inferArgs_fills restRun clean (Nat.succ.inj sameLength)
      refine ⟨⟨inferExpr_fills argRun unifiedClean, restFilled⟩,
        congrArg Nat.succ restLength, fun reached isReached => ?_⟩
      rw [typesLength reached isReached, CallProgress.next, List.length_append,
        List.length_singleton, List.length_cons, Nat.add_assoc, Nat.add_comm 1]
termination_by structural args

end

mutual

/-- A statement is filled up to the calls that it sets aside. -/
theorem inferStmt_fills
    {stmt stmt' : Stmt}
    {context : Context}
    {expected : Ty}
    {found : Substitution}
    {before after : State}
    (run : Runs (inferStmt stmt context expected) before (stmt', found) after)
    (clean : after.Clean) :
    stmt'.Filled true := by
  cases stmtRun_of_runs run with
  | ifElse thenRun elseRun conditionRun =>
      have joinedClean := (inferExpr_grows conditionRun).clean clean
      have middleClean := (inferBlock_grows elseRun).clean joinedClean
      exact ⟨inferExpr_fills conditionRun clean,
        inferBlock_fills thenRun middleClean,
        inferBlock_fills elseRun joinedClean⟩
  | whileDo bodyRun conditionRun =>
      have middleClean := (inferExpr_grows conditionRun).clean clean
      exact ⟨inferExpr_fills conditionRun clean,
        inferBlock_fills bodyRun middleClean⟩
  | forTaken | assignVoid | returnVoid =>
      exact absurd clean (State.not_clean_record _ _)
  | forIn iterableRun _ bodyRun =>
      have middleClean := (inferBlock_grows bodyRun).clean clean
      exact ⟨inferExpr_fills iterableRun middleClean,
        inferBlock_fills bodyRun clean⟩
  | assign valueRun targetRun _ _ asked =>
      obtain ⟨_, rfl⟩ := unifyOrReport_clean asked clean
      have middleClean := (inferPlace_grows targetRun).clean clean
      exact ⟨inferPlace_fills targetRun clean,
        inferExpr_fills valueRun middleClean⟩
  | call callRun => exact (inferCall_fills callRun clean).1
  | returnValue valueRun _ asked =>
      obtain ⟨_, rfl⟩ := unifyOrReport_clean asked clean
      exact inferExpr_fills valueRun clean
  | returnNothing => trivial
termination_by structural stmt

theorem inferBlock_fills
    {stmts stmts' : List Stmt}
    {context : Context}
    {expected : Ty}
    {found : Substitution}
    {before after : State}
    (run :
      Runs (inferBlock stmts context expected) before (stmts', found) after)
    (clean : after.Clean) :
    Stmt.FilledAll true stmts' := by
  cases stmts with
  | nil =>
      obtain ⟨rfl, _⟩ := runs_inferBlock_nil run
      trivial
  | cons stmt rest =>
      obtain ⟨_, _, _, _, _, stmtRun, restRun, rfl, _⟩ :=
        runs_inferBlock_cons run
      have middleClean := (inferBlock_grows restRun).clean clean
      exact ⟨inferStmt_fills stmtRun middleClean,
        inferBlock_fills restRun clean⟩
termination_by structural stmts

end

/-- The declaration of a variable is filled up to the calls that it sets aside. -/
theorem inferVarDecl_fills
    {decl decl' : VarDecl}
    {context context' : Context}
    {expected : Ty}
    {found : Substitution}
    {before after : State}
    (run :
      Runs (inferVarDecl decl context expected) before
        (decl', context', found) after)
    (clean : after.Clean) :
    decl'.Filled true := by
  cases varDeclRun_of_runs run with
  | taken | void => exact absurd clean (State.not_clean_record _ _)
  | bound _ _ valueRun _ asked =>
      obtain ⟨_, rfl⟩ := unifyOrReport_clean asked clean
      exact ⟨rfl, inferExpr_fills valueRun clean⟩

theorem inferLocals_fills
    {decls decls' : List VarDecl}
    {context context' : Context}
    {found : Substitution}
    {before after : State}
    (run :
      Runs (inferLocals decls context) before (decls', context', found) after)
    (clean : after.Clean) :
    ∀ decl ∈ decls', decl.Filled true := by
  induction decls generalizing decls' context found before with
  | nil =>
      obtain ⟨rfl, _⟩ := runs_inferLocals_nil run
      exact List.forall_mem_nil _
  | cons decl rest inductionHypothesis =>
      obtain ⟨_, _, _, _, _, _, declRun, restRun, rfl, _⟩ :=
        runs_inferLocals_cons run
      have middleClean := (inferLocals_declares restRun).clean clean
      exact List.forall_mem_cons.mpr
        ⟨inferVarDecl_fills declRun middleClean, inductionHypothesis restRun⟩

/-- The body of a function is filled before the calls that wait for it are. -/
theorem ComparedRun.fills
    {decl : FunDecl}
    {locals : List VarDecl}
    {body : List Stmt}
    {context : Context}
    {expected : Ty}
    {found : Substitution}
    {before compared : State}
    (run : ComparedRun decl context expected before locals body found compared)
    (clean : compared.Clean) :
    (∀ item ∈ locals, item.Filled true) ∧ Stmt.FilledAll true body := by
  cases run with
  | intro localsRun bodyRun asked signatureRun =>
      have askedClean := (signatureFindings_declares signatureRun).clean clean
      obtain ⟨_, rfl⟩ := unifyOrReport_clean asked askedClean
      have middleClean := (inferBlock_grows bodyRun).clean askedClean
      exact ⟨inferLocals_fills localsRun middleClean,
        inferBlock_fills bodyRun askedClean⟩

end SplTyping
