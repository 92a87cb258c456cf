import SplTyping.Proofs.Accounts
import SplTyping.Proofs.Agreement

namespace SplTyping

/-!
# The names of accepted programs

Inference knows which names are visible from its context, and what a call that
waits may name from the context it waits with. If no error is recorded, then all
names that a tree mentions were visible when they were reached. The arguments of
a call that waits are reached late, under the declaration of another function,
so what is shown of a tree depends on the calls that still wait afterwards: it
is in order if they are. In the end no call waits.
-/

mutual

/--
An expression reads visible variables, and calls functions with as many
arguments as they take.
-/
def Expr.Scoped
    (takes : String → Nat → Prop)
    (visible : List String) :
    Expr → Prop
  | .int _ _ | .bool _ _ | .char _ _ | .nil _ => True
  | .read place => place.Scoped takes visible
  | .pair left right _ | .range left right _ | .binary _ left right _ =>
      left.Scoped takes visible ∧ right.Scoped takes visible
  | .unary _ operand _ => operand.Scoped takes visible
  | .call made => made.Scoped takes visible

/-- The variable of a place is visible, and its fields are well scoped. -/
def Place.Scoped
    (takes : String → Nat → Prop)
    (visible : List String) :
    Place → Prop
  | ⟨name, fields, _⟩ =>
      name.text ∈ visible ∧ Field.ScopedAll takes visible fields

/-- The position of an index is well scoped. -/
def Field.Scoped
    (takes : String → Nat → Prop)
    (visible : List String) :
    Field → Prop
  | .hd | .tl | .fst | .snd => True
  | .index position => position.Scoped takes visible

/-- All of some fields are well scoped. -/
def Field.ScopedAll
    (takes : String → Nat → Prop)
    (visible : List String) :
    List Field → Prop
  | [] => True
  | field :: rest =>
      field.Scoped takes visible ∧ Field.ScopedAll takes visible rest

/-- The callee takes as many arguments as are given, and they are well scoped. -/
def Call.Scoped
    (takes : String → Nat → Prop)
    (visible : List String) :
    Call → Prop
  | ⟨callee, args, _, _⟩ =>
      takes callee.text args.length ∧ Expr.ScopedAll takes visible args

/-- All of some expressions are well scoped. -/
def Expr.ScopedAll
    (takes : String → Nat → Prop)
    (visible : List String) :
    List Expr → Prop
  | [] => True
  | expr :: rest =>
      expr.Scoped takes visible ∧ Expr.ScopedAll takes visible rest

end

mutual

/--
The parts of a statement are well scoped. A loop variable is new, and visible in
the body of its loop only.
-/
def Stmt.Scoped
    (takes : String → Nat → Prop)
    (visible : List String) :
    Stmt → Prop
  | .ifElse condition thenBody elseBody _ =>
      condition.Scoped takes visible ∧ Stmt.ScopedAll takes visible thenBody ∧
        Stmt.ScopedAll takes visible elseBody
  | .whileDo condition body _ =>
      condition.Scoped takes visible ∧ Stmt.ScopedAll takes visible body
  | .forIn element iterable body _ =>
      iterable.Scoped takes visible ∧ element.text ∉ visible ∧
        Stmt.ScopedAll takes (element.text :: visible) body
  | .assign target value _ =>
      target.Scoped takes visible ∧ value.Scoped takes visible
  | .call made => made.Scoped takes visible
  | .ret none _ => True
  | .ret (some value) _ => value.Scoped takes visible

/-- All of some statements are well scoped. -/
def Stmt.ScopedAll
    (takes : String → Nat → Prop)
    (visible : List String) :
    List Stmt → Prop
  | [] => True
  | stmt :: rest =>
      stmt.Scoped takes visible ∧ Stmt.ScopedAll takes visible rest

end

namespace VarDecl

/-- The names that some variables are declared under. -/
def names (decls : List VarDecl) : List String :=
  decls.map fun decl => decl.name.text

/--
Each variable has a name that is not visible yet, and a value that is well
scoped before it; it is visible for those behind it.
-/
def ScopedInTurn
    (takes : String → Nat → Prop) :
    List String → List VarDecl → Prop
  | _, [] => True
  | visible, decl :: rest =>
      decl.name.text ∉ visible ∧ decl.value.Scoped takes visible ∧
        ScopedInTurn takes (decl.name.text :: visible) rest

end VarDecl

/-- The names in a function are in order, given those of the global variables. -/
structure FunDecl.Scoped
    (takes : String → Nat → Prop)
    (globals : List String)
    (decl : FunDecl) :
    Prop where
  args : (decl.args.map Name.text).Nodup
  locals :
    VarDecl.ScopedInTurn takes (decl.args.map Name.text ++ globals) decl.locals
  body :
    Stmt.ScopedAll takes
      (VarDecl.names decl.locals ++ (decl.args.map Name.text ++ globals))
      decl.body

namespace Program

/-- A function of this name is declared with so many parameters. -/
def Takes (program : Program) (name : String) (count : Nat) : Prop :=
  ∃ decl ∈ program.functions,
    decl.name.text = name ∧ decl.args.length = count

/-- The names of a program are in order. -/
structure WellScoped (program : Program) : Prop where
  globalNames : (VarDecl.names program.globals).Nodup
  functionNames : (program.functions.map fun decl => decl.name.text).Nodup
  globals : VarDecl.ScopedInTurn program.Takes [] program.globals
  functions :
    ∀ decl ∈ program.functions,
      decl.Scoped program.Takes (VarDecl.names program.globals)

end Program

/-- Variables that are declared in turn have new names and different ones. -/
theorem VarDecl.ScopedInTurn.distinct
    {takes : String → Nat → Prop}
    {visible : List String}
    {decls : List VarDecl}
    (isScoped : VarDecl.ScopedInTurn takes visible decls) :
    (VarDecl.names decls).Nodup ∧
      ∀ name ∈ VarDecl.names decls, name ∉ visible := by
  induction decls generalizing visible with
  | nil => exact ⟨List.nodup_nil, nofun⟩
  | cons decl rest inductionHypothesis =>
      obtain ⟨isNew, _, restScoped⟩ := isScoped
      obtain ⟨restDistinct, restNew⟩ := inductionHypothesis restScoped
      refine ⟨List.nodup_cons.mpr ⟨fun isName => ?_, restDistinct⟩,
        List.forall_mem_cons.mpr ⟨isNew, fun name isName => ?_⟩⟩
      · exact restNew _ isName List.mem_cons_self
      · exact fun isVisible =>
          restNew name isName (List.mem_cons_of_mem _ isVisible)

/-- The variables of a context are those with the given names. -/
def Context.Shows (context : Context) (visible : List String) : Prop :=
  ∀ name, context.vars.contains name = true ↔ name ∈ visible

namespace Context.Shows

variable {context : Context} {visible : List String}

/-- Findings change the types of variables, not their names. -/
theorem narrow
    (shows : context.Shows visible)
    (found : Substitution) :
    (context.narrow found).Shows visible := by
  intro name
  rw [Context.narrow_contains_var]
  exact shows name

/-- A variable that is bound is visible. -/
theorem bindVar
    (shows : context.Shows visible)
    (name : String)
    (ty : Ty) :
    (context.bindVar name ty).Shows (name :: visible) := by
  intro other
  rw [Context.bindVar, Table.contains, Table.get?_insert, List.mem_cons,
    ← shows other, Table.contains]
  by_cases isName : other = name <;> simp [isName]

/-- The order of visible names does not matter. -/
theorem of_perm
    {others : List String}
    (shows : context.Shows visible)
    (same : visible.Perm others) :
    context.Shows others :=
  fun name => (shows name).trans same.mem_iff

/-- Arguments that are bound are visible. -/
theorem bindArgs
    {args : List Name}
    {types : List Ty}
    (shows : context.Shows visible)
    (sameLength : args.length = types.length) :
    (context.bindArgs args types).Shows (args.map Name.text ++ visible) := by
  induction args generalizing types context visible with
  | nil => exact shows
  | cons arg rest inductionHypothesis =>
      cases types with
      | nil => cases sameLength
      | cons ty types =>
          have restShows :=
            inductionHypothesis (shows.bindVar arg.text ty)
              (Nat.succ.inj sameLength)
          exact restShows.of_perm List.perm_middle

end Context.Shows

/-- A context shows these variables, and functions that are declared so. -/
structure Context.Fits
    (takes : String → Nat → Prop)
    (visible : List String)
    (context : Context) :
    Prop where
  vars : context.Shows visible
  funs :
    ∀ name signature, context.funs.get? name = some signature →
      takes name signature.params.length

namespace Context.Fits

variable {takes : String → Nat → Prop} {visible : List String}
variable {context : Context}

/-- An empty context fits where nothing is visible. -/
theorem empty : Context.empty.Fits takes [] where
  vars := by
    intro name
    simp [Context.empty, Table.contains]
  funs := by
    intro name signature known
    cases known

/-- Findings change no number of parameters. -/
theorem narrow
    (fits : context.Fits takes visible)
    (found : Substitution) :
    (context.narrow found).Fits takes visible where
  vars := fits.vars.narrow found
  funs := by
    intro name signature known
    rw [Context.narrow, Table.get?_map] at known
    obtain ⟨early, wasKnown, rfl⟩ := Option.map_eq_some_iff.mp known
    rw [Signature.narrow, List.length_map]
    exact fits.funs name early wasKnown

/-- A variable may be bound in a context that fits. -/
theorem bindVar
    (fits : context.Fits takes visible)
    (name : String)
    (ty : Ty) :
    (context.bindVar name ty).Fits takes (name :: visible) where
  vars := fits.vars.bindVar name ty
  funs := fits.funs

/-- A function may be bound if it is declared with so many parameters. -/
theorem bindFun
    {name : String}
    {signature : Signature}
    (fits : context.Fits takes visible)
    (isTaken : takes name signature.params.length) :
    (context.bindFun name signature).Fits takes visible where
  vars := fits.vars
  funs := by
    intro other known isKnown
    rw [Context.bindFun, Table.get?_insert] at isKnown
    split at isKnown
    · rename_i isName
      cases isKnown
      rw [isName]
      exact isTaken
    · exact fits.funs other known isKnown

end Context.Fits

/-- A call that waits is well scoped where it was reached. -/
def PendingCall.Scoped
    (takes : String → Nat → Prop)
    (pending : PendingCall) :
    Prop :=
  ∀ visible, pending.context.Shows visible → pending.call.Scoped takes visible

/-- There is no error, and all calls that wait are well scoped. -/
structure State.Scoped
    (takes : String → Nat → Prop)
    (state : State) :
    Prop where
  clean : state.Clean
  waiting : ∀ pending ∈ state.pending.calls, pending.Scoped takes

section Runs

variable {takes : String → Nat → Prop}

/-- Setting a call aside leaves those that wait. -/
theorem PendingCalls.Receives.subset
    {before after : PendingCalls}
    {made : List Call}
    (received : before.Receives made after) :
    before.calls ⊆ after.calls := by
  induction received with
  | nil => exact List.Subset.refl _
  | @cons pending _ call _ context expected guard _ inductionHypothesis =>
      intro waiting isWaiting
      exact inductionHypothesis
        ((pending.perm_defer call context expected guard).mem_iff.mpr
          (List.mem_cons_of_mem _ isWaiting))

/-- If all waiting calls are in order afterwards, those from before are. -/
theorem SetsAside.isScoped
    {calls : List Call}
    {before after : State}
    (sets : SetsAside calls before after)
    (isScoped : after.Scoped takes) :
    before.Scoped takes := by
  obtain ⟨_, received, _, all⟩ := sets
  exact ⟨(all isScoped.clean).1, fun pending isPending =>
    isScoped.waiting pending (received.subset isPending)⟩

/-- After an error nothing is claimed. -/
theorem State.Scoped.of_record
    {state : State}
    {error : TypeError}
    {fact : Prop}
    (isScoped : (state.record error).Scoped takes) :
    fact :=
  absurd isScoped.clean (State.not_clean_record _ _)

mutual

/-- An expression that is inferred in a context that fits is well scoped. -/
theorem inferExpr_scoped
    {expr expr' : Expr}
    {context : Context}
    {expected : Ty}
    {demand : Demand}
    {guard : Option ValueGuard}
    {found : Substitution}
    {before after : State}
    {visible : List String}
    (run :
      Runs (inferExpr expr context expected demand guard) before (expr', found)
        after)
    (isScoped : after.Scoped takes)
    (fits : context.Fits takes visible) :
    expr.Scoped takes visible := by
  cases exprRun_of_runs run with
  | int | bool | char | nil => exact trivial
  | read placeRun => exact inferPlace_scoped placeRun isScoped fits
  | pairVoid | binaryLeftVoid | binaryRightVoid => exact isScoped.of_record
  | pair firstRun secondRun _ _ asked =>
      obtain ⟨_, rfl⟩ := unifyOrReport_clean asked isScoped.clean
      have middleScoped := (inferExpr_setsAside secondRun).isScoped isScoped
      exact ⟨inferExpr_scoped firstRun middleScoped fits,
        inferExpr_scoped secondRun isScoped (fits.narrow _)⟩
  | range firstRun boundRun lastRun asked =>
      obtain ⟨_, rfl⟩ := unifyOrReport_clean asked isScoped.clean
      have boundScoped := (inferExpr_setsAside lastRun).isScoped isScoped
      have middleScoped := boundRun.setsAside.isScoped boundScoped
      exact ⟨inferExpr_scoped firstRun middleScoped fits,
        inferExpr_scoped lastRun isScoped (fits.narrow _)⟩
  | binary _ leftRun _ rightRun _ asked =>
      obtain ⟨_, rfl⟩ := unifyOrReport_clean asked isScoped.clean
      have middleScoped := (inferExpr_setsAside rightRun).isScoped isScoped
      exact ⟨inferExpr_scoped leftRun middleScoped fits,
        inferExpr_scoped rightRun isScoped (fits.narrow _)⟩
  | unary operandRun asked =>
      obtain ⟨_, rfl⟩ := unifyOrReport_clean asked isScoped.clean
      have operandScoped := inferExpr_scoped operandRun isScoped fits
      exact operandScoped
  | call callRun => exact inferCall_scoped callRun isScoped fits
termination_by structural expr

/-- The variable of a place is known to the context, so it is visible. -/
theorem inferPlace_scoped
    {place place' : Place}
    {context : Context}
    {expected : Ty}
    {demand : Demand}
    {found : Substitution}
    {before after : State}
    {visible : List String}
    (run :
      Runs (inferPlace place context expected demand) before (place', found)
        after)
    (isScoped : after.Scoped takes)
    (fits : context.Fits takes visible) :
    place.Scoped takes visible := by
  cases placeRun_of_runs run with
  | unknown => exact isScoped.of_record
  | known isKnown fieldsRun asked =>
      obtain ⟨_, rfl⟩ := unifyOrReport_clean asked isScoped.clean
      exact ⟨(fits.vars _).mp (Option.isSome_of_eq_some isKnown),
        inferFields_scoped fieldsRun isScoped fits⟩
termination_by structural place

theorem inferFields_scoped
    {fields fields' : List Field}
    {name : String}
    {span : Span}
    {context : Context}
    {current selected : Ty}
    {found extended : Substitution}
    {before after : State}
    {visible : List String}
    (run :
      Runs (inferFields fields name span context current found) before
        (fields', selected, extended) after)
    (isScoped : after.Scoped takes)
    (fits : context.Fits takes visible) :
    Field.ScopedAll takes visible fields := by
  cases fields with
  | nil => exact trivial
  | cons field rest =>
      obtain ⟨_, _, _, _, _, fieldRun, restRun, _⟩ := runs_inferFields_cons run
      have middleScoped := (inferFields_setsAside restRun).isScoped isScoped
      exact ⟨inferField_scoped fieldRun middleScoped fits,
        inferFields_scoped restRun isScoped fits⟩
termination_by structural fields

theorem inferField_scoped
    {field field' : Field}
    {name : String}
    {span : Span}
    {context : Context}
    {current selected : Ty}
    {found extended : Substitution}
    {before after : State}
    {visible : List String}
    (run :
      Runs (inferField field name span context current found) before
        (field', selected, extended) after)
    (isScoped : after.Scoped takes)
    (fits : context.Fits takes visible) :
    field.Scoped takes visible := by
  cases fieldRun_of_runs run with
  | hd | tl | fst | snd => exact trivial
  | index _ positionRun =>
      exact inferExpr_scoped positionRun isScoped (fits.narrow _)
termination_by structural field

/--
A call is well scoped: its function is known to the context, or the call waits
and is well scoped as such.
-/
theorem inferCall_scoped
    {call call' : Call}
    {context : Context}
    {expected : Ty}
    {demand : Demand}
    {guard : Option ValueGuard}
    {found : Substitution}
    {before after : State}
    {visible : List String}
    (run :
      Runs (inferCall call context expected demand guard) before (call', found)
        after)
    (isScoped : after.Scoped takes)
    (fits : context.Fits takes visible) :
    call.Scoped takes visible := by
  cases callRun_of_runs run with
  | waits =>
      -- Whether the call is well scoped is known of the one that waits.
      have deferred :=
        before.pending.perm_defer call context expected guard
      have stampedScoped :=
        isScoped.waiting _ (deferred.mem_iff.mpr List.mem_cons_self) visible
          fits.vars
      cases call
      exact stampedScoped
  | arity => exact isScoped.of_record
  | void known sameLength argsRun =>
      refine ⟨?_, inferArgs_scoped argsRun sameLength isScoped fits⟩
      rw [sameLength]
      exact fits.funs _ _ known
  | checked known sameLength argsRun asked =>
      obtain ⟨_, rfl⟩ := unifyOrReport_clean asked isScoped.clean
      refine ⟨?_, inferArgs_scoped argsRun sameLength isScoped fits⟩
      rw [sameLength]
      exact fits.funs _ _ known
termination_by structural call

/-- Arguments are well scoped if there are as many as parameters. -/
theorem inferArgs_scoped
    {args args' : List Expr}
    {params : List Ty}
    {function : String}
    {number : Nat}
    {progress : CallProgress}
    {outcome : Option CallProgress}
    {before after : State}
    {visible : List String}
    (run :
      Runs (inferArgs args params function number progress) before
        (args', outcome) after)
    (sameLength : args.length = params.length)
    (isScoped : after.Scoped takes)
    (fits : progress.context.Fits takes visible) :
    Expr.ScopedAll takes visible args := by
  cases argsRun_of_runs run with
  | done nothing =>
      have noArgs : args = [] := by
        rcases nothing with rfl | rfl
        · rfl
        · exact List.eq_nil_of_length_eq_zero sameLength
      subst noArgs
      exact trivial
  | void => exact isScoped.of_record
  | next argRun _ _ asked restRun =>
      have restLength := Nat.succ.inj sameLength
      have unifiedScoped :=
        (inferArgs_setsAside restRun restLength).isScoped isScoped
      obtain ⟨_, rfl⟩ := unifyOrReport_clean asked unifiedScoped.clean
      exact ⟨inferExpr_scoped argRun unifiedScoped fits,
        inferArgs_scoped restRun restLength isScoped
          ((fits.narrow _).narrow _)⟩
termination_by structural args

end

mutual

/--
A statement is well scoped; the variable of a loop is visible in its body.
-/
theorem inferStmt_scoped
    {stmt stmt' : Stmt}
    {context : Context}
    {expected : Ty}
    {found : Substitution}
    {before after : State}
    {visible : List String}
    (run : Runs (inferStmt stmt context expected) before (stmt', found) after)
    (isScoped : after.Scoped takes)
    (fits : context.Fits takes visible) :
    stmt.Scoped takes visible := by
  cases stmtRun_of_runs run with
  | ifElse thenRun elseRun conditionRun =>
      have elseScoped := (inferExpr_setsAside conditionRun).isScoped isScoped
      have thenScoped := (inferBlock_setsAside elseRun).isScoped elseScoped
      exact ⟨inferExpr_scoped conditionRun isScoped (fits.narrow _),
        inferBlock_scoped thenRun thenScoped fits,
        inferBlock_scoped elseRun elseScoped (fits.narrow _)⟩
  | whileDo bodyRun conditionRun =>
      have bodyScoped := (inferExpr_setsAside conditionRun).isScoped isScoped
      exact ⟨inferExpr_scoped conditionRun isScoped (fits.narrow _),
        inferBlock_scoped bodyRun bodyScoped fits⟩
  | forTaken | assignVoid | returnVoid => exact isScoped.of_record
  | @forIn element _ _ _ _ _ found _ _ _ iterableRun free bodyRun =>
      have iterableScoped := (inferBlock_setsAside bodyRun).isScoped isScoped
      have isNew : element.text ∉ visible := by
        rw [← (fits.narrow found).vars, free]
        exact Bool.false_ne_true
      exact ⟨inferExpr_scoped iterableRun iterableScoped fits, isNew,
        inferBlock_scoped bodyRun isScoped ((fits.narrow _).bindVar _ _)⟩
  | assign valueRun targetRun _ _ asked =>
      obtain ⟨_, rfl⟩ := unifyOrReport_clean asked isScoped.clean
      have targetAside :=
        (SetsAside.draw _ _).append (inferPlace_setsAside targetRun)
      have valueScoped := targetAside.isScoped isScoped
      exact ⟨inferPlace_scoped targetRun isScoped (fits.narrow _),
        inferExpr_scoped valueRun valueScoped fits⟩
  | call callRun => exact inferCall_scoped callRun isScoped fits
  | returnValue valueRun _ asked =>
      obtain ⟨_, rfl⟩ := unifyOrReport_clean asked isScoped.clean
      exact inferExpr_scoped valueRun isScoped fits
  | returnNothing => exact trivial
termination_by structural stmt

/-- Statements are well scoped. -/
theorem inferBlock_scoped
    {stmts stmts' : List Stmt}
    {context : Context}
    {expected : Ty}
    {found : Substitution}
    {before after : State}
    {visible : List String}
    (run :
      Runs (inferBlock stmts context expected) before (stmts', found) after)
    (isScoped : after.Scoped takes)
    (fits : context.Fits takes visible) :
    Stmt.ScopedAll takes visible stmts := by
  cases stmts with
  | nil => exact trivial
  | cons stmt rest =>
      obtain ⟨_, _, _, _, _, stmtRun, restRun, _⟩ := runs_inferBlock_cons run
      have stmtScoped := (inferBlock_setsAside restRun).isScoped isScoped
      exact ⟨inferStmt_scoped stmtRun stmtScoped fits,
        inferBlock_scoped restRun isScoped (fits.narrow _)⟩
termination_by structural stmts

end

/-- A variable is declared under a new name, with a value that is well scoped. -/
theorem inferVarDecl_scoped
    {decl decl' : VarDecl}
    {context context' : Context}
    {expected : Ty}
    {found : Substitution}
    {before after : State}
    {visible : List String}
    (run :
      Runs (inferVarDecl decl context expected) before
        (decl', context', found) after)
    (isScoped : after.Scoped takes)
    (fits : context.Fits takes visible) :
    decl.name.text ∉ visible ∧ decl.value.Scoped takes visible := by
  cases varDeclRun_of_runs run with
  | taken | void => exact isScoped.of_record
  | bound free _ valueRun _ asked =>
      obtain ⟨_, rfl⟩ := unifyOrReport_clean asked isScoped.clean
      refine ⟨?_, inferExpr_scoped valueRun isScoped fits⟩
      rw [← fits.vars, free]
      exact Bool.false_ne_true

/-- A variable that is declared without error is visible afterwards. -/
theorem inferVarDecl_fits
    {decl decl' : VarDecl}
    {context context' : Context}
    {expected : Ty}
    {found : Substitution}
    {before after : State}
    {visible : List String}
    (run :
      Runs (inferVarDecl decl context expected) before
        (decl', context', found) after)
    (clean : after.Clean)
    (fits : context.Fits takes visible) :
    context'.Fits takes (decl.name.text :: visible) := by
  cases varDeclRun_of_runs run with
  | taken | void => exact absurd clean (State.not_clean_record _ _)
  | bound => exact fits.bindVar _ _

/-- Each local is well scoped among those before it. -/
theorem inferLocals_scoped
    {decls decls' : List VarDecl}
    {context context' : Context}
    {found : Substitution}
    {before after : State}
    {visible : List String}
    (run :
      Runs (inferLocals decls context) before (decls', context', found)
        after)
    (isScoped : after.Scoped takes)
    (fits : context.Fits takes visible) :
    VarDecl.ScopedInTurn takes visible decls ∧
      context'.Fits takes (VarDecl.names decls ++ visible) := by
  induction decls generalizing decls' context found before visible with
  | nil =>
      obtain ⟨_, rfl, _, _⟩ := runs_inferLocals_nil run
      exact ⟨trivial, fits⟩
  | cons decl rest inductionHypothesis =>
      obtain ⟨_, _, _, _, _, _, declRun, restRun, _⟩ := runs_inferLocals_cons run
      have declScoped := (inferLocals_setsAside restRun).isScoped isScoped
      have between := inferVarDecl_fits declRun declScoped.clean fits
      obtain ⟨restInTurn, restFits⟩ :=
        inductionHypothesis restRun (between.narrow _)
      obtain ⟨isNew, valueScoped⟩ := inferVarDecl_scoped declRun declScoped fits
      exact ⟨⟨isNew, valueScoped, restInTurn⟩,
        restFits.vars.of_perm List.perm_middle, restFits.funs⟩

/-- A function may be bound with new types for its parameters. -/
theorem Context.Fits.bindShape
    {decl : FunDecl}
    {context : Context}
    {visible : List String}
    (fits : context.Fits takes visible)
    (isTaken : takes decl.name.text decl.args.length)
    (start : TypeVar) :
    (context.bindFun decl.name.text
      (freshShape start decl.args.length)).Fits takes visible := by
  refine fits.bindFun ?_
  rw [freshShape, drawnTys_length]
  exact isTaken

/-- Inside of a function, its arguments are visible besides the globals. -/
theorem FunDecl.inner_fits
    {decl : FunDecl}
    {context : Context}
    {globals : List String}
    (fits : context.Fits takes globals)
    (isTaken : takes decl.name.text decl.args.length)
    (start : TypeVar) :
    (decl.inner context (freshShape start decl.args.length)).Fits takes
      (decl.args.map Name.text ++ globals) := by
  have bound :
      (context.bindArgs decl.args (drawnTys start decl.args.length)).Fits takes
        (decl.args.map Name.text ++ globals) := by
    refine ⟨fits.vars.bindArgs (drawnTys_length _ _).symm, ?_⟩
    rw [Context.bindArgs_funs]
    exact fits.funs
  exact bound.bindShape isTaken start

/-- A call that is checked without error is well scoped where it was reached. -/
theorem inferWaiting_scoped
    {function : String}
    {waiting : List PendingCall}
    {context context' : Context}
    {found extended : Substitution}
    {before after : State}
    {globals : List String}
    (run :
      Runs (inferWaiting function waiting context found) before
        (context', extended) after)
    (isScoped : after.Scoped takes)
    (fits : context.Fits takes globals) :
    before.Scoped takes ∧ ∀ pending ∈ waiting, pending.Scoped takes := by
  induction waiting generalizing context found before with
  | nil =>
      cases waitingRun_of_runs run
      exact ⟨isScoped, nofun⟩
  | cons pending rest inductionHypothesis =>
      cases waitingRun_of_runs run with
      | void _ _ _ _ restRun =>
          obtain ⟨recordedScoped, _⟩ := inductionHypothesis restRun fits
          exact recordedScoped.of_record
      | @next _ _ _ _ _ _ _ middle _ _ callRun _ restRun =>
          obtain ⟨resolvedScoped, restScoped⟩ :=
            inductionHypothesis restRun (fits.narrow _)
          have middleScoped : middle.Scoped takes :=
            ⟨resolvedScoped.clean, resolvedScoped.waiting⟩
          have callScoped : pending.Scoped takes := fun _ shows =>
            inferCall_scoped callRun middleScoped
              ⟨(shows.narrow _).narrow _, fits.funs⟩
          exact ⟨(inferCall_setsAside callRun).isScoped middleScoped,
            List.forall_mem_cons.mpr ⟨callScoped, restScoped⟩⟩

/-- The calls that wait are those for one function and the others. -/
theorem State.Scoped.of_without
    {state : State}
    {function : String}
    (left : (state.without function).Scoped takes)
    (taken :
      ∀ pending ∈ (state.pending.take function).1, pending.Scoped takes) :
    state.Scoped takes := by
  refine ⟨left.clean, fun pending isPending => ?_⟩
  rcases List.mem_append.mp
      ((state.pending.perm_take function).mem_iff.mpr isPending) with
    isTaken | isLeft
  · exact taken pending isTaken
  · exact left.waiting pending isLeft

/-- A function is well scoped; the calls that waited for it were so before. -/
theorem inferFunDecl_scoped
    {decl decl' : FunDecl}
    {context context' : Context}
    {expected : Ty}
    {found : Substitution}
    {before after : State}
    {globals : List String}
    (run :
      Runs (inferFunDecl decl context expected) before
        (decl', context', found) after)
    (isScoped : after.Scoped takes)
    (fits : context.Fits takes globals)
    (isTaken : takes decl.name.text decl.args.length) :
    before.Scoped takes ∧ decl.Scoped takes globals := by
  cases funDeclRun_of_runs run with
  | taken | repeated => exact isScoped.of_record
  | @bound _ _ _ _ _ _ _ _ _ _ _ _ asked' compared _
      _ distinct shapeEq localsRun bodyRun asked signatureRun waitingRun =>
      subst shapeEq
      obtain ⟨leftScoped, takenScoped⟩ :=
        inferWaiting_scoped waitingRun isScoped
          ((fits.bindShape isTaken _).narrow _)
      have comparedScoped : compared.Scoped takes :=
        leftScoped.of_without takenScoped
      have comparedRun := ComparedRun.intro localsRun bodyRun asked signatureRun
      have signatureAside : SetsAside [] asked' compared :=
        (SetsAside.refl _).declares (signatureFindings_declares signatureRun)
          (signatureFindings_pending signatureRun)
      have bodyScoped := signatureAside.isScoped comparedScoped
      obtain ⟨_, rfl⟩ := unifyOrReport_clean asked bodyScoped.clean
      have localsScoped := (inferBlock_setsAside bodyRun).isScoped bodyScoped
      obtain ⟨localsInTurn, innerFits⟩ :=
        inferLocals_scoped localsRun localsScoped
          (FunDecl.inner_fits fits isTaken before.nextVar)
      exact ⟨comparedRun.setsAside.isScoped comparedScoped,
        (firstRepeated?_eq_none.mp distinct).1, localsInTurn,
        inferBlock_scoped bodyRun bodyScoped innerFits⟩

/-- After a function, the context has it with as many parameters as declared. -/
theorem inferFunDecl_fits
    {decl decl' : FunDecl}
    {context context' : Context}
    {expected : Ty}
    {found : Substitution}
    {before after : State}
    {globals : List String}
    (run :
      Runs (inferFunDecl decl context expected) before
        (decl', context', found) after)
    (clean : after.Clean)
    (fits : context.Fits takes globals)
    (isTaken : takes decl.name.text decl.args.length) :
    context'.Fits takes globals := by
  cases declaredRun_of_runs run clean with
  | intro => exact (fits.bindShape isTaken _).narrow _

/-- Globals are well scoped in turn. -/
theorem inferGlobals_scoped
    {decls decls' : List Decl}
    {context context' : Context}
    {before after : State}
    {visible : List String}
    (run : Runs (inferGlobals decls context) before (decls', context') after)
    (isScoped : after.Scoped takes)
    (fits : context.Fits takes visible) :
    before.Scoped takes ∧
      VarDecl.ScopedInTurn takes visible (decls.filterMap Decl.var?) := by
  induction decls generalizing decls' context before visible with
  | nil =>
      cases globalsRun_of_runs run
      exact ⟨isScoped, trivial⟩
  | cons decl rest inductionHypothesis =>
      cases globalsRun_of_runs run with
      | fn restRun =>
          have restScoped := inductionHypothesis restRun fits
          exact restScoped
      | @var decl _ _ _ _ _ _ middle _ declRun restRun =>
          have middleClean : middle.Clean :=
            (inferGlobals_settles restRun).clean isScoped.clean
          have between := inferVarDecl_fits declRun middleClean fits
          obtain ⟨settledScoped, restInTurn⟩ :=
            inductionHypothesis restRun (between.narrow _)
          have middleScoped : middle.Scoped takes :=
            ⟨middleClean, settledScoped.waiting⟩
          have drawnScoped :=
            (inferVarDecl_setsAside declRun).isScoped middleScoped
          obtain ⟨isNew, valueScoped⟩ :=
            inferVarDecl_scoped declRun middleScoped fits
          exact ⟨⟨drawnScoped.clean, drawnScoped.waiting⟩, isNew, valueScoped,
            restInTurn⟩

/-- After the globals, their names are visible. -/
theorem inferGlobals_fits
    {decls decls' : List Decl}
    {context context' : Context}
    {before after : State}
    {visible : List String}
    (run : Runs (inferGlobals decls context) before (decls', context') after)
    (clean : after.Clean)
    (fits : context.Fits takes visible) :
    context'.Fits takes
      (VarDecl.names (decls.filterMap Decl.var?) ++ visible) := by
  induction decls generalizing decls' context before visible with
  | nil =>
      cases globalsRun_of_runs run
      exact fits
  | cons decl rest inductionHypothesis =>
      cases globalsRun_of_runs run with
      | fn restRun =>
          have restFits := inductionHypothesis restRun fits
          exact restFits
      | @var decl _ _ _ _ _ _ middle _ declRun restRun =>
          have middleClean : middle.Clean :=
            (inferGlobals_settles restRun).clean clean
          have between := inferVarDecl_fits declRun middleClean fits
          have restFits := inductionHypothesis restRun (between.narrow _)
          exact ⟨restFits.vars.of_perm List.perm_middle, restFits.funs⟩

/-- All functions are well scoped among the globals. -/
theorem inferFunctions_scoped
    {decls decls' : List Decl}
    {context context' : Context}
    {before after : State}
    {globals : List String}
    (run : Runs (inferFunctions decls context) before (decls', context') after)
    (isScoped : after.Scoped takes)
    (fits : context.Fits takes globals)
    (areTaken :
      ∀ decl ∈ decls.filterMap Decl.fn?,
        takes decl.name.text decl.args.length) :
    before.Scoped takes ∧
      ∀ decl ∈ decls.filterMap Decl.fn?, decl.Scoped takes globals := by
  induction decls generalizing decls' context before with
  | nil =>
      cases functionsRun_of_runs run
      exact ⟨isScoped, nofun⟩
  | cons decl rest inductionHypothesis =>
      cases functionsRun_of_runs run with
      | var restRun =>
          have restScoped := inductionHypothesis restRun fits areTaken
          exact restScoped
      | @fn decl _ _ _ _ _ _ middle _ declRun restRun =>
          obtain ⟨isTaken, restTaken⟩ := List.forall_mem_cons.mp areTaken
          have middleClean : middle.Clean :=
            (inferFunctions_settles restRun).clean isScoped.clean
          have between := inferFunDecl_fits declRun middleClean fits isTaken
          obtain ⟨settledScoped, restScoped⟩ :=
            inductionHypothesis restRun (between.narrow _) restTaken
          obtain ⟨drawnScoped, declScoped⟩ :=
            inferFunDecl_scoped declRun ⟨middleClean, settledScoped.waiting⟩ fits
              isTaken
          exact ⟨⟨drawnScoped.clean, drawnScoped.waiting⟩,
            List.forall_mem_cons.mpr ⟨declScoped, restScoped⟩⟩

end Runs

/-- Functions that are declared without error have different names. -/
theorem inferFunctions_distinct
    {decls decls' : List Decl}
    {context context' : Context}
    {before after : State}
    (run : Runs (inferFunctions decls context) before (decls', context') after)
    (clean : after.Clean) :
    ((decls.filterMap Decl.fn?).map fun decl => decl.name.text).Nodup := by
  have sameHeads :=
    congrArg (List.filterMap Sum.getRight?) (inferFunctions_outline run)
  rw [Program.outline, Program.outline, ← Program.functions_shown,
    ← Program.functions_shown] at sameHeads
  have sameNames := congrArg (List.map fun head => head.name.text) sameHeads
  rw [List.map_map, List.map_map] at sameNames
  have distinct := (inferFunctions_contains run clean).1
  exact sameNames ▸ distinct

/--
An accepted program is well scoped: names are declared once, loop variables and
local variables are new where they stand, only visible variables are read or
assigned, also in the arguments of calls that had to wait, and every call is of
a declared function with as many parameters as there are arguments.
-/
theorem typeCheck_wellScoped
    {program annotated : Program}
    {source : String}
    {config : ReportConfig}
    {checked : Checked}
    (accepted : typeCheck program source config = (annotated, .ok checked)) :
    program.WellScoped := by
  obtain ⟨globals, context, middle, last, globalsRun, functionsRun, _,
    reportRun⟩ := program.infer_runs
  obtain ⟨lastClean, noneWaits⟩ :=
    (runs_reportWaiting reportRun).2.mp (typeCheck_ok accepted).1
  have sameFunctions : globals.filterMap Decl.fn? = program.functions :=
    inferGlobals_functions globalsRun
  -- In the end no call waits, so that nothing is left open.
  have lastScoped : last.Scoped program.Takes := by
    refine ⟨lastClean, fun pending isPending => ?_⟩
    rw [PendingCalls.calls, noneWaits] at isPending
    cases isPending
  have atFirst : Context.empty.Fits program.Takes [] := .empty
  have middleClean := (inferFunctions_settles functionsRun).clean lastClean
  have fits := inferGlobals_fits globalsRun middleClean atFirst
  rw [List.append_nil] at fits
  obtain ⟨middleScoped, functionsScoped⟩ :=
    inferFunctions_scoped functionsRun lastScoped fits
      fun decl isDecl => ⟨decl, sameFunctions ▸ isDecl, rfl, rfl⟩
  obtain ⟨_, inTurn⟩ := inferGlobals_scoped globalsRun middleScoped atFirst
  have distinct := inferFunctions_distinct functionsRun lastClean
  rw [sameFunctions] at distinct functionsScoped
  exact ⟨inTurn.distinct.1, distinct, inTurn, functionsScoped⟩

/--
Calls that wait in a loop within a loop and in the value of a global variable;
the argument of `next` hides a variable that the loops read.
-/
def nestingProgram : Program where
  decls :=
    [.fn
        { name := .ofText "sum"
          args := [.ofText "n"]
          written := none
          locals :=
            [{ written := none
               name := .ofText "first"
               value := .ofText "base"
               mark := .blank },
              { written := none
                name := .ofText "total"
                value := .ofText "first"
                mark := .blank }]
          body :=
            [.forIn (.ofText "i")
                (.range (.int 1 .blank) (.ofText "n") .blank)
                [.forIn (.ofText "j")
                  (.range (.ofText "i") (.ofText "limit") .blank)
                  [.assign (.ofFields "total" [])
                    (.call (.ofText "add"
                      [.ofText "total", .call (.ofText "next" [.ofText "j"])]))
                    .unknown]
                  .unknown]
                .unknown,
              .ret (some (.ofText "total")) .unknown]
          mark := .blank },
      .var
        { written := none
          name := .ofText "limit"
          value := .int 3 .blank
          mark := .blank },
      .var
        { written := none
          name := .ofText "base"
          value := .call (.ofText "next" [.ofText "limit"])
          mark := .blank },
      .fn (.ofBody "add" ["x", "y"]
        [.ret (some (.binary .add (.ofText "x") (.ofText "y") .blank))
          .unknown]),
      .fn (.ofBody "next" ["limit"]
        [.ret (some (.binary .add (.ofText "limit") (.int 1 .blank) .blank))
          .unknown])]

theorem nestingProgram_wellScoped :
    ∃ annotated checked,
      typeCheck nestingProgram "" .plain = (annotated, .ok checked) ∧
        annotated.calls.map (fun call => (call.callee.text, call.waiting)) =
          [("add", some 1), ("next", some 2), ("next", some 0)] ∧
        nestingProgram.WellScoped := by
  have isAccepted : nestingProgram.Accepted := by
    cbv
  have calls :
      (typeCheck nestingProgram "" .plain).1.calls.map
          (fun call => (call.callee.text, call.waiting)) =
        [("add", some 1), ("next", some 2), ("next", some 0)] := by
    rw [typeCheck]
    cbv
  obtain ⟨annotated, checked, accepted⟩ := isAccepted.exists_annotated "" .plain
  rw [accepted] at calls
  exact ⟨annotated, checked, accepted, calls, typeCheck_wellScoped accepted⟩

end SplTyping
