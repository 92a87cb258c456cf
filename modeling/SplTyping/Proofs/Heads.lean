import SplTyping.Proofs.Acceptance
import SplTyping.Proofs.Nodes

namespace SplTyping

/-!
# What declarations say

The head of a declaration is what is left of it without values and statements:
its name, what is written for it, and the types recorded for it and for its
local variables. Copies of calls are put into values and statements, so heads
are kept by that, and narrowing a tree narrows its heads. Inference changes
nothing in a head but the recorded types.
-/

/-- A variable declaration without its value. -/
structure VarHead where
  name : Name
  written : Option WrittenTy
  ty : Option Ty

/-- A function declaration without its body and the values of its variables. -/
structure FunHead where
  name : Name
  args : List Name
  written : Option WrittenSignature
  locals : List VarHead
  ty : Option Ty

namespace VarHead

/-- The head with its recorded type changed. -/
def mapTypes (change : Ty → Ty) (head : VarHead) : VarHead :=
  { head with ty := head.ty.map change }

/-- The head with its recorded type forgotten. -/
def untyped (head : VarHead) : VarHead :=
  { head with ty := none }

end VarHead

namespace FunHead

/-- The head with all its recorded types changed. -/
def mapTypes (change : Ty → Ty) (head : FunHead) : FunHead :=
  { head with
    locals := head.locals.map (VarHead.mapTypes change)
    ty := head.ty.map change }

/-- The head with all its recorded types forgotten. -/
def untyped (head : FunHead) : FunHead :=
  { head with
    locals := head.locals.map VarHead.untyped
    ty := none }

/-- What is left of a head does not depend on its types. -/
theorem untyped_mapTypes (head : FunHead) (change : Ty → Ty) :
    (head.mapTypes change).untyped = head.untyped := by
  simp only [untyped, mapTypes, List.map_map]
  rfl

end FunHead

/-- The head of a variable declaration. -/
def VarDecl.head (decl : VarDecl) : VarHead where
  name := decl.name
  written := decl.written
  ty := decl.mark.ty

/-- The head of a function declaration. -/
def FunDecl.head (decl : FunDecl) : FunHead where
  name := decl.name
  args := decl.args
  written := decl.written
  locals := decl.locals.map VarDecl.head
  ty := decl.mark.ty

/-- What is shown of a declaration, according to its kind. -/
def Decl.shown
    {α β : Type}
    (ofVar : VarDecl → α)
    (ofFn : FunDecl → β) :
    Decl → α ⊕ β
  | .var decl => .inl (ofVar decl)
  | .fn decl => .inr (ofFn decl)

/-- The head of a declaration. -/
def Decl.head : Decl → VarHead ⊕ FunHead :=
  Decl.shown VarDecl.head FunDecl.head

/-- What the declarations of a program say apart from recorded types. -/
def Program.outline (program : Program) : List (VarHead ⊕ FunHead) :=
  program.decls.map
    (Decl.shown (fun decl => decl.head.untyped) fun decl => decl.head.untyped)

section Shown

variable {α β : Type} (ofVar : VarDecl → α) (ofFn : FunDecl → β)

/-- What is shown of globals is shown of declarations of their kind. -/
theorem Program.globals_shown (program : Program) :
    program.globals.map ofVar =
      (program.decls.map (Decl.shown ofVar ofFn)).filterMap Sum.getLeft? := by
  simp only [globals, List.filterMap_map, List.map_filterMap]
  congr 1
  funext decl
  cases decl <;> rfl

/-- What is shown of functions is shown of declarations of their kind. -/
theorem Program.functions_shown (program : Program) :
    program.functions.map ofFn =
      (program.decls.map (Decl.shown ofVar ofFn)).filterMap Sum.getRight? := by
  simp only [functions, List.filterMap_map, List.map_filterMap]
  congr 1
  funext decl
  cases decl <;> rfl

end Shown

/-- If every step shows what is known of its item, so does the list of results. -/
theorem map_mapM_run
    {σ α β γ : Type}
    {step : α → StateM σ β}
    {shown : β → γ}
    {known : α → γ}
    (shows : ∀ item state, shown ((step item).run state).1 = known item)
    (items : List α)
    (state : σ) :
    ((items.mapM step).run state).1.map shown = items.map known := by
  induction items generalizing state with
  | nil => rfl
  | cons item rest inductionHypothesis =>
      have restShows := inductionHypothesis ((step item).run state).2
      rw [List.mapM_cons, List.map_cons, ← shows item state, ← restShows]
      rfl

section Settling

variable (enter : Call → SettleM Call) (copies : ResolvedCalls)

/-- Copies are put into the value of a declaration, not into its head. -/
theorem VarDecl.settle_head (decl : VarDecl) :
    ((decl.settle enter).run copies).1.head = decl.head :=
  rfl

/-- Copies are put into the body of a function, not into its head. -/
theorem FunDecl.settle_head (decl : FunDecl) :
    ((decl.settle enter).run copies).1.head = decl.head := by
  have localsKept :=
    map_mapM_run (fun item copies => item.settle_head enter copies) decl.locals
      copies
  exact congrArg (fun locals => { decl.head with locals }) localsKept

theorem Decl.settle_head (decl : Decl) :
    ((decl.settle enter).run copies).1.head = decl.head := by
  cases decl with
  | var decl => exact congrArg Sum.inl (decl.settle_head enter copies)
  | fn decl => exact congrArg Sum.inr (decl.settle_head enter copies)

/-- Copies change no head of a program. -/
theorem Program.settle_heads (program : Program) :
    (program.settle.run copies).1.decls.map Decl.head =
      program.decls.map Decl.head :=
  map_mapM_run (fun decl copies => decl.settle_head _ copies) program.decls
    copies

end Settling

theorem FunDecl.head_mapTypes (decl : FunDecl) (change : Ty → Ty) :
    (decl.mapTypes change).head = decl.head.mapTypes change := by
  simp only [FunDecl.head, FunDecl.mapTypes, FunHead.mapTypes, List.map_map]
  rfl

/-- The heads of the annotated tree are those of the inferred one, narrowed. -/
theorem Inferred.writeBack_heads (inferred : Inferred) :
    inferred.writeBack.1.decls.map Decl.head =
      inferred.program.decls.map
        (Decl.shown
          (fun decl => decl.head.mapTypes inferred.found.apply)
          fun decl => decl.head.mapTypes inferred.found.apply) := by
  have settled := inferred.program.settle_heads inferred.state.resolved
  -- Narrowing commutes with taking heads, so only the copies matter.
  have narrowed (decl : Decl) :
      (decl.mapTypes inferred.found.apply).head =
        decl.head.map (VarHead.mapTypes inferred.found.apply)
          (FunHead.mapTypes inferred.found.apply) := by
    cases decl with
    | var decl => rfl
    | fn decl => exact congrArg Sum.inr (decl.head_mapTypes _)
  calc inferred.writeBack.1.decls.map Decl.head
    _ = ((inferred.program.settle.run inferred.state.resolved).1.decls.map
          Decl.head).map
            (Sum.map (VarHead.mapTypes inferred.found.apply)
              (FunHead.mapTypes inferred.found.apply)) := by
        rw [List.map_map]
        exact (List.map_map ..).trans (List.map_congr_left fun decl _ =>
          narrowed decl)
    _ = (inferred.program.decls.map Decl.head).map
          (Sum.map (VarHead.mapTypes inferred.found.apply)
            (FunHead.mapTypes inferred.found.apply)) := by
        rw [settled]
    _ = _ := by
        rw [List.map_map]
        refine List.map_congr_left fun decl _ => ?_
        cases decl <;> rfl

section Inference

variable {context context' : Context} {expected : Ty} {found : Substitution}
variable {before after : State}

/-- Inference changes nothing but the type in the head of a declaration. -/
theorem inferVarDecl_untyped
    {decl decl' : VarDecl}
    (run :
      Runs (inferVarDecl decl context expected) before
        (decl', context', found) after) :
    decl'.head.untyped = decl.head.untyped := by
  cases varDeclRun_of_runs run <;> rfl

/-- Inference changes nothing but types in the heads of locals. -/
theorem inferLocals_untyped
    {decls decls' : List VarDecl}
    (run :
      Runs (inferLocals decls context) before (decls', context', found)
        after) :
    (decls'.map fun decl => decl.head.untyped) =
      decls.map fun decl => decl.head.untyped := by
  induction decls generalizing decls' context found before with
  | nil =>
      obtain ⟨rfl, _⟩ := runs_inferLocals_nil run
      rfl
  | cons decl rest inductionHypothesis =>
      obtain ⟨_, _, _, _, _, _, declRun, restRun, rfl, _⟩ :=
        runs_inferLocals_cons run
      rw [List.map_cons, List.map_cons, inferVarDecl_untyped declRun,
        inductionHypothesis restRun]

/-- Inference changes nothing but types in the head of a function. -/
theorem inferFunDecl_untyped
    {decl decl' : FunDecl}
    (run :
      Runs (inferFunDecl decl context expected) before
        (decl', context', found) after) :
    decl'.head.untyped = decl.head.untyped := by
  cases funDeclRun_of_runs run with
  | taken | repeated => rfl
  | bound _ _ _ localsRun =>
      have sameLocals := inferLocals_untyped localsRun
      simp only [FunDecl.head, FunHead.untyped, List.map_map, Function.comp_def,
        sameLocals]

/-- The pass over globals keeps the outline. -/
theorem inferGlobals_outline
    {decls decls' : List Decl}
    (run : Runs (inferGlobals decls context) before (decls', context') after) :
    (Program.mk decls').outline = (Program.mk decls).outline := by
  induction decls generalizing decls' context before with
  | nil =>
      cases globalsRun_of_runs run
      rfl
  | cons decl rest inductionHypothesis =>
      cases globalsRun_of_runs run with
      | var declRun restRun =>
          exact List.cons_eq_cons.mpr
            ⟨congrArg Sum.inl (inferVarDecl_untyped declRun),
              inductionHypothesis restRun⟩
      | @fn decl _ _ _ _ restRun =>
          exact congrArg (List.cons _) (inductionHypothesis restRun)

/-- The pass over functions keeps the outline. -/
theorem inferFunctions_outline
    {decls decls' : List Decl}
    (run : Runs (inferFunctions decls context) before (decls', context') after) :
    (Program.mk decls').outline = (Program.mk decls).outline := by
  induction decls generalizing decls' context before with
  | nil =>
      cases functionsRun_of_runs run
      rfl
  | cons decl rest inductionHypothesis =>
      cases functionsRun_of_runs run with
      | fn declRun restRun =>
          exact List.cons_eq_cons.mpr
            ⟨congrArg Sum.inr (inferFunDecl_untyped declRun),
              inductionHypothesis restRun⟩
      | var restRun =>
          exact congrArg (List.cons _) (inductionHypothesis restRun)

end Inference

theorem exists_mem_of_map_eq
    {α β γ : Type}
    {items : List α}
    {others : List β}
    {shown : α → γ}
    {known : β → γ}
    {item : α}
    (same : items.map shown = others.map known)
    (member : item ∈ items) :
    ∃ other ∈ others, known other = shown item := by
  have isShown : shown item ∈ items.map shown := List.mem_map_of_mem member
  rw [same] at isShown
  exact List.mem_map.mp isShown

namespace Program

variable (program : Program)

/-- The annotated tree differs from the program only in recorded types. -/
theorem annotated_outline :
    program.infer.writeBack.1.outline = program.outline := by
  have heads :=
    congrArg (List.map (Sum.map VarHead.untyped FunHead.untyped))
      program.infer.writeBack_heads
  rw [List.map_map, List.map_map] at heads
  obtain ⟨globals, _, _, _, globalsRun, functionsRun, _⟩ := program.infer_runs
  calc program.infer.writeBack.1.outline
    _ = program.infer.writeBack.1.decls.map
          (Sum.map VarHead.untyped FunHead.untyped ∘ Decl.head) := by
        refine List.map_congr_left fun decl _ => ?_
        cases decl <;> rfl
    _ = program.infer.program.outline := by
        rw [heads]
        refine List.map_congr_left fun decl _ => ?_
        cases decl with
        | var decl => rfl
        | fn decl => exact congrArg Sum.inr (decl.head.untyped_mapTypes _)
    _ = (Program.mk globals).outline := inferFunctions_outline functionsRun
    _ = program.outline := inferGlobals_outline globalsRun

/-- Annotated globals are the inferred ones with their types narrowed. -/
theorem annotated_globals :
    program.infer.writeBack.1.globals.map VarDecl.head =
      program.infer.program.globals.map fun decl =>
        decl.head.mapTypes program.infer.found.apply := by
  rw [globals_shown _ FunDecl.head,
    globals_shown _ fun decl => decl.head.mapTypes program.infer.found.apply]
  exact congrArg (List.filterMap Sum.getLeft?) program.infer.writeBack_heads

/-- Annotated functions are the inferred ones with their types narrowed. -/
theorem annotated_functions :
    program.infer.writeBack.1.functions.map FunDecl.head =
      program.infer.program.functions.map fun decl =>
        decl.head.mapTypes program.infer.found.apply := by
  rw [functions_shown VarDecl.head,
    functions_shown fun decl => decl.head.mapTypes program.infer.found.apply]
  exact congrArg (List.filterMap Sum.getRight?) program.infer.writeBack_heads

end Program

end SplTyping
