import SplTyping.Proofs.Runs.Decl

namespace SplTyping

/-!
# Runs over programs

Global variables come first and functions second, both in the order of the
source. What a declaration has found out is settled before the next one.
-/

/-- The state after a declaration is finished. -/
def State.settle (state : State) (found : Substitution) : State :=
  { state with settled := state.settled ++ found }

/-- Settling puts findings behind all earlier ones. -/
theorem runs_settleFindings
    {found : Substitution}
    {before after : State}
    {result : Unit} :
    Runs (settleFindings found) before result after ↔
      after = before.settle found :=
  runs_modify

/-- How the inference of global variables runs. -/
inductive GlobalsRun (context : Context) (before : State) :
    List Decl → List Decl → Context → State → Prop where
  | nil : GlobalsRun context before [] [] context before
  | var
      {decl decl' : VarDecl}
      {rest rest' : List Decl}
      {between context' : Context}
      {found : Substitution}
      {middle after : State}
      (declRun :
        Runs (inferVarDecl decl context (.var before.nextVar))
          (before.draw 1).unnamed (decl', between, found) middle)
      (restRun :
        Runs (inferGlobals rest (between.narrow found)) (middle.settle found)
          (rest', context') after) :
      GlobalsRun context before
        (.var decl :: rest) (.var decl' :: rest') context' after
  | fn
      {decl : FunDecl}
      {rest rest' : List Decl}
      {context' : Context}
      {after : State}
      (restRun :
        Runs (inferGlobals rest context) before (rest', context') after) :
      GlobalsRun context before
        (.fn decl :: rest) (.fn decl :: rest') context' after

/-- Every run of inference on globals is of one of the listed forms. -/
theorem globalsRun_of_runs
    {decls decls' : List Decl}
    {context context' : Context}
    {before after : State}
    (run :
      Runs (inferGlobals decls context) before (decls', context') after) :
    GlobalsRun context before decls decls' context' after := by
  match decls, run with
  | [], run =>
      simp only [inferGlobals, runs_pure, Prod.mk.injEq] at run
      obtain ⟨⟨rfl, rfl⟩, rfl⟩ := run
      exact .nil
  | .var decl :: rest, run =>
      simp only [inferGlobals, runs_bind, runs_fresh, runs_resetNames,
        runs_settleFindings, runs_pure, Prod.exists, Prod.mk.injEq] at run
      obtain ⟨_, _, ⟨rfl, rfl⟩, _, _, rfl, _, _, _, _, declRun, _, _, rfl, _,
        _, _, restRun, ⟨rfl, rfl⟩, rfl⟩ := run
      exact .var declRun restRun
  | .fn decl :: rest, run =>
      simp only [inferGlobals, runs_bind, runs_pure, Prod.exists,
        Prod.mk.injEq] at run
      obtain ⟨_, _, _, restRun, ⟨rfl, rfl⟩, rfl⟩ := run
      exact .fn restRun

/-- How the inference of functions runs. -/
inductive FunctionsRun (context : Context) (before : State) :
    List Decl → List Decl → Context → State → Prop where
  | nil : FunctionsRun context before [] [] context before
  | fn
      {decl decl' : FunDecl}
      {rest rest' : List Decl}
      {between context' : Context}
      {found : Substitution}
      {middle after : State}
      (declRun :
        Runs (inferFunDecl decl context (.var before.nextVar)) (before.draw 1)
          (decl', between, found) middle)
      (restRun :
        Runs (inferFunctions rest (between.narrow found)) (middle.settle found)
          (rest', context') after) :
      FunctionsRun context before
        (.fn decl :: rest) (.fn decl' :: rest') context' after
  | var
      {decl : VarDecl}
      {rest rest' : List Decl}
      {context' : Context}
      {after : State}
      (restRun :
        Runs (inferFunctions rest context) before (rest', context') after) :
      FunctionsRun context before
        (.var decl :: rest) (.var decl :: rest') context' after

/-- Every run of inference on functions is of one of the listed forms. -/
theorem functionsRun_of_runs
    {decls decls' : List Decl}
    {context context' : Context}
    {before after : State}
    (run :
      Runs (inferFunctions decls context) before (decls', context') after) :
    FunctionsRun context before decls decls' context' after := by
  match decls, run with
  | [], run =>
      simp only [inferFunctions, runs_pure, Prod.mk.injEq] at run
      obtain ⟨⟨rfl, rfl⟩, rfl⟩ := run
      exact .nil
  | .fn decl :: rest, run =>
      simp only [inferFunctions, runs_bind, runs_fresh, runs_settleFindings,
        runs_pure, Prod.exists, Prod.mk.injEq] at run
      obtain ⟨_, _, ⟨rfl, rfl⟩, _, _, _, _, declRun, _, _, rfl, _, _, _,
        restRun, ⟨rfl, rfl⟩, rfl⟩ := run
      exact .fn declRun restRun
  | .var decl :: rest, run =>
      simp only [inferFunctions, runs_bind, runs_pure, Prod.exists,
        Prod.mk.injEq] at run
      obtain ⟨_, _, _, restRun, ⟨rfl, rfl⟩, rfl⟩ := run
      exact .var restRun

end SplTyping
