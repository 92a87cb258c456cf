import SplTyping.Proofs.Order

namespace SplTyping

/-!
# Names that are split

A written signature says that two places have the same type by giving them one
name. If a program is typed by the rules, with distinct names for distinct type
variables, then the check finds nothing else to complain about: every error is
about a function that could be given a more general type, one in which a name is
split into two variables (`typeCheck_names_split`). No name can be split that is
written once.

What a function has been inferred to be is compared with its signature right
after its body. By then a call that waits has not been checked, and what a call
asks of arguments whose types are open has been forgotten.
-/

/--
In a program that is typed by the rules, with names that stand for distinct type
variables, every error is about a name that is split. If no signature repeats a
name, the program is accepted.
-/
theorem typeCheck_names_split
    {program : Program}
    {scope : Scope}
    (typed : ProgramTyped .inferable scope program)
    (generic : ∀ decl ∈ program.functions, GenericallyTyped scope decl)
    (source : String)
    (config : ReportConfig) :
    (∀ failure, (typeCheck program source config).2 = .error failure →
        ∀ error ∈ failure.errors,
          ∃ decl ∈ program.functions, ∃ signature,
            scope.funs decl.name.text = some signature ∧
              SplitName signature decl error) ∧
      ((∀ decl ∈ program.functions, ∀ written ∈ decl.written,
          written.names.Nodup) →
        ∃ checked, (typeCheck program source config).2 = .ok checked) := by
  refine ⟨?_, ?_⟩
  · intro failure failed error isError
    obtain ⟨_, rfl⟩ := typeCheck_error_iff.mp failed
    exact typed.errors_split generic error isError
  · intro once
    exact typeCheck_ok_iff.mpr (typed.accepted_of_nodup generic once)

theorem Program.functions_map (decls : List FunDecl) :
    Program.functions ⟨decls.map .fn⟩ = decls := by
  simp [Program.functions, List.filterMap_map, Function.comp_def, Decl.fn?]

/-- A function that returns a number, whatever its two arguments are. -/
def numberDecl (name first second : String) (number : Expr) : FunDecl where
  name := .ofText name
  args := [.ofText "x", .ofText "y"]
  written := some ⟨[.named first, .named second], .int, .unknown⟩
  locals := []
  body := [.ret (some number) .unknown]
  mark := .blank

/-- The scope of functions that return a number. -/
def numberScope (names : List String) (first second : TypeVar) : Scope where
  vars := fun _ => none
  funs := fun name =>
    if name ∈ names then some ⟨[.var first, .var second], .int⟩ else none

/-- A function of this form is well typed if its value is a number. -/
theorem numberDecl_typed
    {name first second : String}
    {number : Expr}
    {names : List String}
    {named : String → Ty}
    {firstVar secondVar : TypeVar}
    (isName : name ∈ names)
    (isFirst : named first = .var firstVar)
    (isSecond : named second = .var secondVar)
    (apart : firstVar = secondVar → first = second)
    (has :
      HasType .inferable
        ((numberScope names firstVar secondVar).bindArgs
          [.ofText "x", .ofText "y"] [.var firstVar, .var secondVar])
        number .int) :
    GenericallyTyped (numberScope names firstVar secondVar)
      (numberDecl name first second number) := by
  refine ⟨⟨[.var firstVar, .var secondVar], .int⟩, named,
    (numberScope names firstVar secondVar).bindArgs [.ofText "x", .ofText "y"]
      [.var firstVar, .var secondVar], ?_, ?_⟩
  · exact
      { known := if_pos isName
        distinct := by simp [numberDecl, Name.ofText]
        sameLength := rfl
        localsTyped := .nil
        bodyTyped := .cons (.returnValue has rfl) .nil
        written := by
          rintro _ ⟨⟩
          rw [← isFirst, ← isSecond]
          rfl
        recorded := trivial }
  · rintro _ ⟨⟩
    have areNames :
        WrittenSignature.names
            ⟨[.named first, .named second], .int, .unknown⟩ =
          [first, second] :=
      rfl
    refine ⟨?_, ?_⟩ <;> rw [areNames]
    · simp [isFirst, isSecond]
    · simp only [List.forall_mem_cons, isFirst, isSecond, Ty.var.injEq,
        List.not_mem_nil, false_implies, implies_true, and_true, true_and]
      exact ⟨apart, fun same => (apart same.symm).symm⟩

/-- Functions that are typed for all names make a well-typed program. -/
theorem numberProgram_typed
    {decls : List FunDecl}
    {names : List String}
    {first second : TypeVar}
    (areNames : decls.map (fun decl => decl.name.text) = names)
    (distinct : names.Nodup)
    (generic :
      ∀ decl ∈ decls, GenericallyTyped (numberScope names first second) decl) :
    ProgramTyped .inferable (numberScope names first second)
      ⟨decls.map .fn⟩ where
  globalsTyped := by
    have noGlobals : Program.globals ⟨decls.map .fn⟩ = [] := by
      simp [Program.globals, Decl.var?]
    rw [noGlobals]
    exact .nil
  functionsTyped := by
    intro decl member
    rw [Program.functions_map] at member
    obtain ⟨signature, named, inner, typed, _⟩ := generic decl member
    exact ⟨signature, named, inner, typed⟩
  distinct := by
    rw [Program.functions_map, areNames]
    exact distinct
  declared := by
    intro name signature inScope
    rw [Program.functions_map]
    simp only [numberScope] at inScope
    split at inScope
    · rename_i isName
      rw [← areNames] at isName
      exact List.mem_map.mp isName
    · cases inScope

/-- A function that passes its arguments on to a function declared after it. -/
def passingDecls : List FunDecl :=
  [numberDecl "outer" "c" "d"
      (.call (.ofText "inner" [.ofText "x", .ofText "y"])),
    numberDecl "inner" "a" "b" (.int 1 .blank)]

theorem passingDecls_typed :
    ∀ decl ∈ passingDecls,
      GenericallyTyped (numberScope ["outer", "inner"] 0 1) decl := by
  have argument {name : String} {ty : Ty}
      (bound :
        ((numberScope ["outer", "inner"] 0 1).bindArgs
            [.ofText "x", .ofText "y"] [.var 0, .var 1]).vars name =
          some ty) :
      HasType .inferable
        ((numberScope ["outer", "inner"] 0 1).bindArgs
          [.ofText "x", .ofText "y"] [.var 0, .var 1])
        (.ofText name) ty :=
    .read (.select bound .nil trivial)
  have arguments :
      ArgsHaveTypes .inferable
        ((numberScope ["outer", "inner"] 0 1).bindArgs
          [.ofText "x", .ofText "y"] [.var 0, .var 1])
        [.ofText "x", .ofText "y"] [.var 0, .var 1] :=
    .cons (argument rfl) rfl (.cons (argument rfl) rfl .nil)
  have known :
      (numberScope ["outer", "inner"] 0 1).funs (Name.ofText "inner").text =
        some ⟨[.var 0, .var 1], .int⟩ :=
    rfl
  let named (name : String) : Ty :=
    if name = "a" ∨ name = "c" then .var 0 else .var 1
  rw [passingDecls, List.forall_mem_cons, List.forall_mem_singleton]
  refine
    ⟨numberDecl_typed (by simp) (rfl : named "c" = _) (rfl : named "d" = _)
        nofun (.call ?_),
      numberDecl_typed (by simp) (rfl : named "a" = _) (rfl : named "b" = _)
        nofun (.int trivial)⟩
  exact @CallHasType.apply .inferable _ _ _ .blank none
    ⟨[.var 0, .var 1], .int⟩ known arguments trivial

/-- A function whose arguments have one type, though nothing is done with them. -/
def splitDecls : List FunDecl :=
  [numberDecl "f" "a" "a" (.int 1 .blank)]

theorem splitDecls_typed :
    ∀ decl ∈ splitDecls, GenericallyTyped (numberScope ["f"] 0 0) decl := by
  rw [splitDecls, List.forall_mem_singleton]
  let named (_ : String) : Ty := .var 0
  exact numberDecl_typed (by simp) (rfl : named "a" = _) (rfl : named "a" = _)
    (fun _ => rfl) (.int trivial)

theorem splitDecls_fails :
    ∃ failure,
      (typeCheck ⟨splitDecls.map .fn⟩ "" .plain).2 = .error failure ∧
        failure.errors =
          [.sharing "f" (.fn [.var 5, .var 5] .int)
            (.fn [.var 1, .var 2] .int) .unknown] := by
  have errors :
      (Program.infer ⟨splitDecls.map .fn⟩).state.diagnostics.errors =
        [.sharing "f" (.fn [.var 5, .var 5] .int) (.fn [.var 1, .var 2] .int)
          .unknown] := by
    cbv
  exact typeCheck_fails errors (List.cons_ne_nil _ _) "" .plain

/-- One program is accepted, and another fails because a name is split. -/
theorem numberPrograms_names_split :
    (∃ checked,
        (typeCheck ⟨passingDecls.map .fn⟩ "" .plain).2 = .ok checked) ∧
      ∃ failure,
        (typeCheck ⟨splitDecls.map .fn⟩ "" .plain).2 = .error failure ∧
          failure.errors ≠ [] ∧
          ∀ error ∈ failure.errors,
            ∃ decl ∈ Program.functions ⟨splitDecls.map .fn⟩, ∃ signature,
              (numberScope ["f"] 0 0).funs decl.name.text = some signature ∧
                SplitName signature decl error := by
  refine ⟨?_, ?_⟩
  · have typed := numberProgram_typed rfl (by decide) passingDecls_typed
    have generic := passingDecls_typed
    rw [← Program.functions_map passingDecls] at generic
    refine (typeCheck_names_split typed generic "" .plain).2 ?_
    rw [Program.functions_map]
    decide
  · have typed := numberProgram_typed rfl (by decide) splitDecls_typed
    have generic := splitDecls_typed
    rw [← Program.functions_map splitDecls] at generic
    obtain ⟨failure, failed, areErrors⟩ := splitDecls_fails
    refine ⟨failure, failed, ?_, ?_⟩
    · rw [areErrors]
      exact List.cons_ne_nil _ _
    · exact (typeCheck_names_split typed generic "" .plain).1 failure failed

/-- A name may be split in a program that is typed by the rules. -/
theorem typeCheck_splits_name :
    ProgramTyped .inferable (numberScope ["f"] 0 0) ⟨splitDecls.map .fn⟩ ∧
      (∀ decl ∈ Program.functions ⟨splitDecls.map .fn⟩,
        GenericallyTyped (numberScope ["f"] 0 0) decl) ∧
      ∃ failure,
        (typeCheck ⟨splitDecls.map .fn⟩ "" .plain).2 = .error failure ∧
          failure.errors =
            [.sharing "f" (.fn [.var 5, .var 5] .int)
              (.fn [.var 1, .var 2] .int) .unknown] := by
  refine ⟨numberProgram_typed rfl (by decide) splitDecls_typed, ?_,
    splitDecls_fails⟩
  rw [Program.functions_map]
  exact splitDecls_typed

end SplTyping
