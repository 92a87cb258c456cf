import SplTyping.Proofs.Order
import SplTyping.Proofs.StaleSlots

namespace SplTyping

/-!
# The types in the annotated tree

The annotated tree is the tree that inference leaves, narrowed by all that has
been found out. Two things are read off it for an accepted program.

The parameter types of a call are made of the types that its arguments showed
when it was checked, by one view of the call. So they agree with the recorded
types of the arguments as far as these were known then; a type variable that was
still open may be one thing to the call and become another later.

A value showed no `Void` when it was looked at. So its recorded type contains
`Void` only if a type variable that was still open has become `Void` since.
-/

/-- The types in the slots of a value are changed. -/
def Value.mapTypes (change : Ty → Ty) (value : Value) : Value where
  expr := value.expr.mapTypes change
  agrees := value.agrees

section MapTypes

variable (change : Ty → Ty)

/-- Types are changed in each expression of a list. -/
theorem Expr.mapTypesAll_eq_map (exprs : List Expr) :
    Expr.mapTypesAll change exprs = exprs.map (Expr.mapTypes change) := by
  induction exprs with
  | nil => rfl
  | cons expr rest inductionHypothesis =>
      rw [mapTypesAll, inductionHypothesis, List.map_cons]

mutual

/-- A change of types is one of all calls and values of an expression. -/
theorem Expr.nodes_mapTypes (expr : Expr) :
    (expr.mapTypes change).calls = expr.calls.map (Call.mapTypes change) ∧
      (expr.mapTypes change).values =
        expr.values.map (Value.mapTypes change) := by
  cases expr with
  | int | bool | char | nil => exact ⟨rfl, rfl⟩
  | read place => exact Place.nodes_mapTypes place
  | pair first second | binary _ first second =>
      obtain ⟨firstCalls, firstValues⟩ := Expr.nodes_mapTypes first
      obtain ⟨secondCalls, secondValues⟩ := Expr.nodes_mapTypes second
      simp [Expr.mapTypes, Expr.calls, Expr.values, Value.mapTypes, firstCalls,
        firstValues, secondCalls, secondValues]
  | range first last =>
      obtain ⟨firstCalls, firstValues⟩ := Expr.nodes_mapTypes first
      obtain ⟨lastCalls, lastValues⟩ := Expr.nodes_mapTypes last
      simp [Expr.mapTypes, Expr.calls, Expr.values, firstCalls, firstValues,
        lastCalls, lastValues]
  | unary _ operand => exact Expr.nodes_mapTypes operand
  | call made => exact Call.nodes_mapTypes made
termination_by structural expr

/-- A change of types is one of all calls and values of a place. -/
theorem Place.nodes_mapTypes (place : Place) :
    (place.mapTypes change).calls = place.calls.map (Call.mapTypes change) ∧
      (place.mapTypes change).values =
        place.values.map (Value.mapTypes change) := by
  cases place with
  | mk name fields => exact Field.nodes_mapTypesAll fields
termination_by structural place

/-- A change of types is one of all calls and values of a field. -/
theorem Field.nodes_mapTypes (field : Field) :
    (field.mapTypes change).calls = field.calls.map (Call.mapTypes change) ∧
      (field.mapTypes change).values =
        field.values.map (Value.mapTypes change) := by
  cases field with
  | hd | tl | fst | snd => exact ⟨rfl, rfl⟩
  | index position => exact Expr.nodes_mapTypes position
termination_by structural field

theorem Field.nodes_mapTypesAll (fields : List Field) :
    Field.callsAll (Field.mapTypesAll change fields) =
        (Field.callsAll fields).map (Call.mapTypes change) ∧
      Field.valuesAll (Field.mapTypesAll change fields) =
        (Field.valuesAll fields).map (Value.mapTypes change) := by
  cases fields with
  | nil => exact ⟨rfl, rfl⟩
  | cons field rest =>
      obtain ⟨fieldCalls, fieldValues⟩ := Field.nodes_mapTypes field
      obtain ⟨restCalls, restValues⟩ := Field.nodes_mapTypesAll rest
      simp [Field.mapTypesAll, Field.callsAll, Field.valuesAll, fieldCalls,
        fieldValues, restCalls, restValues]
termination_by structural fields

/-- A change of types is one of a call and of all calls and values inside. -/
theorem Call.nodes_mapTypes (call : Call) :
    (call.mapTypes change).calls = call.calls.map (Call.mapTypes change) ∧
      (call.mapTypes change).values =
        call.values.map (Value.mapTypes change) := by
  cases call with
  | mk callee args mark waiting =>
      obtain ⟨argsCalls, argsValues⟩ := Expr.nodes_mapTypesAll args
      rw [Expr.mapTypesAll_eq_map] at argsCalls argsValues
      simp [Call.mapTypes, Call.calls, Call.values, Value.mapTypes, argsCalls,
        argsValues, Expr.mapTypesAll_eq_map]
termination_by structural call

theorem Expr.nodes_mapTypesAll (exprs : List Expr) :
    Expr.callsAll (Expr.mapTypesAll change exprs) =
        (Expr.callsAll exprs).map (Call.mapTypes change) ∧
      Expr.valuesAll (Expr.mapTypesAll change exprs) =
        (Expr.valuesAll exprs).map (Value.mapTypes change) := by
  cases exprs with
  | nil => exact ⟨rfl, rfl⟩
  | cons expr rest =>
      obtain ⟨exprCalls, exprValues⟩ := Expr.nodes_mapTypes expr
      obtain ⟨restCalls, restValues⟩ := Expr.nodes_mapTypesAll rest
      simp [Expr.mapTypesAll, Expr.callsAll, Expr.valuesAll, exprCalls,
        exprValues, restCalls, restValues]
termination_by structural exprs

end

mutual

/-- A change of types is one of all calls and values of a statement. -/
theorem Stmt.nodes_mapTypes (stmt : Stmt) :
    (stmt.mapTypes change).calls = stmt.calls.map (Call.mapTypes change) ∧
      (stmt.mapTypes change).values =
        stmt.values.map (Value.mapTypes change) := by
  match stmt with
  | .ifElse condition thenBody elseBody _ =>
      obtain ⟨headCalls, headValues⟩ := Expr.nodes_mapTypes change condition
      obtain ⟨thenCalls, thenValues⟩ := Stmt.nodes_mapTypesAll thenBody
      obtain ⟨elseCalls, elseValues⟩ := Stmt.nodes_mapTypesAll elseBody
      simp [Stmt.mapTypes, Stmt.calls, Stmt.values, headCalls, headValues,
        thenCalls, thenValues, elseCalls, elseValues]
  | .whileDo head body _ | .forIn _ head body _ =>
      obtain ⟨headCalls, headValues⟩ := Expr.nodes_mapTypes change head
      obtain ⟨bodyCalls, bodyValues⟩ := Stmt.nodes_mapTypesAll body
      simp [Stmt.mapTypes, Stmt.calls, Stmt.values, headCalls, headValues,
        bodyCalls, bodyValues]
  | .assign target value _ =>
      obtain ⟨targetCalls, targetValues⟩ := Place.nodes_mapTypes change target
      obtain ⟨valueCalls, valueValues⟩ := Expr.nodes_mapTypes change value
      simp [Stmt.mapTypes, Stmt.calls, Stmt.values, Expr.mapTypes,
        Value.mapTypes, targetCalls, targetValues, valueCalls, valueValues]
  | .call made => exact Call.nodes_mapTypes change made
  | .ret none _ => exact ⟨rfl, rfl⟩
  | .ret (some value) _ =>
      obtain ⟨valueCalls, valueValues⟩ := Expr.nodes_mapTypes change value
      simp [Stmt.mapTypes, Stmt.calls, Stmt.values, Value.mapTypes, valueCalls,
        valueValues]
termination_by structural stmt

theorem Stmt.nodes_mapTypesAll (stmts : List Stmt) :
    Stmt.callsAll (Stmt.mapTypesAll change stmts) =
        (Stmt.callsAll stmts).map (Call.mapTypes change) ∧
      Stmt.valuesAll (Stmt.mapTypesAll change stmts) =
        (Stmt.valuesAll stmts).map (Value.mapTypes change) := by
  cases stmts with
  | nil => exact ⟨rfl, rfl⟩
  | cons stmt rest =>
      obtain ⟨stmtCalls, stmtValues⟩ := Stmt.nodes_mapTypes stmt
      obtain ⟨restCalls, restValues⟩ := Stmt.nodes_mapTypesAll rest
      simp [Stmt.mapTypesAll, Stmt.callsAll, Stmt.valuesAll, stmtCalls,
        stmtValues, restCalls, restValues]
termination_by structural stmts

end

/-- A change of types is one of all calls and values of a declaration. -/
theorem VarDecl.nodes_mapTypes (decl : VarDecl) :
    (decl.mapTypes change).calls = decl.calls.map (Call.mapTypes change) ∧
      (decl.mapTypes change).values =
        decl.values.map (Value.mapTypes change) := by
  obtain ⟨valueCalls, valueValues⟩ := Expr.nodes_mapTypes change decl.value
  simp [mapTypes, calls, values, Value.mapTypes, valueCalls, valueValues]

theorem Decl.nodes_mapTypes (decl : Decl) :
    (decl.mapTypes change).calls = decl.calls.map (Call.mapTypes change) ∧
      (decl.mapTypes change).values =
        decl.values.map (Value.mapTypes change) := by
  cases decl with
  | var decl => exact VarDecl.nodes_mapTypes change decl
  | fn decl =>
      obtain ⟨bodyCalls, bodyValues⟩ :=
        Stmt.nodes_mapTypesAll change decl.body
      simp [mapTypes, FunDecl.mapTypes, calls, values, FunDecl.calls,
        FunDecl.values, List.flatMap_map, List.map_flatMap,
        VarDecl.nodes_mapTypes, bodyCalls, bodyValues]

/-- A change of types is one of all calls of a program. -/
theorem Program.calls_mapTypes (program : Program) :
    (program.mapTypes change).calls =
      program.calls.map (Call.mapTypes change) := by
  simp [mapTypes, calls, List.flatMap_map, List.map_flatMap,
    Decl.nodes_mapTypes]

/-- A change of types is one of all values of a program. -/
theorem Program.values_mapTypes (program : Program) :
    (program.mapTypes change).values =
      program.values.map (Value.mapTypes change) := by
  simp [mapTypes, values, List.flatMap_map, List.map_flatMap,
    Decl.nodes_mapTypes]

/-- A change of types is one of all declared variables of a program. -/
theorem Program.varDecls_mapTypes (program : Program) :
    (program.mapTypes change).varDecls =
      program.varDecls.map (VarDecl.mapTypes change) := by
  simp only [mapTypes, varDecls, List.flatMap_map, List.map_flatMap]
  congr 1
  funext decl
  cases decl <;> rfl

end MapTypes

/-- What an expression shows is narrowed with its slots. -/
theorem Expr.Shown.mapTypes
    {expr : Expr}
    {ty : Ty}
    (shown : expr.Shown ty)
    (found : Substitution) :
    (expr.mapTypes found.apply).Shown (found.apply ty) := by
  cases expr with
  | call made =>
      obtain ⟨callee, args, mark, waiting⟩ := made
      obtain ⟨params, recorded⟩ := shown
      exact ⟨_, congrArg (Option.map found.apply) recorded⟩
  | read place =>
      obtain ⟨name, fields, mark⟩ := place
      exact congrArg (Option.map found.apply) shown
  | _ => exact congrArg (Option.map found.apply) shown

/-- A narrowed tree has types where the tree had them. -/
theorem Expr.ty?_of_mapTypes
    {expr : Expr}
    {change : Ty → Ty}
    {ty : Ty}
    (recorded : (expr.mapTypes change).ty? = some ty) :
    ∃ early, expr.ty? = some early := by
  cases expr with
  | call made =>
      obtain ⟨callee, args, mark, waiting⟩ := made
      simp only [mapTypes, Call.mapTypes, Mark.mapTypes, ty?,
        Option.map_eq_some_iff] at recorded
      obtain ⟨_, ⟨slot, isSlot, _⟩, _⟩ := recorded
      exact ⟨slot.callResult, congrArg (Option.map Ty.callResult) isSlot⟩
  | read place =>
      obtain ⟨name, fields, mark⟩ := place
      obtain ⟨early, isEarly, _⟩ := Option.map_eq_some_iff.mp recorded
      exact ⟨early, isEarly⟩
  | _ =>
      obtain ⟨early, isEarly, _⟩ := Option.map_eq_some_iff.mp recorded
      exact ⟨early, isEarly⟩

namespace ArgsShow

variable {args : List Expr} {types : List Ty}

/-- There is a type for each argument. -/
theorem length_eq (shows : ArgsShow args types) : args.length = types.length := by
  induction shows with
  | nil => rfl
  | cons _ _ inductionHypothesis => exact congrArg (· + 1) inductionHypothesis

/-- An argument that was not set aside shows the type at its position. -/
theorem at_index
    {index : Nat}
    {arg : Expr}
    (shows : ArgsShow args types)
    (isArg : args[index]? = some arg) :
    ∃ ty, types[index]? = some ty ∧
      (arg.stamp? = none → arg.InitPlain → arg.Shown ty) := by
  induction shows generalizing index with
  | nil => cases isArg
  | @cons _ _ ty _ shown _ inductionHypothesis =>
      cases index with
      | zero =>
          cases isArg
          exact ⟨ty, rfl, shown⟩
      | succ index => exact inductionHypothesis isArg

end ArgsShow

/--
How the parameter types of an annotated call follow its arguments; `early` is
the call before it was narrowed by `found`. Each parameter type is made of what
the argument showed when the call was checked, by one view of the call, and then
narrowed like the argument itself. The two are equal if what the argument showed
mentions no type variables.

Nothing is said about an argument that is a call which waited, or a call with
arguments before its last one that are not plain.
-/
structure Call.ParamsFollow
    (found : Substitution)
    (early call : Call)
    (params : List Ty) :
    Prop where
  narrowed : call = early.mapTypes found.apply
  sameLength : params.length = call.args.length
  follow :
    ∃ view : Substitution, ∀ (index : Nat) (arg : Expr),
      early.args[index]? = some arg → arg.stamp? = none → arg.InitPlain →
        ∃ shown, arg.Shown shown ∧
          call.args[index]?.bind Expr.ty? = some (found.apply shown) ∧
          params[index]? = some (found.apply (view.apply shown)) ∧
          (shown.vars = [] →
            params[index]? = call.args[index]?.bind Expr.ty?)

/-- The parameters that a call meets are followed by its final ones. -/
theorem Call.Meets.paramsFollow
    {early : Call}
    {ty : Ty}
    (meets : early.Meets)
    (recorded : early.mark.ty = some ty)
    (found : Substitution) :
    ∃ params result, found.apply ty = .fn params result ∧
      early.ParamsFollow found (early.mapTypes found.apply) params := by
  obtain ⟨types, view, result, shows, rfl⟩ := meets ty recorded
  obtain ⟨callee, args, mark, waiting⟩ := early
  have narrowedArgs :
      (Call.mapTypes found.apply ⟨callee, args, mark, waiting⟩).args =
        args.map (Expr.mapTypes found.apply) :=
    Expr.mapTypesAll_eq_map _ args
  refine ⟨(types.map view.apply).map found.apply, found.apply result, ?_,
    { narrowed := rfl, sameLength := ?_, follow := ⟨view, ?_⟩ }⟩
  · rw [Substitution.apply, Ty.instantiate, Ty.instantiateAll_eq_map]
    rfl
  · rw [narrowedArgs, List.length_map, List.length_map, List.length_map,
      shows.length_eq]
  · intro index arg isArg isNone initPlain
    obtain ⟨shown, isShown, shownBy⟩ := shows.at_index isArg
    have argShows := shownBy isNone initPlain
    have argTy :
        (args.map (Expr.mapTypes found.apply))[index]?.bind Expr.ty? =
          some (found.apply shown) := by
      have isArg : args[index]? = some arg := isArg
      rw [List.getElem?_map, isArg]
      exact (argShows.mapTypes found).ty?_eq
    have paramTy :
        ((types.map view.apply).map found.apply)[index]? =
          some (found.apply (view.apply shown)) := by
      rw [List.getElem?_map, List.getElem?_map, isShown]
      rfl
    rw [narrowedArgs]
    refine ⟨shown, argShows, argTy, paramTy, fun closed => ?_⟩
    have untouched : view.apply shown = shown := by
      refine Substitution.apply_of_unbound fun id member => ?_
      rw [closed] at member
      cases member
    rw [paramTy, argTy, untouched]

/-- No call of the two functions for parity has a number at the start. -/
theorem parityProgram_unstamped :
    ∀ call ∈ parityProgram.calls, call.waiting = none :=
  Program.Blank.unstamped rfl

/-- The two functions for parity are accepted. -/
theorem parityProgram_accepted : parityProgram.Accepted := by
  cbv

/--
In an accepted program, the parameter types of every call follow the types of
its arguments. Slots may be filled beforehand as long as calls carry no numbers;
all but the slots stays as it was.
-/
theorem typeCheck_call_params
    {program annotated : Program}
    {source : String}
    {config : ReportConfig}
    {checked : Checked}
    (unstamped : ∀ call ∈ program.calls, call.waiting = none)
    (accepted : typeCheck program source config = (annotated, .ok checked)) :
    annotated.erased .slots = program.erased .slots ∧
      ∀ call ∈ annotated.calls, ∀ ty, call.mark.ty = some ty →
        ∃ early ∈ program.infer.tree.calls, ∃ params result,
          ty = .fn params result ∧
            early.ParamsFollow program.infer.found call params := by
  obtain ⟨isAccepted, isAnnotated, _⟩ := typeCheck_ok accepted
  obtain ⟨nodes, _⟩ := isAccepted.tree_good unstamped
  have isErased := typeCheck_tree_erased unstamped source config
  rw [accepted] at isErased
  have isNarrowed :
      annotated = program.infer.tree.mapTypes program.infer.found.apply :=
    isAnnotated
  refine ⟨isErased, ?_⟩
  rw [isNarrowed, Program.calls_mapTypes]
  intro call member ty recorded
  obtain ⟨early, isEarly, rfl⟩ := List.mem_map.mp member
  obtain ⟨earlyTy, isTy, rfl⟩ : ∃ earlyTy,
      early.mark.ty = some earlyTy ∧ program.infer.found.apply earlyTy = ty := by
    obtain ⟨callee, args, mark, waiting⟩ := early
    exact Option.map_eq_some_iff.mp recorded
  exact ⟨early, isEarly,
    (nodes.calls early isEarly).paramsFollow isTy program.infer.found⟩

theorem parityProgram_call_params :
    (∀ call ∈ parityProgram.calls, call.waiting = none) ∧
      ∃ annotated checked,
        typeCheck parityProgram "" .plain = (annotated, .ok checked) ∧
        annotated.calls.map (fun call => call.mark.ty) =
          [some (.fn [.int] .bool), some (.fn [.int] .bool)] ∧
        annotated.erased .slots = parityProgram.erased .slots ∧
        ∀ call ∈ annotated.calls, ∀ ty, call.mark.ty = some ty →
          ∃ early ∈ parityProgram.infer.tree.calls, ∃ params result,
            ty = .fn params result ∧
              early.ParamsFollow parityProgram.infer.found call params := by
  obtain ⟨annotated, checked, accepted⟩ :=
    parityProgram_accepted.exists_annotated "" .plain
  have callTypes :
      (typeCheck parityProgram "" .plain).1.calls.map
          (fun call => call.mark.ty) =
        [some (.fn [.int] .bool), some (.fn [.int] .bool)] := by cbv
  rw [accepted] at callTypes
  exact ⟨parityProgram_unstamped, annotated, checked, accepted, callTypes,
    typeCheck_call_params parityProgram_unstamped accepted⟩

/--
A call is checked at `Int`, and the variable that it was given becomes a truth
value afterwards.
-/
theorem typeCheck_call_param_differs :
    (∃ checked,
        (typeCheck ⟨[.fn successorDecl, .fn reassignDecl]⟩ "" .plain).2 =
          .ok checked) ∧
      ((typeCheck ⟨[.fn successorDecl, .fn reassignDecl]⟩ "" .plain).1.calls.map
          fun call => (call.mark.ty, call.args.map Expr.ty?)) =
        [(some (.fn [.int] .int), [some .bool])] := by
  rw [typeCheck_ok_iff]
  constructor
  · cbv
  · cbv

/--
When a type is recorded as containing `Void`; `shown` is the type before it was
narrowed by `found`. It is so exactly if a type variable that was still open
has become `Void`.
-/
structure VoidComesLater (found : Substitution) (shown ty : Ty) : Prop where
  narrowed : ty = found.apply shown
  void_iff :
    ty.contains .void = true ↔
      ∃ id ∈ shown.vars, (found.apply (.var id)).contains .void = true

/-- A type that is shown without void may have it only for its variables. -/
theorem VoidComesLater.of_shown
    {shown : Ty}
    (isValue : shown.contains .void = false)
    (found : Substitution) :
    VoidComesLater found shown (found.apply shown) where
  narrowed := rfl
  void_iff := by
    rw [Substitution.apply, Ty.contains_void_instantiate, isValue]
    simp [Substitution.apply, Ty.instantiate]

/--
In an accepted program, the recorded type of a value contains `Void` exactly if
a type variable that was open when the value was looked at has become `Void`
since; calls that do not show their type are left out. The same holds for the
recorded type of a declared variable. Slots may be filled beforehand as long as
calls carry no numbers; all but the slots stays as it was.
-/
theorem typeCheck_void_values
    {program annotated : Program}
    {source : String}
    {config : ReportConfig}
    {checked : Checked}
    (unstamped : ∀ call ∈ program.calls, call.waiting = none)
    (accepted : typeCheck program source config = (annotated, .ok checked)) :
    annotated.erased .slots = program.erased .slots ∧
      (∀ value ∈ annotated.values, ∀ ty, value.expr.ty? = some ty →
        ∃ early ∈ program.infer.tree.values,
          value = early.mapTypes program.infer.found.apply ∧
            (early.Plain →
              ∃ shown, early.expr.ty? = some shown ∧
                VoidComesLater program.infer.found shown ty)) ∧
      ∀ decl ∈ annotated.varDecls, ∀ ty, decl.mark.ty = some ty →
        ∃ early ∈ program.infer.tree.varDecls,
          decl = early.mapTypes program.infer.found.apply ∧
            ∃ shown, early.mark.ty = some shown ∧
              VoidComesLater program.infer.found shown ty := by
  obtain ⟨isAccepted, isAnnotated, _⟩ := typeCheck_ok accepted
  obtain ⟨nodes, slotsVoidFree⟩ := isAccepted.tree_good unstamped
  have isErased := typeCheck_tree_erased unstamped source config
  rw [accepted] at isErased
  have isNarrowed :
      annotated = program.infer.tree.mapTypes program.infer.found.apply :=
    isAnnotated
  refine ⟨isErased, ?_⟩
  rw [isNarrowed, Program.values_mapTypes, Program.varDecls_mapTypes]
  constructor
  · intro value member ty recorded
    obtain ⟨early, isEarly, rfl⟩ := List.mem_map.mp member
    refine ⟨early, isEarly, rfl, fun plain => ?_⟩
    obtain ⟨shown, isShown⟩ := Expr.ty?_of_mapTypes recorded
    obtain ⟨shows, isValue⟩ :=
      (nodes.values early isEarly).1 plain shown isShown
    rw [Value.mapTypes, (shows.mapTypes program.infer.found).ty?_eq,
      Option.some.injEq] at recorded
    refine ⟨shown, isShown, ?_⟩
    rw [← recorded]
    exact .of_shown isValue program.infer.found
  · intro decl member ty recorded
    obtain ⟨early, isEarly, rfl⟩ := List.mem_map.mp member
    obtain ⟨shown, isShown, rfl⟩ := Option.map_eq_some_iff.mp recorded
    exact ⟨early, isEarly, rfl, shown, isShown,
      .of_shown (slotsVoidFree early isEarly shown isShown)
        program.infer.found⟩

theorem parityProgram_void_values :
    (∀ call ∈ parityProgram.calls, call.waiting = none) ∧
      ∃ annotated checked,
        typeCheck parityProgram "" .plain = (annotated, .ok checked) ∧
        annotated.values.length = 14 ∧
        annotated.values.all (fun value => value.expr.ty?.isSome) = true ∧
        ∀ value ∈ annotated.values, ∀ ty, value.expr.ty? = some ty →
          ∃ early ∈ parityProgram.infer.tree.values,
            value = early.mapTypes parityProgram.infer.found.apply ∧
              (early.Plain →
                ∃ shown, early.expr.ty? = some shown ∧
                  VoidComesLater parityProgram.infer.found shown ty) := by
  obtain ⟨annotated, checked, accepted⟩ :=
    parityProgram_accepted.exists_annotated "" .plain
  have valueCount :
      (typeCheck parityProgram "" .plain).1.values.length = 14 := by cbv
  have valuesRecorded :
      (typeCheck parityProgram "" .plain).1.values.all
          (fun value => value.expr.ty?.isSome) =
        true := by cbv
  rw [accepted] at valueCount valuesRecorded
  exact ⟨parityProgram_unstamped, annotated, checked, accepted, valueCount,
    valuesRecorded, (typeCheck_void_values parityProgram_unstamped accepted).2.1⟩

/-- A function that overwrites an argument, returns it, and then returns nothing. -/
def forgetfulDecl : FunDecl where
  name := .ofText "forgetful"
  args := [.ofText "x", .ofText "y"]
  written := none
  locals := []
  body :=
    [.assign (.ofFields "x" []) (.ofText "y") .unknown,
      .ret (some (.ofText "x")) .unknown,
      .ret none .unknown]
  mark := .blank

/-- An argument is assigned and returned, and becomes `Void` afterwards. -/
theorem typeCheck_void_assigned :
    (∃ checked, (typeCheck ⟨[.fn forgetfulDecl]⟩ "" .plain).2 = .ok checked) ∧
      ((typeCheck ⟨[.fn forgetfulDecl]⟩ "" .plain).1.values.map
          fun value => value.expr.ty?) =
        [some .void, some .void, some .void] := by
  rw [typeCheck_ok_iff]
  constructor
  · cbv
  · cbv

end SplTyping
