import SplTyping.Proofs.Agreement

namespace SplTyping

/-!
# Recorded types and what is written

What is written for a local variable or a function is read as a type with one
type variable for each name, and the type that is recorded is that type,
narrowed. So every recorded type is an instance of what is written for it.

Within a function a name keeps its type variable, but what has been found about
that variable is not applied where the name is mentioned again. So two
ascriptions may give different types to one name; `typeCheck_name_differs` is an
example, and `typeCheck_names_shared` says when it cannot happen.
-/

namespace WrittenTy

/-- What a written type means depends on its names only. -/
theorem meaning_congr
    {named other : String → Ty}
    {written : WrittenTy}
    (agree : ∀ name ∈ written.names, named name = other name) :
    written.meaning named = written.meaning other := by
  induction written with
  | int | bool | char | void => rfl
  | list element inductionHypothesis =>
      exact congrArg Ty.list (inductionHypothesis agree)
  | pair first second firstHypothesis secondHypothesis =>
      obtain ⟨firstAgree, secondAgree⟩ := List.forall_mem_append.mp agree
      rw [meaning, firstHypothesis firstAgree, secondHypothesis secondAgree,
        meaning]
  | named name => exact agree name List.mem_cons_self

end WrittenTy

namespace WrittenSignature

/-- What a written signature means depends on its names only. -/
theorem meaning_congr
    {named other : String → Ty}
    {written : WrittenSignature}
    (agree : ∀ name ∈ written.names, named name = other name) :
    written.meaning named = written.meaning other := by
  obtain ⟨paramsAgree, resultAgree⟩ := List.forall_mem_append.mp agree
  have sameParams :
      written.params.map (WrittenTy.meaning named) =
        written.params.map (WrittenTy.meaning other) :=
    List.map_congr_left fun param member =>
      WrittenTy.meaning_congr fun name isName =>
        paramsAgree name (List.mem_flatMap.mpr ⟨param, member, isName⟩)
  rw [meaning, sameParams, WrittenTy.meaning_congr resultAgree, meaning]

end WrittenSignature

/-- Something written with names for types, and the type recorded for it. -/
structure Ascription where
  /-- The names that are mentioned. -/
  names : List String
  /-- What is meant once the names are given types. -/
  meaning : (String → Ty) → Ty
  ty : Option Ty
  meaning_congr :
    ∀ named other : String → Ty, (∀ name ∈ names, named name = other name) →
      meaning named = meaning other

namespace Ascription

/-- What is written for a variable. -/
def ofVar (written : WrittenTy) (ty : Option Ty) : Ascription where
  names := written.names
  meaning := fun named => written.meaning named
  ty := ty
  meaning_congr := fun _ _ => WrittenTy.meaning_congr

/-- What is written for a function. -/
def ofFun (written : WrittenSignature) (ty : Option Ty) : Ascription where
  names := written.names
  meaning := fun named => (written.meaning named).toTy
  ty := ty
  meaning_congr := fun _ _ agree =>
    congrArg Signature.toTy (WrittenSignature.meaning_congr agree)

/-- The ascription with its recorded type changed. -/
def mapTypes (change : Ty → Ty) (ascription : Ascription) : Ascription :=
  { ascription with ty := ascription.ty.map change }

/-- The recorded type is what is meant, with these types for the names. -/
def Holds (named : String → Ty) (ascription : Ascription) : Prop :=
  ascription.ty = some (ascription.meaning named)

/-- Ascriptions that mention different names can be read with the same types. -/
theorem exists_holds
    {ascriptions : List Ascription}
    (apart :
      ascriptions.Pairwise fun first second =>
        ∀ name ∈ first.names, name ∉ second.names)
    (each : ∀ ascription ∈ ascriptions, ∃ named, ascription.Holds named) :
    ∃ named, ∀ ascription ∈ ascriptions, ascription.Holds named := by
  induction ascriptions with
  | nil => exact ⟨fun _ => .int, nofun⟩
  | cons first rest inductionHypothesis =>
      obtain ⟨firstApart, restApart⟩ := List.pairwise_cons.mp apart
      obtain ⟨⟨firstNamed, firstHolds⟩, eachRest⟩ :=
        List.forall_mem_cons.mp each
      obtain ⟨restNamed, restHolds⟩ := inductionHypothesis restApart eachRest
      -- The first ascription decides about its own names.
      refine ⟨fun name =>
        if name ∈ first.names then firstNamed name else restNamed name,
        List.forall_mem_cons.mpr ⟨?_, fun ascription member => ?_⟩⟩
      · refine firstHolds.trans (congrArg some (first.meaning_congr _ _ ?_))
        intro name isName
        rw [if_pos isName]
      · refine (restHolds ascription member).trans
          (congrArg some (ascription.meaning_congr _ _ ?_))
        intro name isName
        rw [if_neg fun inFirst => firstApart ascription member name inFirst isName]

end Ascription

/-- What is written for a variable, if anything is. -/
def VarHead.ascription? (head : VarHead) : Option Ascription :=
  head.written.map fun written => .ofVar written head.ty

/-- What is written for the local variables of a function and for itself. -/
def FunHead.ascriptions (head : FunHead) : List Ascription :=
  head.locals.filterMap VarHead.ascription? ++
    (head.written.map fun written => Ascription.ofFun written head.ty).toList

theorem FunHead.ascriptions_mapTypes (head : FunHead) (change : Ty → Ty) :
    (head.mapTypes change).ascriptions =
      head.ascriptions.map (Ascription.mapTypes change) := by
  have locals (item : VarHead) :
      (item.mapTypes change).ascription? =
        item.ascription?.map (Ascription.mapTypes change) := by
    simp only [VarHead.ascription?, VarHead.mapTypes, Option.map_map]
    rfl
  simp only [ascriptions, mapTypes, List.map_append, List.filterMap_map,
    List.map_filterMap, Function.comp_def, locals]
  cases head.written <;> rfl

/-- What is written in the declaration of a function. -/
def FunDecl.ascriptions (decl : FunDecl) : List Ascription :=
  decl.head.ascriptions

/-- A written signature is an ascription of its function. -/
theorem FunDecl.mem_ascriptions
    {written : WrittenSignature}
    (decl : FunDecl)
    (isWritten : written ∈ decl.written) :
    Ascription.ofFun written decl.mark.ty ∈ decl.ascriptions := by
  refine List.mem_append_right _ ?_
  rw [Option.mem_toList]
  exact Option.map_eq_some_iff.mpr ⟨written, isWritten, rfl⟩

namespace State

/-- The types that an assignment gives to the names of a state. -/
def namedBy (state : State) (assign : Assignment) (name : String) : Ty :=
  (state.names.get? name).elim .int assign

/-- The types of names under an assignment agree with it. -/
theorem namedBy_agrees (state : State) (assign : Assignment) :
    state.NamesAgree assign (state.namedBy assign) := by
  intro name id known
  rw [namedBy, known, Option.elim_some]

end State

/--
A recorded type is what was read, narrowed by some of the findings. What was
read means the same as what is written, with the names of the state.
-/
inductive ReadAs
    (state : State)
    (found : Substitution)
    (meaning : (String → Ty) → Ty) :
    Ty → Prop where
  | intro
      {declared : Ty}
      {part : Substitution}
      (isPart : part ⊆ found)
      (means :
        ∀ assign named, state.NamesAgree assign named →
          meaning named = declared.instantiate assign) :
      ReadAs state found meaning (part.apply declared)

namespace ReadAs

variable {before after : State} {found more : Substitution}
variable {meaning : (String → Ty) → Ty} {ty : Ty}

/-- More names may become known, and more may be found. -/
theorem later
    (readAs : ReadAs before found meaning ty)
    (declares : before.Declares after)
    (isPart : found ⊆ more) :
    ReadAs after more meaning ty := by
  cases readAs with
  | intro isFound means =>
      exact .intro (List.Subset.trans isFound isPart) fun assign named agree =>
        means assign named (agree.of_declares declares)

/-- However a recorded type is narrowed, it is an instance of what is written. -/
theorem exists_meaning
    (readAs : ReadAs before found meaning ty)
    (last : Substitution) :
    ∃ named, last.apply ty = meaning named := by
  cases readAs with
  | @intro declared part _ means =>
      refine ⟨before.namedBy (part ++ last).image, ?_⟩
      rw [means _ _ (before.namedBy_agrees _), ← Substitution.apply_append]
      rfl

/-- A solution of all findings gives one type to each name. -/
theorem instantiate_eq
    {assign : Assignment}
    (readAs : ReadAs before found meaning ty)
    (solved : found.SolvedBy assign) :
    ty.instantiate assign = meaning (before.namedBy assign) := by
  cases readAs with
  | @intro declared part isPart means =>
      have partSolved : part.SolvedBy assign := fun binding member =>
        solved binding (isPart member)
      rw [partSolved.instantiate_apply, means _ _ (before.namedBy_agrees _)]

end ReadAs

/-- The recorded type of an ascription is what was read for it. -/
def Ascription.Read
    (state : State)
    (found : Substitution)
    (ascription : Ascription) :
    Prop :=
  ∃ ty, ascription.ty = some ty ∧ ReadAs state found ascription.meaning ty

/-- What was read stays so as more is declared and found. -/
theorem Ascription.Read.later
    {before after : State}
    {found more : Substitution}
    {ascription : Ascription}
    (read : ascription.Read before found)
    (declares : before.Declares after)
    (isPart : found ⊆ more) :
    ascription.Read after more := by
  obtain ⟨ty, recorded, readAs⟩ := read
  exact ⟨ty, recorded, readAs.later declares isPart⟩

/-- A declared type is read, if there is no error. -/
theorem inferVarDecl_read
    {decl decl' : VarDecl}
    {context context' : Context}
    {expected : Ty}
    {found : Substitution}
    {before after : State}
    (run :
      Runs (inferVarDecl decl context expected) before
        (decl', context', found) after)
    (clean : after.Clean) :
    ∀ ascription ∈ decl'.head.ascription?, ascription.Read after found := by
  cases varDeclRun_of_runs run with
  | taken | void => exact absurd clean (State.not_clean_record _ _)
  | bound _ declaredRun valueRun _ asked =>
      intro ascription isAscription
      obtain ⟨written, isWritten, rfl⟩ := Option.map_eq_some_iff.mp isAscription
      have grows := (inferExpr_grows valueRun).trans (unifyOrReport_grows asked)
      refine ⟨_, rfl, .intro (List.Subset.refl _) fun assign named agree => ?_⟩
      exact declaredTy_meaning declaredRun (agree.of_declares grows.declares)
        written isWritten

/-- All declared types of locals are read, if there is no error. -/
theorem inferLocals_read
    {decls decls' : List VarDecl}
    {context context' : Context}
    {found : Substitution}
    {before after : State}
    (run :
      Runs (inferLocals decls context) before (decls', context', found)
        after)
    (clean : after.Clean) :
    ∀ decl ∈ decls', ∀ ascription ∈ decl.head.ascription?,
      ascription.Read after found := by
  induction decls generalizing decls' context found before with
  | nil =>
      obtain ⟨rfl, _⟩ := runs_inferLocals_nil run
      exact nofun
  | cons decl rest inductionHypothesis =>
      obtain ⟨_, _, _, first, more, _, declRun, restRun, rfl, rfl⟩ :=
        runs_inferLocals_cons run
      have restDeclares := inferLocals_declares restRun
      have declRead := inferVarDecl_read declRun (restDeclares.clean clean)
      refine List.forall_mem_cons.mpr ⟨?_, fun item member => ?_⟩
      · exact fun ascription isAscription =>
          (declRead ascription isAscription).later restDeclares
            (List.subset_append_left _ _)
      · exact fun ascription isAscription =>
          (inductionHypothesis restRun item member ascription isAscription).later
            (.refl _) (List.subset_append_right _ _)

/-- A function is compared with what was read for its written signature. -/
theorem signatureFindings_read
    {name : Name}
    {written : Option WrittenSignature}
    {inferred : Ty}
    {found : Substitution}
    {before after : State}
    (run : Runs (signatureFindings name written inferred) before found after)
    (clean : after.Clean) :
    ∀ signature ∈ written,
      ReadAs after found (fun named => (signature.meaning named).toTy)
        (found.apply inferred) := by
  rintro signature ⟨⟩
  cases signatureRun_of_runs run with
  | unshared _ _ asked =>
      have recorded := (unifyOrReport_grows asked).clean clean
      exact absurd recorded (State.not_clean_record _ _)
  | shared signatureRun _ asked =>
      obtain ⟨unified, rfl⟩ := unifyOrReport_clean asked clean
      rw [← apply_eq_of_unify unified]
      exact .intro (List.Subset.refl _) fun assign named agree =>
        signatureTy_meaning signatureRun agree

section Declared

variable {decl decl' : FunDecl} {locals : List VarDecl} {body : List Stmt}
variable {context context' : Context} {expected : Ty} {found : Substitution}
variable {before compared : State}

/-- The declared types of locals are read when the body has been compared. -/
theorem ComparedRun.locals_read
    (run : ComparedRun decl context expected before locals body found compared)
    (clean : compared.Clean) :
    ∀ item ∈ locals, ∀ ascription ∈ item.head.ascription?,
      ascription.Read compared found := by
  cases run with
  | @intro _ found more shaped written _ _ _ _ localsRun bodyRun asked
      signatureRun =>
      have declares :=
        ((inferBlock_grows bodyRun).trans
          (unifyOrReport_grows asked)).declares.trans
            (signatureFindings_declares signatureRun)
      have localsRead := inferLocals_read localsRun (declares.clean clean)
      have isPart : found ⊆ found ++ more ++ shaped ++ written := by
        simp only [List.append_assoc]
        exact List.subset_append_left _ _
      exact fun item member ascription isAscription =>
        (localsRead item member ascription isAscription).later declares isPart

/-- A written signature is read as the type that was found for its function. -/
theorem ComparedRun.signature_read
    (run : ComparedRun decl context expected before locals body found compared)
    (clean : compared.Clean) :
    ∀ written ∈ decl.written,
      ReadAs compared found (fun named => (written.meaning named).toTy)
        ((freshShape before.nextVar decl.args.length).narrow found).toTy := by
  cases run with
  | intro _ _ _ signatureRun =>
      intro written isWritten
      have read := signatureFindings_read signatureRun clean written isWritten
      rw [Signature.toTy_narrow, Substitution.apply_append]
      exact read.later (.refl _) (List.subset_append_right _ _)

/-- All that is written in the declaration of a function has been read. -/
theorem DeclaredRun.read
    (run : DeclaredRun decl context expected before decl' context' found) :
    ∃ state, ∀ ascription ∈ decl'.ascriptions, ascription.Read state found := by
  cases run with
  | @intro locals body found added compared _ comparedRun clean =>
      refine ⟨compared, fun ascription member => ?_⟩
      suffices read : ascription.Read compared found from
        read.later (.refl _) (List.subset_append_left _ _)
      rcases List.mem_append.mp member with inLocals | isSignature
      · obtain ⟨head, isHead, isAscription⟩ := List.mem_filterMap.mp inLocals
        obtain ⟨item, isItem, rfl⟩ := List.mem_map.mp isHead
        exact comparedRun.locals_read clean item isItem ascription isAscription
      · rw [Option.mem_toList] at isSignature
        obtain ⟨written, isWritten, rfl⟩ := Option.map_eq_some_iff.mp isSignature
        exact ⟨_, rfl, comparedRun.signature_read clean written isWritten⟩

end Declared

/-- All functions of an accepted program have been read. -/
theorem inferFunctions_read
    {decls decls' : List Decl}
    {context context' : Context}
    {before after : State}
    (run : Runs (inferFunctions decls context) before (decls', context') after)
    (clean : after.Clean) :
    ∀ decl ∈ decls'.filterMap Decl.fn?,
      ∃ state, ∀ ascription ∈ decl.ascriptions,
        ascription.Read state after.settled := by
  induction decls generalizing decls' context before with
  | nil =>
      cases functionsRun_of_runs run
      exact nofun
  | cons decl rest inductionHypothesis =>
      cases functionsRun_of_runs run with
      | var restRun =>
          have restRead := inductionHypothesis restRun
          exact restRead
      | fn declRun restRun =>
          have restSettles := inferFunctions_settles restRun
          obtain ⟨state, declRead⟩ :=
            (declaredRun_of_runs declRun (restSettles.clean clean)).read
          have isSettled :=
            List.Subset.trans (List.subset_append_right _ _)
              restSettles.settled.subset
          refine List.forall_mem_cons.mpr
            ⟨⟨state, fun ascription member => ?_⟩, inductionHypothesis restRun⟩
          exact (declRead ascription member).later (.refl _) isSettled

/-- A signature is known from its type. -/
theorem Signature.toTy_inj
    {first second : Signature}
    (same : first.toTy = second.toTy) :
    first = second := by
  obtain ⟨firstParams, firstResult⟩ := first
  obtain ⟨secondParams, secondResult⟩ := second
  cases same
  rfl

/-- Findings change what the names of a written type stand for. -/
theorem WrittenTy.apply_meaning
    (found : Substitution)
    (named : String → Ty)
    (written : WrittenTy) :
    found.apply (written.meaning named) =
      written.meaning fun name => found.apply (named name) := by
  induction written with
  | int | bool | char | void | named => rfl
  | list element inductionHypothesis =>
      exact congrArg Ty.list inductionHypothesis
  | pair first second firstHypothesis secondHypothesis =>
      rw [meaning, meaning, ← firstHypothesis, ← secondHypothesis]
      rfl

/-- Findings change what the names of a written signature stand for. -/
theorem WrittenSignature.narrow_meaning
    (found : Substitution)
    (named : String → Ty)
    (written : WrittenSignature) :
    (written.meaning named).narrow found =
      written.meaning fun name => found.apply (named name) := by
  simp only [meaning, Signature.narrow, List.map_map, WrittenTy.apply_meaning,
    Signature.mk.injEq, and_true]
  exact List.map_congr_left fun param _ => param.apply_meaning found named

/-- A function is bound to an instance of what is written for it. -/
def FunDecl.BoundAsWritten (context : Context) (decl : FunDecl) : Prop :=
  ∀ written ∈ decl.written, ∃ named,
    context.funs.get? decl.name.text = some (written.meaning named)

namespace FunDecl.BoundAsWritten

variable {decl : FunDecl} {context : Context}

/-- A function stays bound as written while its names are narrowed. -/
theorem narrow
    (bound : decl.BoundAsWritten context)
    (found : Substitution) :
    decl.BoundAsWritten (context.narrow found) := by
  intro written isWritten
  obtain ⟨named, known⟩ := bound written isWritten
  refine ⟨fun name => found.apply (named name), ?_⟩
  rw [Context.narrow, Table.get?_map, known, Option.map_some,
    WrittenSignature.narrow_meaning]

/-- A function stays bound as written while others are bound. -/
theorem bindFun
    {name : String}
    (bound : decl.BoundAsWritten context)
    (free : context.funs.contains name = false)
    (signature : Signature) :
    decl.BoundAsWritten (context.bindFun name signature) := by
  intro written isWritten
  obtain ⟨named, known⟩ := bound written isWritten
  exact ⟨named, Table.get?_insert_of_free free known⟩

end FunDecl.BoundAsWritten

/-- A function is bound as it was compared, whatever the calls that waited find. -/
theorem DeclaredRun.boundAsWritten
    {decl decl' : FunDecl}
    {context context' : Context}
    {expected : Ty}
    {found : Substitution}
    {before : State}
    (run : DeclaredRun decl context expected before decl' context' found) :
    decl'.BoundAsWritten context' := by
  cases run with
  | @intro _ _ found added _ _ comparedRun clean =>
      intro written isWritten
      have read := comparedRun.signature_read clean written isWritten
      obtain ⟨named, same⟩ := read.exists_meaning added
      refine ⟨named, ?_⟩
      rw [← Signature.toTy_narrow, ← Signature.narrow_append] at same
      rw [Context.narrow_bindFun, Context.bindFun, Table.get?_insert,
        if_pos rfl, Signature.toTy_inj same]

/-- Functions are bound as written, and stay so behind their declarations. -/
theorem inferFunctions_boundAsWritten
    {decls decls' : List Decl}
    {context context' : Context}
    {before after : State}
    (run : Runs (inferFunctions decls context) before (decls', context') after)
    (clean : after.Clean) :
    (∀ decl : FunDecl, decl.BoundAsWritten context →
        decl.BoundAsWritten context') ∧
      ∀ decl ∈ decls'.filterMap Decl.fn?, decl.BoundAsWritten context' := by
  induction decls generalizing decls' context before with
  | nil =>
      cases functionsRun_of_runs run
      exact ⟨fun _ => id, nofun⟩
  | cons decl rest inductionHypothesis =>
      cases functionsRun_of_runs run with
      | var restRun =>
          have restBound := inductionHypothesis restRun
          exact restBound
      | fn declRun restRun =>
          have declared :=
            declaredRun_of_runs declRun
              ((inferFunctions_settles restRun).clean clean)
          obtain ⟨restKeeps, restBound⟩ := inductionHypothesis restRun
          refine ⟨fun other bound => restKeeps other ?_,
            List.forall_mem_cons.mpr
              ⟨restKeeps _ (declared.boundAsWritten.narrow _), restBound⟩⟩
          cases declared with
          | intro free => exact ((bound.bindFun free _).narrow _).narrow _

/-- What was read holds for some types of its names. -/
theorem Ascription.Read.exists_holds
    {state : State}
    {found : Substitution}
    {ascription : Ascription}
    (read : ascription.Read state found)
    (last : Substitution) :
    ∃ named, (ascription.mapTypes last.apply).Holds named := by
  obtain ⟨ty, recorded, readAs⟩ := read
  obtain ⟨named, same⟩ := readAs.exists_meaning last
  refine ⟨named, ?_⟩
  rw [Holds, mapTypes, recorded, Option.map_some, same]

/-- What is written in the annotated tree was read, and narrowed at the end. -/
theorem Program.Accepted.ascriptions_read
    {program : Program}
    {decl : FunDecl}
    (accepted : program.Accepted)
    (member : decl ∈ program.infer.writeBack.1.functions) :
    ∃ state, ∀ ascription ∈ decl.ascriptions,
      ∃ early : Ascription, early.Read state program.infer.found ∧
        early.mapTypes program.infer.found.apply = ascription := by
  obtain ⟨_, _, _, last, _, functionsRun, foundEq, lastClean⟩ := accepted.runs
  obtain ⟨source, isSource, sameHead⟩ :=
    exists_mem_of_map_eq program.annotated_functions member
  obtain ⟨state, read⟩ :=
    inferFunctions_read functionsRun lastClean source isSource
  refine ⟨state, fun ascription isAscription => ?_⟩
  rw [FunDecl.ascriptions, ← sameHead, FunHead.ascriptions_mapTypes]
    at isAscription
  obtain ⟨early, isEarly, rfl⟩ := List.mem_map.mp isAscription
  rw [foundEq]
  exact ⟨early, read early isEarly, rfl⟩

/-- In the annotated tree, functions are bound to instances of what is written. -/
theorem Program.Accepted.boundAsWritten
    {program : Program}
    {decl : FunDecl}
    (accepted : program.Accepted)
    (member : decl ∈ program.infer.writeBack.1.functions) :
    decl.BoundAsWritten program.infer.context := by
  obtain ⟨_, _, _, _, _, functionsRun, _, lastClean⟩ := accepted.runs
  obtain ⟨source, isSource, sameHead⟩ :=
    exists_mem_of_map_eq program.annotated_functions member
  have sameName : source.name = decl.name := congrArg FunHead.name sameHead
  have sameWritten : source.written = decl.written :=
    congrArg FunHead.written sameHead
  obtain ⟨_, allBound⟩ := inferFunctions_boundAsWritten functionsRun lastClean
  have sourceBound := allBound source isSource
  rwa [FunDecl.BoundAsWritten, sameName, sameWritten] at sourceBound

/--
If a program is accepted, then both the recorded type of a function with a written
signature and its signature in the returned context are instances of what is
written; if no names are written, they are just what is written.
-/
theorem typeCheck_signatures_kept
    {program annotated : Program}
    {source : String}
    {config : ReportConfig}
    {checked : Checked}
    (accepted : typeCheck program source config = (annotated, .ok checked)) :
    annotated.outline = program.outline ∧
      ∀ decl ∈ annotated.functions, ∀ written ∈ decl.written,
        (∃ named, decl.mark.ty = some (written.meaning named).toTy) ∧
          (∃ named,
            checked.context.funs.get? decl.name.text =
              some (written.meaning named)) ∧
          (written.names = [] → ∀ named,
            decl.mark.ty = some (written.meaning named).toTy ∧
              checked.context.funs.get? decl.name.text =
                some (written.meaning named)) := by
  obtain ⟨isAccepted, rfl, contextEq⟩ := typeCheck_ok accepted
  refine ⟨program.annotated_outline, fun decl member written isWritten => ?_⟩
  have recorded : ∃ named, decl.mark.ty = some (written.meaning named).toTy := by
    obtain ⟨state, read⟩ := isAccepted.ascriptions_read member
    obtain ⟨early, earlyRead, same⟩ :=
      read _ (decl.mem_ascriptions isWritten)
    obtain ⟨named, holds⟩ := earlyRead.exists_holds program.infer.found
    rw [same] at holds
    exact ⟨named, holds⟩
  have bound := isAccepted.boundAsWritten member written isWritten
  rw [← contextEq] at bound
  refine ⟨recorded, bound, fun unnamed named => ?_⟩
  obtain ⟨recordedNamed, isRecorded⟩ := recorded
  obtain ⟨boundNamed, isBound⟩ := bound
  have anyNamed (other : String → Ty) :
      written.meaning other = written.meaning named :=
    WrittenSignature.meaning_congr fun name isName => by
      rw [unnamed] at isName
      cases isName
  exact ⟨by rw [isRecorded, anyNamed], by rw [isBound, anyNamed]⟩

/--
A program with two signatures: `swap` exchanges the components of any pair, and
`first` calls it before it is declared.
-/
def swappingProgram : Program where
  decls :=
    [.fn
        { name := .ofText "first"
          args := [.ofText "n"]
          written :=
            some
              { params := [.int]
                result := .pair .bool .int
                span := .unknown }
          locals := []
          body :=
            [.ret
              (some
                (.call
                  ⟨.ofText "swap",
                    [.pair (.ofText "n") (.bool true .blank) .blank], .blank,
                    none⟩))
              .unknown]
          mark := .blank },
      .fn
        { name := .ofText "swap"
          args := [.ofText "p"]
          written :=
            some
              { params := [.pair (.named "a") (.named "b")]
                result := .pair (.named "b") (.named "a")
                span := .unknown }
          locals := []
          body :=
            [.ret
              (some
                (.pair (.read (.ofFields "p" [.snd]))
                  (.read (.ofFields "p" [.fst])) .blank))
              .unknown]
          mark := .blank }]

theorem swappingProgram_signatures_kept :
    ∃ annotated checked,
      typeCheck swappingProgram "" .plain = (annotated, .ok checked) ∧
        annotated.outline = swappingProgram.outline ∧
        ∀ decl ∈ annotated.functions, ∀ written ∈ decl.written,
          (∃ named, decl.mark.ty = some (written.meaning named).toTy) ∧
            (∃ named,
              checked.context.funs.get? decl.name.text =
                some (written.meaning named)) ∧
            (written.names = [] → ∀ named,
              decl.mark.ty = some (written.meaning named).toTy ∧
                checked.context.funs.get? decl.name.text =
                  some (written.meaning named)) := by
  have isAccepted : swappingProgram.Accepted := by cbv
  obtain ⟨annotated, checked, accepted⟩ :=
    isAccepted.exists_annotated "" .plain
  exact ⟨annotated, checked, accepted, typeCheck_signatures_kept accepted⟩

/--
There is one type for each name such that all that is written in the declaration
of a function means what is recorded for it.
-/
def FunDecl.OneTypePerName (decl : FunDecl) : Prop :=
  ∃ named, ∀ ascription ∈ decl.ascriptions, ascription.Holds named

/--
If a program is accepted, then every ascription in a function has the recorded
type as an instance. There is one type for each name if no name is mentioned by
two ascriptions of the function, and also if all findings hold together: if a
variable is bound twice, then to types that the findings make equal.
-/
theorem typeCheck_names_shared
    {program annotated : Program}
    {source : String}
    {config : ReportConfig}
    {checked : Checked}
    (accepted : typeCheck program source config = (annotated, .ok checked)) :
    annotated.outline = program.outline ∧
      ∀ decl ∈ annotated.functions,
        (∀ ascription ∈ decl.ascriptions, ∃ named, ascription.Holds named) ∧
          (decl.ascriptions.Pairwise
              (fun first second => ∀ name ∈ first.names, name ∉ second.names) →
            decl.OneTypePerName) ∧
          (program.infer.found.SolvedBy program.infer.found.image →
            decl.OneTypePerName) := by
  obtain ⟨isAccepted, rfl, _⟩ := typeCheck_ok accepted
  refine ⟨program.annotated_outline, fun decl member => ?_⟩
  obtain ⟨state, read⟩ := isAccepted.ascriptions_read member
  have each (ascription : Ascription) (isAscription : ascription ∈ decl.ascriptions) :
      ∃ named, ascription.Holds named := by
    obtain ⟨early, earlyRead, rfl⟩ := read ascription isAscription
    exact earlyRead.exists_holds program.infer.found
  refine ⟨each, fun apart => Ascription.exists_holds apart each, fun solved => ?_⟩
  -- The findings give the variable of every name one type.
  refine ⟨state.namedBy program.infer.found.image, fun ascription isAscription => ?_⟩
  obtain ⟨early, ⟨ty, recorded, readAs⟩, rfl⟩ := read ascription isAscription
  have same : program.infer.found.apply ty = _ := readAs.instantiate_eq solved
  rw [Ascription.Holds, Ascription.mapTypes, recorded, Option.map_some, same]

/--
In `sums` one name stands for the type of two variables, and in `same` every
ascription has names of its own.
-/
def namingProgram : Program where
  decls :=
    [.fn
        { name := .ofText "sums"
          args := []
          written := none
          locals :=
            [{ written := some (.named "a")
               name := .ofText "x"
               value := .int 1 .blank
               mark := .blank },
              { written := some (.named "a")
                name := .ofText "y"
                value := .binary .add (.ofText "x") (.int 1 .blank) .blank
                mark := .blank }]
          body := []
          mark := .blank },
      .fn
        { name := .ofText "same"
          args := [.ofText "p"]
          written :=
            some
              { params := [.named "c"]
                result := .named "c"
                span := .unknown }
          locals :=
            [{ written := some (.list (.named "a"))
               name := .ofText "xs"
               value := .nil .blank
               mark := .blank },
              { written := some (.named "b")
                name := .ofText "flag"
                value := .bool true .blank
                mark := .blank }]
          body := [.ret (some (.ofText "p")) .unknown]
          mark := .blank }]

theorem namingProgram_names_shared :
    ∃ annotated checked,
      typeCheck namingProgram "" .plain = (annotated, .ok checked) ∧
        (annotated.functions.map fun decl =>
            decl.ascriptions.map Ascription.names) =
          [[["a"], ["a"]], [["a"], ["b"], ["c", "c"]]] ∧
        namingProgram.infer.found.SolvedBy namingProgram.infer.found.image ∧
        ∀ decl ∈ annotated.functions, decl.OneTypePerName := by
  have isAccepted : namingProgram.Accepted := by cbv
  obtain ⟨annotated, checked, accepted⟩ :=
    isAccepted.exists_annotated "" .plain
  have names :
      ((typeCheck namingProgram "" .plain).1.functions.map fun decl =>
          decl.ascriptions.map Ascription.names) =
        [[["a"], ["a"]], [["a"], ["b"], ["c", "c"]]] := by cbv
  have eachSolved :
      namingProgram.infer.found.all
          (fun binding =>
            decide
              (namingProgram.infer.found.image binding.var =
                binding.ty.instantiate namingProgram.infer.found.image)) =
        true := by cbv
  have solved :
      namingProgram.infer.found.SolvedBy namingProgram.infer.found.image := by
    intro binding member
    have isSolved := List.all_eq_true.mp eachSolved binding member
    rwa [decide_eq_true_iff] at isSolved
  rw [accepted] at names
  exact ⟨annotated, checked, accepted, names, solved, fun decl member =>
    ((typeCheck_names_shared accepted).2 decl member).2.2 solved⟩

/-- A function that gives one name to the types of a number and a truth value. -/
def renamingDecl : FunDecl where
  name := .ofText "renaming"
  args := []
  written := none
  locals :=
    [{ written := some (.named "a")
       name := .ofText "x"
       value := .int 1 .blank
       mark := .blank },
      { written := some (.named "a")
        name := .ofText "y"
        value := .bool true .blank
        mark := .blank }]
  body := []
  mark := .blank

/-- A name stands for one type where it is mentioned first, and for another later. -/
theorem typeCheck_name_differs :
    (∃ checked, (typeCheck ⟨[.fn renamingDecl]⟩ "" .plain).2 = .ok checked) ∧
      ∃ decl ∈ (typeCheck ⟨[.fn renamingDecl]⟩ "" .plain).1.functions,
        ¬ decl.OneTypePerName := by
  have locals :
      ((typeCheck ⟨[.fn renamingDecl]⟩ "" .plain).1.functions.map fun decl =>
          decl.head.locals) =
        [[⟨.ofText "x", some (.named "a"), some .int⟩,
          ⟨.ofText "y", some (.named "a"), some .bool⟩]] := by cbv
  obtain ⟨decl, member, isHead⟩ :=
    List.mem_map.mp (locals ▸ List.mem_cons_self)
  rw [typeCheck_ok_iff]
  refine ⟨by cbv, decl, member, ?_⟩
  rintro ⟨named, holds⟩
  rw [FunDecl.ascriptions, FunHead.ascriptions, isHead] at holds
  have isInt : some .int = some (named "a") :=
    holds (.ofVar (.named "a") (some .int)) List.mem_cons_self
  have isBool : some .bool = some (named "a") :=
    holds (.ofVar (.named "a") (some .bool))
      (List.mem_cons_of_mem _ List.mem_cons_self)
  cases isInt.trans isBool.symm

end SplTyping
