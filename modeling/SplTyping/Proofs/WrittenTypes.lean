import SplTyping.Proofs.Assignment
import SplTyping.Proofs.Rules
import SplTyping.Proofs.Runs.Program

namespace SplTyping

/-!
# What written types stand for

Reading a written type only gives type variables to names that have none yet.
An assignment that agrees with the names makes the type that is read equal to
what the written type means.
-/

namespace State

/-- Names are given to newly drawn type variables, one after the other. -/
inductive Names (before : State) : State → Prop where
  | refl : Names before before
  | next
      {middle : State}
      {name : String}
      (earlier : Names before middle)
      (unnamed : middle.names.get? name = none) :
      Names before (middle.nameNext name)

/-- An assignment gives every named type variable the type of its name. -/
def NamesAgree
    (assign : Assignment)
    (named : String → Ty)
    (state : State) :
    Prop :=
  ∀ name id, state.names.get? name = some id → named name = assign id

/-- Every named type variable has been drawn. -/
def NamesDrawn (state : State) : Prop :=
  ∀ name id, state.names.get? name = some id → id < state.nextVar

namespace Names

variable {before middle after : State}

/-- Names may be given in two goes. -/
theorem trans
    (first : before.Names middle)
    (second : middle.Names after) :
    before.Names after := by
  induction second with
  | refl => exact first
  | next _ unnamed inductionHypothesis => exact .next inductionHypothesis unnamed

theorem nextVar_le (names : before.Names after) :
    before.nextVar ≤ after.nextVar := by
  induction names with
  | refl => exact Nat.le_refl _
  | next _ _ inductionHypothesis => exact Nat.le_succ_of_le inductionHypothesis

/-- Giving names changes nothing but names and the next variable. -/
theorem same
    (names : before.Names after) :
    after.pending = before.pending ∧ after.resolved = before.resolved ∧
      after.settled = before.settled ∧
      after.diagnostics = before.diagnostics := by
  induction names with
  | refl => exact ⟨rfl, rfl, rfl, rfl⟩
  | next _ _ inductionHypothesis => exact inductionHypothesis

/-- A name keeps its variable. -/
theorem kept
    {name : String}
    {id : TypeVar}
    (names : before.Names after)
    (known : before.names.get? name = some id) :
    after.names.get? name = some id := by
  induction names with
  | refl => exact known
  | @next middle other _ unnamed inductionHypothesis =>
      have differ : name ≠ other := by
        rintro rfl
        rw [inductionHypothesis] at unnamed
        cases unnamed
      simp only [nameNext, Table.get?_insert, if_neg differ]
      exact inductionHypothesis

/-- A name is known from before, or its variable has just been drawn. -/
theorem known_or_drawn
    {name : String}
    {id : TypeVar}
    (names : before.Names after)
    (known : after.names.get? name = some id) :
    before.names.get? name = some id ∨
      (before.names.get? name = none ∧ before.nextVar ≤ id ∧
        id < after.nextVar) := by
  induction names with
  | refl => exact Or.inl known
  | @next middle other earlier unnamed inductionHypothesis =>
      simp only [nameNext, Table.get?_insert] at known
      split at known
      · rename_i isOther
        subst isOther
        cases known
        refine Or.inr ⟨?_, earlier.nextVar_le, Nat.lt_succ_self _⟩
        cases seen : before.names.get? name with
        | none => rfl
        | some id =>
            rw [earlier.kept seen] at unnamed
            cases unnamed
      · rcases inductionHypothesis known with seen | ⟨unseen, lower, upper⟩
        · exact Or.inl seen
        · exact Or.inr ⟨unseen, lower, Nat.lt_succ_of_lt upper⟩

/-- Names are given variables as these are drawn. -/
theorem drawn
    (names : before.Names after)
    (namesDrawn : before.NamesDrawn) :
    after.NamesDrawn := by
  intro name id known
  rcases names.known_or_drawn known with seen | ⟨_, _, upper⟩
  · exact Nat.lt_of_lt_of_le (namesDrawn name id seen) names.nextVar_le
  · exact upper

end Names

end State

/-- A name has a variable afterwards. -/
theorem namedVar_names
    {name : String}
    {id : TypeVar}
    {before after : State}
    (run : Runs (namedVar name) before id after) :
    before.Names after ∧ after.names.get? name = some id := by
  rcases runs_namedVar run with ⟨known, rfl⟩ | ⟨unnamed, rfl, rfl⟩
  · exact ⟨.refl, known⟩
  · refine ⟨.next .refl unnamed, ?_⟩
    simp [State.nameNext, Table.get?_insert]

/-- Reading a written type gives names. -/
theorem writtenTy_names
    {written : WrittenTy}
    {ty : Ty}
    {before after : State}
    (run : Runs (writtenTy written) before ty after) :
    before.Names after := by
  induction written generalizing ty before after with
  | int | bool | char | void =>
      obtain ⟨_, rfl⟩ := runs_pure.mp run
      exact .refl
  | list element inductionHypothesis =>
      obtain ⟨_, elementRun, _⟩ := runs_writtenTy_list run
      exact inductionHypothesis elementRun
  | pair first second firstHypothesis secondHypothesis =>
      obtain ⟨_, _, _, firstRun, secondRun, _⟩ := runs_writtenTy_pair run
      exact (firstHypothesis firstRun).trans (secondHypothesis secondRun)
  | named name =>
      obtain ⟨_, nameRun, _⟩ := runs_writtenTy_named run
      exact (namedVar_names nameRun).1

/-- A type is read as what it means. -/
theorem writtenTy_meaning
    {assign : Assignment}
    {named : String → Ty}
    {written : WrittenTy}
    {ty : Ty}
    {before after : State}
    (run : Runs (writtenTy written) before ty after)
    (agree : after.NamesAgree assign named) :
    written.meaning named = ty.instantiate assign := by
  induction written generalizing ty before after with
  | int | bool | char | void =>
      obtain ⟨rfl, _⟩ := runs_pure.mp run
      rfl
  | list element inductionHypothesis =>
      obtain ⟨_, elementRun, rfl⟩ := runs_writtenTy_list run
      simp only [WrittenTy.meaning, Ty.instantiate,
        inductionHypothesis elementRun agree]
  | pair first second firstHypothesis secondHypothesis =>
      obtain ⟨_, _, _, firstRun, secondRun, rfl⟩ := runs_writtenTy_pair run
      have firstAgree :=
        fun name id known =>
          agree name id ((writtenTy_names secondRun).kept known)
      simp only [WrittenTy.meaning, Ty.instantiate,
        firstHypothesis firstRun firstAgree, secondHypothesis secondRun agree]
  | named name =>
      obtain ⟨id, nameRun, rfl⟩ := runs_writtenTy_named run
      exact agree name id (namedVar_names nameRun).2

/-- The variables of a type that is read belong to names that it mentions. -/
theorem writtenTy_vars
    {written : WrittenTy}
    {ty : Ty}
    {id : TypeVar}
    {before after : State}
    (run : Runs (writtenTy written) before ty after)
    (member : id ∈ ty.vars) :
    ∃ name ∈ written.names, after.names.get? name = some id := by
  induction written generalizing ty before after with
  | int | bool | char | void =>
      obtain ⟨rfl, _⟩ := runs_pure.mp run
      simp [Ty.vars] at member
  | list element inductionHypothesis =>
      obtain ⟨_, elementRun, rfl⟩ := runs_writtenTy_list run
      exact inductionHypothesis elementRun member
  | pair first second firstHypothesis secondHypothesis =>
      obtain ⟨_, _, _, firstRun, secondRun, rfl⟩ := runs_writtenTy_pair run
      rw [Ty.vars, List.mem_append] at member
      rw [WrittenTy.names]
      rcases member with inFirst | inSecond
      · obtain ⟨name, isName, known⟩ := firstHypothesis firstRun inFirst
        exact ⟨name, List.mem_append_left _ isName,
          (writtenTy_names secondRun).kept known⟩
      · obtain ⟨name, isName, known⟩ := secondHypothesis secondRun inSecond
        exact ⟨name, List.mem_append_right _ isName, known⟩
  | named name =>
      obtain ⟨other, nameRun, rfl⟩ := runs_writtenTy_named run
      rw [Ty.vars, List.mem_singleton] at member
      subst member
      exact ⟨name, List.mem_singleton_self name, (namedVar_names nameRun).2⟩

/-- The names that a written type mentions are known once it is read. -/
theorem writtenTy_known
    {written : WrittenTy}
    {ty : Ty}
    {name : String}
    {before after : State}
    (run : Runs (writtenTy written) before ty after)
    (isName : name ∈ written.names) :
    ∃ id, after.names.get? name = some id := by
  induction written generalizing ty before after with
  | int | bool | char | void => cases isName
  | list element inductionHypothesis =>
      obtain ⟨_, elementRun, _⟩ := runs_writtenTy_list run
      exact inductionHypothesis elementRun isName
  | pair first second firstHypothesis secondHypothesis =>
      obtain ⟨_, _, _, firstRun, secondRun, _⟩ := runs_writtenTy_pair run
      rcases List.mem_append.mp isName with inFirst | inSecond
      · obtain ⟨id, known⟩ := firstHypothesis firstRun inFirst
        exact ⟨id, (writtenTy_names secondRun).kept known⟩
      · exact secondHypothesis secondRun inSecond
  | named other =>
      obtain ⟨id, nameRun, _⟩ := runs_writtenTy_named run
      rw [List.mem_singleton.mp isName]
      exact ⟨id, (namedVar_names nameRun).2⟩

/-- Reading a type that mentions no names changes nothing. -/
theorem writtenTy_unnamed
    {written : WrittenTy}
    {ty : Ty}
    {before after : State}
    (run : Runs (writtenTy written) before ty after)
    (unnamed : written.names = []) :
    after = before := by
  induction written generalizing ty before after with
  | int | bool | char | void => exact (runs_pure.mp run).2
  | list element inductionHypothesis =>
      obtain ⟨_, elementRun, _⟩ := runs_writtenTy_list run
      exact inductionHypothesis elementRun unnamed
  | pair first second firstHypothesis secondHypothesis =>
      obtain ⟨_, _, _, firstRun, secondRun, _⟩ := runs_writtenTy_pair run
      rw [WrittenTy.names, List.append_eq_nil_iff] at unnamed
      rw [secondHypothesis secondRun unnamed.2,
        firstHypothesis firstRun unnamed.1]
  | named name => cases unnamed

theorem writtenTys_names
    {written : List WrittenTy}
    {types : List Ty}
    {before after : State}
    (run : Runs (writtenTys written) before types after) :
    before.Names after := by
  induction written generalizing types before with
  | nil =>
      obtain ⟨_, rfl⟩ := runs_pure.mp run
      exact .refl
  | cons first rest inductionHypothesis =>
      obtain ⟨_, _, _, firstRun, restRun, _⟩ := runs_writtenTys_cons run
      exact (writtenTy_names firstRun).trans (inductionHypothesis restRun)

/-- Written types mean what they are read as. -/
theorem writtenTys_meaning
    {assign : Assignment}
    {named : String → Ty}
    {written : List WrittenTy}
    {types : List Ty}
    {before after : State}
    (run : Runs (writtenTys written) before types after)
    (agree : after.NamesAgree assign named) :
    written.map (WrittenTy.meaning named) =
      types.map (Ty.instantiate assign) := by
  induction written generalizing types before with
  | nil =>
      obtain ⟨rfl, _⟩ := runs_pure.mp run
      rfl
  | cons first rest inductionHypothesis =>
      obtain ⟨_, _, _, firstRun, restRun, rfl⟩ := runs_writtenTys_cons run
      have firstAgree :=
        fun name id known =>
          agree name id ((writtenTys_names restRun).kept known)
      rw [List.map_cons, List.map_cons, writtenTy_meaning firstRun firstAgree,
        inductionHypothesis restRun]

/-- The variables of types that are read are those of written names. -/
theorem writtenTys_vars
    {written : List WrittenTy}
    {types : List Ty}
    {ty : Ty}
    {id : TypeVar}
    {before after : State}
    (run : Runs (writtenTys written) before types after)
    (isOne : ty ∈ types)
    (member : id ∈ ty.vars) :
    ∃ name ∈ written.flatMap WrittenTy.names,
      after.names.get? name = some id := by
  induction written generalizing types before with
  | nil =>
      obtain ⟨rfl, _⟩ := runs_pure.mp run
      cases isOne
  | cons first rest inductionHypothesis =>
      obtain ⟨_, _, _, firstRun, restRun, rfl⟩ := runs_writtenTys_cons run
      rw [List.flatMap_cons]
      rcases List.mem_cons.mp isOne with rfl | inRest
      · obtain ⟨name, isName, known⟩ := writtenTy_vars firstRun member
        exact ⟨name, List.mem_append_left _ isName,
          (writtenTys_names restRun).kept known⟩
      · obtain ⟨name, isName, known⟩ := inductionHypothesis restRun inRest
        exact ⟨name, List.mem_append_right _ isName, known⟩

/-- All names of written types are known afterwards. -/
theorem writtenTys_known
    {written : List WrittenTy}
    {types : List Ty}
    {name : String}
    {before after : State}
    (run : Runs (writtenTys written) before types after)
    (isName : name ∈ written.flatMap WrittenTy.names) :
    ∃ id, after.names.get? name = some id := by
  induction written generalizing types before with
  | nil => cases isName
  | cons first rest inductionHypothesis =>
      obtain ⟨_, _, _, firstRun, restRun, _⟩ := runs_writtenTys_cons run
      rw [List.flatMap_cons] at isName
      rcases List.mem_append.mp isName with inFirst | inRest
      · obtain ⟨id, known⟩ := writtenTy_known firstRun inFirst
        exact ⟨id, (writtenTys_names restRun).kept known⟩
      · exact inductionHypothesis restRun inRest

section Signatures

variable {written : WrittenSignature} {ty : Ty} {before after : State}

/-- Reading a written signature gives names. -/
theorem signatureTy_names (run : Runs (signatureTy written) before ty after) :
    before.Names after := by
  obtain ⟨_, _, _, paramsRun, resultRun, _⟩ := runs_signatureTy run
  exact (writtenTys_names paramsRun).trans (writtenTy_names resultRun)

/-- A written signature means what it is read as. -/
theorem signatureTy_meaning
    {assign : Assignment}
    {named : String → Ty}
    (run : Runs (signatureTy written) before ty after)
    (agree : after.NamesAgree assign named) :
    (written.meaning named).toTy = ty.instantiate assign := by
  obtain ⟨_, _, _, paramsRun, resultRun, rfl⟩ := runs_signatureTy run
  have paramsAgree :=
    fun name id known => agree name id ((writtenTy_names resultRun).kept known)
  simp only [WrittenSignature.meaning, Signature.toTy, Ty.instantiate,
    Ty.instantiateAll_eq_map, writtenTys_meaning paramsRun paramsAgree,
    writtenTy_meaning resultRun agree]

/-- The variables of a signature that is read are those of written names. -/
theorem signatureTy_vars
    {id : TypeVar}
    (run : Runs (signatureTy written) before ty after)
    (member : id ∈ ty.vars) :
    ∃ name ∈ written.names, after.names.get? name = some id := by
  obtain ⟨_, _, _, paramsRun, resultRun, rfl⟩ := runs_signatureTy run
  rw [Ty.vars, List.mem_append, Ty.mem_varsAll] at member
  rw [WrittenSignature.names]
  rcases member with ⟨param, isParam, inParam⟩ | inResult
  · obtain ⟨name, isName, known⟩ := writtenTys_vars paramsRun isParam inParam
    exact ⟨name, List.mem_append_left _ isName,
      (writtenTy_names resultRun).kept known⟩
  · obtain ⟨name, isName, known⟩ := writtenTy_vars resultRun inResult
    exact ⟨name, List.mem_append_right _ isName, known⟩

/-- All names of a written signature are known afterwards. -/
theorem signatureTy_known
    {name : String}
    (run : Runs (signatureTy written) before ty after)
    (isName : name ∈ written.names) :
    ∃ id, after.names.get? name = some id := by
  obtain ⟨_, _, _, paramsRun, resultRun, _⟩ := runs_signatureTy run
  rcases List.mem_append.mp isName with inParams | inResult
  · obtain ⟨id, known⟩ := writtenTys_known paramsRun inParams
    exact ⟨id, (writtenTy_names resultRun).kept known⟩
  · exact writtenTy_known resultRun inResult

/-- A signature is read by replacing its names by their variables. -/
theorem signatureTy_eq_meaning
    {ids : String → TypeVar}
    (run : Runs (signatureTy written) before ty after)
    (areIds : ∀ name id, after.names.get? name = some id → ids name = id) :
    ty = (written.meaning fun name => .var (ids name)).toTy := by
  have agree : after.NamesAgree Ty.var fun name => .var (ids name) :=
    fun name id known => congrArg Ty.var (areIds name id known)
  rw [signatureTy_meaning run agree, Ty.instantiate_var]

end Signatures

end SplTyping
