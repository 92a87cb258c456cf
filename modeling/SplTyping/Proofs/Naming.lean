import Mathlib.Data.Nat.Pairing
import Mathlib.Logic.Equiv.List
import SplTyping.Proofs.Declarations

namespace SplTyping

/-!
# Names and the variables they stand for

A name in a written type stands for a type variable, which is drawn when the
name is met for the first time and kept until names are forgotten. In between,
inference draws other variables. A `Session` follows this over any stretch of
inference; the number of times that names were forgotten is its period. All that
is read in a session is read through one naming: a name of one period stands for
one variable, and no other name stands for it, in this period or in another.

The inference of a whole program is a session (`inferProgram_session`).
-/

/-- A written type and the type it is read as, with the state and the period. -/
structure Reading where
  period : Nat
  before : State
  written : WrittenTy
  ty : Ty

/--
What happens to names: written types are read, names are forgotten, and all
other work draws variables and leaves names alone.
-/
inductive Session (start : State) : Nat → List Reading → State → Prop where
  | start : Session start 0 [] start
  | work
      {period : Nat}
      {readings : List Reading}
      {before after : State}
      (earlier : Session start period readings before)
      (sameNames : after.names = before.names)
      (drawn : before.nextVar ≤ after.nextVar) :
      Session start period readings after
  | read
      {period : Nat}
      {readings : List Reading}
      {written : WrittenTy}
      {ty : Ty}
      {before after : State}
      (earlier : Session start period readings before)
      (readRun : Runs (writtenTy written) before ty after) :
      Session start period (readings ++ [⟨period, before, written, ty⟩]) after
  | reset
      {period : Nat}
      {readings : List Reading}
      {before after : State}
      (earlier : Session start period readings before)
      (resetRun : Runs resetNames before () after) :
      Session start (period + 1) readings after

/-- The variables that names were given, by period. -/
abbrev Grants := Nat → String → Option TypeVar

namespace Grants

/-- The grants of a state in which no name has been forgotten. -/
def ofState (state : State) : Grants :=
  fun period name => if period = 0 then state.names.get? name else none

/-- One more name is given a variable. -/
def add (given : Grants) (period : Nat) (name : String) (id : TypeVar) : Grants :=
  fun other otherName =>
    if other = period ∧ otherName = name then some id else given other otherName

/-- A naming of all names gives them the variables that were granted. -/
def Follows (given : Grants) (denote : Nat → String → TypeVar) : Prop :=
  ∀ period name id, given period name = some id → denote period name = id

/-- Grants are kept, and what is added are variables from a bound on. -/
structure Extends (given later : Grants) (bound : TypeVar) : Prop where
  kept :
    ∀ period name id, given period name = some id → later period name = some id
  added :
    ∀ period name id, later period name = some id →
      given period name = some id ∨ bound ≤ id

variable {given middle later : Grants} {bound : TypeVar}

theorem Extends.refl (given : Grants) (bound : TypeVar) :
    given.Extends given bound where
  kept := fun _ _ _ known => known
  added := fun _ _ _ known => Or.inl known

/-- Grants may be added in two goes. -/
theorem Extends.trans
    {higher : TypeVar}
    (first : given.Extends middle bound)
    (second : middle.Extends later higher)
    (grows : bound ≤ higher) :
    given.Extends later bound where
  kept := fun period name id known =>
    second.kept period name id (first.kept period name id known)
  added := by
    intro period name id known
    rcases second.added period name id known with seen | isHigher
    · exact first.added period name id seen
    · exact Or.inr (Nat.le_trans grows isHigher)

/-- A free name may be granted a new variable. -/
theorem extends_add
    {period : Nat}
    {name : String}
    {id : TypeVar}
    (free : given period name = none)
    (isNew : bound ≤ id) :
    given.Extends (given.add period name id) bound where
  kept := by
    intro other otherName known isKnown
    rw [add, if_neg, isKnown]
    rintro ⟨rfl, rfl⟩
    rw [free] at isKnown
    cases isKnown
  added := by
    intro other otherName known isKnown
    rw [add] at isKnown
    split at isKnown
    · cases isKnown
      exact Or.inr isNew
    · exact Or.inl isKnown

end Grants

/--
A reading uses the variables that were granted, and names that were unknown
before it were granted variables that had not been drawn.
-/
structure Reading.Agrees
    (given : Grants)
    (bound : TypeVar)
    (reading : Reading) :
    Prop where
  drawn : reading.before.nextVar ≤ bound
  means :
    ∀ denote, given.Follows denote →
      reading.ty =
        reading.written.meaning fun name => .var (denote reading.period name)
  fresh :
    ∀ name id, reading.before.names.get? name = none →
      given reading.period name = some id → reading.before.nextVar ≤ id

/-- A reading agrees with grants that are added later. -/
theorem Reading.Agrees.extend
    {given later : Grants}
    {bound higher : TypeVar}
    {reading : Reading}
    (agrees : reading.Agrees given bound)
    (extended : given.Extends later bound)
    (grows : bound ≤ higher) :
    reading.Agrees later higher where
  drawn := Nat.le_trans agrees.drawn grows
  means := fun denote follows =>
    agrees.means denote fun period name id known =>
      follows period name id (extended.kept period name id known)
  fresh := by
    intro name id unknown known
    rcases extended.added _ name id known with seen | isHigher
    · exact agrees.fresh name id unknown seen
    · exact Nat.le_trans agrees.drawn isHigher

/-- What the grants are after a session. -/
structure Granted
    (start : State)
    (period : Nat)
    (readings : List Reading)
    (state : State)
    (given : Grants) :
    Prop where
  starts :
    ∀ name id, start.names.get? name = some id → given 0 name = some id
  current : ∀ name, state.names.get? name = given period name
  unused : ∀ other name, period < other → given other name = none
  drawn : ∀ other name id, given other name = some id → id < state.nextVar
  apart :
    ∀ first name second other id, given first name = some id →
      given second other = some id → first = second ∧ name = other
  agree : ∀ reading ∈ readings, reading.Agrees given state.nextVar

/-- Different names stand for different variables. -/
def State.NamesApart (state : State) : Prop :=
  ∀ name other id, state.names.get? name = some id →
    state.names.get? other = some id → name = other

namespace Granted

variable {start before after : State} {period : Nat}
variable {readings : List Reading} {given : Grants}

/-- At the start, the names of the state are granted. -/
theorem ofState
    (namesApart : start.NamesApart)
    (namesDrawn : start.NamesDrawn) :
    Granted start 0 [] start (.ofState start) where
  starts := fun _ _ known => known
  current := fun _ => rfl
  unused := fun _ _ isLater => if_neg (Nat.pos_iff_ne_zero.mp isLater)
  drawn := by
    intro other name id known
    rw [Grants.ofState] at known
    split at known
    · exact namesDrawn name id known
    · cases known
  apart := by
    intro first name second other id isFirst isSecond
    rw [Grants.ofState] at isFirst isSecond
    split at isFirst
    · split at isSecond
      · rename_i firstZero secondZero
        exact ⟨firstZero.trans secondZero.symm,
          namesApart name other id isFirst isSecond⟩
      · cases isSecond
    · cases isFirst
  agree := List.forall_mem_nil _

/-- Other work leaves grants alone. -/
theorem work
    (granted : Granted start period readings before given)
    (sameNames : after.names = before.names)
    (grows : before.nextVar ≤ after.nextVar) :
    Granted start period readings after given where
  starts := granted.starts
  current := fun name => by rw [sameNames, granted.current]
  unused := granted.unused
  drawn := fun other name id known =>
    Nat.lt_of_lt_of_le (granted.drawn other name id known) grows
  apart := granted.apart
  agree := fun reading member =>
    (granted.agree reading member).extend (.refl _ _) grows

/-- Forgetting names starts a period in which nothing is granted yet. -/
theorem reset (granted : Granted start period readings before given) :
    Granted start (period + 1) readings before.unnamed given where
  starts := granted.starts
  current := fun name => (granted.unused _ name (Nat.lt_succ_self _)).symm
  unused := fun other name isLater =>
    granted.unused other name (Nat.lt_of_succ_lt isLater)
  drawn := granted.drawn
  apart := granted.apart
  agree := granted.agree

/-- A name that is met for the first time is granted the next variable. -/
theorem nameNext
    {name : String}
    (granted : Granted start period readings before given)
    (unnamed : before.names.get? name = none) :
    Granted start period readings (before.nameNext name)
      (given.add period name before.nextVar) := by
  have free : given period name = none := by
    rw [← granted.current, unnamed]
  have extended : given.Extends _ before.nextVar :=
    Grants.extends_add free (Nat.le_refl _)
  refine
    { starts := fun other id known =>
        extended.kept 0 other id (granted.starts other id known)
      current := fun other => ?_
      unused := fun other otherName isLater => ?_
      drawn := fun other otherName id known => ?_
      apart := fun first name' second other id isFirst isSecond => ?_
      agree := fun reading member =>
        (granted.agree reading member).extend extended (Nat.le_succ _) }
  · rw [State.nameNext, Table.get?_insert, Grants.add]
    by_cases isName : other = name <;> simp [isName, granted.current]
  · rw [Grants.add, if_neg fun same => Nat.ne_of_gt isLater same.1]
    exact granted.unused other otherName isLater
  · rw [Grants.add] at known
    split at known
    · cases known
      exact Nat.lt_succ_self _
    · exact Nat.lt_succ_of_lt (granted.drawn other otherName id known)
  · -- The next variable has not been granted to another name.
    have isNew {other : Nat} {otherName : String}
        (known : given other otherName = some before.nextVar) : False :=
      Nat.lt_irrefl _ (granted.drawn other otherName _ known)
    rw [Grants.add] at isFirst isSecond
    split at isFirst <;> split at isSecond
    · rename_i isFirst' isSecond'
      exact ⟨isFirst'.1.trans isSecond'.1.symm, isFirst'.2.trans isSecond'.2.symm⟩
    · cases isFirst
      exact (isNew isSecond).elim
    · cases isSecond
      exact (isNew isFirst).elim
    · exact granted.apart first name' second other id isFirst isSecond

/-- Reading adds the grants of the names that it meets for the first time. -/
theorem names
    (granted : Granted start period readings before given)
    (names : before.Names after) :
    ∃ later,
      Granted start period readings after later ∧
        given.Extends later before.nextVar := by
  induction names with
  | refl => exact ⟨given, granted, .refl _ _⟩
  | @next middle name earlier unnamed inductionHypothesis =>
      obtain ⟨between, isGranted, extended⟩ := inductionHypothesis
      have free : between period name = none := by
        rw [← isGranted.current, unnamed]
      exact ⟨_, isGranted.nameNext unnamed,
        extended.trans (Grants.extends_add free (Nat.le_refl _))
          earlier.nextVar_le⟩

/-- A written type is read with the grants so far and some more. -/
theorem read
    {written : WrittenTy}
    {ty : Ty}
    (granted : Granted start period readings before given)
    (run : Runs (writtenTy written) before ty after) :
    ∃ later,
      Granted start period (readings ++ [⟨period, before, written, ty⟩]) after
        later := by
  have names := writtenTy_names run
  obtain ⟨later, isGranted, _⟩ := granted.names names
  have agrees :
      Reading.Agrees later after.nextVar ⟨period, before, written, ty⟩ := by
    refine ⟨names.nextVar_le, fun denote follows => ?_, fun name id unknown known => ?_⟩
    · have agree :
          after.NamesAgree Ty.var fun name => .var (denote period name) := by
        intro name id known
        rw [isGranted.current] at known
        exact congrArg Ty.var (follows period name id known)
      exact (Ty.instantiate_var ty).symm.trans (writtenTy_meaning run agree).symm
    · rw [← isGranted.current] at known
      rcases names.known_or_drawn known with seen | ⟨_, isNew, _⟩
      · change before.names.get? name = none at unknown
        rw [unknown] at seen
        cases seen
      · exact isNew
  exact ⟨later,
    { isGranted with
      agree :=
        List.forall_mem_append.mpr
          ⟨isGranted.agree, List.forall_mem_singleton.mpr agrees⟩ }⟩

end Granted

/-- The grants of a session, from those of the state where it starts. -/
theorem Session.exists_granted
    {start after : State}
    {period : Nat}
    {readings : List Reading}
    (session : Session start period readings after)
    (namesApart : start.NamesApart)
    (namesDrawn : start.NamesDrawn) :
    ∃ given, Granted start period readings after given := by
  induction session with
  | start => exact ⟨_, .ofState namesApart namesDrawn⟩
  | work _ sameNames drawn inductionHypothesis =>
      obtain ⟨given, granted⟩ := inductionHypothesis
      exact ⟨given, granted.work sameNames drawn⟩
  | read _ readRun inductionHypothesis =>
      obtain ⟨given, granted⟩ := inductionHypothesis
      exact granted.read readRun
  | reset _ resetRun inductionHypothesis =>
      obtain ⟨given, granted⟩ := inductionHypothesis
      rw [runs_resetNames.mp resetRun]
      exact ⟨given, granted.reset⟩

/-- Names can be numbered. -/
theorem exists_nameNumber : ∃ number : String → Nat, Function.Injective number := by
  have isInjective :
      Function.Injective fun name : String => name.toList.map Char.toNat := by
    intro first second same
    have sameChars := List.map_injective_iff.mpr (fun _ _ => Char.toNat_inj.mp) same
    exact String.toList_inj.mp sameChars
  exact ⟨_, Encodable.encode_injective.comp isInjective⟩

/--
Grants are followed by a naming of all names in all periods, in which no two
names stand for the same variable. What was not granted gets variables that have
not been drawn.
-/
theorem Granted.exists_denote
    {start state : State}
    {period : Nat}
    {readings : List Reading}
    {given : Grants}
    (granted : Granted start period readings state given) :
    ∃ denote : Nat → String → TypeVar,
      Function.Injective2 denote ∧ given.Follows denote ∧
        ∀ other name, given other name = none →
          state.nextVar ≤ denote other name := by
  obtain ⟨number, isInjective⟩ := exists_nameNumber
  refine ⟨fun other name =>
    (given other name).getD (state.nextVar + Nat.pair other (number name)),
    ?_, ?_, ?_⟩
  · intro first second name other same
    cases isFirst : given first name with
    | some id =>
        cases isSecond : given second other with
        | some id' =>
            simp only [isFirst, isSecond, Option.getD_some] at same
            subst same
            exact granted.apart _ _ _ _ _ isFirst isSecond
        | none =>
            simp only [isFirst, isSecond, Option.getD_some,
              Option.getD_none] at same
            have isDrawn := granted.drawn _ _ _ isFirst
            rw [same] at isDrawn
            exact absurd isDrawn (Nat.not_lt.mpr (Nat.le_add_right _ _))
    | none =>
        cases isSecond : given second other with
        | some id =>
            simp only [isFirst, isSecond, Option.getD_some,
              Option.getD_none] at same
            have isDrawn := granted.drawn _ _ _ isSecond
            rw [← same] at isDrawn
            exact absurd isDrawn (Nat.not_lt.mpr (Nat.le_add_right _ _))
        | none =>
            simp only [isFirst, isSecond, Option.getD_none] at same
            obtain ⟨samePeriod, sameNumber⟩ :=
              Nat.pair_eq_pair.mp (Nat.add_left_cancel same)
            exact ⟨samePeriod, isInjective sameNumber⟩
  · intro other name id known
    simp only [known, Option.getD_some]
  · intro other name unknown
    simp only [unknown, Option.getD_none]
    exact Nat.le_add_right _ _

/--
All that is read in a session is read through one naming, which extends what
names stood for at its start. It gives different variables to different names,
and to the same name in different periods. A name that a reading is the first to
mention in its period gets a variable that had not been drawn before.
-/
theorem Session.names_denote
    {start after : State}
    {period : Nat}
    {readings : List Reading}
    (session : Session start period readings after)
    (namesApart : start.NamesApart)
    (namesDrawn : start.NamesDrawn) :
    ∃ denote : Nat → String → TypeVar,
      Function.Injective2 denote ∧
        (∀ name id, start.names.get? name = some id → denote 0 name = id) ∧
        ∀ reading ∈ readings,
          reading.ty =
              (reading.written.meaning fun name =>
                .var (denote reading.period name)) ∧
            ∀ name, reading.before.names.get? name = none →
              reading.before.nextVar ≤ denote reading.period name := by
  obtain ⟨given, granted⟩ := session.exists_granted namesApart namesDrawn
  obtain ⟨denote, isInjective, follows, isUndrawn⟩ := granted.exists_denote
  refine ⟨denote, isInjective, fun name id known => ?_, fun reading member => ?_⟩
  · exact follows 0 name id (granted.starts name id known)
  · have agrees := granted.agree reading member
    refine ⟨agrees.means denote follows, fun name unknown => ?_⟩
    cases isGiven : given reading.period name with
    | some id =>
        rw [follows _ _ _ isGiven]
        exact agrees.fresh name id unknown isGiven
    | none => exact Nat.le_trans agrees.drawn (isUndrawn _ _ isGiven)

/-- A state in which one name is known. -/
def namingState : State :=
  (State.initial.draw 3).nameNext "b"

/-- The state after a new name and some other work, with all names forgotten. -/
def forgetfulState : State :=
  ((namingState.nameNext "a").draw 2).unnamed

/-- The new name is met with the known one, and again after all is forgotten. -/
def namingReadings : List Reading :=
  [⟨0, namingState, .pair (.named "a") (.list (.named "b")),
      .pair (.var 4) (.list (.var 3))⟩,
    ⟨1, forgetfulState, .named "a", .var 7⟩]

/-- The name stands for one variable before, and for another one afterwards. -/
theorem namingReadings_denote :
    Session namingState 1 namingReadings (forgetfulState.nameNext "a") ∧
      ∃ denote : Nat → String → TypeVar,
        Function.Injective2 denote ∧ denote 0 "b" = 3 ∧ denote 0 "a" = 4 ∧
          denote 1 "a" = 7 := by
  have session :
      Session namingState 1 namingReadings (forgetfulState.nameNext "a") := by
    have firstRun :
        Runs (writtenTy (.pair (.named "a") (.list (.named "b")))) namingState
          (.pair (.var 4) (.list (.var 3))) (namingState.nameNext "a") := rfl
    have secondRun :
        Runs (writtenTy (.named "a")) forgetfulState (.var 7)
          (forgetfulState.nameNext "a") := rfl
    have drawn := State.Grows.draw (namingState.nameNext "a") 2
    have worked := (Session.read .start firstRun).work drawn.names drawn.nextVar
    exact (worked.reset (runs_resetNames.mpr rfl)).read secondRun
  have known {name : String} {id : TypeVar}
      (isKnown : namingState.names.get? name = some id) :
      name = "b" ∧ id = 3 := by
    rw [namingState, State.nameNext, Table.get?_insert] at isKnown
    split at isKnown
    · rename_i isName
      exact ⟨isName, (Option.some.inj isKnown).symm⟩
    · cases isKnown
  obtain ⟨denote, isInjective, extendsStart, isRead⟩ :=
    session.names_denote
      (fun _ _ _ first second => (known first).1.trans (known second).1.symm)
      (fun _ _ isKnown => (known isKnown).2 ▸ Nat.lt_succ_self 3)
  obtain ⟨⟨first, _⟩, rest⟩ := List.forall_mem_cons.mp isRead
  obtain ⟨second, _⟩ := List.forall_mem_singleton.mp rest
  obtain ⟨isFirst, _⟩ := Ty.pair.inj first
  exact ⟨session, denote, isInjective, extendsStart "b" 3 rfl,
    (Ty.var.inj isFirst).symm, (Ty.var.inj second).symm⟩

/-- Every session goes on from one state to another, with some periods ended. -/
def State.Continues (before : State) (resets : Nat) (after : State) : Prop :=
  ∀ start period readings, Session start period readings before →
    ∃ added, Session start (period + resets) (readings ++ added) after

namespace State.Continues

variable {before middle after : State} {resets more : Nat}

/-- Two sessions end as many periods together. -/
theorem trans
    (first : before.Continues resets middle)
    (second : middle.Continues more after) :
    before.Continues (resets + more) after := by
  intro start period readings session
  obtain ⟨added, firstSession⟩ := first start period readings session
  obtain ⟨others, secondSession⟩ := second _ _ _ firstSession
  rw [List.append_assoc, Nat.add_assoc] at secondSession
  exact ⟨_, secondSession⟩

/-- Work that leaves names alone goes on with a session. -/
theorem of_work
    (sameNames : after.names = before.names)
    (drawn : before.nextVar ≤ after.nextVar) :
    before.Continues 0 after := by
  intro start period readings session
  rw [← List.append_nil readings] at session
  exact ⟨[], .work session sameNames drawn⟩

/-- What expressions and statements do ends no period. -/
theorem of_grows (grows : before.Grows after) : before.Continues 0 after :=
  .of_work grows.names grows.nextVar

theorem refl (state : State) : state.Continues 0 state :=
  .of_grows (.refl state)

/-- Forgetting names ends a period. -/
theorem unnamed (state : State) : state.Continues 1 state.unnamed := by
  intro start period readings session
  rw [← List.append_nil readings] at session
  exact ⟨[], .reset session (runs_resetNames.mpr rfl)⟩

end State.Continues

section Inference

variable {before after : State}

theorem writtenTy_continues
    {written : WrittenTy}
    {ty : Ty}
    (run : Runs (writtenTy written) before ty after) :
    before.Continues 0 after :=
  fun _ _ _ session => ⟨_, .read session run⟩

/-- Reading a declared type ends no period. -/
theorem declaredTy_continues
    {written : Option WrittenTy}
    {declared : Ty}
    (run : Runs (declaredTy written) before declared after) :
    before.Continues 0 after := by
  cases written with
  | some written => exact writtenTy_continues run
  | none =>
      obtain ⟨_, rfl⟩ := runs_fresh.mp run
      exact .of_grows (.draw _ _)

theorem writtenTys_continues
    {written : List WrittenTy}
    {types : List Ty}
    (run : Runs (writtenTys written) before types after) :
    before.Continues 0 after := by
  induction written generalizing types before with
  | nil =>
      obtain ⟨_, rfl⟩ := runs_pure.mp run
      exact .refl _
  | cons first rest inductionHypothesis =>
      obtain ⟨_, _, _, firstRun, restRun, _⟩ := runs_writtenTys_cons run
      exact (writtenTy_continues firstRun).trans (inductionHypothesis restRun)

/-- Reading a written signature ends no period. -/
theorem signatureTy_continues
    {written : WrittenSignature}
    {ty : Ty}
    (run : Runs (signatureTy written) before ty after) :
    before.Continues 0 after := by
  obtain ⟨_, _, _, paramsRun, resultRun, _⟩ := runs_signatureTy run
  exact (writtenTys_continues paramsRun).trans (writtenTy_continues resultRun)

/--
The declaration of a variable ends no period: names are shared within a
function.
-/
theorem inferVarDecl_continues
    {decl decl' : VarDecl}
    {context context' : Context}
    {expected : Ty}
    {found : Substitution}
    (run :
      Runs (inferVarDecl decl context expected) before
        (decl', context', found) after) :
    before.Continues 0 after := by
  cases varDeclRun_of_runs run with
  | taken => exact .of_grows (.record _ _)
  | void _ declaredRun valueRun =>
      exact (declaredTy_continues declaredRun).trans
        (.of_grows ((inferExpr_grows valueRun).trans (.record _ _)))
  | bound _ declaredRun valueRun _ asked =>
      exact (declaredTy_continues declaredRun).trans
        (.of_grows ((inferExpr_grows valueRun).trans (unifyOrReport_grows asked)))

/-- Locals share their names. -/
theorem inferLocals_continues
    {decls decls' : List VarDecl}
    {context context' : Context}
    {found : Substitution}
    (run :
      Runs (inferLocals decls context) before (decls', context', found)
        after) :
    before.Continues 0 after := by
  induction decls generalizing decls' context found before with
  | nil =>
      obtain ⟨_, _, _, rfl⟩ := runs_inferLocals_nil run
      exact .refl _
  | cons decl rest inductionHypothesis =>
      obtain ⟨_, _, _, _, _, _, declRun, restRun, _, _⟩ :=
        runs_inferLocals_cons run
      exact ((State.Continues.of_grows (.draw _ _)).trans
        (inferVarDecl_continues declRun)).trans (inductionHypothesis restRun)

/-- A written signature shares its names with the locals. -/
theorem signatureFindings_continues
    {name : Name}
    {written : Option WrittenSignature}
    {inferred : Ty}
    {found : Substitution}
    (run : Runs (signatureFindings name written inferred) before found after) :
    before.Continues 0 after := by
  cases written with
  | none =>
      obtain ⟨_, rfl⟩ := runs_pure.mp run
      exact .refl _
  | some written =>
      cases signatureRun_of_runs run with
      | unshared signatureRun _ asked =>
          exact (signatureTy_continues signatureRun).trans
            (.of_grows ((State.Grows.record _ _).trans (unifyOrReport_grows asked)))
      | shared signatureRun _ asked =>
          exact (signatureTy_continues signatureRun).trans
            (.of_grows (unifyOrReport_grows asked))

/-- Calls that waited read no types. -/
theorem inferWaiting_continues
    {function : String}
    {waiting : List PendingCall}
    {context context' : Context}
    {found extended : Substitution}
    (run :
      Runs (inferWaiting function waiting context found) before
        (context', extended) after) :
    before.Continues 0 after := by
  induction waiting generalizing context found before with
  | nil =>
      cases waitingRun_of_runs run
      exact .refl _
  | cons pending rest inductionHypothesis =>
      cases waitingRun_of_runs run with
      | void _ callRun _ _ restRun | next _ callRun _ restRun =>
          have grows := inferCall_grows callRun
          refine State.Continues.trans ?_ (inductionHypothesis restRun)
          exact .of_work grows.names grows.nextVar

/-- Names are forgotten once by a function declaration, before anything is read. -/
theorem inferFunDecl_continues
    {decl decl' : FunDecl}
    {context context' : Context}
    {expected : Ty}
    {found : Substitution}
    (run :
      Runs (inferFunDecl decl context expected) before
        (decl', context', found) after) :
    before.Continues 1 after := by
  suffices rest : before.unnamed.Continues 0 after from
    (State.Continues.unnamed before).trans rest
  cases funDeclRun_of_runs run with
  | taken | repeated => exact .of_grows (.record _ _)
  | @bound _ _ _ _ _ _ _ _ _ _ _ _ _ compared' _
      _ _ _ localsRun bodyRun asked signatureRun waitingRun =>
      have bodyGrows :=
        (inferBlock_grows bodyRun).trans (unifyOrReport_grows asked)
      have compared :=
        (((State.Continues.of_grows (.draw _ _)).trans
          (inferLocals_continues localsRun)).trans
          (.of_grows bodyGrows)).trans (signatureFindings_continues signatureRun)
      have taken : compared'.Continues 0 (compared'.without decl.name.text) :=
        .of_work rfl (Nat.le_refl _)
      exact compared.trans (taken.trans (inferWaiting_continues waitingRun))

/-- Each global ends a period. -/
theorem inferGlobals_continues
    {decls decls' : List Decl}
    {context context' : Context}
    (run : Runs (inferGlobals decls context) before (decls', context') after) :
    before.Continues (decls.filterMap Decl.var?).length after := by
  induction decls generalizing decls' context before with
  | nil =>
      cases globalsRun_of_runs run
      exact .refl _
  | cons decl rest inductionHypothesis =>
      cases globalsRun_of_runs run with
      | @var decl _ _ _ _ _ found middle _ declRun restRun =>
          have started : before.Continues 1 (before.draw 1).unnamed :=
            (State.Continues.of_grows (.draw _ _)).trans (.unnamed _)
          have settled : middle.Continues 0 (middle.settle found) :=
            .of_work rfl (Nat.le_refl _)
          have declared :=
            (started.trans (inferVarDecl_continues declRun)).trans settled
          rw [List.filterMap_cons, Decl.var?, List.length_cons, Nat.add_comm]
          exact declared.trans (inductionHypothesis restRun)
      | fn restRun => exact inductionHypothesis restRun

/-- Each function ends a period. -/
theorem inferFunctions_continues
    {decls decls' : List Decl}
    {context context' : Context}
    (run : Runs (inferFunctions decls context) before (decls', context') after) :
    before.Continues (decls.filterMap Decl.fn?).length after := by
  induction decls generalizing decls' context before with
  | nil =>
      cases functionsRun_of_runs run
      exact .refl _
  | cons decl rest inductionHypothesis =>
      cases functionsRun_of_runs run with
      | @fn decl _ _ _ _ _ found middle _ declRun restRun =>
          have started : before.Continues 0 (before.draw 1) :=
            .of_grows (.draw _ _)
          have settled : middle.Continues 0 (middle.settle found) :=
            .of_work rfl (Nat.le_refl _)
          have declared :=
            (started.trans (inferFunDecl_continues declRun)).trans settled
          rw [List.filterMap_cons, Decl.fn?, List.length_cons, Nat.add_comm]
          exact declared.trans (inductionHypothesis restRun)
      | var restRun => exact inductionHypothesis restRun

/-- The inference of a program is a session, with a period for each declaration. -/
theorem inferProgram_session
    {program program' : Program}
    {context context' : Context}
    {found : Substitution}
    (run :
      Runs (inferProgram program context) before (program', context', found)
        after) :
    ∃ readings,
      Session before (program.globals.length + program.functions.length)
        readings after := by
  simp only [inferProgram, runs_bind, runs_get, runs_pure, Prod.exists,
    Prod.mk.injEq] at run
  obtain ⟨decls, _, middle, globalsRun, _, _, _, functionsRun, _, _,
    ⟨_, rfl⟩, _, rfl⟩ := run
  have functionsContinue := inferFunctions_continues functionsRun
  rw [inferGlobals_functions globalsRun] at functionsContinue
  obtain ⟨readings, session⟩ :=
    (inferGlobals_continues globalsRun).trans functionsContinue _ _ _ .start
  rw [Nat.zero_add] at session
  exact ⟨readings, session⟩

end Inference

end SplTyping
