import Mathlib.Data.List.Nodup
import SplTyping.Proofs.WrittenTypes
import SplTyping.Sharing

namespace SplTyping

/-!
# When variables are shared

A written signature is compared with an inferred type by what its variables
meet, one meeting after the other. The comparison succeeds exactly if any two
meetings agree (`sharesLike_iff`). If the names of the signature stand for
distinct type variables, there is one way to fail only: a name stands at two
places that the inferred type leaves to two variables (`SplitName`).
-/

namespace Table

variable {κ α : Type} [DecidableEq κ] [DecidableEq α]
variable {table recorded : Table κ α} {key : κ} {value : α}

/-- A value may be recorded if the key has no other one. -/
theorem record?_isSome :
    (table.record? key value).isSome = true ↔
      ∀ known, table.get? key = some known → known = value := by
  rw [record?]
  cases isKnown : table.get? key with
  | none => simp
  | some known => by_cases same : known = value <;> simp [same]

theorem get?_record?
    (isRecorded : table.record? key value = some recorded)
    (other : κ) :
    recorded.get? other =
      if other = key then some value else table.get? other := by
  rw [record?] at isRecorded
  split at isRecorded
  · cases isRecorded
    exact table.get?_insert key other value
  · rename_i known isKnown
    split at isRecorded
    · rename_i same
      cases isRecorded
      split
      · rename_i isKey
        rw [isKey, isKnown, same]
      · rfl
    · cases isRecorded

end Table

/--
Two meetings agree: a written variable meets one type only, and an inferred
variable is met by one written variable only.
-/
structure MeetingsAgree (first second : TypeVar × Ty) : Prop where
  types : first.1 = second.1 → first.2 = second.2
  owners : ∀ id, first.2 = .var id → second.2 = .var id → first.1 = second.1

namespace Sharing

/-- The tables say what has been met. -/
structure Holds (sharing : Sharing) (met : List (TypeVar × Ty)) : Prop where
  types : ∀ id ty, sharing.types.get? id = some ty ↔ (id, ty) ∈ met
  owners :
    ∀ id owner,
      sharing.owners.get? id = some owner ↔ (owner, Ty.var id) ∈ met

theorem holds_empty : empty.Holds [] where
  types := by simp [empty]
  owners := by simp [empty]

variable {sharing after : Sharing} {met : List (TypeVar × Ty)}
variable {meeting : TypeVar × Ty}

theorem meet?_isSome :
    (sharing.meet? meeting).isSome = true ↔
      (sharing.types.record? meeting.1 meeting.2).isSome = true ∧
        ∀ id, meeting.2 = .var id →
          (sharing.owners.record? id meeting.1).isSome = true := by
  obtain ⟨written, ty⟩ := meeting
  cases types : sharing.types.record? written ty with
  | none => simp [meet?, types]
  | some recorded =>
      cases ty with
      | var id =>
          cases owners : sharing.owners.record? id written <;>
            simp [meet?, types, owners]
      | _ => simp [meet?, types]

theorem meet?_eq_some (isMet : sharing.meet? meeting = some after) :
    sharing.types.record? meeting.1 meeting.2 = some after.types ∧
      ((∃ id, meeting.2 = .var id ∧
          sharing.owners.record? id meeting.1 = some after.owners) ∨
        ((∀ id, meeting.2 ≠ .var id) ∧ after.owners = sharing.owners)) := by
  obtain ⟨written, ty⟩ := meeting
  cases ty with
  | var id =>
      simp only [meet?, bind, Option.bind_eq_some_iff] at isMet
      obtain ⟨types, isTypes, owners, isOwners, isAfter⟩ := isMet
      cases isAfter
      exact ⟨isTypes, Or.inl ⟨id, rfl, isOwners⟩⟩
  | _ =>
      simp only [meet?, bind, Option.bind_eq_some_iff] at isMet
      obtain ⟨types, isTypes, isAfter⟩ := isMet
      cases isAfter
      exact ⟨isTypes, Or.inr ⟨nofun, rfl⟩⟩

namespace Holds

/-- A meeting is accepted if it agrees with all before. -/
theorem meet?_isSome (holds : sharing.Holds met) :
    (sharing.meet? meeting).isSome = true ↔
      ∀ earlier ∈ met, MeetingsAgree earlier meeting := by
  simp only [Sharing.meet?_isSome, Table.record?_isSome, holds.types,
    holds.owners]
  constructor
  · rintro ⟨types, owners⟩ ⟨written, ty⟩ member
    refine ⟨?_, ?_⟩
    · rintro rfl
      exact types ty member
    · rintro id rfl isVar
      exact owners id isVar written member
  · intro agree
    refine ⟨fun ty member => (agree _ member).types rfl, ?_⟩
    intro id isVar owner member
    exact (agree _ member).owners id rfl isVar

/-- An accepted meeting is held with those before. -/
theorem meet
    (holds : sharing.Holds met)
    (isMet : sharing.meet? meeting = some after) :
    after.Holds (meeting :: met) := by
  have isSome : (sharing.meet? meeting).isSome = true := by
    rw [isMet]
    rfl
  have agree := holds.meet?_isSome.mp isSome
  obtain ⟨written, ty⟩ := meeting
  obtain ⟨isTypes, isOwners⟩ := meet?_eq_some isMet
  refine ⟨fun id other => ?_, fun id owner => ?_⟩
  · rw [Table.get?_record? isTypes, List.mem_cons, Prod.mk.injEq]
    by_cases isWritten : id = written
    · subst isWritten
      simp only [if_true, true_and, Option.some.injEq]
      refine ⟨fun same => Or.inl same.symm, ?_⟩
      rintro (same | member)
      · exact same.symm
      · exact ((agree _ member).types rfl).symm
    · simp [isWritten, holds.types]
  · rw [List.mem_cons, Prod.mk.injEq]
    rcases isOwners with ⟨var, rfl, isOwner⟩ | ⟨notVar, isOwner⟩
    · rw [Table.get?_record? isOwner, Ty.var.injEq]
      by_cases isVar : id = var
      · subst isVar
        simp only [if_true, and_true, Option.some.injEq]
        refine ⟨fun same => Or.inl same.symm, ?_⟩
        rintro (same | member)
        · exact same.symm
        · exact ((agree _ member).owners id rfl rfl).symm
      · simp [isVar, holds.owners]
    · rw [isOwner, holds.owners]
      simp [(notVar id).symm]

/-- Meetings are accepted if each agrees with all before. -/
theorem foldlM_isSome
    (meetings : List (TypeVar × Ty))
    (holds : sharing.Holds met) :
    (meetings.foldlM Sharing.meet? sharing).isSome = true ↔
      (∀ earlier ∈ met, ∀ later ∈ meetings, MeetingsAgree earlier later) ∧
        meetings.Pairwise MeetingsAgree := by
  induction meetings generalizing sharing met with
  | nil => simp
  | cons meeting rest inductionHypothesis =>
      have firstAgrees : (sharing.meet? meeting).isSome = true ↔ _ :=
        holds.meet?_isSome
      rw [List.foldlM_cons, List.pairwise_cons]
      simp only [List.forall_mem_cons]
      cases isMet : sharing.meet? meeting with
      | none =>
          rw [isMet] at firstAgrees
          refine iff_of_false Bool.false_ne_true ?_
          rintro ⟨agree, _⟩
          have isSome := firstAgrees.mpr fun earlier member =>
            (agree earlier member).1
          cases isSome
      | some after =>
          rw [isMet] at firstAgrees
          have restAgree := inductionHypothesis (holds.meet isMet)
          rw [List.forall_mem_cons] at restAgree
          have agree := firstAgrees.mp rfl
          refine restAgree.trans ⟨?_, ?_⟩
          · rintro ⟨⟨headAgrees, earlierAgree⟩, pairwise⟩
            exact ⟨fun earlier member =>
              ⟨agree earlier member, earlierAgree earlier member⟩,
              headAgrees, pairwise⟩
          · rintro ⟨earlierAgree, headAgrees, pairwise⟩
            exact ⟨⟨headAgrees, fun earlier member =>
              (earlierAgree earlier member).2⟩, pairwise⟩

end Holds

end Sharing

/-- Variables are shared alike exactly if any two meetings agree. -/
theorem sharesLike_iff {declared inferred : Ty} :
    sharesLike declared inferred = true ↔
      (aligned declared inferred).Pairwise MeetingsAgree := by
  rw [sharesLike, Sharing.holds_empty.foldlM_isSome]
  simp

mutual

/-- The variables that meet something are those of the declared type. -/
theorem aligned_sublist (declared inferred : Ty) :
    ((aligned declared inferred).map Prod.fst).Sublist declared.vars := by
  cases declared with
  | var id => simp [aligned, Ty.vars]
  | int | bool | char | void => cases inferred <;> simp [aligned]
  | list declared =>
      cases inferred
      case list inferred => exact aligned_sublist declared inferred
      all_goals simp [aligned]
  | pair first second =>
      cases inferred
      case pair first' second' =>
        rw [aligned, List.map_append]
        exact (aligned_sublist first first').append
          (aligned_sublist second second')
      all_goals simp [aligned]
  | fn params result =>
      cases inferred
      case fn params' result' =>
        rw [aligned]
        split
        · rw [List.map_append]
          exact (alignedAll_sublist params params').append
            (aligned_sublist result result')
        · exact List.nil_sublist _
      all_goals simp [aligned]

theorem alignedAll_sublist (declared inferred : List Ty) :
    ((alignedAll declared inferred).map Prod.fst).Sublist
      (Ty.varsAll declared) := by
  cases declared with
  | nil => simp [alignedAll]
  | cons first rest =>
      cases inferred with
      | nil => simp [alignedAll]
      | cons first' rest' =>
          rw [alignedAll, List.map_append]
          exact (aligned_sublist first first').append
            (alignedAll_sublist rest rest')

end

mutual

/-- Where two types are made equal, variables are made equal to what they meet. -/
theorem aligned_equal
    {assign : Assignment}
    (declared inferred : Ty)
    (same : declared.instantiate assign = inferred.instantiate assign) :
    ∀ meeting ∈ aligned declared inferred,
      assign meeting.1 = meeting.2.instantiate assign := by
  cases declared with
  | var id => simpa [aligned, Ty.instantiate] using same
  | int | bool | char | void => cases inferred <;> simp [aligned]
  | list declared =>
      cases inferred
      case list inferred =>
        exact aligned_equal declared inferred (Ty.list.inj same)
      all_goals simp [aligned]
  | pair first second =>
      cases inferred
      case pair first' second' =>
        obtain ⟨firstSame, secondSame⟩ := Ty.pair.inj same
        exact List.forall_mem_append.mpr
          ⟨aligned_equal first first' firstSame,
            aligned_equal second second' secondSame⟩
      all_goals simp [aligned]
  | fn params result =>
      cases inferred
      case fn params' result' =>
        obtain ⟨paramsSame, resultSame⟩ := Ty.fn.inj same
        rw [aligned]
        split
        · exact List.forall_mem_append.mpr
            ⟨alignedAll_equal params params' paramsSame,
              aligned_equal result result' resultSame⟩
        · exact nofun
      all_goals simp [aligned]

theorem alignedAll_equal
    {assign : Assignment}
    (declared inferred : List Ty)
    (same :
      Ty.instantiateAll assign declared = Ty.instantiateAll assign inferred) :
    ∀ meeting ∈ alignedAll declared inferred,
      assign meeting.1 = meeting.2.instantiate assign := by
  cases declared with
  | nil => simp [alignedAll]
  | cons first rest =>
      cases inferred with
      | nil => simp [alignedAll]
      | cons first' rest' =>
          obtain ⟨firstSame, restSame⟩ := List.cons.inj same
          exact List.forall_mem_append.mpr
            ⟨aligned_equal first first' firstSame,
              alignedAll_equal rest rest' restSame⟩

end

/-- Only a variable stands for a variable. -/
theorem Ty.eq_var_of_instantiate
    {assign : Assignment}
    {ty : Ty}
    {id : TypeVar}
    (isVar : ty.instantiate assign = .var id) :
    ∃ source, ty = .var source := by
  cases ty with
  | var source => exact ⟨source, rfl⟩
  | _ => cases isVar

/--
Where the declared variables stand for distinct type variables, sharing differs
only if a declared variable meets two variables.
-/
theorem exists_split
    {assign : Assignment}
    {declared inferred : Ty}
    (same : declared.instantiate assign = inferred.instantiate assign)
    (areVars : ∀ id ∈ declared.vars, ∃ var, assign id = .var var)
    (apart :
      ∀ first ∈ declared.vars, ∀ second ∈ declared.vars,
        assign first = assign second → first = second)
    (differs : sharesLike declared inferred = false) :
    ∃ id first second,
      first ≠ second ∧ (id, Ty.var first) ∈ aligned declared inferred ∧
        (id, Ty.var second) ∈ aligned declared inferred := by
  by_contra unsplit
  refine absurd (sharesLike_iff.mpr ?_) (Bool.eq_false_iff.mp differs)
  have isDeclared {meeting : TypeVar × Ty}
      (member : meeting ∈ aligned declared inferred) :
      meeting.1 ∈ declared.vars :=
    (aligned_sublist declared inferred).mem (List.mem_map_of_mem member)
  have meetsVar {id : TypeVar} {ty : Ty}
      (member : (id, ty) ∈ aligned declared inferred) :
      ∃ met, ty = .var met := by
    obtain ⟨var, isVar⟩ := areVars id (isDeclared member)
    exact Ty.eq_var_of_instantiate
      ((aligned_equal declared inferred same _ member).symm.trans isVar)
  refine List.pairwise_of_forall_mem_list ?_
  rintro ⟨id, ty⟩ member ⟨id', ty'⟩ member'
  refine ⟨?_, ?_⟩
  · -- What a declared variable meets twice are two variables or the same one.
    rintro rfl
    obtain ⟨first, rfl⟩ := meetsVar member
    obtain ⟨second, rfl⟩ := meetsVar member'
    by_contra differ
    exact unsplit ⟨id, first, second, fun isSame => differ (isSame ▸ rfl),
      member, member'⟩
  · -- Declared variables that meet the same variable stand for the same type.
    rintro met rfl rfl
    refine apart id (isDeclared member) id' (isDeclared member') ?_
    rw [aligned_equal declared inferred same _ member,
      aligned_equal declared inferred same _ member']

namespace WrittenTy

theorem vars_meaning (ids : String → TypeVar) (written : WrittenTy) :
    (written.meaning fun name => .var (ids name)).vars =
      written.names.map ids := by
  induction written with
  | int | bool | char | void | named => rfl
  | list element inductionHypothesis => exact inductionHypothesis
  | pair first second firstHypothesis secondHypothesis =>
      rw [meaning, Ty.vars, names, List.map_append, firstHypothesis,
        secondHypothesis]

end WrittenTy

namespace WrittenSignature

theorem vars_meaning (ids : String → TypeVar) (written : WrittenSignature) :
    (written.meaning fun name => .var (ids name)).toTy.vars =
      written.names.map ids := by
  obtain ⟨params, result, span⟩ := written
  rw [names, List.map_append, meaning, Signature.toTy, Ty.vars,
    WrittenTy.vars_meaning]
  congr 1
  induction params with
  | nil => rfl
  | cons param params inductionHypothesis =>
      rw [List.map_cons, Ty.varsAll, List.flatMap_cons, List.map_append,
        WrittenTy.vars_meaning]
      exact congrArg _ inductionHypothesis

/-- The names of a written signature stand for distinct type variables. -/
structure Generic (named : String → Ty) (written : WrittenSignature) :
    Prop where
  areVars : ∀ name ∈ written.names, ∃ id, named name = .var id
  apart :
    ∀ first ∈ written.names, ∀ second ∈ written.names,
      named first = named second → first = second

end WrittenSignature

/--
An error about a function whose type is inferred too generally: a name in its
written signature stands at two places which the inferred type leaves to two
variables. The inferred type can be instantiated to the signature that is meant.
-/
inductive SplitName (signature : Signature) (decl : FunDecl) :
    TypeError → Prop where
  | intro
      {written : WrittenSignature}
      {ids : String → TypeVar}
      {assign : Assignment}
      {declared inferred : Ty}
      {name : String}
      {first second : TypeVar}
      (isWritten : decl.written = some written)
      (isDeclared :
        declared = (written.meaning fun name => .var (ids name)).toTy)
      (apart :
        ∀ name ∈ written.names, ∀ other ∈ written.names,
          ids name = ids other → name = other)
      (isGeneral : inferred.instantiate assign = signature.toTy)
      (isName : name ∈ written.names)
      (meetsFirst : (ids name, .var first) ∈ aligned declared inferred)
      (meetsSecond : (ids name, .var second) ∈ aligned declared inferred)
      (differ : first ≠ second) :
      SplitName signature decl
        (.sharing decl.name.text declared inferred decl.name.span)

/--
A signature whose names stand for distinct type variables, and which differs in
sharing from an inferred type, has a name that is split.
-/
theorem signatureTy_split
    {decl : FunDecl}
    {written : WrittenSignature}
    {signature : Signature}
    {named : String → Ty}
    {assign : Assignment}
    {declared inferred : Ty}
    {before after : State}
    (isWritten : decl.written = some written)
    (run : Runs (signatureTy written) before declared after)
    (agree : after.NamesAgree assign named)
    (generic : written.Generic named)
    (isDeclared : declared.instantiate assign = signature.toTy)
    (isInferred : inferred.instantiate assign = signature.toTy)
    (differs : sharesLike declared inferred = false) :
    SplitName signature decl
      (.sharing decl.name.text declared inferred decl.name.span) := by
  obtain ⟨ids, areIds⟩ :
      ∃ ids : String → TypeVar,
        ∀ name id, after.names.get? name = some id → ids name = id :=
    ⟨fun name => (after.names.get? name).getD 0,
      fun name id known => by simp only [known, Option.getD_some]⟩
  have ofVar {id : TypeVar} (member : id ∈ declared.vars) :
      ∃ name ∈ written.names, ids name = id ∧ named name = assign id := by
    obtain ⟨name, isName, known⟩ := signatureTy_vars run member
    exact ⟨name, isName, areIds name id known, agree name id known⟩
  obtain ⟨id, first, second, differ, meetsFirst, meetsSecond⟩ :=
    exists_split (isDeclared.trans isInferred.symm)
      (fun id member => by
        obtain ⟨name, isName, _, means⟩ := ofVar member
        rw [← means]
        exact generic.areVars name isName)
      (fun first isFirst second isSecond same => by
        obtain ⟨name, isName, rfl, means⟩ := ofVar isFirst
        obtain ⟨other, isOther, rfl, otherMeans⟩ := ofVar isSecond
        rw [← means, ← otherMeans] at same
        rw [generic.apart name isName other isOther same])
      differs
  obtain ⟨name, isName, rfl, _⟩ :=
    ofVar ((aligned_sublist declared inferred).mem
      (List.mem_map_of_mem meetsFirst))
  refine .intro isWritten (signatureTy_eq_meaning run areIds) ?_ isInferred
    isName meetsFirst meetsSecond differ
  intro name isName other isOther same
  obtain ⟨id, known⟩ := signatureTy_known run isName
  obtain ⟨otherId, otherKnown⟩ := signatureTy_known run isOther
  rw [areIds name id known, areIds other otherId otherKnown] at same
  subst same
  exact generic.apart name isName other isOther
    ((agree name id known).trans (agree other id otherKnown).symm)

/-- A name that is split stands in its signature twice. -/
theorem SplitName.repeated
    {signature : Signature}
    {decl : FunDecl}
    {error : TypeError}
    (split : SplitName signature decl error) :
    ∃ written ∈ decl.written, ¬ written.names.Nodup := by
  cases split with
  | @intro written ids _ declared inferred name first second isWritten
      isDeclared apart _ _ meetsFirst meetsSecond differ =>
      refine ⟨written, isWritten, fun nodup => ?_⟩
      have varsNodup : declared.vars.Nodup := by
        rw [isDeclared, written.vars_meaning]
        exact nodup.map_on apart
      have metNodup := varsNodup.sublist (aligned_sublist declared inferred)
      have same :=
        List.inj_on_of_nodup_map metNodup meetsFirst meetsSecond rfl
      cases same
      exact differ rfl

end SplTyping
