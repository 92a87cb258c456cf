import Mathlib.Data.List.Pairwise
import SplTyping.Proofs.Sharing

namespace SplTyping

/-!
# Aligned positions

Two types are laid over each other where their shapes agree. A declared variable
meets what stands at its place in the inferred type, and no place counts twice
or before another: `Meets` is a relation, without an order. The comparison of
sharing answers from that relation alone (`sharesLike_iff_meets`), although it
goes through the places from left to right, notes what it has seen in two tables
and stops at the first contradiction.
-/

/--
A variable of the declared type meets a type: both stand at the same place, and
on the way there the two types have the same shape.
-/
inductive Meets : Ty → Ty → TypeVar → Ty → Prop where
  | here (id : TypeVar) (ty : Ty) : Meets (.var id) ty id ty
  | element
      {declared inferred ty : Ty}
      {id : TypeVar}
      (meets : Meets declared inferred id ty) :
      Meets (.list declared) (.list inferred) id ty
  | first
      {declared declared' inferred inferred' ty : Ty}
      {id : TypeVar}
      (meets : Meets declared inferred id ty) :
      Meets (.pair declared declared') (.pair inferred inferred') id ty
  | second
      {declared declared' inferred inferred' ty : Ty}
      {id : TypeVar}
      (meets : Meets declared' inferred' id ty) :
      Meets (.pair declared declared') (.pair inferred inferred') id ty
  | param
      {params params' : List Ty}
      {declared inferred result result' ty : Ty}
      {id : TypeVar}
      (sameCount : params.length = params'.length)
      (isParam : (declared, inferred) ∈ params.zip params')
      (meets : Meets declared inferred id ty) :
      Meets (.fn params result) (.fn params' result') id ty
  | result
      {params params' : List Ty}
      {result result' ty : Ty}
      {id : TypeVar}
      (sameCount : params.length = params'.length)
      (meets : Meets result result' id ty) :
      Meets (.fn params result) (.fn params' result') id ty

theorem alignedAll_eq_flatMap
    (declared inferred : List Ty) :
    alignedAll declared inferred =
      (declared.zip inferred).flatMap fun types => aligned types.1 types.2 := by
  induction declared generalizing inferred with
  | nil => simp [alignedAll]
  | cons first rest inductionHypothesis =>
      cases inferred with
      | nil => simp [alignedAll]
      | cons first' rest' => simp [alignedAll, inductionHypothesis]

theorem meets_of_mem_aligned
    {declared inferred ty : Ty}
    {id : TypeVar}
    (member : (id, ty) ∈ aligned declared inferred) :
    Meets declared inferred id ty := by
  induction declared generalizing inferred with
  | var other =>
      rw [aligned, List.mem_singleton] at member
      cases member
      exact .here id ty
  | int | bool | char | void => cases inferred <;> cases member
  | list declared inductionHypothesis =>
      cases inferred
      case list inferred => exact .element (inductionHypothesis member)
      all_goals cases member
  | pair first second firstHypothesis secondHypothesis =>
      cases inferred
      case pair first' second' =>
        rcases List.mem_append.mp member with inFirst | inSecond
        · exact .first (firstHypothesis inFirst)
        · exact .second (secondHypothesis inSecond)
      all_goals cases member
  | fn params result paramsHypothesis resultHypothesis =>
      cases inferred
      case fn params' result' =>
        rw [aligned] at member
        split at member
        · rename_i sameCount
          rw [List.mem_append, alignedAll_eq_flatMap,
            List.mem_flatMap] at member
          rcases member with ⟨types, isParam, inParam⟩ | inResult
          · have isDeclared := (List.of_mem_zip isParam).1
            exact .param sameCount isParam
              (paramsHypothesis types.1 isDeclared inParam)
          · exact .result sameCount (resultHypothesis inResult)
        · cases member
      all_goals cases member

theorem Meets.mem_aligned
    {declared inferred ty : Ty}
    {id : TypeVar}
    (meets : Meets declared inferred id ty) :
    (id, ty) ∈ aligned declared inferred := by
  induction meets with
  | here => exact List.mem_singleton_self _
  | element _ inductionHypothesis => exact inductionHypothesis
  | first _ inductionHypothesis =>
      exact List.mem_append_left _ inductionHypothesis
  | second _ inductionHypothesis =>
      exact List.mem_append_right _ inductionHypothesis
  | param sameCount isParam _ inductionHypothesis =>
      rw [aligned, if_pos sameCount, alignedAll_eq_flatMap]
      exact List.mem_append_left _
        (List.mem_flatMap.mpr ⟨_, isParam, inductionHypothesis⟩)
  | result sameCount _ inductionHypothesis =>
      rw [aligned, if_pos sameCount]
      exact List.mem_append_right _ inductionHypothesis

/-- The list of meetings has the meetings as its members. -/
theorem mem_aligned_iff
    {declared inferred ty : Ty}
    {id : TypeVar} :
    (id, ty) ∈ aligned declared inferred ↔ Meets declared inferred id ty :=
  ⟨meets_of_mem_aligned, Meets.mem_aligned⟩

namespace MeetingsAgree

theorem refl (meeting : TypeVar × Ty) : MeetingsAgree meeting meeting where
  types := fun _ => rfl
  owners := fun _ _ _ => rfl

instance : Std.Symm MeetingsAgree where
  symm _ _ agree := {
    types := fun same => (agree.types same.symm).symm
    owners := fun id isFirst isSecond =>
      (agree.owners id isSecond isFirst).symm
  }

end MeetingsAgree

/-- Meetings can be noted in turn exactly if they agree, in whatever order. -/
theorem Sharing.foldlM_empty_isSome
    (meetings : List (TypeVar × Ty)) :
    (meetings.foldlM meet? empty).isSome = true ↔
      ∀ first ∈ meetings, ∀ second ∈ meetings, MeetingsAgree first second := by
  rw [holds_empty.foldlM_isSome]
  constructor
  · rintro ⟨_, pairwise⟩ first isFirst second isSecond
    exact pairwise.forall_of_forall (fun meeting _ => .refl meeting)
      isFirst isSecond
  · intro agree
    exact ⟨List.forall_mem_nil _, List.pairwise_of_forall_mem_list agree⟩

namespace Sharing

mutual

/--
What has been met once two types have been gone through together, unless a
meeting contradicts an earlier one. Nothing behind a contradiction is looked at.
-/
def walk? : Ty → Ty → Sharing → Option Sharing
  | .var id, ty, sharing => sharing.meet? (id, ty)
  | .list declared, .list inferred, sharing => walk? declared inferred sharing
  | .pair declared declared', .pair inferred inferred', sharing => do
      walk? declared' inferred' (← walk? declared inferred sharing)
  | .fn params result, .fn params' result', sharing =>
      if params.length = params'.length then do
        walk? result result' (← walkAll? params params' sharing)
      else
        some sharing
  | _, _, sharing => some sharing

/-- What has been met once two lists of types have been gone through together. -/
def walkAll? : List Ty → List Ty → Sharing → Option Sharing
  | declared :: rest, inferred :: rest', sharing => do
      walkAll? rest rest' (← walk? declared inferred sharing)
  | _, _, sharing => some sharing

end

mutual

/-- Meetings are noted on the way as they are from a list. -/
theorem walk?_eq_foldlM
    (declared inferred : Ty)
    (sharing : Sharing) :
    walk? declared inferred sharing =
      (aligned declared inferred).foldlM meet? sharing := by
  cases declared with
  | var id => simp [walk?, aligned]
  | int | bool | char | void => cases inferred <;> rfl
  | list declared =>
      cases inferred
      case list inferred => exact walk?_eq_foldlM declared inferred sharing
      all_goals rfl
  | pair first second =>
      cases inferred
      case pair first' second' =>
        rw [walk?, aligned, List.foldlM_append, walk?_eq_foldlM]
        exact bind_congr fun after => walk?_eq_foldlM second second' after
      all_goals rfl
  | fn params result =>
      cases inferred
      case fn params' result' =>
        rw [walk?, aligned]
        split
        · rw [List.foldlM_append, walkAll?_eq_foldlM]
          exact bind_congr fun after => walk?_eq_foldlM result result' after
        · rfl
      all_goals rfl

theorem walkAll?_eq_foldlM
    (declared inferred : List Ty)
    (sharing : Sharing) :
    walkAll? declared inferred sharing =
      (alignedAll declared inferred).foldlM meet? sharing := by
  cases declared with
  | nil => cases inferred <;> rfl
  | cons first rest =>
      cases inferred with
      | nil => rfl
      | cons first' rest' =>
          rw [walkAll?, alignedAll, List.foldlM_append, walk?_eq_foldlM]
          exact bind_congr fun after => walkAll?_eq_foldlM rest rest' after

end

end Sharing

/--
Sharing is compared by what declared variables meet, and by nothing else: no
declared variable meets two types, and no inferred variable is met by two
declared variables. The meetings may be noted in any order and any number of
times, and they may be noted while the types are gone through.
-/
theorem sharesLike_iff_meets (declared inferred : Ty) :
    (sharesLike declared inferred = true ↔
      (∀ id ty ty',
        Meets declared inferred id ty →
        Meets declared inferred id ty' →
        ty = ty') ∧
      ∀ var id id',
        Meets declared inferred id (.var var) →
        Meets declared inferred id' (.var var) →
        id = id') ∧
    (∀ meetings : List (TypeVar × Ty),
      (∀ id ty, (id, ty) ∈ meetings ↔ Meets declared inferred id ty) →
      (meetings.foldlM Sharing.meet? .empty).isSome =
        sharesLike declared inferred) ∧
    (Sharing.walk? declared inferred .empty).isSome =
      sharesLike declared inferred := by
  refine ⟨?_, ?_, ?_⟩
  · rw [sharesLike, Sharing.foldlM_empty_isSome]
    simp only [Prod.forall, mem_aligned_iff]
    constructor
    · intro agree
      refine ⟨fun id ty ty' meets meets' => ?_, fun var id id' meets meets' => ?_⟩
      · exact (agree id ty meets id ty' meets').types rfl
      · exact (agree id (.var var) meets id' (.var var) meets').owners var rfl rfl
    · rintro ⟨oneType, oneOwner⟩ id ty meets id' ty' meets'
      refine ⟨?_, ?_⟩
      · rintro rfl
        exact oneType id ty ty' meets meets'
      · rintro var rfl rfl
        exact oneOwner var id id' meets meets'
  · intro meetings areMeetings
    rw [sharesLike, Bool.eq_iff_iff, Sharing.foldlM_empty_isSome,
      Sharing.foldlM_empty_isSome]
    simp only [Prod.forall, mem_aligned_iff, areMeetings]
  · rw [sharesLike, Sharing.walk?_eq_foldlM]

/--
Places of different shape are passed over. The meetings at the others contradict
each other, also when the last place is looked at first.
-/
theorem sharesLike_iff_meets_backwards :
    let declared : Ty :=
      .fn [.list (.var 7), .fn [.var 8] .int, .pair (.var 9) .bool] (.var 7)
    let inferred : Ty :=
      .fn [.list (.var 1), .fn [] .int, .pair (.var 2) .char] (.var 2)
    let meetings : List (TypeVar × Ty) := [(7, .var 2), (9, .var 2), (7, .var 1)]
    (∀ id ty, (id, ty) ∈ meetings ↔ Meets declared inferred id ty) ∧
      (meetings.foldlM Sharing.meet? .empty).isSome =
        sharesLike declared inferred ∧
      sharesLike declared inferred = false := by
  intro declared inferred meetings
  have areMeetings :
      ∀ id ty, (id, ty) ∈ meetings ↔ Meets declared inferred id ty := by
    intro id ty
    rw [← mem_aligned_iff, ← List.mem_reverse]
    exact Iff.rfl
  exact ⟨areMeetings,
    (sharesLike_iff_meets declared inferred).2.1 meetings areMeetings,
    by decide⟩

end SplTyping
