import Mathlib
import SplTyping.Proofs.Errors
import SplTyping.Proofs.Naming
import SplTyping.Proofs.Sharing

namespace SplTyping

/-!
# Names that are merged

A written signature says that two places may have different types by giving them
different names. The body of the function may say otherwise: if it leaves the
two places to the same type variable, then the names are merged, and this is
reported (`inferFunDecl_reports_merged`). Names are compared with type variables
only. Where the body leaves both places to the same closed type, nothing is
reported; the names stand for that type then.
-/

namespace WrittenTy

/-- What the names of a written type meet when a type is laid over it. -/
def meets : WrittenTy → Ty → List (String × Ty)
  | .named name, ty => [(name, ty)]
  | .list element, .list ty => element.meets ty
  | .pair first second, .pair ty ty' => first.meets ty ++ second.meets ty'
  | _, _ => []

/-- What the names of several written types meet. -/
def meetsAll : List WrittenTy → List Ty → List (String × Ty)
  | written :: rest, ty :: types => written.meets ty ++ meetsAll rest types
  | _, _ => []

variable {ids : String → TypeVar}

/-- Variables of names meet what the names meet. -/
theorem aligned_meaning (written : WrittenTy) (ty : Ty) :
    aligned (written.meaning fun name => .var (ids name)) ty =
      (written.meets ty).map (Prod.map ids id) := by
  induction written generalizing ty with
  | int | bool | char | void => cases ty <;> rfl
  | list element inductionHypothesis =>
      cases ty with
      | list ty => exact inductionHypothesis ty
      | _ => rfl
  | pair first second firstHypothesis secondHypothesis =>
      cases ty with
      | pair ty ty' =>
          rw [meaning, aligned, meets, List.map_append, firstHypothesis,
            secondHypothesis]
      | _ => rfl
  | named name => rfl

theorem alignedAll_meaning (written : List WrittenTy) (types : List Ty) :
    alignedAll (written.map (meaning fun name => .var (ids name))) types =
      (meetsAll written types).map (Prod.map ids id) := by
  induction written generalizing types with
  | nil => cases types <;> rfl
  | cons first rest inductionHypothesis =>
      cases types with
      | nil => rfl
      | cons ty types =>
          rw [List.map_cons, alignedAll, meetsAll, List.map_append,
            aligned_meaning, inductionHypothesis]

end WrittenTy

namespace WrittenSignature

/-- What the names of a written signature meet when a type is laid over it. -/
def meets (written : WrittenSignature) : Ty → List (String × Ty)
  | .fn params result =>
      if written.params.length = params.length then
        WrittenTy.meetsAll written.params params ++ written.result.meets result
      else
        []
  | _ => []

theorem aligned_meaning
    {ids : String → TypeVar}
    (written : WrittenSignature)
    (inferred : Ty) :
    aligned (written.meaning fun name => .var (ids name)).toTy inferred =
      (written.meets inferred).map (Prod.map ids id) := by
  cases inferred with
  | fn params result =>
      rw [meaning, Signature.toTy, aligned, meets, List.length_map]
      split
      · rw [List.map_append, WrittenTy.alignedAll_meaning,
          WrittenTy.aligned_meaning]
      · rfl
  | _ => rfl

end WrittenSignature

instance : Std.Symm MeetingsAgree where
  symm _ _ agree :=
    { types := fun same => (agree.types same.symm).symm
      owners := fun id isSecond isFirst =>
        (agree.owners id isFirst isSecond).symm }

/--
Names that stand for different variables do not share them as a type does in
which they meet the same variable.
-/
theorem WrittenSignature.sharesLike_of_merged
    {ids : String → TypeVar}
    {written : WrittenSignature}
    {inferred : Ty}
    {name other : String}
    {id : TypeVar}
    (isInjective : Function.Injective ids)
    (differ : name ≠ other)
    (meetsVar : (name, .var id) ∈ written.meets inferred)
    (otherMeetsVar : (other, .var id) ∈ written.meets inferred) :
    sharesLike (written.meaning fun name => .var (ids name)).toTy inferred =
      false := by
  rw [Bool.eq_false_iff]
  intro shares
  have areAgreed := sharesLike_iff.mp shares
  rw [written.aligned_meaning] at areAgreed
  have differ' := isInjective.ne differ
  have agree :=
    areAgreed.forall (List.mem_map_of_mem meetsVar)
      (List.mem_map_of_mem otherMeetsVar) fun same =>
        differ' (Prod.mk.inj same).1
  exact differ' (agree.owners id rfl rfl)

/-- An error is recorded between two states. -/
def State.Records (before after : State) (error : TypeError) : Prop :=
  ∃ errors,
    after.diagnostics.errors = before.diagnostics.errors ++ errors ∧
      error ∈ errors

/-- Errors are only added between two states. -/
def State.ErrorsKept (before after : State) : Prop :=
  before.diagnostics.errors <+: after.diagnostics.errors

theorem Reports.errorsKept
    {α : Type}
    {step : InferM α}
    {result : α}
    {before after : State}
    (reports : Reports step)
    (run : Runs step before result after) :
    before.ErrorsKept after := by
  obtain ⟨errors, isAdded, _⟩ := reports.added run
  exact ⟨errors, isAdded.symm⟩

theorem unifyOrReport_errorsKept
    {left right : Ty}
    {flow : Flow}
    {explain : UnifyError → TypeError}
    {found : Substitution}
    {before after : State}
    (run : Runs (unifyOrReport left right flow explain) before found after) :
    before.ErrorsKept after := by
  rcases runs_unifyOrReport run with ⟨_, rfl⟩ | ⟨_, _, _, rfl⟩
  · exact List.prefix_refl _
  · exact List.prefix_append _ _

/-- An error that is recorded in between is recorded on the whole way. -/
theorem State.records_of_between
    {before middle after : State}
    {error : TypeError}
    (first : before.ErrorsKept middle)
    (second : (middle.record error).ErrorsKept after) :
    before.Records after error := by
  obtain ⟨errors, isFirst⟩ := first
  obtain ⟨more, isSecond⟩ := second
  refine ⟨errors ++ error :: more, ?_, by simp⟩
  rw [← isSecond, State.record, Diagnostics.report, ← isFirst]
  simp

/--
A function is inferred as a type: this is what its body has left of its shape
when it is compared with its written signature.
-/
inductive FunDecl.InferredAs
    (decl : FunDecl)
    (context : Context)
    (expected : Ty)
    (before : State) :
    Ty → State → Prop where
  | intro
      {locals : List VarDecl}
      {body : List Stmt}
      {inner : Context}
      {found more shaped : Substitution}
      {middle last reached : State}
      (free : context.funs.contains decl.name.text = false)
      (distinct : firstRepeated? [] decl.args = none)
      (localsRun :
        Runs
          (inferLocals decl.locals
            (decl.inner context (freshShape before.nextVar decl.args.length)))
          (before.unnamed.draw (decl.args.length + 1)) (locals, inner, found)
          middle)
      (bodyRun :
        Runs
          (inferBlock decl.body inner
            (found.apply
              (freshShape before.nextVar decl.args.length).result))
          middle (body, more) last)
      (asked :
        Runs
          (constrain ((found ++ more).apply expected)
            ((found ++ more).apply
              (freshShape before.nextVar decl.args.length).toTy)
            .general decl.mark.span)
          last shaped reached) :
      decl.InferredAs context expected before
        ((found ++ more ++ shaped).apply
          (freshShape before.nextVar decl.args.length).toTy)
        reached

section Declared

variable {decl decl' : FunDecl} {context context' : Context}
variable {expected inferred : Ty} {found : Substitution}
variable {before reached after : State}

/-- A function is inferred as one type only. -/
theorem FunDecl.InferredAs.unique
    {other : Ty}
    {otherReached : State}
    (first : decl.InferredAs context expected before inferred reached)
    (second : decl.InferredAs context expected before other otherReached) :
    inferred = other ∧ reached = otherReached := by
  obtain ⟨_, _, localsRun, bodyRun, asked⟩ := first
  obtain ⟨_, _, localsRun', bodyRun', asked'⟩ := second
  cases localsRun.symm.trans localsRun'
  cases bodyRun.symm.trans bodyRun'
  cases asked.symm.trans asked'
  exact ⟨rfl, rfl⟩

/-- Errors are only added until a function is compared with its signature. -/
theorem FunDecl.InferredAs.errorsKept
    (isInferred : decl.InferredAs context expected before inferred reached) :
    before.ErrorsKept reached := by
  cases isInferred with
  | intro _ _ localsRun bodyRun asked =>
      exact ((inferLocals_reports _ _).errorsKept localsRun).trans
        (((inferBlock_reports _ _ _).errorsKept bodyRun).trans
          (unifyOrReport_errorsKept asked))

theorem FunDecl.InferredAs.session
    (isInferred : decl.InferredAs context expected before inferred reached) :
    ∃ readings, Session before.unnamed 0 readings reached := by
  cases isInferred with
  | intro _ _ localsRun bodyRun asked =>
      have bodyGrows :=
        (inferBlock_grows bodyRun).trans (unifyOrReport_grows asked)
      have continued :=
        ((State.Continues.of_grows (.draw _ _)).trans
          (inferLocals_continues localsRun)).trans (.of_grows bodyGrows)
      exact continued _ _ _ .start

/-- In its written signature, different names stand for different variables. -/
theorem FunDecl.InferredAs.signature_read
    {written : WrittenSignature}
    {declared : Ty}
    {middle : State}
    (isInferred : decl.InferredAs context expected before inferred reached)
    (readRun : Runs (signatureTy written) reached declared middle) :
    ∃ ids : String → TypeVar,
      Function.Injective ids ∧
        declared = (written.meaning fun name => .var (ids name)).toTy := by
  obtain ⟨_, session⟩ := isInferred.session
  obtain ⟨_, readSession⟩ := signatureTy_continues readRun _ _ _ session
  -- Names are forgotten before the function, so none is known at first.
  obtain ⟨given, granted⟩ :=
    readSession.exists_granted (fun _ _ _ known => by cases known)
      (fun _ _ known => by cases known)
  obtain ⟨denote, isInjective, follows, _⟩ := granted.exists_denote
  refine ⟨denote 0, isInjective.right 0, signatureTy_eq_meaning readRun ?_⟩
  intro name id known
  rw [granted.current] at known
  exact follows 0 name id known

/-- How a function goes on once it has been inferred as a type. -/
theorem inferFunDecl_compares
    {written : WrittenSignature}
    (run :
      Runs (inferFunDecl decl context expected) before
        (decl', context', found) after)
    (isWritten : decl.written = some written)
    (isInferred : decl.InferredAs context expected before inferred reached) :
    ∃ compared findings,
      Runs (inferSignature decl.name written inferred) reached findings
          compared ∧
        compared.ErrorsKept after := by
  cases funDeclRun_of_runs run with
  | taken isTaken =>
      obtain ⟨free, _⟩ := isInferred
      rw [free] at isTaken
      cases isTaken
  | repeated isRepeated =>
      obtain ⟨_, distinct, _⟩ := isInferred
      rw [distinct] at isRepeated
      cases isRepeated
  | bound free distinct shapeEq localsRun bodyRun asked signatureRun
      waitingRun =>
      subst shapeEq
      obtain ⟨rfl, rfl⟩ :=
        isInferred.unique (.intro free distinct localsRun bodyRun asked)
      rw [isWritten] at signatureRun
      have waitingKept := (inferWaiting_reports _ _ _ _).errorsKept waitingRun
      exact ⟨_, _, signatureRun, waitingKept⟩

end Declared

/--
If two names of a written signature meet the same type variable when a function
is compared with it, then an error about the function is recorded. It shows the
signature, with different variables for different names, and the type that the
function was inferred as.
-/
theorem inferFunDecl_reports_merged
    {decl decl' : FunDecl}
    {context context' : Context}
    {expected inferred : Ty}
    {found : Substitution}
    {before reached after : State}
    {written : WrittenSignature}
    {name other : String}
    {id : TypeVar}
    (run :
      Runs (inferFunDecl decl context expected) before
        (decl', context', found) after)
    (isWritten : decl.written = some written)
    (isInferred : decl.InferredAs context expected before inferred reached)
    (differ : name ≠ other)
    (meetsVar : (name, .var id) ∈ written.meets inferred)
    (otherMeetsVar : (other, .var id) ∈ written.meets inferred) :
    ∃ ids : String → TypeVar,
      Function.Injective ids ∧
        before.Records after
          (.sharing decl.name.text
            (written.meaning fun name => .var (ids name)).toTy inferred
            decl.name.span) := by
  obtain ⟨compared, findings, signatureRun, laterKept⟩ :=
    inferFunDecl_compares run isWritten isInferred
  cases signatureRun_of_runs signatureRun with
  | unshared readRun _ asked =>
      obtain ⟨ids, isInjective, rfl⟩ := isInferred.signature_read readRun
      have readKept := (signatureTy_reports written).errorsKept readRun
      exact ⟨ids, isInjective,
        State.records_of_between (isInferred.errorsKept.trans readKept)
          ((unifyOrReport_errorsKept asked).trans laterKept)⟩
  | shared readRun agrees =>
      obtain ⟨ids, isInjective, rfl⟩ := isInferred.signature_read readRun
      rw [WrittenSignature.sharesLike_of_merged isInjective differ meetsVar
        otherMeetsVar] at agrees
      cases agrees

/-- A function of two arguments, with a name for each. -/
def namedPairDecl (body : List Stmt) : FunDecl where
  name := .ofText "f"
  args := [.ofText "x", .ofText "y"]
  written := some ⟨[.named "a", .named "b"], .named "a", .unknown⟩
  locals := []
  body := body
  mark := .blank

/-- What is asked of a function of two arguments while its body is inferred. -/
def namedPairBody (body : List Stmt) : (List Stmt × Substitution) × State :=
  (inferBlock body
      ((namedPairDecl body).inner .empty (freshShape 1 2)) (.var 3)).run
    ((State.initial.draw 1).unnamed.draw 3)

/-- What is asked of it after its body. -/
def namedPairAsked (body : List Stmt) : Substitution × State :=
  (constrain ((namedPairBody body).1.2.apply (.var 0))
      ((namedPairBody body).1.2.apply (freshShape 1 2).toTy) .general
      .unknown).run
    (namedPairBody body).2

theorem namedPairDecl_inferred
    {body : List Stmt}
    {inferred : Ty}
    (isInferred :
      ((namedPairBody body).1.2 ++ (namedPairAsked body).1).apply
          (freshShape 1 2).toTy =
        inferred) :
    (namedPairDecl body).InferredAs .empty (.var 0) (State.initial.draw 1)
      inferred (namedPairAsked body).2 := by
  subst isInferred
  exact @FunDecl.InferredAs.intro _ _ _ _ _ _ _ [] _ _ _ _ _
    rfl rfl rfl rfl rfl

/-- A function that returns its second argument instead of its first. -/
def swappedBody : List Stmt :=
  [.ret (some (.ofText "y")) .unknown]

/-- A function that puts a number before its second argument. -/
def longerBody : List Stmt :=
  [.assign (.ofFields "x" [])
      (.binary .cons (.int 1 .blank) (.ofText "y") .blank) .unknown,
    .ret (some (.ofText "x")) .unknown]

/-- The names of a result and of another argument are merged and reported. -/
theorem swappedBody_reports_merged :
    ∃ decl' context' found reached after,
      Runs (inferFunDecl (namedPairDecl swappedBody) .empty (.var 0))
          (State.initial.draw 1) (decl', context', found) after ∧
        (namedPairDecl swappedBody).InferredAs .empty (.var 0)
          (State.initial.draw 1) (.fn [.var 1, .var 2] (.var 2)) reached ∧
        ∃ ids : String → TypeVar,
          Function.Injective ids ∧
            (State.initial.draw 1).Records after
              (.sharing "f"
                (.fn [.var (ids "a"), .var (ids "b")] (.var (ids "a")))
                (.fn [.var 1, .var 2] (.var 2)) .unknown) := by
  have isInferred :
      (namedPairDecl swappedBody).InferredAs .empty (.var 0)
        (State.initial.draw 1) (.fn [.var 1, .var 2] (.var 2))
        (namedPairAsked swappedBody).2 :=
    namedPairDecl_inferred (by cbv)
  generalize run :
    (inferFunDecl (namedPairDecl swappedBody) .empty (.var 0)).run
      (State.initial.draw 1) = outcome
  obtain ⟨⟨decl', context', found⟩, after⟩ := outcome
  refine ⟨decl', context', found, _, after, run, isInferred, ?_⟩
  exact inferFunDecl_reports_merged run rfl isInferred
    (by decide : "a" ≠ "b")
    (List.mem_cons_of_mem _ (List.mem_cons_of_mem _ (List.mem_cons_self ..)))
    (List.mem_cons_of_mem _ (List.mem_cons_self ..))

/-- Two names at the same type of lists are accepted. -/
theorem longerBody_unreported :
    ∃ decl' context' found reached after inferred,
      Runs (inferFunDecl (namedPairDecl longerBody) .empty (.var 0))
          (State.initial.draw 1) (decl', context', found) after ∧
        (namedPairDecl longerBody).InferredAs .empty (.var 0)
          (State.initial.draw 1) inferred reached ∧
        (∃ written ∈ (namedPairDecl longerBody).written,
          ("a", .list .int) ∈ written.meets inferred ∧
            ("b", .list .int) ∈ written.meets inferred) ∧
        after.diagnostics.errors = [] := by
  have isInferred :
      (namedPairDecl longerBody).InferredAs .empty (.var 0)
        (State.initial.draw 1)
        (.fn [.list .int, .list .int] (.list .int))
        (namedPairAsked longerBody).2 :=
    namedPairDecl_inferred (by cbv)
  have noErrors :
      ((inferFunDecl (namedPairDecl longerBody) .empty (.var 0)).run
        (State.initial.draw 1)).2.diagnostics.errors = [] := by
    cbv
  generalize run :
    (inferFunDecl (namedPairDecl longerBody) .empty (.var 0)).run
      (State.initial.draw 1) = outcome at noErrors
  obtain ⟨⟨decl', context', found⟩, after⟩ := outcome
  refine ⟨decl', context', found, _, after, _, run, isInferred,
    ⟨_, rfl, ?_⟩, noErrors⟩
  exact ⟨List.mem_cons_self .., List.mem_cons_of_mem _ (List.mem_cons_self ..)⟩

end SplTyping
