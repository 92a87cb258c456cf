import Mathlib.Data.List.Forall2
import SplTyping.Proofs.Accounts
import SplTyping.Proofs.Renewal

namespace SplTyping

/-!
# Two runs in step

Inference of a tree and inference of what is left of it by an erasure go through
the same steps: they draw the same type variables, set the same calls aside
under the same numbers and record the same errors, up to what is left out of the
places of these errors. `InStep` says this of two steps that are taken from
states which agree in this way (`Twins`). On the way it keeps track of a forecast
that foresees which calls the second run sets aside, and what comes of them
(`Forecast.Foresees`).
-/

/-- An error without what is left out of its place. -/
def TypeError.erased (erasure : Erasure) : TypeError → TypeError
  | .mismatch demand expected found span =>
      .mismatch demand expected found (erasure.span span)
  | .unknownVariable name span => .unknownVariable name (erasure.span span)
  | .unknownFunction name span => .unknownFunction name (erasure.span span)
  | .redefinition kind name span =>
      .redefinition kind name (erasure.span span)
  | .arity kind name expected found span =>
      .arity kind name expected found (erasure.span span)
  | .voidValue use span => .voidValue use (erasure.span span)
  | .sharing name declared inferred span =>
      .sharing name declared inferred (erasure.span span)

/-- A demand for a value without what is left out of its place. -/
def ValueGuard.erased (erasure : Erasure) (guard : ValueGuard) : ValueGuard where
  use := guard.use
  span := erasure.span guard.span

/-- A waiting call without what is left out of it, but with its number. -/
def PendingCall.erased
    (erasure : Erasure)
    (pending : PendingCall) :
    PendingCall where
  id := pending.id
  call := { pending.call.erased erasure with waiting := pending.call.waiting }
  context := pending.context
  expected := pending.expected
  guard := pending.guard.map (ValueGuard.erased erasure)

/-- A queue without what is left out of its calls. -/
def CallQueue.erased (erasure : Erasure) (queue : CallQueue) : CallQueue where
  callee := queue.callee
  calls := queue.calls.map (PendingCall.erased erasure)

/-- All waiting calls without what is left out of them. -/
def PendingCalls.erased
    (erasure : Erasure)
    (pending : PendingCalls) :
    PendingCalls where
  queues := pending.queues.map (CallQueue.erased erasure)
  nextId := pending.nextId

section Erased

variable (erasure : Erasure)

/-- A failure of unification is explained at the place that is left. -/
theorem TypeError.erased_ofUnify
    (demand : Demand)
    (subject : String)
    (span : Span)
    (failure : UnifyError) :
    (ofUnify demand subject span failure).erased erasure =
      ofUnify demand subject (erasure.span span) failure := by
  cases failure <;> rfl

/-- The failure of an argument is explained at the place that is left. -/
theorem TypeError.erased_ofArgument
    (function : String)
    (number : Nat)
    (span : Span)
    (failure : UnifyError) :
    (ofArgument function number span failure).erased erasure =
      ofArgument function number (erasure.span span) failure := by
  cases failure <;> rfl

/-- Erased calls queue for the same functions. -/
theorem CallQueue.map_erased_enqueue
    (callee : String)
    (pending : PendingCall)
    (queues : List CallQueue) :
    (enqueue callee pending queues).map (CallQueue.erased erasure) =
      enqueue callee (pending.erased erasure)
        (queues.map (CallQueue.erased erasure)) := by
  induction queues with
  | nil => rfl
  | cons queue rest inductionHypothesis =>
      simp only [enqueue, List.map_cons, CallQueue.erased]
      split
      · simp [CallQueue.erased]
      · split
        · rfl
        · rw [List.map_cons, inductionHypothesis]
          rfl

/-- What is left out makes no difference to setting a call aside. -/
theorem PendingCalls.erased_defer
    (pending : PendingCalls)
    (call : Call)
    (stamp : Option CallId)
    (context : Context)
    (expected : Ty)
    (guard : Option ValueGuard) :
    ((pending.erased erasure).defer
        { call.erased erasure with waiting := stamp } context expected
        (guard.map (ValueGuard.erased erasure))).2 =
      (pending.defer call context expected guard).2.erased erasure := by
  rcases call with ⟨callee, args, mark, waiting⟩
  simp only [defer, PendingCalls.erased, CallQueue.map_erased_enqueue]
  rfl

/-- Erased calls wait in the same order. -/
theorem PendingCalls.calls_erased
    (pending : PendingCalls) :
    (pending.erased erasure).calls =
      pending.calls.map (PendingCall.erased erasure) := by
  simp only [calls, PendingCalls.erased, List.flatMap_map, List.map_flatMap]
  rfl

/-- What is left out makes no difference to taking the calls of a function. -/
theorem PendingCalls.erased_take
    (pending : PendingCalls)
    (function : String) :
    (pending.erased erasure).take function =
      ((pending.take function).1.map (PendingCall.erased erasure),
        (pending.take function).2.erased erasure) := by
  simp only [take, PendingCalls.erased, List.partition_eq_filter_filter,
    List.filter_map, List.flatMap_map, List.map_flatMap]
  rfl

end Erased

/--
Two states agree, up to what is left out; the copies made so far may differ. The
second run has taken some calls in order to check them.
-/
structure Twins
    (erasure : Erasure)
    (taken : List PendingCall)
    (first second : State) :
    Prop where
  nextVar : first.nextVar = second.nextVar
  names : first.names = second.names
  settled : first.settled = second.settled
  pending : first.pending = second.pending.erased erasure
  errors :
    first.diagnostics.errors =
      second.diagnostics.errors.map (TypeError.erased erasure)
  warnings : first.diagnostics.warnings = second.diagnostics.warnings
  numbers : first.Numbers (taken.map PendingCall.id)

namespace Forecast

variable {erasure : Erasure} (forecast : Forecast erasure)

/-- Each checked copy becomes the final form of its number. -/
def Settles (copies : ResolvedCalls) : Prop :=
  ∀ entry ∈ copies.entries, forecast.Answers entry.1 entry.2

/-- A copy made by the second run becomes the same as that of the first. -/
structure CopiedAgain (entry again : CallId × Call) : Prop where
  id : again.1 = entry.1
  final :
    again.2.innerUnder forecast.outcome = entry.2.innerUnder forecast.outcome
  inside :
    forecast.Renumbers [] (Expr.numberedAll entry.2.args)
      (Expr.numberedAll again.2.args)

/-- What is copied again is copied under the same number. -/
theorem CopiedAgain.keys
    {forecast : Forecast erasure}
    {entries entries' : List (CallId × Call)}
    (copied : List.Forall₂ forecast.CopiedAgain entries entries') :
    entries'.map Prod.fst = entries.map Prod.fst := by
  induction copied with
  | nil => rfl
  | cons isAgain _ inductionHypothesis =>
      rw [List.map_cons, List.map_cons, isAgain.id, inductionHypothesis]

/-- The second run has set expected calls aside, and has made the same of them. -/
structure Repeats
    (taken : List PendingCall)
    (first second : State) :
    Prop where
  waiting :
    ∀ pending ∈ taken ++ second.pending.calls,
      forecast.Expects pending.id pending.call
  copies :
    List.Forall₂ forecast.CopiedAgain first.resolved.entries
      second.resolved.entries

/--
A forecast foresees what the second run does, as far as it gives the copies of
the first run their final forms.
-/
def Foresees
    (taken : List PendingCall)
    (first second : State) :
    Prop :=
  forecast.Settles first.resolved → forecast.Repeats taken first second

namespace Foresees

variable {forecast : Forecast erasure} {taken : List PendingCall}
variable {before before' after after' : State}

/-- No call waits at first, and there are no copies. -/
theorem initial : forecast.Foresees [] .initial .initial :=
  fun _ => ⟨List.forall_mem_nil _, .nil⟩

/-- What is foreseen depends on waiting calls and copies only. -/
theorem quiet
    (foresees : forecast.Foresees taken before before')
    (samePending' : after'.pending = before'.pending)
    (sameCopies : after.resolved = before.resolved)
    (sameCopies' : after'.resolved = before'.resolved) :
    forecast.Foresees taken after after' := by
  intro settles
  rw [sameCopies] at settles
  obtain ⟨waiting, copies⟩ := foresees settles
  constructor
  · rw [samePending']
    exact waiting
  · rw [sameCopies, sameCopies']
    exact copies

/-- Setting a call aside is foreseen if the call is expected. -/
theorem setAside
    {call call' : Call}
    {context : Context}
    {expected : Ty}
    {guard guard' : Option ValueGuard}
    (foresees : forecast.Foresees taken before before')
    (isExpected :
      forecast.Expects before'.pending.nextId
        { call' with waiting := some before'.pending.nextId }) :
    forecast.Foresees taken (before.setAside call context expected guard)
      (before'.setAside call' context expected guard') := by
  intro settles
  obtain ⟨waiting, copies⟩ := foresees settles
  refine ⟨fun pending isWaiting => ?_, copies⟩
  have added :=
    (before'.pending.perm_defer call' context expected guard').append_left taken
  rcases List.mem_cons.mp
      (List.perm_middle.mem_iff.mp (added.mem_iff.mp isWaiting)) with
    rfl | waited
  · exact isExpected
  · exact waiting pending waited

/-- Calls that are taken were foreseen as they waited. -/
theorem take
    (foresees : forecast.Foresees taken before before')
    (function : String) :
    forecast.Foresees ((before'.pending.take function).1 ++ taken)
      (before.without function) (before'.without function) := by
  intro settles
  obtain ⟨waiting, copies⟩ := foresees settles
  refine ⟨fun pending isMember => waiting pending ?_, copies⟩
  have split := before'.pending.perm_take function
  rw [List.append_assoc, List.mem_append, List.mem_append] at isMember
  rcases isMember with isTaken | wasTaken | isLeft
  · exact List.mem_append_right _
      (split.mem_iff.mp (List.mem_append_left _ isTaken))
  · exact List.mem_append_left _ wasTaken
  · exact List.mem_append_right _
      (split.mem_iff.mp (List.mem_append_right _ isLeft))

end Foresees

end Forecast

section Taken

variable {erasure : Erasure} {taken : List PendingCall}
variable {before before' middle middle' : State}

/-- The same calls are taken from twin states. -/
theorem Twins.take
    (twins : Twins erasure taken before before')
    (function : String) :
    Twins erasure ((before'.pending.take function).1 ++ taken)
      (before.without function) (before'.without function) := by
  have sameTake := PendingCalls.erased_take erasure before'.pending function
  rw [← twins.pending] at sameTake
  refine { twins with pending := congrArg Prod.snd sameTake, numbers := ?_ }
  have numbers := twins.numbers.take function
  rw [sameTake, List.map_map] at numbers
  rw [List.map_append]
  exact numbers

/-- A call that was taken is settled in both states. -/
theorem Twins.resolve
    {pending : PendingCall}
    (twins : Twins erasure (pending :: taken) before before')
    (copy copy' : Call) :
    Twins erasure taken (before.resolve pending.id copy)
      (before'.resolve pending.id copy') :=
  { twins with numbers := twins.numbers.resolve copy }

/--
If a taken call was foreseen and its copy becomes the final form of its number,
then both runs make the same of the call.
-/
theorem Forecast.Foresees.resolve
    {forecast : Forecast erasure}
    {pending : PendingCall}
    {setAside : List Call}
    {copy copy' : Call}
    (foresees : forecast.Foresees (pending :: taken) before before')
    (callTwins :
      CallTwins erasure pending.call.waiting pending.call setAside copy copy')
    (twins : Twins erasure (pending :: taken) middle middle')
    (sameCopies : middle.resolved = before.resolved)
    (foreseesNext :
      forecast.ExpectsAll setAside →
        forecast.Foresees (pending :: taken) middle middle') :
    forecast.Foresees taken (middle.resolve pending.id copy)
      (middle'.resolve pending.id copy') := by
  intro settles
  have entries :
      (middle.resolve pending.id copy).resolved.entries =
        middle.resolved.entries ++ [(pending.id, copy)] :=
    Table.insert_of_not_mem twins.numbers.unused
  rw [Forecast.Settles, entries, List.forall_mem_append] at settles
  obtain ⟨settlesBefore, settlesCopy⟩ := settles
  have answers : forecast.Answers pending.id copy :=
    settlesCopy _ (List.mem_singleton_self _)
  have isExpected : forecast.Expects pending.id pending.call := by
    rw [sameCopies] at settlesBefore
    exact (foresees settlesBefore).waiting pending List.mem_cons_self
  obtain ⟨sameFinal, renumbers⟩ := callTwins.renews_copy answers isExpected
  obtain ⟨waiting, copies⟩ := foreseesNext renumbers.expected settlesBefore
  have entries' :
      (middle'.resolve pending.id copy').resolved.entries =
        middle'.resolved.entries ++ [(pending.id, copy')] := by
    refine Table.insert_of_not_mem ?_
    rw [Table.keys, Forecast.CopiedAgain.keys copies]
    exact twins.numbers.unused
  refine ⟨fun other isOther => waiting other (List.mem_cons_of_mem _ isOther), ?_⟩
  rw [entries, entries']
  have isAgain :
      forecast.CopiedAgain (pending.id, copy) (pending.id, copy') :=
    ⟨rfl, sameFinal, renumbers.of_subset (List.nil_subset _)⟩
  exact List.rel_append copies (.cons isAgain .nil)

end Taken

/--
Two steps go together: from states that agree they lead to such states, to
related results, and to what is foreseen if the calls that the second step sets
aside are. Some calls are taken before, and some after the steps.
-/
def InStepFrom
    {α β : Type}
    (erasure : Erasure)
    (taken taken' : List PendingCall)
    (related : List Call → α → β → Prop)
    (first : InferM α)
    (second : InferM β) :
    Prop :=
  ∀ before before', Twins erasure taken before before' →
    ∃ setAside result result' after after',
      Runs first before result after ∧
        Runs second before' result' after' ∧
        related setAside result result' ∧
        Twins erasure taken' after after' ∧
        ∀ forecast : Forecast erasure, forecast.ExpectsAll setAside →
          forecast.Foresees taken before before' →
            forecast.Foresees taken' after after'

/-- Two steps go together whatever calls are taken. -/
def InStep
    {α β : Type}
    (erasure : Erasure)
    (related : List Call → α → β → Prop)
    (first : InferM α)
    (second : InferM β) :
    Prop :=
  ∀ taken, InStepFrom erasure taken taken related first second

/-- Equal results, and no call is set aside. -/
def Same {α : Type} (setAside : List Call) (first second : α) : Prop :=
  setAside = [] ∧ first = second

/-- Related trees, and equal findings beside them. -/
def Twin
    {α ρ : Type}
    (related : List Call → α → α → Prop)
    (setAside : List Call)
    (first second : α × ρ) :
    Prop :=
  related setAside first.1 second.1 ∧ first.2 = second.2

namespace InStepFrom

variable {α β γ δ : Type} {erasure : Erasure}
variable {taken taken' taken'' : List PendingCall}

theorem pure
    {related : List Call → α → β → Prop}
    {value : α}
    {value' : β}
    (isRelated : related [] value value') :
    InStepFrom erasure taken taken related (Pure.pure value)
      (Pure.pure value') :=
  fun before before' twins =>
    ⟨[], value, value', before, before', rfl, rfl, isRelated, twins,
      fun _ _ foresees => foresees⟩

/-- Steps that take up calls go in step one after the other. -/
theorem bind
    {related : List Call → α → β → Prop}
    {related' : List Call → γ → δ → Prop}
    {first : InferM α}
    {second : InferM β}
    {next : α → InferM γ}
    {next' : β → InferM δ}
    (steps : InStepFrom erasure taken taken' related first second)
    (nexts :
      ∀ setAside value value',
        related setAside value value' →
          InStepFrom erasure taken' taken''
            (fun more => related' (setAside ++ more))
            (next value) (next' value')) :
    InStepFrom erasure taken taken'' related' (first >>= next)
      (second >>= next') := by
  intro before before' twins
  obtain ⟨setAside, value, value', middle, middle', run, run', isRelated,
    middleTwins, foresees⟩ := steps before before' twins
  obtain ⟨more, result, result', after, after', nextRun, nextRun', areRelated,
    afterTwins, foreseesNext⟩ :=
    nexts setAside value value' isRelated middle middle' middleTwins
  refine ⟨setAside ++ more, result, result', after, after',
    runs_bind.mpr ⟨value, middle, run, nextRun⟩,
    runs_bind.mpr ⟨value', middle', run', nextRun'⟩, areRelated, afterTwins,
    fun forecast expected isForeseen => ?_⟩
  obtain ⟨expectedFirst, expectedNext⟩ := List.forall_mem_append.mp expected
  exact foreseesNext forecast expectedNext
    (foresees forecast expectedFirst isForeseen)

/-- A step that looks at the state first. -/
theorem get
    {related : List Call → α → β → Prop}
    {next : State → InferM α}
    {next' : State → InferM β}
    (nexts :
      ∀ state state', Twins erasure taken state state' →
        InStepFrom erasure taken taken' related (next state) (next' state')) :
    InStepFrom erasure taken taken' related (MonadState.get >>= next)
      (MonadState.get >>= next') := by
  intro before before' twins
  obtain ⟨setAside, result, result', after, after', run, run', rest⟩ :=
    nexts before before' twins before before' twins
  exact ⟨setAside, result, result', after, after',
    runs_bind.mpr ⟨before, before, rfl, run⟩,
    runs_bind.mpr ⟨before', before', rfl, run'⟩, rest⟩

end InStepFrom

namespace InStep

variable {α β γ δ ρ : Type} {erasure : Erasure}

theorem pure
    {related : List Call → α → β → Prop}
    {value : α}
    {value' : β}
    (isRelated : related [] value value') :
    InStep erasure related (Pure.pure value) (Pure.pure value') :=
  fun _ => .pure isRelated

/-- Steps go in step one after the other. -/
theorem bind
    {related : List Call → α → β → Prop}
    {related' : List Call → γ → δ → Prop}
    {first : InferM α}
    {second : InferM β}
    {next : α → InferM γ}
    {next' : β → InferM δ}
    (steps : InStep erasure related first second)
    (nexts :
      ∀ setAside value value',
        related setAside value value' →
          InStep erasure (fun more => related' (setAside ++ more))
            (next value) (next' value')) :
    InStep erasure related' (first >>= next) (second >>= next') :=
  fun taken => (steps taken).bind fun setAside value value' isRelated =>
    nexts setAside value value' isRelated taken

/-- A step with equal results that sets nothing aside, and what comes next. -/
theorem bindSame
    {related : List Call → γ → δ → Prop}
    {first second : InferM α}
    {next : α → InferM γ}
    {next' : α → InferM δ}
    (steps : InStep erasure Same first second)
    (nexts : ∀ value, InStep erasure related (next value) (next' value)) :
    InStep erasure related (first >>= next) (second >>= next') := by
  refine steps.bind ?_
  rintro _ value _ ⟨rfl, rfl⟩
  exact nexts value

/-- A step that results in a tree, and what comes next. -/
theorem bindTwin
    {related : List Call → α → α → Prop}
    {related' : List Call → γ → δ → Prop}
    {first second : InferM (α × ρ)}
    {next : α × ρ → InferM γ}
    {next' : α × ρ → InferM δ}
    (steps : InStep erasure (Twin related) first second)
    (nexts :
      ∀ setAside tree tree' rest,
        related setAside tree tree' →
          InStep erasure (fun more => related' (setAside ++ more))
            (next (tree, rest)) (next' (tree', rest))) :
    InStep erasure related' (first >>= next) (second >>= next') := by
  refine steps.bind ?_
  rintro setAside ⟨tree, rest⟩ ⟨tree', _⟩ ⟨isRelated, rfl⟩
  exact nexts setAside tree tree' rest isRelated

/-- A choice goes in step if both of its sides do. -/
theorem ite
    {related : List Call → α → β → Prop}
    {condition : Prop}
    [Decidable condition]
    {yes no : InferM α}
    {yes' no' : InferM β}
    (yesSteps : InStep erasure related yes yes')
    (noSteps : InStep erasure related no no') :
    InStep erasure related (if condition then yes else no)
      (if condition then yes' else no') := by
  split
  · exact yesSteps
  · exact noSteps

/-- A step that changes neither waiting calls nor copies. -/
theorem change
    {change change' : State → α × State}
    (agrees :
      ∀ taken before before', Twins erasure taken before before' →
        (change before).1 = (change' before').1 ∧
          Twins erasure taken (change before).2 (change' before').2)
    (quiet : ∀ state, (change state).2.resolved = state.resolved)
    (quiet' :
      ∀ state,
        (change' state).2.pending = state.pending ∧
          (change' state).2.resolved = state.resolved) :
    InStep erasure Same (modifyGet change : InferM α)
      (modifyGet change' : InferM α) := by
  intro taken before before' twins
  obtain ⟨sameResult, afterTwins⟩ := agrees taken before before' twins
  refine ⟨[], _, _, _, _, rfl, rfl, ⟨rfl, sameResult⟩, afterTwins,
    fun forecast _ foresees => ?_⟩
  exact foresees.quiet (quiet' before').1 (quiet before) (quiet' before').2

/-- Results of steps come of runs. -/
theorem withRuns
    {related : List Call → α → β → Prop}
    {first : InferM α}
    {second : InferM β}
    (steps : InStep erasure related first second) :
    InStep erasure
      (fun setAside result result' =>
        related setAside result result' ∧
          (∃ before after, Runs first before result after) ∧
          ∃ before after, Runs second before result' after)
      first second := by
  intro taken before before' twins
  obtain ⟨setAside, result, result', after, after', run, run', isRelated,
    rest⟩ := steps taken before before' twins
  exact ⟨setAside, result, result', after, after', run, run',
    ⟨isRelated, ⟨before, after, run⟩, ⟨before', after', run'⟩⟩, rest⟩

end InStep

section Steps

variable {erasure : Erasure}

theorem freshVar_inStep : InStep erasure Same freshVar freshVar :=
  .change
    (fun _ _ _ twins =>
      ⟨twins.nextVar, { twins with nextVar := congrArg (· + 1) twins.nextVar }⟩)
    (fun _ => rfl) (fun _ => ⟨rfl, rfl⟩)

/-- The same variable is drawn. -/
theorem fresh_inStep : InStep erasure Same fresh fresh :=
  freshVar_inStep.bindSame fun _ => .pure ⟨rfl, rfl⟩

/-- Twin errors are reported. -/
theorem report_inStep (error : TypeError) :
    InStep erasure Same (report (error.erased erasure)) (report error) := by
  refine .change (fun _ before before' twins => ⟨rfl, { twins with errors := ?_ }⟩)
    (fun _ => rfl) (fun _ => ⟨rfl, rfl⟩)
  simp only [Diagnostics.report, List.map_append, twins.errors, List.map_cons,
    List.map_nil]

theorem resetNames_inStep : InStep erasure Same resetNames resetNames :=
  .change (fun _ _ _ twins => ⟨rfl, { twins with names := rfl }⟩)
    (fun _ => rfl) (fun _ => ⟨rfl, rfl⟩)

/-- The same findings are written down. -/
theorem settleFindings_inStep (found : Substitution) :
    InStep erasure Same (settleFindings found) (settleFindings found) :=
  .change
    (fun _ _ _ twins =>
      ⟨rfl, { twins with settled := congrArg (· ++ found) twins.settled }⟩)
    (fun _ => rfl) (fun _ => ⟨rfl, rfl⟩)

/-- The same equation is solved, or its failure explained by twin errors. -/
theorem unifyOrReport_inStep
    {explain explain' : UnifyError → TypeError}
    (left right : Ty)
    (flow : Flow)
    (explained : ∀ failure, (explain' failure).erased erasure = explain failure) :
    InStep erasure Same (unifyOrReport left right flow explain)
      (unifyOrReport left right flow explain') := by
  unfold unifyOrReport
  split
  · exact .pure ⟨rfl, rfl⟩
  · rw [← explained]
    exact (report_inStep _).bindSame fun _ => .pure ⟨rfl, rfl⟩

/-- A type is asked for at twin places. -/
theorem constrain_inStep
    (expected found : Ty)
    (demand : Demand)
    (span : Span) :
    InStep erasure Same (constrain expected found demand (erasure.span span))
      (constrain expected found demand span) :=
  unifyOrReport_inStep _ _ _ (TypeError.erased_ofUnify erasure demand "" span)

/-- The same variables are drawn for an operator. -/
theorem operatorTypes_inStep (op : BinOp) :
    InStep erasure Same (operatorTypes op) (operatorTypes op) := by
  cases op <;> unfold operatorTypes
  case cons | eq | ne =>
    exact fresh_inStep.bindSame fun _ => .pure ⟨rfl, rfl⟩
  all_goals exact .pure ⟨rfl, rfl⟩

/-- The bound of a range is looked at in step. -/
theorem rangeBound_inStep
    {span span' : Span}
    (first : Ty)
    (found : Substitution)
    (sameSpan : span' = erasure.span span) :
    InStep erasure Same (rangeBound first found span')
      (rangeBound first found span) := by
  subst sameSpan
  unfold rangeBound
  split
  · exact .pure ⟨rfl, rfl⟩
  · exact .pure ⟨rfl, rfl⟩
  · exact .pure ⟨rfl, rfl⟩
  · exact (report_inStep (.mismatch .rangeBound .int _ span)).bindSame
      fun _ => .pure ⟨rfl, rfl⟩

theorem namedVar_inStep (name : String) :
    InStep erasure Same (namedVar name) (namedVar name) := by
  intro taken
  refine .get fun state state' twins => ?_
  rw [twins.names]
  split
  · exact .pure ⟨rfl, rfl⟩
  · refine freshVar_inStep.bindSame (fun id =>
      InStep.bindSame (.change ?_ ?_ ?_) fun _ => .pure ⟨rfl, rfl⟩) taken
    · exact fun _ _ _ twins =>
        ⟨rfl, { twins with names := congrArg (·.insert name id) twins.names }⟩
    · exact fun _ => rfl
    · exact fun _ => ⟨rfl, rfl⟩

/-- A written type has the same type variables for its names. -/
theorem writtenTy_inStep (written : WrittenTy) :
    InStep erasure Same (writtenTy written) (writtenTy written) := by
  induction written with
  | int | bool | char | void => exact .pure ⟨rfl, rfl⟩
  | list element inductionHypothesis =>
      exact inductionHypothesis.bindSame fun _ => .pure ⟨rfl, rfl⟩
  | pair first second firstSteps secondSteps =>
      exact firstSteps.bindSame fun _ =>
        secondSteps.bindSame fun _ => .pure ⟨rfl, rfl⟩
  | named name =>
      exact (namedVar_inStep name).bindSame fun _ => .pure ⟨rfl, rfl⟩

theorem writtenTys_inStep (written : List WrittenTy) :
    InStep erasure Same (writtenTys written) (writtenTys written) := by
  induction written with
  | nil => exact .pure ⟨rfl, rfl⟩
  | cons written rest inductionHypothesis =>
      exact (writtenTy_inStep written).bindSame fun _ =>
        inductionHypothesis.bindSame fun _ => .pure ⟨rfl, rfl⟩

/-- Setting a call aside, with or without its slots. -/
theorem defer_inStep
    (call : Call)
    (stamp : Option CallId)
    (context : Context)
    (expected : Ty)
    (guard : Option ValueGuard) :
    InStep erasure
      (fun setAside first second =>
        ∃ id,
          setAside = [{ call with waiting := some id }] ∧
            first = { call.erased erasure with waiting := some id } ∧
            second = { call with waiting := some id })
      (defer { call.erased erasure with waiting := stamp } context expected
        (guard.map (ValueGuard.erased erasure)))
      (defer call context expected guard) := by
  intro taken before before' twins
  have sameNext : before.pending.nextId = before'.pending.nextId := by
    rw [twins.pending]
    rfl
  refine ⟨_, _, _, _, _, rfl, rfl,
    ⟨before'.pending.nextId, rfl, ?_, rfl⟩, ?_, ?_⟩
  · rw [← sameNext]
  · refine { twins with pending := ?_, numbers := ?_ }
    · rw [twins.pending]
      exact PendingCalls.erased_defer ..
    · exact twins.numbers.receives (.cons .nil) rfl
  · intro forecast isExpected foresees
    exact foresees.setAside (isExpected _ (List.mem_singleton_self _) _ rfl)

end Steps

end SplTyping
