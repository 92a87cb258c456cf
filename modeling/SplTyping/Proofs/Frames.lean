import SplTyping.Proofs.Agreement
import SplTyping.Proofs.Declarations

namespace SplTyping

/-!
# What a function changes around it

The declaration of a function is refused if its name is taken or if an argument
is repeated; one error is recorded then, and the declaration leaves nothing else
behind. Otherwise it binds its own name and narrows the context it stands in, by
what it has found and nothing else (`inferFunDecl_frame`): arguments and local
variables hide globals only inside the function, and the calls that waited for
it narrow the context no further than the findings say.
-/

/-- The declaration of a function is refused in a context, with an error. -/
inductive FunDecl.Refused (decl : FunDecl) (context : Context) :
    TypeError → Prop where
  | taken
      (isTaken : context.funs.contains decl.name.text = true) :
      decl.Refused context
        (.redefinition .function decl.name.text decl.name.span)
  | repeated
      {earlier later : List Name}
      {arg : Name}
      (free : context.funs.contains decl.name.text = false)
      (split : decl.args = earlier ++ arg :: later)
      (distinct : (earlier.map Name.text).Nodup)
      (isEarlier : arg.text ∈ earlier.map Name.text) :
      decl.Refused context (.redefinition .argument arg.text arg.span)

/-- The first repeated name comes after distinct names, one of them its own. -/
theorem firstRepeated?_eq_some
    {seen : List String}
    {names : List Name}
    {name : Name}
    (isRepeated : firstRepeated? seen names = some name) :
    ∃ earlier later,
      names = earlier ++ name :: later ∧
        (earlier.map Name.text).Nodup ∧
        (∀ other ∈ earlier, other.text ∉ seen) ∧
        (name.text ∈ seen ∨ name.text ∈ earlier.map Name.text) := by
  induction names generalizing seen with
  | nil => cases isRepeated
  | cons first rest inductionHypothesis =>
      rw [firstRepeated?] at isRepeated
      split at isRepeated
      · rename_i isSeen
        cases isRepeated
        exact ⟨[], rest, rfl, List.nodup_nil, List.forall_mem_nil _,
          .inl isSeen⟩
      · rename_i unseen
        obtain ⟨earlier, later, rfl, distinct, areUnseen, isKnown⟩ :=
          inductionHypothesis isRepeated
        refine ⟨first :: earlier, later, rfl, ?_, ?_, ?_⟩
        · rw [List.map_cons, List.nodup_cons]
          refine ⟨?_, distinct⟩
          intro inEarlier
          obtain ⟨other, isOther, same⟩ := List.mem_map.mp inEarlier
          exact areUnseen other isOther (same ▸ List.mem_cons_self ..)
        · rw [List.forall_mem_cons]
          exact ⟨unseen, fun other isOther inSeen =>
            areUnseen other isOther (List.mem_cons_of_mem _ inSeen)⟩
        · rw [List.map_cons, List.mem_cons]
          rw [List.mem_cons, or_assoc, or_left_comm] at isKnown
          exact isKnown

section Declared

variable {decl decl' : FunDecl} {context context' : Context}
variable {expected : Ty} {found : Substitution} {before after : State}

/--
A function is refused if its name is taken or an argument is repeated, and it
leaves nothing behind but its error.
-/
theorem inferFunDecl_refuses
    (clashes :
      context.funs.contains decl.name.text = true ∨
        ¬ (decl.args.map Name.text).Nodup)
    (expected : Ty)
    (before : State) :
    ∃ error,
      decl.Refused context error ∧
        Runs (inferFunDecl decl context expected) before (decl, context, [])
          (before.unnamed.record error) := by
  unfold inferFunDecl
  simp only [runs_bind, runs_resetNames, exists_eq_left, exists_const,
    runs_ite, runs_report, runs_pure]
  by_cases isTaken : context.funs.contains decl.name.text = true
  · exact ⟨_, .taken isTaken, .inl ⟨isTaken, trivial, rfl⟩⟩
  · cases isRepeated : firstRepeated? [] decl.args with
    | none =>
        exact absurd (firstRepeated?_eq_none.mp isRepeated).1
          (clashes.resolve_left isTaken)
    | some arg =>
        obtain ⟨earlier, later, split, distinct, _, isKnown⟩ :=
          firstRepeated?_eq_some isRepeated
        have isEarlier := isKnown.resolve_left List.not_mem_nil
        have refused :=
          FunDecl.Refused.repeated (Bool.eq_false_iff.mpr isTaken) split
            distinct isEarlier
        simp only [runs_bind, runs_report, runs_pure]
        exact ⟨_, refused, .inr ⟨isTaken, (), _, rfl, trivial, rfl⟩⟩

/-- Otherwise it is bound in the context that its findings have narrowed. -/
theorem inferFunDecl_context
    (run :
      Runs (inferFunDecl decl context expected) before
        (decl', context', found) after)
    (free : context.funs.contains decl.name.text = false)
    (distinct : (decl.args.map Name.text).Nodup) :
    context' =
      (context.narrow found).bindFun decl.name.text
        ((freshShape before.nextVar decl.args.length).narrow found) := by
  cases funDeclRun_of_runs run with
  | taken isTaken =>
      rw [free] at isTaken
      cases isTaken
  | repeated isRepeated =>
      have notRepeated :=
        firstRepeated?_eq_none.mpr ⟨distinct, fun _ _ => List.not_mem_nil⟩
      rw [notRepeated] at isRepeated
      cases isRepeated
  | bound _ _ shapeEq _ _ _ _ waitingRun =>
      subst shapeEq
      obtain ⟨added, rfl, rfl⟩ := inferWaiting_narrows waitingRun
      rw [← Context.narrow_append, Context.narrow_bindFun]

end Declared

/--
If its name is taken or an argument is repeated, then a function is refused: one
error is recorded, names are forgotten, and all else is left as it was. If not,
then afterwards every variable has its old type, narrowed by what the function
has found; every function has its old signature, narrowed likewise; and the
function itself is bound, with a parameter for each argument.
-/
theorem inferFunDecl_frame
    {decl decl' : FunDecl}
    {context context' : Context}
    {expected : Ty}
    {found : Substitution}
    {before after : State}
    (run :
      Runs (inferFunDecl decl context expected) before
        (decl', context', found) after) :
    (context.funs.contains decl.name.text = true ∨
        ¬ (decl.args.map Name.text).Nodup →
      decl' = decl ∧ context' = context ∧ found = [] ∧
        ∃ error,
          decl.Refused context error ∧
            after =
              { before with
                names := .empty
                diagnostics := before.diagnostics.report error }) ∧
      (context.funs.contains decl.name.text = false →
        (decl.args.map Name.text).Nodup →
          (∀ name,
            context'.vars.get? name =
              (context.vars.get? name).map found.apply) ∧
          (∀ name, name ≠ decl.name.text →
            context'.funs.get? name =
              (context.funs.get? name).map fun signature =>
                signature.narrow found) ∧
          ∃ signature,
            context'.funs.get? decl.name.text = some signature ∧
              signature.params.length = decl.args.length) := by
  refine ⟨?_, ?_⟩
  · intro clashes
    obtain ⟨error, refused, refusedRun⟩ :=
      inferFunDecl_refuses clashes expected before
    cases run.symm.trans refusedRun
    exact ⟨rfl, rfl, rfl, error, refused, rfl⟩
  · intro free distinct
    obtain rfl := inferFunDecl_context run free distinct
    refine ⟨fun name => Table.get?_map .., ?_, ?_⟩
    · intro name isOther
      rw [Context.bindFun, Table.get?_insert, if_neg isOther]
      exact Table.get?_map ..
    · refine ⟨(freshShape before.nextVar decl.args.length).narrow found,
        ?_, ?_⟩
      · rw [Context.bindFun, Table.get?_insert, if_pos rfl]
      · rw [Signature.narrow, List.length_map, freshShape, drawnTys_length]

/-- A context with a flag in it. -/
def flagContext : Context :=
  Context.empty.bindVar "x" .bool

/-- A function that calls another one, which is declared later. -/
def askingDecl : FunDecl :=
  .ofBody "ask" ["y"]
    [.ret (some (.call (.ofText "next" [.ofText "y"]))) .unknown]

/-- The function that is called, with an argument that hides the flag. -/
def nextDecl : FunDecl :=
  .ofBody "next" ["x"]
    [.ret (some (.binary .add (.ofText "x") (.int 1 .blank) .blank)) .unknown]

/-- Where the call waits. -/
def askingOutcome : (FunDecl × Context × Substitution) × State :=
  (inferFunDecl askingDecl flagContext (.var 0)).run (State.initial.draw 1)

/--
The flag is hidden by an argument and comes back, and a call that waited narrows
its caller. The caller is refused when it is declared once more.
-/
theorem nextDecl_frame :
    (∃ decl' context' found after signature,
      Runs (inferFunDecl nextDecl askingOutcome.1.2.1 (.var 5))
          askingOutcome.2 (decl', context', found) after ∧
        context'.vars.get? "x" = some .bool ∧
        context'.funs.get? "ask" = some ⟨[.var 1], .int⟩ ∧
        context'.funs.get? "next" = some signature ∧
        signature.params.length = 1) ∧
      Runs (inferFunDecl askingDecl askingOutcome.1.2.1 (.var 5))
        askingOutcome.2 (askingDecl, askingOutcome.1.2.1, [])
        (askingOutcome.2.unnamed.record
          (.redefinition .function "ask" .unknown)) := by
  have facts :
      askingOutcome.1.2.1.funs.contains "ask" = true ∧
        askingOutcome.1.2.1.funs.contains "next" = false ∧
        askingOutcome.1.2.1.vars.get? "x" = some .bool ∧
        (askingOutcome.1.2.1.funs.get? "ask").map
            (fun signature =>
              signature.narrow
                ((inferFunDecl nextDecl askingOutcome.1.2.1 (.var 5)).run
                  askingOutcome.2).1.2.2) =
          some ⟨[.var 1], .int⟩ := by
    refine ⟨?_, ?_, ?_, ?_⟩ <;> cbv
  generalize askingOutcome.1.2.1 = context at facts ⊢
  generalize askingOutcome.2 = before at facts ⊢
  generalize run : (inferFunDecl nextDecl context (.var 5)).run before = outcome
    at facts
  generalize again : (inferFunDecl askingDecl context (.var 5)).run before =
    refused
  obtain ⟨⟨decl', context', found⟩, after⟩ := outcome
  obtain ⟨⟨decl, unchanged, nothing⟩, last⟩ := refused
  obtain ⟨isTaken, free, isFlag, isNarrowed⟩ := facts
  obtain ⟨_, framed⟩ := inferFunDecl_frame run
  obtain ⟨vars, funs, signature, isBound, arity⟩ := framed free (by decide)
  obtain ⟨refuses, _⟩ := inferFunDecl_frame again
  obtain ⟨rfl, rfl, rfl, error, isRefused, rfl⟩ := refuses (.inl isTaken)
  refine ⟨⟨decl', context', found, after, signature, run, ?_, ?_, isBound,
    arity⟩, ?_⟩
  · rw [vars, isFlag]
    rfl
  · rw [funs "ask" (by decide)]
    exact isNarrowed
  · cases isRefused with
    | taken => exact again
    | repeated isFree =>
        have differ := isTaken.symm.trans isFree
        cases differ

end SplTyping
