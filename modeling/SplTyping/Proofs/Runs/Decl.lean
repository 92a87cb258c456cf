import SplTyping.Proofs.Runs.Stmt

namespace SplTyping

/-!
# Runs over declarations

The ways through the declaration of a variable, a written signature, the calls
that waited for a function (`WaitingRun`) and the declaration of a function. A
written type draws a type variable for every name that is new to the declaration.
-/

/-- The type that a declaration asks of its value. -/
def declaredTy (written : Option WrittenTy) : InferM Ty :=
  match written with
  | some written => writtenTy written
  | none => fresh

/-- How the inference of a variable declaration runs. -/
inductive VarDeclRun
    (decl : VarDecl)
    (context : Context)
    (expected : Ty)
    (before : State) :
    VarDecl → Context → Substitution → State → Prop where
  | taken
      {error : TypeError}
      (isTaken : context.vars.contains decl.name.text = true)
      (plain : error.types = []) :
      VarDeclRun decl context expected before
        decl context [] (before.record error)
  | void
      {declared : Ty}
      {value : Expr}
      {found : Substitution}
      {middle last : State}
      {error : TypeError}
      (free : context.vars.contains decl.name.text = false)
      (declaredRun : Runs (declaredTy decl.written) before declared middle)
      (valueRun :
        Runs
          (inferExpr decl.value context declared (.declaration decl.name.text)
            (some ⟨.declaration decl.name.text, decl.mark.span⟩))
          middle (value, found) last)
      (isVoid : (found.apply declared).contains .void = true)
      (plain : error.types = []) :
      VarDeclRun decl context expected before
        { decl with value } context [] (last.record error)
  | bound
      {declared : Ty}
      {value : Expr}
      {found final : Substitution}
      {middle last after : State}
      (free : context.vars.contains decl.name.text = false)
      (declaredRun : Runs (declaredTy decl.written) before declared middle)
      (valueRun :
        Runs
          (inferExpr decl.value context declared (.declaration decl.name.text)
            (some ⟨.declaration decl.name.text, decl.mark.span⟩))
          middle (value, found) last)
      (isValue : (found.apply declared).contains .void = false)
      (asked :
        Runs
          (constrain (found.apply expected) (found.apply declared) .general
            decl.mark.span)
          last final after) :
      VarDeclRun decl context expected before
        { decl with
          value
          mark := decl.mark.withTy ((found ++ final).apply declared) }
        (context.bindVar decl.name.text ((found ++ final).apply declared))
        (found ++ final) after

/--
Every run of inference on the declaration of a variable is of one of the listed
forms.
-/
theorem varDeclRun_of_runs
    {decl decl' : VarDecl}
    {context context' : Context}
    {expected : Ty}
    {found : Substitution}
    {before after : State}
    (run :
      Runs (inferVarDecl decl context expected) before
        (decl', context', found) after) :
    VarDeclRun decl context expected before decl' context' found after := by
  rcases decl with ⟨written, name, value, mark⟩
  unfold inferVarDecl at run
  rcases runs_ite.mp run with ⟨taken, run⟩ | ⟨free, run⟩
  · simp only [runs_bind, runs_report, runs_pure, Prod.mk.injEq] at run
    obtain ⟨_, _, rfl, ⟨rfl, rfl, rfl⟩, rfl⟩ := run
    exact .taken taken rfl
  · rw [Bool.not_eq_true] at free
    -- Whether or not a type is written, the declaration goes on alike.
    cases written <;>
      simp only [runs_bind, runs_ite, runs_report, runs_pure, Prod.exists,
        Prod.mk.injEq] at run
    all_goals
      obtain ⟨declared, middle, declaredRun, value', found, last, valueRun,
        outcome⟩ := run
      rcases outcome with
        ⟨isVoid, _, _, rfl, ⟨rfl, rfl, rfl⟩, rfl⟩ |
          ⟨isValue, final, _, asked, ⟨rfl, rfl, rfl⟩, rfl⟩
      · exact .void free declaredRun valueRun isVoid rfl
      · exact .bound free declaredRun valueRun (by simpa using isValue) asked

/-- Without locals, nothing is bound or found. -/
theorem runs_inferLocals_nil
    {decls' : List VarDecl}
    {context context' : Context}
    {found : Substitution}
    {before after : State}
    (run :
      Runs (inferLocals [] context) before (decls', context', found) after) :
    decls' = [] ∧ context' = context ∧ found = [] ∧ after = before := by
  simp only [inferLocals, runs_pure, Prod.mk.injEq] at run
  obtain ⟨⟨rfl, rfl, rfl⟩, rfl⟩ := run
  exact ⟨rfl, rfl, rfl, rfl⟩

/-- Each local variable is declared at a variable of its own. -/
theorem runs_inferLocals_cons
    {decl : VarDecl}
    {rest decls' : List VarDecl}
    {context context' : Context}
    {found : Substitution}
    {before after : State}
    (run :
      Runs (inferLocals (decl :: rest) context) before
        (decls', context', found) after) :
    ∃ decl' rest' between first more middle,
      Runs (inferVarDecl decl context (.var before.nextVar)) (before.draw 1)
          (decl', between, first) middle ∧
        Runs (inferLocals rest (between.narrow first)) middle
          (rest', context', more) after ∧
        decls' = decl' :: rest' ∧ found = first ++ more := by
  simp only [inferLocals, runs_bind, runs_fresh, runs_pure, Prod.exists,
    Prod.mk.injEq] at run
  obtain ⟨_, _, ⟨rfl, rfl⟩, decl', between, first, middle, declRun, rest', _,
    more, _, restRun, ⟨rfl, rfl, rfl⟩, rfl⟩ := run
  exact ⟨decl', rest', between, first, more, middle, declRun, restRun, rfl,
    rfl⟩

/-- Nothing is narrowed by no findings. -/
theorem Context.narrow_nil (context : Context) : context.narrow [] = context := by
  have keeps : Substitution.apply [] = id := funext Substitution.apply_nil
  simp [Context.narrow, Signature.narrow, Table.map, keeps]

/-- The declaration of a variable binds no function. -/
theorem VarDeclRun.funs
    {decl decl' : VarDecl}
    {context context' : Context}
    {expected : Ty}
    {found : Substitution}
    {before after : State}
    (run : VarDeclRun decl context expected before decl' context' found after) :
    context'.funs = context.funs := by
  cases run <;> rfl

/-- Local variables narrow the functions in scope and bind none. -/
theorem runs_inferLocals_funs
    {decls decls' : List VarDecl}
    {context context' : Context}
    {found : Substitution}
    {before after : State}
    (run :
      Runs (inferLocals decls context) before (decls', context', found)
        after) :
    context'.funs = (context.narrow found).funs := by
  induction decls generalizing decls' context found before with
  | nil =>
      obtain ⟨_, rfl, rfl, _⟩ := runs_inferLocals_nil run
      rw [Context.narrow_nil]
  | cons decl rest inductionHypothesis =>
      obtain ⟨_, _, between, first, more, _, declRun, restRun, _, rfl⟩ :=
        runs_inferLocals_cons run
      have declFuns := (varDeclRun_of_runs declRun).funs
      rw [inductionHypothesis restRun, Context.narrow_append]
      simp only [Context.narrow, declFuns]

/-- How a function is compared with its written signature. -/
inductive SignatureRun
    (name : Name)
    (written : WrittenSignature)
    (inferred : Ty)
    (before : State) :
    Substitution → State → Prop where
  | unshared
      {declared : Ty}
      {found : Substitution}
      {middle after : State}
      {explain : UnifyError → TypeError}
      (signatureRun : Runs (signatureTy written) before declared middle)
      (differs : sharesLike declared inferred = false)
      (asked :
        Runs (unifyOrReport declared inferred .global explain)
          (middle.record (.sharing name.text declared inferred name.span))
          found after)
      (mentions : ∀ failure, (explain failure).types ⊆ failure.types) :
      SignatureRun name written inferred before found after
  | shared
      {declared : Ty}
      {found : Substitution}
      {middle after : State}
      {explain : UnifyError → TypeError}
      (signatureRun : Runs (signatureTy written) before declared middle)
      (agrees : sharesLike declared inferred = true)
      (asked :
        Runs (unifyOrReport declared inferred .global explain) middle found
          after)
      (mentions : ∀ failure, (explain failure).types ⊆ failure.types) :
      SignatureRun name written inferred before found after

/--
Every run of inference on a written signature is of one of the listed forms.
-/
theorem signatureRun_of_runs
    {name : Name}
    {written : WrittenSignature}
    {inferred : Ty}
    {found : Substitution}
    {before after : State}
    (run : Runs (inferSignature name written inferred) before found after) :
    SignatureRun name written inferred before found after := by
  unfold inferSignature at run
  simp only [runs_bind] at run
  obtain ⟨declared, middle, signatureRun, run⟩ := run
  cases shares : sharesLike declared inferred with
  | true =>
      simp only [shares, Bool.not_true, Bool.false_eq_true, if_false] at run
      exact .shared signatureRun shares run
        (TypeError.ofUnify_types_subset _ _ _)
  | false =>
      simp only [shares, Bool.not_false, if_true, runs_bind,
        runs_report] at run
      obtain ⟨_, _, rfl, asked⟩ := run
      exact .unshared signatureRun shares asked
        (TypeError.ofUnify_types_subset _ _ _)

/-- The state after recording the checked copy of a call. -/
def State.resolve (state : State) (id : CallId) (call : Call) : State :=
  { state with resolved := state.resolved.insert id call }

/-- The context in which a call that waited is checked. -/
def PendingCall.reached
    (pending : PendingCall)
    (settled found : Substitution)
    (context : Context) :
    Context :=
  { (pending.context.narrow settled).narrow found with funs := context.funs }

/-- How the calls that waited for a function are checked. -/
inductive WaitingRun
    (function : String)
    (context : Context)
    (found : Substitution)
    (before : State) :
    List PendingCall → Context → Substitution → State → Prop where
  | done : WaitingRun function context found before [] context found before
  | void
      {pending : PendingCall}
      {rest : List PendingCall}
      {call : Call}
      {expected : Ty}
      {more extended : Substitution}
      {context' : Context}
      {middle after : State}
      {error : TypeError}
      (expectedEq :
        expected = found.apply (before.settled.apply pending.expected))
      (callRun :
        Runs
          (inferCall pending.call
            (pending.reached before.settled found context) expected
            (.callResult function) none)
          before (call, more) middle)
      (guarded : pending.guard.isSome = true)
      (isVoid : (more.apply expected).contains .void = true)
      (restRun :
        Runs (inferWaiting function rest context found)
          ((middle.resolve pending.id call).record error)
          (context', extended) after)
      (plain : error.types = []) :
      WaitingRun function context found before (pending :: rest) context'
        extended after
  | next
      {pending : PendingCall}
      {rest : List PendingCall}
      {call : Call}
      {expected : Ty}
      {more extended : Substitution}
      {context' : Context}
      {middle after : State}
      (expectedEq :
        expected = found.apply (before.settled.apply pending.expected))
      (callRun :
        Runs
          (inferCall pending.call
            (pending.reached before.settled found context) expected
            (.callResult function) none)
          before (call, more) middle)
      (isValue :
        pending.guard.isSome = true →
          (more.apply expected).contains .void = false)
      (restRun :
        Runs
          (inferWaiting function rest (context.narrow more) (found ++ more))
          (middle.resolve pending.id call) (context', extended) after) :
      WaitingRun function context found before (pending :: rest) context'
        extended after

/-- Every run of inference on waiting calls is of one of the listed forms. -/
theorem waitingRun_of_runs
    {function : String}
    {waiting : List PendingCall}
    {context context' : Context}
    {found extended : Substitution}
    {before after : State}
    (run :
      Runs (inferWaiting function waiting context found) before
        (context', extended) after) :
    WaitingRun function context found before waiting context' extended
      after := by
  cases waiting with
  | nil =>
      simp only [inferWaiting, runs_pure, Prod.mk.injEq] at run
      obtain ⟨⟨rfl, rfl⟩, rfl⟩ := run
      exact .done
  | cons pending rest =>
      simp only [inferWaiting, recordResolved, runs_bind, runs_get,
        runs_modify, Prod.exists] at run
      obtain ⟨_, _, ⟨rfl, rfl⟩, call, more, middle, callRun, _, _, rfl, run⟩ :=
        run
      cases guarded : pending.guard with
      | none =>
          simp only [guarded] at run
          exact .next rfl callRun (by simp [guarded]) run
      | some guard =>
          simp only [guarded, runs_ite, runs_bind, runs_report] at run
          rcases run with ⟨isVoid, _, _, rfl, restRun⟩ | ⟨isValue, restRun⟩
          · exact .void rfl callRun (by simp [guarded]) isVoid restRun rfl
          · exact .next rfl callRun (fun _ => by simpa using isValue) restRun

/-- Some type variables in the order in which they are drawn. -/
def drawnTys (start : TypeVar) : Nat → List Ty
  | 0 => []
  | count + 1 => .var start :: drawnTys (start + 1) count

/-- As many types as variables are drawn. -/
theorem drawnTys_length (start : TypeVar) (count : Nat) :
    (drawnTys start count).length = count := by
  induction count generalizing start with
  | zero => rfl
  | succ count inductionHypothesis =>
      rw [drawnTys, List.length_cons, inductionHypothesis]

/-- Fresh types for several names are variables in a row. -/
theorem runs_mapM_fresh
    {names : List Name}
    {types : List Ty}
    {before after : State}
    (run : Runs (names.mapM fun _ => fresh) before types after) :
    types = drawnTys before.nextVar names.length ∧
      after = before.draw names.length := by
  induction names generalizing types before with
  | nil =>
      rw [List.mapM_nil] at run
      obtain ⟨rfl, rfl⟩ := runs_pure.mp run
      exact ⟨rfl, rfl⟩
  | cons name rest inductionHypothesis =>
      simp only [List.mapM_cons, runs_bind, runs_fresh, runs_pure] at run
      obtain ⟨_, _, ⟨rfl, rfl⟩, types, middle, restRun, rfl, rfl⟩ := run
      obtain ⟨rfl, rfl⟩ := inductionHypothesis restRun
      refine ⟨rfl, ?_⟩
      simp only [State.draw, List.length_cons, Nat.add_assoc,
        Nat.add_comm 1]

/-- The findings about a written signature, if there is one. -/
def signatureFindings
    (name : Name)
    (written : Option WrittenSignature)
    (inferred : Ty) :
    InferM Substitution :=
  match written with
  | some written => inferSignature name written inferred
  | none => pure []

/-- The signature of a function before anything is known about it. -/
def freshShape (start : TypeVar) (count : Nat) : Signature where
  params := drawnTys start count
  result := .var (start + count)

/-- The state in which the names of written type variables are forgotten. -/
def State.unnamed (state : State) : State :=
  { state with names := .empty }

/-- The state without the calls that wait for a function. -/
def State.without (state : State) (function : String) : State :=
  { state with pending := (state.pending.take function).2 }

/-- The context in which the body of a function is inferred. -/
def FunDecl.inner
    (decl : FunDecl)
    (context : Context)
    (shape : Signature) :
    Context :=
  (context.bindArgs decl.args shape.params).bindFun decl.name.text shape

/-- How the inference of a function declaration runs. -/
inductive FunDeclRun
    (decl : FunDecl)
    (context : Context)
    (expected : Ty)
    (before : State) :
    FunDecl → Context → Substitution → State → Prop where
  | taken
      {error : TypeError}
      (isTaken : context.funs.contains decl.name.text = true)
      (plain : error.types = []) :
      FunDeclRun decl context expected before
        decl context [] (before.unnamed.record error)
  | repeated
      {arg : Name}
      {error : TypeError}
      (isRepeated : firstRepeated? [] decl.args = some arg)
      (plain : error.types = []) :
      FunDeclRun decl context expected before
        decl context [] (before.unnamed.record error)
  | bound
      {shape : Signature}
      {locals : List VarDecl}
      {body : List Stmt}
      {inner context' : Context}
      {found more shaped written extended : Substitution}
      {middle last asked' compared after : State}
      (free : context.funs.contains decl.name.text = false)
      (distinct : firstRepeated? [] decl.args = none)
      (shapeEq : shape = freshShape before.nextVar decl.args.length)
      (localsRun :
        Runs (inferLocals decl.locals (decl.inner context shape))
          (before.unnamed.draw (decl.args.length + 1))
          (locals, inner, found) middle)
      (bodyRun :
        Runs (inferBlock decl.body inner (found.apply shape.result)) middle
          (body, more) last)
      (asked :
        Runs
          (constrain ((found ++ more).apply expected)
            ((found ++ more).apply shape.toTy) .general decl.mark.span)
          last shaped asked')
      (signatureRun :
        Runs
          (signatureFindings decl.name decl.written
            ((found ++ more ++ shaped).apply shape.toTy))
          asked' written compared)
      (waitingRun :
        Runs
          (inferWaiting decl.name.text
            (compared.pending.take decl.name.text).1
            ((context.bindFun decl.name.text shape).narrow
              (found ++ more ++ shaped ++ written))
            (found ++ more ++ shaped ++ written))
          (compared.without decl.name.text) (context', extended) after) :
      FunDeclRun decl context expected before
        { decl with
          locals
          body
          mark :=
            decl.mark.withTy
              (shape.narrow (found ++ more ++ shaped ++ written)).toTy }
        context' extended after

/-- Resetting the names forgets all of them. -/
theorem runs_resetNames
    {before after : State}
    {result : Unit} :
    Runs resetNames before result after ↔ after = before.unnamed := by
  constructor
  · rintro ⟨⟩
    rfl
  · rintro rfl
    rfl

/-- Taking the calls of a function leaves all other calls waiting. -/
theorem runs_takeCalls
    {function : String}
    {taken : List PendingCall}
    {before after : State} :
    Runs (takeCalls function) before taken after ↔
      taken = (before.pending.take function).1 ∧
        after = before.without function := by
  constructor
  · rintro ⟨⟩
    exact ⟨rfl, rfl⟩
  · rintro ⟨rfl, rfl⟩
    rfl

/-- Inserting what is there changes nothing. -/
private theorem insert_get?
    {κ α : Type}
    [DecidableEq κ]
    {table : Table κ α}
    {key : κ}
    {value : α}
    (known : table.get? key = some value) :
    table.insert key value = table := by
  obtain ⟨entries⟩ := table
  simp only [Table.get?, Table.insert, Table.mk.injEq] at known ⊢
  induction entries with
  | nil => cases known
  | cons entry rest inductionHypothesis =>
      rcases entry with ⟨entryKey, entryValue⟩
      by_cases isKey : entryKey = key
      · subst isKey
        simp only [Table.lookup?, if_true, Option.some.injEq] at known
        simp [Table.insertEntry, known]
      · simp only [Table.lookup?, if_neg isKey] at known
        simp only [Table.insertEntry, if_neg isKey, inductionHypothesis known]

/-- Binding arguments binds no function. -/
theorem Context.bindArgs_funs
    (context : Context)
    (args : List Name)
    (types : List Ty) :
    (context.bindArgs args types).funs = context.funs := by
  unfold Context.bindArgs
  induction args.zip types generalizing context with
  | nil => rfl
  | cons _ _ inductionHypothesis =>
      rw [List.foldl_cons, inductionHypothesis]
      rfl

/--
After a function is inferred, the context around it has one more function, and
is narrowed by all that was found.
-/
theorem Context.outer_eq
    {name : String}
    {args : List Name}
    {context inner : Context}
    {shape : Signature}
    {found more shaped written : Substitution}
    (innerFuns :
      inner.funs =
        (((context.bindArgs args shape.params).bindFun name shape).narrow
          found).funs) :
    Context.bindFun
        { vars := (context.narrow (found ++ more ++ shaped ++ written)).vars
          funs := (((inner.narrow more).narrow shaped).narrow written).funs }
        name
        (shape.narrow (found ++ more ++ shaped ++ written)) =
      (context.bindFun name shape).narrow
        (found ++ more ++ shaped ++ written) := by
  have boundNarrowed :
      inner.funs =
        ((context.bindFun name shape).narrow found).funs := by
    rw [innerFuns]
    simp only [Context.narrow, Context.bindFun, Context.bindArgs_funs]
  have allNarrowed :
      (((inner.narrow more).narrow shaped).narrow written).funs =
        ((context.bindFun name shape).narrow
          (found ++ more ++ shaped ++ written)).funs := by
    rw [Context.narrow_append, Context.narrow_append, Context.narrow_append]
    simp only [Context.narrow, boundNarrowed]
  have known :
      ((context.bindFun name shape).narrow
          (found ++ more ++ shaped ++ written)).funs.get? name =
        some (shape.narrow (found ++ more ++ shaped ++ written)) := by
    simp [Context.narrow, Context.bindFun, Table.get?_map, Table.get?_insert]
  rw [Context.bindFun, allNarrowed, insert_get? known]
  rfl

/-- Every run of inference on a function is of one of the listed forms. -/
theorem funDeclRun_of_runs
    {decl decl' : FunDecl}
    {context context' : Context}
    {expected : Ty}
    {found : Substitution}
    {before after : State}
    (run :
      Runs (inferFunDecl decl context expected) before
        (decl', context', found) after) :
    FunDeclRun decl context expected before decl' context' found after := by
  rcases decl with ⟨name, args, written, locals, body, mark⟩
  unfold inferFunDecl at run
  simp only [runs_bind, runs_resetNames, exists_eq_left, exists_const,
    runs_ite, runs_report, runs_pure, Prod.mk.injEq] at run
  rcases run with
    ⟨taken, ⟨rfl, rfl, rfl⟩, rfl⟩ | ⟨free, run⟩
  · exact .taken taken rfl
  · rw [Bool.not_eq_true] at free
    cases repeated : firstRepeated? [] args with
    | some arg =>
        simp only [repeated, runs_bind, runs_report, runs_pure,
          Prod.mk.injEq] at run
        obtain ⟨_, _, rfl, ⟨rfl, rfl, rfl⟩, rfl⟩ := run
        exact .repeated repeated rfl
    | none =>
        simp only [repeated] at run
        -- Whether or not a signature is written, the function goes on alike.
        cases written <;>
          simp only [runs_bind, runs_fresh, runs_takeCalls, Prod.exists] at run
        all_goals
          obtain ⟨_, _, paramsRun, _, _, ⟨rfl, rfl⟩, locals', inner, found,
            middle, localsRun, body', more, last, bodyRun, shaped, asked',
            asked, written, compared, signatureRun, _, _, ⟨rfl, rfl⟩, _, _, _,
            waitingRun, finished⟩ := run
          simp only [runs_pure, Prod.mk.injEq] at finished
          obtain ⟨⟨rfl, rfl, rfl⟩, rfl⟩ := finished
          obtain ⟨rfl, rfl⟩ := runs_mapM_fresh paramsRun
          rw [Context.outer_eq (runs_inferLocals_funs localsRun)] at waitingRun
          exact .bound free repeated rfl localsRun bodyRun asked signatureRun
            waitingRun

/-- The state after a written type variable is met for the first time. -/
def State.nameNext (state : State) (name : String) : State :=
  { state with
    nextVar := state.nextVar + 1
    names := state.names.insert name state.nextVar }

/-- A name is known already, or it is given the next variable. -/
theorem runs_namedVar
    {name : String}
    {id : TypeVar}
    {before after : State}
    (run : Runs (namedVar name) before id after) :
    (before.names.get? name = some id ∧ after = before) ∨
      (before.names.get? name = none ∧ id = before.nextVar ∧
        after = before.nameNext name) := by
  unfold namedVar at run
  simp only [runs_bind, runs_get] at run
  obtain ⟨_, _, ⟨rfl, rfl⟩, run⟩ := run
  split at run
  · rename_i known named
    obtain ⟨rfl, rfl⟩ := runs_pure.mp run
    exact Or.inl ⟨named, rfl⟩
  · rename_i unnamed
    simp only [runs_bind, runs_modify, runs_pure] at run
    obtain ⟨_, _, ⟨⟩, _, _, rfl, rfl, rfl⟩ := run
    exact Or.inr ⟨unnamed, rfl, rfl⟩

/-- A written type of lists is read by way of its element. -/
theorem runs_writtenTy_list
    {element : WrittenTy}
    {ty : Ty}
    {before after : State}
    (run : Runs (writtenTy (.list element)) before ty after) :
    ∃ inner, Runs (writtenTy element) before inner after ∧ ty = .list inner := by
  simp only [writtenTy, runs_bind, runs_pure] at run
  obtain ⟨inner, _, innerRun, rfl, rfl⟩ := run
  exact ⟨inner, innerRun, rfl⟩

/-- A written type of pairs is read from left to right. -/
theorem runs_writtenTy_pair
    {first second : WrittenTy}
    {ty : Ty}
    {before after : State}
    (run : Runs (writtenTy (.pair first second)) before ty after) :
    ∃ firstTy secondTy middle,
      Runs (writtenTy first) before firstTy middle ∧
        Runs (writtenTy second) middle secondTy after ∧
        ty = .pair firstTy secondTy := by
  simp only [writtenTy, runs_bind, runs_pure] at run
  obtain ⟨firstTy, middle, firstRun, secondTy, _, secondRun, rfl, rfl⟩ := run
  exact ⟨firstTy, secondTy, middle, firstRun, secondRun, rfl⟩

/-- A name is read as its variable. -/
theorem runs_writtenTy_named
    {name : String}
    {ty : Ty}
    {before after : State}
    (run : Runs (writtenTy (.named name)) before ty after) :
    ∃ id, Runs (namedVar name) before id after ∧ ty = .var id := by
  simp only [writtenTy, runs_bind, runs_pure] at run
  obtain ⟨id, _, nameRun, rfl, rfl⟩ := run
  exact ⟨id, nameRun, rfl⟩

/-- Several written types are read from left to right. -/
theorem runs_writtenTys_cons
    {written : WrittenTy}
    {rest : List WrittenTy}
    {types : List Ty}
    {before after : State}
    (run : Runs (writtenTys (written :: rest)) before types after) :
    ∃ ty others middle,
      Runs (writtenTy written) before ty middle ∧
        Runs (writtenTys rest) middle others after ∧ types = ty :: others := by
  simp only [writtenTys, runs_bind, runs_pure] at run
  obtain ⟨ty, middle, firstRun, others, _, restRun, rfl, rfl⟩ := run
  exact ⟨ty, others, middle, firstRun, restRun, rfl⟩

/-- A signature is read parameters first, and the result after them. -/
theorem runs_signatureTy
    {written : WrittenSignature}
    {ty : Ty}
    {before after : State}
    (run : Runs (signatureTy written) before ty after) :
    ∃ params result middle,
      Runs (writtenTys written.params) before params middle ∧
        Runs (writtenTy written.result) middle result after ∧
        ty = .fn params result := by
  simp only [signatureTy, runs_bind, runs_pure] at run
  obtain ⟨params, middle, paramsRun, result, _, resultRun, rfl, rfl⟩ := run
  exact ⟨params, result, middle, paramsRun, resultRun, rfl⟩

end SplTyping
