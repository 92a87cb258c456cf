import SplTyping.Proofs.TreeKinds

namespace SplTyping

/-!
# Annotating an annotated tree again

Inference of an old tree is compared with inference of the same tree without its
slots. Where the second writes into a slot, so does the first; where it does
not, the old slot stays. In two cases this makes no difference to what becomes
of the tree. Either the old tree is what becomes of the new one: then its slots
are as they will be, and calls that are set aside again already have their final
forms. Or no call of the old tree has a number, and all of its slots are written
anew.
-/

/-- Each number among some calls has a final form. -/
def Outcome.Covers (outcome : Outcome) (calls : List Call) : Prop :=
  ∀ call ∈ calls, ∀ id ∈ call.waiting, ∃ final, outcome.call id = some final

/-- Why the slots of an old tree make no difference to what becomes of it. -/
inductive Footing : Erasure → Type where
  /-- The old tree is what becomes of the new one. -/
  | again (erasure : Erasure) : Footing erasure
  /-- All slots of the old tree are written, and nothing else is left out. -/
  | anew : Footing .slots

/-- An outcome that is known beforehand, and where it finds an old tree. -/
structure Forecast (erasure : Erasure) where
  outcome : Outcome
  /-- Each final form carries its own number. -/
  numbered : ∀ id, ∀ final ∈ outcome.call id, final.waiting = some id
  footing : Footing erasure

namespace Forecast

variable {erasure : Erasure} (forecast : Forecast erasure)

/-- An old tree stands as its footing says. -/
def Stands {α : Type} (kind : TreeKind α) (old first : α) : Prop :=
  match erasure, forecast.footing with
  | _, .again _ => old = kind.under forecast.outcome first
  | _, .anew =>
      kind.numbered old = [] ∧ kind.Filled first ∧
        forecast.outcome.Covers (kind.numbered first)

/--
A call may be set aside under a number: it is the final form if there is one, or
nothing in it has a number yet.
-/
def Expects (id : CallId) (call : Call) : Prop :=
  match erasure, forecast.footing with
  | _, .again _ => ∀ final ∈ forecast.outcome.call id, final = call
  | _, .anew => Expr.numberedAll call.args = []

/-- All calls of a list may be set aside under their numbers. -/
def ExpectsAll (calls : List Call) : Prop :=
  ∀ call ∈ calls, ∀ id ∈ call.waiting, forecast.Expects id call

/-- A copy becomes the final form of its number. -/
structure Answers (id : CallId) (copy : Call) : Prop where
  final :
    forecast.outcome.call id = some (copy.innerUnder forecast.outcome)
  ready :
    match erasure, forecast.footing with
    | _, .again _ => True
    | _, .anew =>
        copy.Checked ∧ forecast.outcome.Covers (Expr.numberedAll copy.args)

/-- A call that was set aside stands once its copy is checked. -/
theorem stands_inside
    {forecast : Forecast erasure}
    {id : CallId}
    {call copy : Call}
    (expected : forecast.Expects id call)
    (answers : forecast.Answers id copy) :
    forecast.Stands Call.inside call copy := by
  obtain ⟨final, ready⟩ := answers
  rcases forecast with ⟨outcome, numbered, _ | _⟩
  · exact (expected _ final).symm
  · exact ⟨expected, ready⟩

/-- The parts of an old tree stand if the tree does. -/
theorem Stands.of_prod
    {α β : Type}
    {forecast : Forecast erasure}
    {left : TreeKind α}
    {right : TreeKind β}
    {old first : α × β}
    (stands : forecast.Stands (left.prod right) old first) :
    forecast.Stands left old.1 first.1 ∧
      forecast.Stands right old.2 first.2 := by
  rcases forecast with ⟨outcome, numbered, _ | _⟩
  · exact ⟨congrArg Prod.fst stands, congrArg Prod.snd stands⟩
  · obtain ⟨unnumbered, filled, covers⟩ := stands
    obtain ⟨leftUnnumbered, rightUnnumbered⟩ :=
      List.append_eq_nil_iff.mp unnumbered
    obtain ⟨leftCovers, rightCovers⟩ := List.forall_mem_append.mp covers
    exact ⟨⟨leftUnnumbered, filled.1, leftCovers⟩,
      ⟨rightUnnumbered, filled.2, rightCovers⟩⟩

/--
The numbered calls of two trees correspond. Those of the new one that have no
final form hold nothing numbered, and those set aside are expected.
-/
structure Renumbers (setAside old new : List Call) : Prop where
  numbers : new.map Call.waiting = old.map Call.waiting
  lost :
    ∀ call ∈ new, ∀ id ∈ call.waiting, forecast.outcome.call id = none →
      Expr.numberedAll call.args = []
  expected : forecast.ExpectsAll setAside

namespace Renumbers

variable {forecast : Forecast erasure}
variable {setAside more old new others again : List Call}

theorem nil : forecast.Renumbers [] [] [] where
  numbers := rfl
  lost := List.forall_mem_nil _
  expected := List.forall_mem_nil _

/-- Calls are renumbered one part after the other. -/
theorem append
    (first : forecast.Renumbers setAside old new)
    (second : forecast.Renumbers more others again) :
    forecast.Renumbers (setAside ++ more) (old ++ others) (new ++ again) where
  numbers := by
    rw [List.map_append, List.map_append, first.numbers, second.numbers]
  lost := List.forall_mem_append.mpr ⟨first.lost, second.lost⟩
  expected := List.forall_mem_append.mpr ⟨first.expected, second.expected⟩

/-- Calls may be set aside in another order than that of the tree. -/
theorem of_subset
    (renumbers : forecast.Renumbers setAside old new)
    (fewer : more ⊆ setAside) :
    forecast.Renumbers more old new where
  numbers := renumbers.numbers
  lost := renumbers.lost
  expected := fun call isMember => renumbers.expected call (fewer isMember)

end Renumbers

end Forecast

/--
The second tree renews an old one: if the old tree stands, the same becomes of
the second tree as of the first.
-/
def Renews
    {α : Type}
    (erasure : Erasure)
    (kind : TreeKind α)
    (setAside : List Call)
    (old first second : α) :
    Prop :=
  ∀ forecast : Forecast erasure, forecast.Stands kind old first →
    kind.under forecast.outcome second = kind.under forecast.outcome first ∧
      forecast.Renumbers setAside (kind.numbered first) (kind.numbered second)

namespace Renews

variable {α β : Type} {erasure : Erasure}
variable {setAside more : List Call}

/-- What inference does not reach stays as it is. -/
theorem untouched
    {kind : TreeKind α}
    {old erased : α}
    (isUntouched :
      ∀ outcome, kind.under outcome erased = erased ∧ kind.numbered erased = [])
    (isErased : erasure = .slots → kind.Filled erased → erased = old) :
    Renews erasure kind [] old erased old := by
  intro forecast stands
  have sameOld : erased = old := by
    rcases forecast with ⟨outcome, numbered, _ | _⟩
    · exact ((show old = _ from stands).trans (isUntouched outcome).1).symm
    · exact isErased rfl stands.2.1
  subst sameOld
  rw [(isUntouched forecast.outcome).2]
  exact ⟨rfl, .nil⟩

/-- What is the same without its slots stays as it is. -/
theorem leaf
    {kind : TreeKind α}
    {old erased : α}
    (isUntouched :
      ∀ outcome, kind.under outcome erased = erased ∧ kind.numbered erased = [])
    (isErased : erasure = .slots → erased = old) :
    Renews erasure kind [] old erased old :=
  .untouched isUntouched fun isSlots _ => isErased isSlots

/-- A forecast of all calls set aside is one of some of them. -/
theorem of_subset
    {kind : TreeKind α}
    {old first second : α}
    (renews : Renews erasure kind setAside old first second)
    (isFewer : more ⊆ setAside) :
    Renews erasure kind more old first second :=
  fun forecast stands =>
    (renews forecast stands).imp_right (·.of_subset isFewer)

theorem done
    {kind : TreeKind α}
    {old first second : α}
    (renews : Renews erasure kind setAside old first second) :
    Renews erasure kind (setAside ++ []) old first second := by
  rw [List.append_nil]
  exact renews

/-- Parts that stand side by side are renewed one by one. -/
theorem prod
    {left : TreeKind α}
    {right : TreeKind β}
    {old first second : α}
    {other other' other'' : β}
    (renewsLeft : Renews erasure left setAside old first second)
    (renewsRight : Renews erasure right more other other' other'') :
    Renews erasure (left.prod right) (setAside ++ more) (old, other)
      (first, other') (second, other'') := by
  intro forecast stands
  obtain ⟨leftStands, rightStands⟩ := stands.of_prod
  obtain ⟨leftTree, leftNumbers⟩ := renewsLeft forecast leftStands
  obtain ⟨rightTree, rightNumbers⟩ := renewsRight forecast rightStands
  exact ⟨Prod.ext leftTree rightTree, leftNumbers.append rightNumbers⟩

/-- There is nothing to renew in no items. -/
theorem nil (kind : TreeKind α) : Renews erasure kind.each [] [] [] [] :=
  .leaf (fun _ => ⟨rfl, rfl⟩) fun _ => rfl

/-- A tree is renewed if its parts are. -/
theorem build
    {δ : Type}
    {parts : TreeKind α}
    {whole : TreeKind β}
    {make : δ → α → β}
    {detail detail' : δ}
    {old first second : α}
    (builds : Builds parts whole make)
    (sameDetail : erasure = .slots → detail' = detail)
    (renews : Renews erasure parts setAside old first second) :
    Renews erasure whole setAside (make detail old) (make detail' first)
      (make detail second) := by
  intro forecast stands
  rw [builds.under, builds.under, builds.numbered, builds.numbered]
  rcases forecast with ⟨outcome, numbered, _ | _⟩
  · have isOld : make detail old = make detail' (parts.under outcome first) :=
      (show make detail old = _ from stands).trans (builds.under ..)
    obtain ⟨tree, renumbers⟩ := renews ⟨outcome, numbered, .again _⟩
      (show old = _ from builds.sameItems isOld)
    refine ⟨?_, renumbers⟩
    rw [← isOld, tree, ← builds.sameItems isOld]
  · obtain ⟨unnumbered, filled, covers⟩ := stands
    rw [builds.numbered] at unnumbered covers
    obtain ⟨tree, renumbers⟩ := renews ⟨outcome, numbered, .anew⟩
      ⟨unnumbered, builds.filled _ _ filled, covers⟩
    rw [sameDetail rfl]
    exact ⟨congrArg (make detail) tree, renumbers⟩

/-- The trees of a list are renewed one by one. -/
theorem cons
    {kind : TreeKind α}
    {item item' item'' : α}
    {rest rest' rest'' : List α}
    (renewsItem : Renews erasure kind setAside item item' item'')
    (renewsRest : Renews erasure kind.each more rest rest' rest'') :
    Renews erasure kind.each (setAside ++ more) (item :: rest)
      (item' :: rest') (item'' :: rest'') :=
  (renewsItem.prod renewsRest).build kind.builds_cons fun _ => Eq.refl ()

end Renews

/-- Before a mark is written, an erased mark is its twin. -/
theorem Mark.renews_erased
    (erasure : Erasure)
    (mark : Mark) :
    Renews erasure Mark.kind [] mark (mark.erased erasure) mark :=
  .untouched (fun _ => ⟨rfl, rfl⟩) fun isSlots filled => by
    subst isSlots
    exact absurd filled Bool.false_ne_true

/-- Writing into a slot, with or without an old type in it. -/
theorem Mark.renews_withTy
    (erasure : Erasure)
    (mark : Mark)
    (ty : Ty) :
    Renews erasure Mark.kind [] mark ((mark.erased erasure).withTy ty)
      (mark.withTy ty) := by
  intro forecast stands
  have sameSpan : mark.span = erasure.span mark.span := by
    rcases forecast with ⟨outcome, numbered, _ | _⟩
    · exact congrArg Mark.span stands
    · rfl
  refine ⟨?_, .nil⟩
  exact congrArg (Mark.mk · (some (forecast.outcome.ty ty))) sameSpan

section Erased

variable {erasure : Erasure}

/-! Inference does not get this far only if it records an error. -/

/-- Before inference, an erased expression is its twin. -/
theorem Expr.renews_erased (expr : Expr) :
    Renews erasure Expr.kind [] expr (expr.erased erasure) expr :=
  .untouched (expr.erased_untouched · erasure) fun isSlots filled => by
    subst isSlots
    exact absurd filled expr.not_filled_erased

theorem Expr.renewsAll_erased (exprs : List Expr) :
    Renews erasure Expr.kindAll [] exprs (Expr.erasedAll erasure exprs) exprs :=
  .untouched (Expr.erasedAll_untouched · erasure exprs)
    fun isSlots filled => by
      subst isSlots
      exact Expr.erasedAll_of_filled filled

theorem Field.renewsAll_erased (fields : List Field) :
    Renews erasure Field.kindAll [] fields (Field.erasedAll erasure fields)
      fields :=
  .untouched (Field.erasedAll_untouched · erasure fields)
    fun isSlots filled => by
      subst isSlots
      exact Field.erasedAll_of_filled filled

theorem Stmt.renewsAll_erased (stmts : List Stmt) :
    Renews erasure Stmt.kindAll [] stmts (Stmt.erasedAll erasure stmts) stmts :=
  .untouched (Stmt.erasedAll_untouched · erasure stmts)
    fun isSlots filled => by
      subst isSlots
      exact Stmt.erasedAll_of_filled filled

theorem VarDecl.renews_erased (decl : VarDecl) :
    Renews erasure VarDecl.kind [] decl (decl.erased erasure) decl :=
  .untouched (VarDecl.erased_untouched · erasure decl)
    fun _ filled => absurd filled.1 Bool.false_ne_true

theorem FunDecl.renews_erased (decl : FunDecl) :
    Renews erasure FunDecl.kind [] decl (decl.erased erasure) decl :=
  .untouched (FunDecl.erased_untouched · erasure decl)
    fun _ filled => absurd filled.1 Bool.false_ne_true

end Erased

section Calls

variable {erasure : Erasure} {setAside : List Call}
variable {call first second : Call}

theorem Call.restamp
    {stamp : Option CallId}
    (isStamped : call.waiting = stamp) :
    { call with waiting := stamp } = call := by
  rcases call with ⟨callee, args, mark, waiting⟩
  cases isStamped
  rfl

/-- A call that is its own form without slots holds nothing numbered. -/
theorem Call.innerUnder_of_erased
    {outcome : Outcome}
    {stamp : Option CallId}
    (stands :
      call =
        Call.innerUnder outcome { call.erased erasure with waiting := stamp }) :
    call.innerUnder outcome = call ∧ Expr.numberedAll call.args = [] := by
  rcases call with ⟨callee, args, mark, waiting⟩
  injection stands with _ argsStand markStands _
  obtain ⟨sameArgs, noneInside⟩ :=
    Expr.erasedAll_untouched outcome erasure args
  have isErased : args = Expr.erasedAll erasure args :=
    argsStand.trans sameArgs
  have noType : mark.ty = none := congrArg Mark.ty markStands
  rw [← isErased] at sameArgs noneInside
  refine ⟨?_, noneInside⟩
  rw [Call.innerUnder, sameArgs, Mark.mapTypes, noType, Option.map_none,
    ← noType]

/-- If nothing numbered stands at a call, nothing does inside. -/
theorem Call.unnumbered
    (noneNumbered : call.numbered = []) :
    call.waiting = none ∧ Expr.numberedAll call.args = [] := by
  rcases call with ⟨callee, args, mark, _ | id⟩
  · exact ⟨rfl, noneNumbered⟩
  · cases noneNumbered

/-- A call that is set aside again; it may already have its final form. -/
theorem Call.renews_waits
    (erasure : Erasure)
    (call : Call)
    (id : CallId) :
    Renews erasure Call.kind [{ call with waiting := some id }] call
      { call.erased erasure with waiting := some id }
      { call with waiting := some id } := by
  intro forecast stands
  dsimp only
  rw [Call.numbered_of_some rfl, Call.numbered_of_some rfl]
  rcases forecast with ⟨outcome, numbered, _ | _⟩
  · have stands : call = Call.under outcome _ := stands
    rw [← stands]
    rw [Call.under_eq, Option.bind_some] at stands
    have isStamped : call.waiting = some id := by
      cases final : outcome.call id with
      | some last =>
          rw [final, Option.getD_some] at stands
          rw [stands]
          exact numbered id last final
      | none =>
          rw [final, Option.getD_none] at stands
          exact congrArg Call.waiting stands
    rw [Call.restamp isStamped, Call.under_eq, isStamped, Option.bind_some]
    cases final : outcome.call id with
    | some last =>
        rw [final, Option.getD_some] at stands
        refine ⟨stands.symm, ?_, ?_, ?_⟩
        · simp [isStamped]
        · simp [isStamped, final]
        · simp [Forecast.ExpectsAll, Forecast.Expects, isStamped, final,
            stands.symm]
    | none =>
        rw [final, Option.getD_none] at stands
        obtain ⟨same, noneInside⟩ := Call.innerUnder_of_erased stands
        refine ⟨same, ?_, ?_, ?_⟩
        · simp [isStamped]
        · simp [noneInside]
        · simp [Forecast.ExpectsAll, Forecast.Expects, isStamped, final]
  · obtain ⟨noneNumbered, _, covers⟩ := stands
    dsimp only at covers
    rw [Call.numbered_of_some rfl] at covers
    obtain ⟨final, isFinal⟩ := covers _ (List.mem_singleton_self _) id rfl
    obtain ⟨_, noneInside⟩ := Call.unnumbered noneNumbered
    refine ⟨?_, ?_, ?_, ?_⟩
    · rw [Call.under_eq, Call.under_eq, Option.bind_some, isFinal]
      rfl
    · rfl
    · simp [noneInside]
    · simp [Forecast.ExpectsAll, Forecast.Expects, noneInside]

/--
What comes of a call if it is inferred without slots but for a number, and if it
is inferred as it is: it is set aside, or it stays where it is.
-/
inductive CallTwins
    (erasure : Erasure)
    (stamp : Option CallId) :
    Call → List Call → Call → Call → Prop where
  | waits
      (call : Call)
      (id : CallId) :
      CallTwins erasure stamp call [{ call with waiting := some id }]
        { call.erased erasure with waiting := some id }
        { call with waiting := some id }
  | stays
      {setAside : List Call}
      {args args' args'' : List Expr}
      {mark mark' mark'' : Mark}
      (callee : Name)
      (waiting : Option CallId)
      (renewsParts :
        Renews erasure (Mark.kind.prod Expr.kindAll) setAside (mark, args)
          (mark', args') (mark'', args'')) :
      CallTwins erasure stamp ⟨callee, args, mark, waiting⟩ setAside
        ⟨callee.erased erasure, args', mark', stamp⟩
        ⟨callee, args'', mark'', waiting⟩

namespace CallTwins

/-- A call that keeps its place has no number under either footing. -/
theorem renews
    (twins : CallTwins erasure none call setAside first second) :
    Renews erasure Call.kind setAside call first second := by
  cases twins with
  | waits => exact call.renews_waits erasure _
  | stays callee waiting renewsParts =>
      intro forecast stands
      have unstamped : waiting = none := by
        rcases forecast with ⟨outcome, numbered, _ | _⟩
        · exact congrArg Call.waiting stands
        · exact (Call.unnumbered stands.1).1
      subst unstamped
      refine renewsParts.build Call.builds ?_ forecast stands
      rintro rfl
      rfl

/-- A call that waited becomes the same again once it is checked. -/
theorem renews_copy
    {forecast : Forecast erasure}
    {id : CallId}
    (twins : CallTwins erasure call.waiting call setAside first second)
    (answers : forecast.Answers id first)
    (expected : forecast.Expects id call) :
    second.innerUnder forecast.outcome = first.innerUnder forecast.outcome ∧
      forecast.Renumbers setAside (Expr.numberedAll first.args)
        (Expr.numberedAll second.args) := by
  have stands := Forecast.stands_inside expected answers
  cases twins with
  | waits _ number =>
      rcases forecast with ⟨outcome, numbered, _ | _⟩
      · have stands : call = Call.innerUnder outcome _ := stands
        have isStamped : call.waiting = some number :=
          congrArg Call.waiting stands
        have sameNumber : some number = some id := numbered id _ answers.final
        obtain ⟨same, noneInside⟩ := Call.innerUnder_of_erased stands
        have noneErased :
            Expr.numberedAll (call.erased erasure).args = [] := by
          rw [Call.erased_eq]
          exact (Expr.erasedAll_untouched outcome erasure call.args).2
        rw [Call.restamp isStamped, ← stands, same, noneInside, noneErased]
        refine ⟨rfl, rfl, List.forall_mem_nil _, ?_⟩
        intro other isOther otherId otherNumber
        rw [List.mem_singleton.mp isOther, isStamped, sameNumber] at otherNumber
        rw [List.mem_singleton.mp isOther, ← Option.some.inj otherNumber]
        exact expected
      · obtain ⟨_, _, isFilled, _⟩ := stands.2.1.slot
        rw [Call.erased_eq] at isFilled
        cases isFilled
  | stays callee waiting renewsParts =>
      have sameDetail :
          erasure = .slots →
            (callee.erased erasure, waiting) = (callee, waiting) := by
        rintro rfl
        rfl
      exact renewsParts.build Call.builds_inside sameDetail forecast stands

end CallTwins

end Calls

section Stmts

variable {erasure : Erasure} {setAside more last : List Call}
variable {value value' value'' : Expr}
variable {body body' body'' other other' other'' : List Stmt}

/-- The bodies are inferred before the condition. -/
theorem Stmt.renews_ifElse
    (span : Span)
    (renewsThen : Renews erasure Stmt.kindAll setAside body body' body'')
    (renewsElse : Renews erasure Stmt.kindAll more other other' other'')
    (renewsCondition : Renews erasure Expr.kind last value value' value'') :
    Renews erasure Stmt.kind (setAside ++ (more ++ last))
      (.ifElse value body other span)
      (.ifElse value' body' other' (erasure.span span))
      (.ifElse value'' body'' other'' span) := by
  have renewsBodies := renewsThen.prod renewsElse
  refine ((renewsCondition.prod renewsBodies).build Stmt.builds_ifElse
    ?_).of_subset ?_
  · rintro rfl
    rfl
  · rw [← List.append_assoc]
    exact (List.perm_append_comm).subset

/-- A loop is renewed with its body first: its condition comes last. -/
theorem Stmt.renews_whileDo
    (span : Span)
    (renewsBody : Renews erasure Stmt.kindAll setAside body body' body'')
    (renewsCondition : Renews erasure Expr.kind more value value' value'') :
    Renews erasure Stmt.kind (setAside ++ more) (.whileDo value body span)
      (.whileDo value' body' (erasure.span span))
      (.whileDo value'' body'' span) := by
  refine ((renewsCondition.prod renewsBody).build Stmt.builds_whileDo
    ?_).of_subset (List.perm_append_comm).subset
  rintro rfl
  rfl

/-- A loop over values is renewed with the values first. -/
theorem Stmt.renews_forIn
    (element : Name)
    (span : Span)
    (renewsIterable : Renews erasure Expr.kind setAside value value' value'')
    (renewsBody : Renews erasure Stmt.kindAll more body body' body'') :
    Renews erasure Stmt.kind (setAside ++ more)
      (.forIn element value body span)
      (.forIn (element.erased erasure) value' body' (erasure.span span))
      (.forIn element value'' body'' span) := by
  have sameDetail :
      erasure = .slots →
        (element.erased erasure, erasure.span span) = (element, span) := by
    rintro rfl
    rfl
  exact (renewsIterable.prod renewsBody).build Stmt.builds_forIn sameDetail

/-- The value is inferred before the target. -/
theorem Stmt.renews_assign
    {target target' target'' : Place}
    (span : Span)
    (renewsValue : Renews erasure Expr.kind setAside value value' value'')
    (renewsTarget : Renews erasure Place.kind more target target' target'') :
    Renews erasure Stmt.kind (setAside ++ more) (.assign target value span)
      (.assign target' value' (erasure.span span))
      (.assign target'' value'' span) := by
  refine ((renewsTarget.prod renewsValue).build Stmt.builds_assign
    ?_).of_subset (List.perm_append_comm).subset
  rintro rfl
  rfl

theorem Stmt.renews_ret
    (span : Span)
    (renews : Renews erasure Expr.kind setAside value value' value'') :
    Renews erasure Stmt.kind setAside (.ret (some value) span)
      (.ret (some value') (erasure.span span)) (.ret (some value'') span) := by
  refine renews.build Stmt.builds_ret ?_
  rintro rfl
  rfl

end Stmts

section Decls

variable {erasure : Erasure} {setAside more : List Call}

/--
A declaration is renewed with its value, and its mark is written afterwards.
-/
theorem VarDecl.renews
    {value value' : Expr}
    {mark mark' : Mark}
    (decl : VarDecl)
    (renewsValue : Renews erasure Expr.kind setAside decl.value value value')
    (renewsMark : Renews erasure Mark.kind [] decl.mark mark mark') :
    Renews erasure VarDecl.kind setAside decl
      { decl.erased erasure with value := value, mark := mark }
      { decl with value := value', mark := mark' } := by
  have sameDetail :
      erasure = .slots →
        (decl.written, decl.name.erased erasure) = (decl.written, decl.name) := by
    rintro rfl
    rfl
  exact (renewsMark.prod renewsValue).build VarDecl.builds sameDetail

/--
A function is renewed with its locals, then its body; its mark comes last.
-/
theorem FunDecl.renews
    {locals locals' : List VarDecl}
    {body body' : List Stmt}
    {mark mark' : Mark}
    (decl : FunDecl)
    (renewsLocals :
      Renews erasure VarDecl.kind.each setAside decl.locals locals locals')
    (renewsBody : Renews erasure Stmt.kindAll more decl.body body body')
    (renewsMark : Renews erasure Mark.kind [] decl.mark mark mark') :
    Renews erasure FunDecl.kind (setAside ++ more) decl
      { decl.erased erasure with
        locals := locals
        body := body
        mark := mark }
      { decl with locals := locals', body := body', mark := mark' } := by
  have sameDetail :
      erasure = .slots →
        (decl.name.erased erasure, decl.args.map (Name.erased erasure),
            decl.written.map (WrittenSignature.erased erasure)) =
          (decl.name, decl.args, decl.written) := by
    rintro rfl
    exact Prod.ext rfl (Prod.ext (List.map_id' _) Option.map_id')
  exact (renewsMark.prod (renewsLocals.prod renewsBody)).build FunDecl.builds
    sameDetail

end Decls

end SplTyping
