import SplTyping.Proofs.Reaching

namespace SplTyping

/-!
# Typed trees are accepted

An expression or a statement that is typed by the rules is inferred without
error, and the typing solves what is found. Calls are no exception: the
arguments have the types of the parameters, so an assignment that follows the
typing solves the bindings that are confined to a call as well.
-/

theorem Ty.not_void_of_instantiate
    {assign : Assignment}
    {ty value : Ty}
    (isTy : ty.instantiate assign = value)
    (isValue : value.contains .void = false) :
    ty.contains .void = false := by
  rw [← Bool.not_eq_true]
  intro isVoid
  have instanceVoid : (ty.instantiate assign).contains .void = true :=
    Ty.contains_void_instantiate.mpr (Or.inl isVoid)
  rw [isTy, isValue] at instanceVoid
  cases instanceVoid

namespace Reaches

variable {funs : String → Option Signature} {known : String → Prop}
variable {before after : State} {assign changed : Assignment}
variable {found : Substitution}

theorem refl (ready : before.Ready funs known assign) :
    Reaches funs known before assign [] before assign where
  grows := Nat.le_refl _
  agrees := .refl _ _
  within := Substitution.within_nil
  solved := Substitution.solvedBy_nil assign
  ready := ready

/-- The type of a value is not narrowed to one that contains `Void`. -/
theorem not_void
    {ty value : Ty}
    (reaches : Reaches funs known before assign found after changed)
    (within : ty.Within (Below anyVar before.nextVar))
    (isTy : ty.instantiate assign = value)
    (isValue : value.contains .void = false) :
    (found.apply ty).contains .void = false :=
  Ty.not_void_of_instantiate ((reaches.instantiate_apply within).trans isTy)
    isValue

end Reaches

namespace Setting

variable {scope : Scope} {known : String → Prop} {context : Context}
variable {before : State} {assign : Assignment}

/-- A variable is drawn, and stands for a given type. -/
theorem drawOne
    (setting : Setting scope known assign before context)
    (ty : Ty) :
    ∃ changed,
      Reaches scope.funs known before assign [] (before.draw 1) changed ∧
        Setting scope known changed (before.draw 1) context ∧
        changed before.nextVar = ty := by
  have agrees := assign.agreesBelow_set ty (Nat.le_refl before.nextVar)
  exact ⟨_, .draw setting.ready agrees 1, setting.draw agrees 1,
    assign.set_self before.nextVar ty⟩

/-- Two variables are drawn, and stand for given types. -/
theorem drawTwo
    (setting : Setting scope known assign before context)
    (first second : Ty) :
    ∃ changed,
      Reaches scope.funs known before assign [] (before.draw 2) changed ∧
        Setting scope known changed (before.draw 2) context ∧
        changed before.nextVar = first ∧
        changed (before.nextVar + 1) = second := by
  obtain ⟨once, onceReaches, onceSetting, isFirst⟩ := setting.drawOne first
  obtain ⟨twice, twiceReaches, twiceSetting, isSecond⟩ :=
    onceSetting.drawOne second
  exact ⟨twice, onceReaches.append twiceReaches, twiceSetting,
    (twiceReaches.agrees _ (Nat.lt_succ_self _)).trans isFirst, isSecond⟩

end Setting

theorem State.within_firstDrawn (before : State) (count : Nat) :
    (Ty.var before.nextVar).Within
      (Below anyVar (before.draw (count + 1)).nextVar) :=
  Ty.within_var.mpr ⟨trivial, Nat.lt_add_of_pos_right (Nat.succ_pos count)⟩

theorem State.within_secondDrawn (before : State) :
    (Ty.var (before.nextVar + 1)).Within
      (Below anyVar (before.draw 2).nextVar) :=
  Ty.within_var.mpr ⟨trivial, Nat.lt_succ_self _⟩

/-- The types of an operator are drawn so that they stand for the given ones. -/
theorem OperatorRun.complete
    {scope : Scope}
    {known : String → Prop}
    {context : Context}
    {assign : Assignment}
    {op : BinOp}
    {left right result leftTy rightTy resultTy : Ty}
    {before after : State}
    (run : OperatorRun before op left right result after)
    (operator : OperatorHasTypes op leftTy rightTy resultTy)
    (setting : Setting scope known assign before context) :
    ∃ changed,
      Reaches scope.funs known before assign [] after changed ∧
        Setting scope known changed after context ∧
        left.instantiate changed = leftTy ∧
        right.instantiate changed = rightTy ∧
        result.instantiate changed = resultTy := by
  cases operator with
  | cons =>
      cases run with
      | cons =>
          obtain ⟨changed, reaches, inner, rfl⟩ := setting.drawOne leftTy
          exact ⟨changed, reaches, inner, rfl, rfl, rfl⟩
      | compared isOp | arithmetic isOp | ordered isOp | logical isOp =>
          simp at isOp
  | compared isEquality =>
      cases run with
      | compared =>
          obtain ⟨changed, reaches, inner, rfl⟩ := setting.drawOne leftTy
          exact ⟨changed, reaches, inner, rfl, rfl, rfl⟩
      | cons => simp at isEquality
      | arithmetic isOp | ordered isOp | logical isOp =>
          rcases isEquality with rfl | rfl <;> simp at isOp
  | arithmetic isArithmetic =>
      cases run with
      | arithmetic => exact ⟨assign, .refl setting.ready, setting, rfl, rfl, rfl⟩
      | cons => simp at isArithmetic
      | compared isOp | ordered isOp | logical isOp =>
          rcases isArithmetic with rfl | rfl | rfl | rfl | rfl <;> simp at isOp
  | ordered isOrder =>
      cases run with
      | ordered => exact ⟨assign, .refl setting.ready, setting, rfl, rfl, rfl⟩
      | cons => simp at isOrder
      | compared isOp | arithmetic isOp | logical isOp =>
          rcases isOrder with rfl | rfl | rfl | rfl <;> simp at isOp
  | logical isLogical =>
      cases run with
      | logical => exact ⟨assign, .refl setting.ready, setting, rfl, rfl, rfl⟩
      | cons => simp at isLogical
      | compared isOp | arithmetic isOp | ordered isOp =>
          rcases isLogical with rfl | rfl <;> simp at isOp

/-- The type of the bounds of a range is read off as the rules have it. -/
theorem BoundRun.complete
    {funs : String → Option Signature}
    {known : String → Prop}
    {start before after : State}
    {assign changed : Assignment}
    {found extended : Substitution}
    {first bound ty : Ty}
    (run : BoundRun found before first bound extended after)
    (reaches : Reaches funs known start assign found before changed)
    (firstWithin : first.Within (Below anyVar before.nextVar))
    (isTy : first.instantiate changed = ty)
    (isBound : ty = .int ∨ first = .char) :
    bound = ty ∧ Reaches funs known start assign extended after changed := by
  cases run with
  | int => exact ⟨isTy, reaches⟩
  | char => exact ⟨isTy, reaches⟩
  | @unknown id =>
      have isInt : ty = .int := by
        rcases isBound with isInt | isChar
        · exact isInt
        · cases isChar
      subst isInt
      refine ⟨rfl, ?_⟩
      exact
        { grows := reaches.grows
          agrees := reaches.agrees
          within := by
            refine Substitution.within_append.mpr ⟨reaches.within, ?_⟩
            simpa [Binding.Within] using firstWithin
          solved := by
            refine Substitution.solvedBy_append.mpr ⟨reaches.solved, ?_⟩
            intro binding member
            rw [List.mem_singleton.mp member]
            exact isTy
          ready := reaches.ready }
  | other notInt notChar notVar =>
      rcases isBound with rfl | isChar
      · cases first <;> simp [Ty.instantiate] at isTy notInt notVar
      · exact absurd isChar notChar

section Expressions

variable {scope : Scope} {known : String → Prop}

/--
An expression is inferred without error wherever it has the type that is
expected of it.
-/
def Expr.Completes (scope : Scope) (known : String → Prop) (expr : Expr) : Prop :=
  ∀ ⦃expr' : Expr⦄ ⦃context : Context⦄ ⦃expected ty : Ty⦄ ⦃demand : Demand⦄
    ⦃guard : Option ValueGuard⦄ ⦃found : Substitution⦄ ⦃before after : State⦄
    ⦃assign : Assignment⦄,
    Runs (inferExpr expr context expected demand guard) before (expr', found)
        after →
      Setting scope known assign before context →
      expected.Within (Below anyVar before.nextVar) →
      HasType .inferable scope expr ty →
      expected.instantiate assign = ty →
      (guard.isSome = true → ty.contains .void = false) →
      ∃ changed, Reaches scope.funs known before assign found after changed

/-- The components of a pair are inferred at two variables. -/
theorem Expr.Completes.pair
    {first first' second second' : Expr}
    {context : Context}
    {firstTy secondTy : Ty}
    {guard : Option ValueGuard}
    {found more : Substitution}
    {before middle last : State}
    {assign : Assignment}
    (firstCompletes : first.Completes scope known)
    (secondCompletes : second.Completes scope known)
    (setting : Setting scope known assign before context)
    (firstRun :
      Runs (inferExpr first context (.var before.nextVar) .general guard)
        (before.draw 2) (first', found) middle)
    (secondRun :
      Runs
        (inferExpr second (context.narrow found) (.var (before.nextVar + 1))
          .general guard)
        middle (second', more) last)
    (firstHas : HasType .inferable scope first firstTy)
    (secondHas : HasType .inferable scope second secondTy)
    (firstValue : firstTy.contains .void = false)
    (secondValue : secondTy.contains .void = false) :
    ∃ drawn changed,
      Reaches scope.funs known before assign [] (before.draw 2) drawn ∧
        Reaches scope.funs known (before.draw 2) drawn (found ++ more) last
          changed ∧
        drawn before.nextVar = firstTy ∧
        drawn (before.nextVar + 1) = secondTy := by
  obtain ⟨drawn, drawReaches, drawSetting, isFirst, isSecond⟩ :=
    setting.drawTwo firstTy secondTy
  have firstWithin := before.within_firstDrawn 1
  have secondWithin := before.within_secondDrawn
  obtain ⟨_, firstReaches⟩ :=
    firstCompletes firstRun drawSetting firstWithin firstHas isFirst
      fun _ => firstValue
  have stillSecond := firstReaches.agrees.instantiate secondWithin
  obtain ⟨changed, secondReaches⟩ :=
    secondCompletes secondRun (drawSetting.step firstReaches)
      (secondWithin.mono (Below.mono firstReaches.grows)) secondHas
      (stillSecond.trans isSecond) fun _ => secondValue
  exact ⟨drawn, changed, drawReaches, firstReaches.append secondReaches,
    isFirst, isSecond⟩

/-- The left operand is inferred at the type that its operator draws. -/
theorem Expr.Completes.leftOperand
    {op : BinOp}
    {left left' : Expr}
    {context : Context}
    {leftVar rightVar resultVar leftTy rightTy resultTy : Ty}
    {demand : Demand}
    {guard : Option ValueGuard}
    {found : Substitution}
    {before typed middle : State}
    {assign : Assignment}
    (leftCompletes : left.Completes scope known)
    (setting : Setting scope known assign before context)
    (operatorRun : OperatorRun before op leftVar rightVar resultVar typed)
    (leftRun :
      Runs (inferExpr left context leftVar demand guard) typed (left', found)
        middle)
    (operator : OperatorHasTypes op leftTy rightTy resultTy)
    (leftHas : HasType .inferable scope left leftTy)
    (leftValue : leftTy.contains .void = false) :
    ∃ drawn changed,
      Reaches scope.funs known before assign [] typed drawn ∧
        Setting scope known drawn typed context ∧
        Reaches scope.funs known typed drawn found middle changed ∧
        leftVar.instantiate drawn = leftTy ∧
        rightVar.instantiate drawn = rightTy ∧
        resultVar.instantiate drawn = resultTy := by
  obtain ⟨leftWithin, _, _⟩ := operatorRun.within setting.scene.supply
  obtain ⟨drawn, drawReaches, drawSetting, isLeft, isRight, isResult⟩ :=
    operatorRun.complete operator setting
  obtain ⟨changed, leftReaches⟩ :=
    leftCompletes leftRun drawSetting leftWithin leftHas isLeft
      fun _ => leftValue
  exact ⟨drawn, changed, drawReaches, drawSetting, leftReaches, isLeft, isRight,
    isResult⟩

/-- Both operands are inferred at the types that their operator draws. -/
theorem Expr.Completes.operands
    {op : BinOp}
    {left left' right right' : Expr}
    {context : Context}
    {leftVar rightVar resultVar leftTy rightTy resultTy : Ty}
    {demand : Demand}
    {guard : Option ValueGuard}
    {found more : Substitution}
    {before typed middle last : State}
    {assign : Assignment}
    (leftCompletes : left.Completes scope known)
    (rightCompletes : right.Completes scope known)
    (setting : Setting scope known assign before context)
    (operatorRun : OperatorRun before op leftVar rightVar resultVar typed)
    (leftRun :
      Runs (inferExpr left context leftVar demand guard) typed (left', found)
        middle)
    (rightRun :
      Runs
        (inferExpr right (context.narrow found) (found.apply rightVar) demand
          guard)
        middle (right', more) last)
    (operator : OperatorHasTypes op leftTy rightTy resultTy)
    (leftHas : HasType .inferable scope left leftTy)
    (rightHas : HasType .inferable scope right rightTy)
    (leftValue : leftTy.contains .void = false)
    (rightValue : rightTy.contains .void = false) :
    ∃ drawn changed,
      Reaches scope.funs known before assign [] typed drawn ∧
        Reaches scope.funs known typed drawn (found ++ more) last changed ∧
        rightVar.instantiate drawn = rightTy ∧
        resultVar.instantiate drawn = resultTy := by
  obtain ⟨_, rightWithin, _⟩ := operatorRun.within setting.scene.supply
  obtain ⟨drawn, _, drawReaches, drawSetting, leftReaches, _, isRight,
      isResult⟩ :=
    leftCompletes.leftOperand setting operatorRun leftRun operator leftHas
      leftValue
  have stillRight := leftReaches.instantiate_apply rightWithin
  obtain ⟨changed, rightReaches⟩ :=
    rightCompletes rightRun (drawSetting.step leftReaches)
      (leftReaches.applyWithin rightWithin) rightHas (stillRight.trans isRight)
      fun _ => rightValue
  exact ⟨drawn, changed, drawReaches, leftReaches.append rightReaches, isRight,
    isResult⟩

/-- A stamp on a call does not matter to its type. -/
theorem CallHasType.withWaiting
    {rules : Rules}
    {call : Call}
    {ty : Ty}
    (has : CallHasType rules scope call ty)
    (waiting : Option CallId) :
    CallHasType rules scope { call with waiting } ty := by
  cases has with
  | apply isKnown argsHave recorded => exact .apply isKnown argsHave recorded

/-- A call is set aside with its typing. -/
theorem Setting.setAside
    {call : Call}
    {context : Context}
    {expected ty : Ty}
    {guard : Option ValueGuard}
    {before : State}
    {assign : Assignment}
    (setting : Setting scope known assign before context)
    (unknown : context.funs.get? call.callee.text = none)
    (expectedWithin : expected.Within (Below anyVar before.nextVar))
    (has : CallHasType .inferable scope call ty)
    (isTy : expected.instantiate assign = ty)
    (isValue : guard.isSome = true → ty.contains .void = false) :
    Reaches scope.funs known before assign []
      (before.setAside call context expected guard) assign := by
  subst isTy
  have notKnown : ¬ known call.callee.text := by
    intro isKnown
    have bound := setting.knows _ isKnown
    rw [Table.contains, unknown] at bound
    cases bound
  exact
    { grows := Nat.le_refl _
      agrees := .refl _ _
      within := Substitution.within_nil
      solved := Substitution.solvedBy_nil assign
      ready :=
        { clean := setting.ready.clean
          waiting :=
            setting.ready.waiting.setAside
              { calleeEq := rfl
                unknown := notKnown
                typed := ⟨scope.vars, setting.vars, has.withWaiting _⟩
                value := isValue
                contextWithin := setting.scene.context
                expectedWithin } } }

theorem ArgsHaveTypes.length_eq
    {rules : Rules}
    {args : List Expr}
    {types : List Ty}
    (argsHave : ArgsHaveTypes rules scope args types) :
    args.length = types.length := by
  induction args generalizing types with
  | nil =>
      cases argsHave with
      | nil => rfl
  | cons arg args inductionHypothesis =>
      cases argsHave with
      | cons _ _ restHave =>
          exact congrArg Nat.succ (inductionHypothesis restHave)

/-- Progress through the arguments of a call whose start is given. -/
structure CallProgress.Follows
    (scope : Scope)
    (known : String → Prop)
    (start : State)
    (assign : Assignment)
    (progress : CallProgress)
    (state : State)
    (changed : Assignment) :
    Prop where
  reaches : Reaches scope.funs known start assign progress.outward state changed
  viewWithin : progress.view.Within (Below anyVar state.nextVar)
  viewSolved : progress.view.SolvedBy changed
  setting : Setting scope known changed state progress.context

namespace CallProgress.Follows

variable {start state middle unified : State} {assign changed : Assignment}
variable {progress : CallProgress}

theorem of_setting
    {context : Context}
    (setting : Setting scope known assign start context) :
    (CallProgress.start context).Follows scope known start assign start
      assign where
  reaches := .refl setting.ready
  viewWithin := Substitution.within_nil
  viewSolved := Substitution.solvedBy_nil assign
  setting := setting

/-- An argument is inferred at a variable that stands for its type. -/
theorem argument
    {arg arg' : Expr}
    {ty : Ty}
    {guard : Option ValueGuard}
    {found : Substitution}
    (follows : progress.Follows scope known start assign state changed)
    (argCompletes : arg.Completes scope known)
    (argRun :
      Runs (inferExpr arg progress.context (.var state.nextVar) .general guard)
        (state.draw 1) (arg', found) middle)
    (argHas : HasType .inferable scope arg ty)
    (isValue : ty.contains .void = false) :
    ∃ later,
      Reaches scope.funs known state changed found middle later ∧
        (progress.view ++ found).Within (Below anyVar middle.nextVar) ∧
        (progress.view ++ found).SolvedBy later ∧
        ((progress.view ++ found).apply (.var state.nextVar)).Within
          (Below anyVar middle.nextVar) ∧
        ((progress.view ++ found).apply (.var state.nextVar)).instantiate
          later = ty := by
  obtain ⟨drawn, drawReaches, drawSetting, isTy⟩ := follows.setting.drawOne ty
  have varWithin := state.within_firstDrawn 0
  obtain ⟨later, argReaches⟩ :=
    argCompletes argRun drawSetting varWithin argHas isTy fun _ => isValue
  have reaches := drawReaches.append argReaches
  have viewSolved :=
    reaches.agrees.solvedBy follows.viewWithin follows.viewSolved
  have solved : (progress.view ++ found).SolvedBy later :=
    Substitution.solvedBy_append.mpr ⟨viewSolved, argReaches.solved⟩
  have viewWithin := follows.viewWithin.mono (Below.mono reaches.grows)
  have within : (progress.view ++ found).Within (Below anyVar middle.nextVar) :=
    Substitution.within_append.mpr ⟨viewWithin, argReaches.within⟩
  refine ⟨later, reaches, within, solved,
    within.apply (varWithin.mono (Below.mono argReaches.grows)), ?_⟩
  rw [solved.instantiate_apply, argReaches.agrees.instantiate varWithin]
  exact isTy

/-- The progress goes on once an argument agrees with its parameter. -/
theorem next
    {argTy param ty : Ty}
    {flow : Flow}
    {explain : UnifyError → TypeError}
    {found more : Substitution}
    {later : Assignment}
    (follows : progress.Follows scope known start assign state changed)
    (argReaches : Reaches scope.funs known state changed found middle later)
    (viewWithin :
      (progress.view ++ found).Within (Below anyVar middle.nextVar))
    (viewSolved : (progress.view ++ found).SolvedBy later)
    (argWithin : argTy.Within (Below anyVar middle.nextVar))
    (isArg : argTy.instantiate later = ty)
    (paramWithin : param.Within (Below anyVar start.nextVar))
    (isParam : param.instantiate assign = ty)
    (asked :
      Runs
        (unifyOrReport argTy ((progress.view ++ found).apply param) flow
          explain)
        middle more unified) :
    (progress.next argTy found more).Follows scope known start assign unified
      later := by
  have reaches := follows.reaches.append argReaches
  have paramNarrowed : ((progress.view ++ found).apply param).Within
      (Below anyVar middle.nextVar) :=
    viewWithin.apply (paramWithin.mono (Below.mono reaches.grows))
  have same : argTy.instantiate later =
      ((progress.view ++ found).apply param).instantiate later := by
    rw [viewSolved.instantiate_apply, reaches.agrees.instantiate paramWithin,
      isArg, isParam]
  have keeps := unifyOrReport_keepsTo asked argWithin paramNarrowed
  obtain ⟨moreSolved, rfl⟩ := unifyOrReport_of_equal asked same
  -- Only the bindings that are not confined to the call go outward.
  have sharedReaches :
      Reaches scope.funs known unified later more.split.1 unified later :=
    { grows := Nat.le_refl _
      agrees := .refl _ _
      within := fun binding member =>
        keeps.within binding (more.split_sublist.subset member)
      solved := fun binding member =>
        moreSolved binding (more.split_sublist.subset member)
      ready := argReaches.ready }
  exact
    { reaches := reaches.append sharedReaches
      viewWithin := Substitution.within_append.mpr ⟨viewWithin, keeps.within⟩
      viewSolved := Substitution.solvedBy_append.mpr ⟨viewSolved, moreSolved⟩
      setting := (follows.setting.step argReaches).step sharedReaches }

end CallProgress.Follows

/-- A type from which a field selects an element is a list. -/
theorem Setting.selectElement
    {context : Context}
    {current element : Ty}
    {demand : Demand}
    {span : Span}
    {found more : Substitution}
    {start before after : State}
    {assign changed : Assignment}
    (setting : Setting scope known assign start context)
    (reaches : Reaches scope.funs known start assign found before changed)
    (currentWithin : current.Within (Below anyVar before.nextVar))
    (isList : current.instantiate changed = .list element)
    (asked :
      Runs (constrain (.list (.var before.nextVar)) current demand span)
        (before.draw 1) more after) :
    ∃ later,
      Reaches scope.funs known start assign (found ++ more) after later ∧
        (Ty.var before.nextVar).Within (Below anyVar after.nextVar) ∧
        later before.nextVar = element := by
  obtain ⟨drawn, drawReaches, _, isElement⟩ :=
    (setting.step reaches).drawOne element
  have varWithin := before.within_firstDrawn 0
  have whole := reaches.append drawReaches
  rw [List.append_nil] at whole
  have same : (Ty.list (.var before.nextVar)).instantiate drawn =
      current.instantiate drawn := by
    rw [drawReaches.agrees.instantiate currentWithin, isList]
    exact congrArg Ty.list isElement
  have unified :=
    whole.unified asked same (Ty.within_list.mpr varWithin)
      (currentWithin.mono (Below.mono drawReaches.grows))
  have grows := (unifyOrReport_grows asked).nextVar
  exact ⟨drawn, unified, varWithin.mono (Below.mono grows), isElement⟩

/-- A type from which a field selects a component is a pair. -/
theorem Setting.selectComponent
    {context : Context}
    {current first second : Ty}
    {demand : Demand}
    {span : Span}
    {found more : Substitution}
    {start before after : State}
    {assign changed : Assignment}
    (setting : Setting scope known assign start context)
    (reaches : Reaches scope.funs known start assign found before changed)
    (currentWithin : current.Within (Below anyVar before.nextVar))
    (isPair : current.instantiate changed = .pair first second)
    (asked :
      Runs
        (constrain (.pair (.var before.nextVar) (.var (before.nextVar + 1)))
          current demand span)
        (before.draw 2) more after) :
    ∃ later,
      Reaches scope.funs known start assign (found ++ more) after later ∧
        (Ty.var before.nextVar).Within (Below anyVar after.nextVar) ∧
        (Ty.var (before.nextVar + 1)).Within (Below anyVar after.nextVar) ∧
        later before.nextVar = first ∧
        later (before.nextVar + 1) = second := by
  obtain ⟨drawn, drawReaches, _, isFirst, isSecond⟩ :=
    (setting.step reaches).drawTwo first second
  have firstWithin := before.within_firstDrawn 1
  have secondWithin := before.within_secondDrawn
  have whole := reaches.append drawReaches
  rw [List.append_nil] at whole
  have same :
      (Ty.pair (.var before.nextVar) (.var (before.nextVar + 1))).instantiate
          drawn =
        current.instantiate drawn := by
    rw [drawReaches.agrees.instantiate currentWithin, isPair, ← isFirst,
      ← isSecond]
    rfl
  have unified :=
    whole.unified asked same (Ty.within_pair.mpr ⟨firstWithin, secondWithin⟩)
      (currentWithin.mono (Below.mono drawReaches.grows))
  have grows := (unifyOrReport_grows asked).nextVar
  exact ⟨drawn, unified, firstWithin.mono (Below.mono grows),
    secondWithin.mono (Below.mono grows), isFirst, isSecond⟩

theorem inferExpr_charLiteral
    {value : Char}
    {mark : Mark}
    {expr' : Expr}
    {context : Context}
    {expected : Ty}
    {demand : Demand}
    {guard : Option ValueGuard}
    {found : Substitution}
    {before after : State}
    (run :
      Runs (inferExpr (.char value mark) context expected demand guard) before
        (expr', found) after)
    (clean : after.Clean) :
    found.apply expected = .char := by
  cases exprRun_of_runs run with
  | char asked =>
      rcases runs_unifyOrReport asked with ⟨unified, _⟩ | ⟨_, _, _, rfl⟩
      · exact apply_eq_of_unify unified
      · exact absurd clean (State.not_clean_record _ _)

mutual

/-- Inference of a well-typed expression reaches its type. -/
theorem inferExpr_complete (expr : Expr) : expr.Completes scope known := by
  intro expr' context expected ty demand guard found before after assign run
    setting expectedWithin has isTy isValue
  have start := Reaches.refl setting.ready
  cases exprRun_of_runs run with
  | int asked =>
      cases has with
      | int =>
          exact ⟨assign,
            start.unified asked isTy expectedWithin Ty.within_int⟩
  | bool asked =>
      cases has with
      | bool =>
          exact ⟨assign,
            start.unified asked isTy expectedWithin Ty.within_bool⟩
  | char asked =>
      cases has with
      | char =>
          exact ⟨assign,
            start.unified asked isTy expectedWithin Ty.within_char⟩
  | @read place _ _ _ placeRun =>
      cases has with
      | read placeHas =>
          exact inferPlace_complete place placeRun setting expectedWithin
            placeHas isTy
  | @pairVoid first _ second _ _ _ _ _ _ _ firstRun secondRun isVoid =>
      cases has with
      | pair firstHas secondHas firstValue secondValue =>
          obtain ⟨drawn, changed, _, reaches, isFirst, isSecond⟩ :=
            (inferExpr_complete first).pair (inferExpr_complete second) setting
              firstRun secondRun firstHas secondHas firstValue secondValue
          have firstWithin := before.within_firstDrawn 1
          have secondWithin := before.within_secondDrawn
          have notFirst := reaches.not_void firstWithin isFirst firstValue
          have notSecond := reaches.not_void secondWithin isSecond secondValue
          rcases isVoid with isVoid | isVoid
          · exact absurd isVoid (Bool.eq_false_iff.mp notFirst)
          · exact absurd isVoid (Bool.eq_false_iff.mp notSecond)
  | @pair first _ second _ _ _ _ _ _ _ _ firstRun secondRun _ _ asked =>
      cases has with
      | pair firstHas secondHas firstValue secondValue =>
          obtain ⟨drawn, changed, drawReaches, reaches, isFirst, isSecond⟩ :=
            (inferExpr_complete first).pair (inferExpr_complete second) setting
              firstRun secondRun firstHas secondHas firstValue secondValue
          have firstWithin := before.within_firstDrawn 1
          have secondWithin := before.within_secondDrawn
          have whole := drawReaches.append reaches
          refine ⟨changed,
            whole.unified asked ?_ (whole.applyWithin expectedWithin)
              (Ty.within_pair.mpr
                ⟨reaches.applyWithin firstWithin,
                  reaches.applyWithin secondWithin⟩)⟩
          rw [Ty.instantiate, reaches.instantiate_apply firstWithin,
            reaches.instantiate_apply secondWithin]
          refine (whole.instantiate_apply expectedWithin).trans ?_
          rw [isTy, ← isFirst, ← isSecond]
          rfl
  | nil asked =>
      cases has with
      | @nil _ element =>
          obtain ⟨drawn, drawReaches, _, isElement⟩ := setting.drawOne element
          refine ⟨drawn, drawReaches.unified asked ?_
            (expectedWithin.mono (Below.mono drawReaches.grows))
            (Ty.within_list.mpr (before.within_firstDrawn 0))⟩
          rw [drawReaches.agrees.instantiate expectedWithin, isTy]
          exact (congrArg Ty.list isElement).symm
  | @range first _ last _ _ _ _ _ _ _ _ _ _ _ firstRun boundRun lastRun asked =>
      cases has with
      | @range _ _ _ boundTy isBound firstHas lastHas =>
          have closed (assign : Assignment) :
              boundTy.instantiate assign = boundTy := by
            rcases isBound with rfl | ⟨rfl, _⟩ <;> rfl
          have unguarded :
              (none : Option ValueGuard).isSome = true →
                boundTy.contains .void = false :=
            nofun
          obtain ⟨drawn, drawReaches, drawSetting, isFirst⟩ :=
            setting.drawOne boundTy
          have varWithin := before.within_firstDrawn 0
          obtain ⟨_, firstReaches⟩ :=
            inferExpr_complete first firstRun drawSetting varWithin firstHas
              isFirst unguarded
          have isBoundTy := firstReaches.instantiate_apply varWithin
          have settledBound :=
            isBound.imp_right fun ⟨_, _, _, isChar⟩ =>
              inferExpr_charLiteral (isChar ▸ firstRun)
                firstReaches.ready.clean
          obtain ⟨rfl, boundReaches⟩ :=
            boundRun.complete firstReaches (firstReaches.applyWithin varWithin)
              (isBoundTy.trans isFirst) settledBound
          obtain ⟨changed, lastReaches⟩ :=
            inferExpr_complete last lastRun (drawSetting.step boundReaches)
              boundRun.within lastHas (closed _) unguarded
          have whole := drawReaches.append (boundReaches.append lastReaches)
          refine ⟨changed,
            whole.unified asked ?_ (whole.applyWithin expectedWithin)
              (Ty.within_list.mpr boundRun.within)⟩
          rw [Ty.instantiate, closed]
          exact (whole.instantiate_apply expectedWithin).trans isTy
  | @binaryLeftVoid op left _ _ _ _ _ _ _ _ _ _ operatorRun leftRun isVoid =>
      cases has with
      | binary operator leftHas _ leftValue =>
          obtain ⟨leftWithin, _, _⟩ := operatorRun.within setting.scene.supply
          obtain ⟨_, _, _, _, reaches, isLeft, _, _⟩ :=
            (inferExpr_complete left).leftOperand setting operatorRun leftRun
              operator leftHas leftValue
          have notVoid := reaches.not_void leftWithin isLeft leftValue
          exact absurd isVoid (Bool.eq_false_iff.mp notVoid)
  | @binaryRightVoid op left _ right _ _ _ _ _ _ _ _ _ _ _ operatorRun leftRun
      rightRun isVoid =>
      cases has with
      | binary operator leftHas rightHas leftValue rightValue =>
          obtain ⟨_, rightWithin, _⟩ := operatorRun.within setting.scene.supply
          obtain ⟨_, _, _, reaches, isRight, _⟩ :=
            (inferExpr_complete left).operands (inferExpr_complete right)
              setting operatorRun leftRun rightRun operator leftHas rightHas
              leftValue rightValue
          have notVoid := reaches.not_void rightWithin isRight rightValue
          exact absurd isVoid (Bool.eq_false_iff.mp notVoid)
  | @binary op left _ right _ _ _ _ _ _ _ _ _ _ _ _ operatorRun leftRun _
      rightRun _ asked =>
      cases has with
      | binary operator leftHas rightHas leftValue rightValue =>
          obtain ⟨_, _, resultWithin⟩ := operatorRun.within setting.scene.supply
          obtain ⟨_, changed, drawReaches, reaches, _, isResult⟩ :=
            (inferExpr_complete left).operands (inferExpr_complete right)
              setting operatorRun leftRun rightRun operator leftHas rightHas
              leftValue rightValue
          have whole := drawReaches.append reaches
          refine ⟨changed,
            whole.unified asked ?_ (whole.applyWithin expectedWithin)
              (reaches.applyWithin resultWithin)⟩
          rw [reaches.instantiate_apply resultWithin, isResult]
          exact (whole.instantiate_apply expectedWithin).trans isTy
  | @unary op operand _ _ _ _ _ _ operandRun asked =>
      cases has with
      | unary operandHas =>
          have isOperand := op.ty_instantiate assign
          obtain ⟨changed, reaches⟩ :=
            inferExpr_complete operand operandRun setting op.ty_within operandHas
              isOperand (fun guarded => by cases guarded)
          refine ⟨changed,
            reaches.unified asked ?_ (reaches.applyWithin expectedWithin)
              op.ty_within⟩
          rw [reaches.instantiate_apply expectedWithin, isTy,
            op.ty_instantiate]
  | @call made _ _ _ callRun =>
      cases has with
      | call callHas =>
          exact inferCall_complete made callRun setting expectedWithin callHas
            isTy isValue
termination_by structural expr

/-- Inference of a well-typed place reaches its type. -/
theorem inferPlace_complete
    (place : Place)
    {place' : Place}
    {context : Context}
    {expected ty : Ty}
    {demand : Demand}
    {found : Substitution}
    {before after : State}
    {assign : Assignment}
    (run :
      Runs (inferPlace place context expected demand) before (place', found)
        after)
    (setting : Setting scope known assign before context)
    (expectedWithin : expected.Within (Below anyVar before.nextVar))
    (has : PlaceHasType .inferable scope place ty)
    (isTy : expected.instantiate assign = ty) :
    ∃ changed, Reaches scope.funs known before assign found after changed := by
  cases placeRun_of_runs run with
  | unknown unbound =>
      cases has with
      | select bound =>
          rw [setting.vars, unbound] at bound
          cases bound
  | @known name fields _ _ base _ _ _ _ _ isBound fieldsRun asked =>
      cases has with
      | select bound selects =>
          rw [setting.vars, isBound, Option.map_some, Option.some.injEq] at bound
          obtain ⟨changed, reaches, currentWithin, isCurrent⟩ :=
            inferFields_complete fields fieldsRun setting (.refl setting.ready)
              (setting.scene.context.vars _ _ isBound) selects bound
          refine ⟨changed,
            reaches.unified asked ?_ (reaches.applyWithin expectedWithin)
              currentWithin⟩
          rw [reaches.instantiate_apply expectedWithin, isTy, isCurrent]
termination_by structural place

/-- Fields reach the type that they select. -/
theorem inferFields_complete
    (fields : List Field)
    {fields' : List Field}
    {name : String}
    {span : Span}
    {context : Context}
    {current selected whole ty : Ty}
    {found extended : Substitution}
    {start before after : State}
    {assign changed : Assignment}
    (run :
      Runs (inferFields fields name span context current found) before
        (fields', selected, extended) after)
    (setting : Setting scope known assign start context)
    (reaches : Reaches scope.funs known start assign found before changed)
    (currentWithin : current.Within (Below anyVar before.nextVar))
    (selects : FieldsSelect .inferable scope fields whole ty)
    (isWhole : current.instantiate changed = whole) :
    ∃ later,
      Reaches scope.funs known start assign extended after later ∧
        selected.Within (Below anyVar after.nextVar) ∧
        selected.instantiate later = ty := by
  cases fields with
  | nil =>
      obtain ⟨_, rfl, rfl, rfl⟩ := runs_inferFields_nil run
      cases selects with
      | nil => exact ⟨changed, reaches, currentWithin, isWhole⟩
  | cons field rest =>
      obtain ⟨_, _, _, _, _, fieldRun, restRun, _⟩ := runs_inferFields_cons run
      cases selects with
      | cons fieldSelects restSelects =>
          obtain ⟨_, fieldReaches, partWithin, isPart⟩ :=
            inferField_complete field fieldRun setting reaches currentWithin
              fieldSelects isWhole
          exact inferFields_complete rest restRun setting fieldReaches
            partWithin restSelects isPart
termination_by structural fields

theorem inferField_complete
    (field : Field)
    {field' : Field}
    {name : String}
    {span : Span}
    {context : Context}
    {current selected whole ty : Ty}
    {found extended : Substitution}
    {start before after : State}
    {assign changed : Assignment}
    (run :
      Runs (inferField field name span context current found) before
        (field', selected, extended) after)
    (setting : Setting scope known assign start context)
    (reaches : Reaches scope.funs known start assign found before changed)
    (currentWithin : current.Within (Below anyVar before.nextVar))
    (selects : FieldSelects .inferable scope field whole ty)
    (isWhole : current.instantiate changed = whole) :
    ∃ later,
      Reaches scope.funs known start assign extended after later ∧
        selected.Within (Below anyVar after.nextVar) ∧
        selected.instantiate later = ty := by
  cases fieldRun_of_runs run with
  | hd asked =>
      cases selects with
      | hd =>
          obtain ⟨later, selected, within, isElement⟩ :=
            setting.selectElement reaches currentWithin isWhole asked
          exact ⟨later, selected, selected.within.apply within,
            (selected.solved.instantiate_apply _).trans isElement⟩
  | tl asked =>
      cases selects with
      | tl =>
          obtain ⟨later, selected, within, isElement⟩ :=
            setting.selectElement reaches currentWithin isWhole asked
          exact ⟨later, selected,
            selected.within.apply (Ty.within_list.mpr within),
            (selected.solved.instantiate_apply _).trans
              (congrArg Ty.list isElement)⟩
  | fst asked =>
      cases selects with
      | fst =>
          obtain ⟨later, selected, within, _, isFirst, _⟩ :=
            setting.selectComponent reaches currentWithin isWhole asked
          exact ⟨later, selected, selected.within.apply within,
            (selected.solved.instantiate_apply _).trans isFirst⟩
  | snd asked =>
      cases selects with
      | snd =>
          obtain ⟨later, selected, _, within, _, isSecond⟩ :=
            setting.selectComponent reaches currentWithin isWhole asked
          exact ⟨later, selected, selected.within.apply within,
            (selected.solved.instantiate_apply _).trans isSecond⟩
  | @index _ position _ _ _ _ _ asked positionRun =>
      cases selects with
      | index positionHas =>
          obtain ⟨_, selected, within, isElement⟩ :=
            setting.selectElement reaches currentWithin isWhole asked
          obtain ⟨later, positionReaches⟩ :=
            inferExpr_complete position positionRun (setting.step selected)
              Ty.within_int positionHas rfl nofun
          have extended := selected.append positionReaches
          refine ⟨later, extended,
            extended.within.apply
              (within.mono (Below.mono positionReaches.grows)), ?_⟩
          rw [extended.solved.instantiate_apply,
            positionReaches.agrees.instantiate within]
          exact isElement
termination_by structural field

/-- A well-typed call reaches its type, or waits as a well-typed one. -/
theorem inferCall_complete
    (call : Call)
    {call' : Call}
    {context : Context}
    {expected ty : Ty}
    {demand : Demand}
    {guard : Option ValueGuard}
    {found : Substitution}
    {before after : State}
    {assign : Assignment}
    (run :
      Runs (inferCall call context expected demand guard) before (call', found)
        after)
    (setting : Setting scope known assign before context)
    (expectedWithin : expected.Within (Below anyVar before.nextVar))
    (has : CallHasType .inferable scope call ty)
    (isTy : expected.instantiate assign = ty)
    (isValue : guard.isSome = true → ty.contains .void = false) :
    ∃ changed, Reaches scope.funs known before assign found after changed := by
  cases callRun_of_runs run with
  | waits unknown =>
      exact ⟨assign,
        setting.setAside unknown expectedWithin has isTy isValue⟩
  | arity isKnown differ =>
      cases has with
      | apply inScope argsHave =>
          rw [setting.funs _ _ isKnown, Option.some.injEq] at inScope
          subst inScope
          have sameLength := argsHave.length_eq
          rw [Signature.instantiate, List.length_map] at sameLength
          exact absurd sameLength differ
  | @void _ args _ _ _ signature _ isKnown _ argsRun =>
      cases has with
      | apply inScope argsHave =>
          rw [setting.funs _ _ isKnown, Option.some.injEq] at inScope
          subst inScope
          obtain ⟨_, _, isSome, _⟩ :=
            inferArgs_complete args argsRun (.of_setting setting)
              (setting.scene.context.funs _ _ isKnown).1 argsHave rfl
          cases isSome
  | @checked _ args _ _ _ signature _ _ _ _ isKnown _ argsRun asked =>
      cases has with
      | apply inScope argsHave =>
          rw [setting.funs _ _ isKnown, Option.some.injEq] at inScope
          subst inScope
          have signatureWithin := setting.scene.context.funs _ _ isKnown
          obtain ⟨progress, changed, isSome, follows⟩ :=
            inferArgs_complete args argsRun (.of_setting setting)
              signatureWithin.1 argsHave rfl
          cases isSome
          have reaches := follows.reaches
          have expectedStill := expectedWithin.mono (Below.mono reaches.grows)
          have resultStill := signatureWithin.2.mono (Below.mono reaches.grows)
          refine ⟨changed,
            reaches.unified asked ?_ (follows.viewWithin.apply expectedStill)
              (follows.viewWithin.apply resultStill)⟩
          rw [follows.viewSolved.instantiate_apply,
            follows.viewSolved.instantiate_apply,
            reaches.agrees.instantiate expectedWithin,
            reaches.agrees.instantiate signatureWithin.2, isTy]
          rfl
termination_by structural call

/--
Well-typed arguments reach the types of their parameters and do not abort.
-/
theorem inferArgs_complete
    (args : List Expr)
    {args' : List Expr}
    {params types : List Ty}
    {function : String}
    {number : Nat}
    {progress : CallProgress}
    {outcome : Option CallProgress}
    {start before after : State}
    {assign changed : Assignment}
    (run :
      Runs (inferArgs args params function number progress) before
        (args', outcome) after)
    (follows : progress.Follows scope known start assign before changed)
    (paramsWithin :
      ∀ param ∈ params, param.Within (Below anyVar start.nextVar))
    (argsHave : ArgsHaveTypes .inferable scope args types)
    (areTypes : params.map (Ty.instantiate assign) = types) :
    ∃ progress' later,
      outcome = some progress' ∧
        progress'.Follows scope known start assign after later := by
  cases argsRun_of_runs run with
  | done => exact ⟨progress, changed, rfl, follows⟩
  | @void arg _ _ _ _ _ _ _ argRun isVoid =>
      cases argsHave with
      | cons argHas isValue =>
          obtain ⟨_, _, _, _, _, isTy⟩ :=
            follows.argument (inferExpr_complete arg) argRun argHas isValue
          have notVoid := Ty.not_void_of_instantiate isTy isValue
          exact absurd isVoid (Bool.eq_false_iff.mp notVoid)
  | @next arg _ args _ param _ _ _ _ _ _ _ _ argRun argTyEq _ asked restRun =>
      cases argsHave with
      | cons argHas isValue restHave =>
          rw [List.map_cons, List.cons.injEq] at areTypes
          obtain ⟨isParam, areTypes⟩ := areTypes
          obtain ⟨paramWithin, paramsWithin⟩ :=
            List.forall_mem_cons.mp paramsWithin
          obtain ⟨later, argReaches, viewWithin, viewSolved, argWithin, isTy⟩ :=
            follows.argument (inferExpr_complete arg) argRun argHas isValue
          subst argTyEq
          have next :=
            follows.next argReaches viewWithin viewSolved argWithin isTy
              paramWithin isParam asked
          exact inferArgs_complete args restRun next paramsWithin restHave
            areTypes
termination_by structural args

end

end Expressions

section Statements

variable {known : String → Prop} {result : Ty}

/-- Both sides of an assignment are inferred at variables of their own. -/
theorem Setting.assignSides
    {scope : Scope}
    {target target' : Place}
    {value value' : Expr}
    {context : Context}
    {ty : Ty}
    {demand : Demand}
    {guard : Option ValueGuard}
    {found more : Substitution}
    {before middle last : State}
    {assign : Assignment}
    (setting : Setting scope known assign before context)
    (valueRun :
      Runs (inferExpr value context (.var before.nextVar) .general guard)
        (before.draw 1) (value', found) middle)
    (targetRun :
      Runs
        (inferPlace target (context.narrow found) (.var middle.nextVar) demand)
        (middle.draw 1) (target', more) last)
    (targetHas : PlaceHasType .inferable scope target ty)
    (valueHas : HasType .inferable scope value ty)
    (isValue : ty.contains .void = false) :
    ∃ changed,
      Reaches scope.funs known before assign (found ++ more) last changed ∧
        (Ty.var before.nextVar).Within (Below anyVar last.nextVar) ∧
        (Ty.var middle.nextVar).Within (Below anyVar last.nextVar) ∧
        changed before.nextVar = ty ∧
        changed middle.nextVar = ty := by
  obtain ⟨drawn, drawReaches, drawSetting, valueTy⟩ := setting.drawOne ty
  have valueWithin := before.within_firstDrawn 0
  obtain ⟨_, valueReaches⟩ :=
    inferExpr_complete value valueRun drawSetting valueWithin valueHas valueTy
      fun _ => isValue
  obtain ⟨_, nextReaches, nextSetting, targetTy⟩ :=
    (drawSetting.step valueReaches).drawOne ty
  have targetWithin := middle.within_firstDrawn 0
  obtain ⟨changed, targetReaches⟩ :=
    inferPlace_complete target targetRun nextSetting targetWithin targetHas
      targetTy
  have afterValue := nextReaches.append targetReaches
  have whole := drawReaches.append (valueReaches.append afterValue)
  have valueStill := (valueReaches.append afterValue).agrees.instantiate valueWithin
  have targetStill := targetReaches.agrees.instantiate targetWithin
  exact ⟨changed, whole,
    valueWithin.mono (Below.mono (valueReaches.append afterValue).grows),
    targetWithin.mono (Below.mono targetReaches.grows),
    valueStill.trans valueTy, targetStill.trans targetTy⟩

/-- A returned value is inferred at a variable of its own. -/
theorem Setting.returned
    {scope : Scope}
    {value value' : Expr}
    {context : Context}
    {guard : Option ValueGuard}
    {found : Substitution}
    {before middle : State}
    {assign : Assignment}
    (setting : Setting scope known assign before context)
    (valueRun :
      Runs (inferExpr value context (.var before.nextVar) .general guard)
        (before.draw 1) (value', found) middle)
    (valueHas : HasType .inferable scope value result)
    (isValue : result.contains .void = false) :
    ∃ drawn changed,
      Reaches scope.funs known before assign [] (before.draw 1) drawn ∧
        Reaches scope.funs known (before.draw 1) drawn found middle changed ∧
        drawn before.nextVar = result := by
  obtain ⟨drawn, drawReaches, drawSetting, valueTy⟩ := setting.drawOne result
  obtain ⟨changed, valueReaches⟩ :=
    inferExpr_complete value valueRun drawSetting (before.within_firstDrawn 0)
      valueHas valueTy fun _ => isValue
  exact ⟨drawn, changed, drawReaches, valueReaches, valueTy⟩

mutual

/-- Inference of a well-typed statement records no error. -/
theorem inferStmt_complete
    (stmt : Stmt)
    {stmt' : Stmt}
    {scope : Scope}
    {context : Context}
    {expected : Ty}
    {found : Substitution}
    {before after : State}
    {assign : Assignment}
    (run : Runs (inferStmt stmt context expected) before (stmt', found) after)
    (setting : Setting scope known assign before context)
    (expectedWithin : expected.Within (Below anyVar before.nextVar))
    (typed : StmtTyped .inferable result scope stmt)
    (isResult : expected.instantiate assign = result) :
    ∃ changed, Reaches scope.funs known before assign found after changed := by
  cases stmtRun_of_runs run with
  | @ifElse condition _ thenBody _ elseBody _ _ _ _ _ _ _ _ thenRun elseRun
      conditionRun =>
      cases typed with
      | ifElse conditionHas thenTyped elseTyped =>
          obtain ⟨_, thenReaches⟩ :=
            inferBlock_complete thenBody thenRun setting expectedWithin
              thenTyped isResult
          have stillResult := thenReaches.instantiate_apply expectedWithin
          obtain ⟨_, elseReaches⟩ :=
            inferBlock_complete elseBody elseRun (setting.step thenReaches)
              (thenReaches.applyWithin expectedWithin) elseTyped
              (stillResult.trans isResult)
          have both := thenReaches.append elseReaches
          obtain ⟨changed, conditionReaches⟩ :=
            inferExpr_complete condition conditionRun (setting.step both)
              Ty.within_bool conditionHas rfl nofun
          exact ⟨changed, both.append conditionReaches⟩
  | @whileDo condition _ body _ _ _ _ _ _ bodyRun conditionRun =>
      cases typed with
      | whileDo conditionHas bodyTyped =>
          obtain ⟨_, bodyReaches⟩ :=
            inferBlock_complete body bodyRun setting expectedWithin bodyTyped
              isResult
          obtain ⟨changed, conditionReaches⟩ :=
            inferExpr_complete condition conditionRun (setting.step bodyReaches)
              Ty.within_bool conditionHas rfl nofun
          exact ⟨changed, bodyReaches.append conditionReaches⟩
  | @forTaken element iterable _ _ _ found _ _ _ taken =>
      cases typed with
      | forIn free =>
          have unbound := (setting.vars.eq_none_iff _).mp free
          rw [Table.contains, Context.narrow, Table.get?_map,
            Option.isSome_map] at taken
          rw [Table.contains, taken] at unbound
          cases unbound
  | @forIn element iterable _ body _ _ found _ _ _ iterableRun _ bodyRun =>
      cases typed with
      | @forIn _ _ _ _ _ ty _ iterableHas bodyTyped =>
          obtain ⟨drawn, drawReaches, drawSetting, isElement⟩ :=
            setting.drawOne ty
          have varWithin := before.within_firstDrawn 0
          obtain ⟨_, iterableReaches⟩ :=
            inferExpr_complete iterable iterableRun drawSetting
              (Ty.within_list.mpr varWithin) iterableHas
              (congrArg Ty.list isElement) nofun
          have whole := drawReaches.append iterableReaches
          have elementIs := iterableReaches.instantiate_apply varWithin
          have bodySetting :=
            (drawSetting.step iterableReaches).bindVar element.text
              (iterableReaches.applyWithin varWithin)
          rw [elementIs.trans isElement] at bodySetting
          have stillResult := whole.instantiate_apply expectedWithin
          obtain ⟨changed, bodyReaches⟩ :=
            inferBlock_complete body bodyRun bodySetting
              (whole.applyWithin expectedWithin) bodyTyped
              (stillResult.trans isResult)
          exact ⟨changed, whole.append bodyReaches⟩
  | assignVoid valueRun targetRun isVoid =>
      cases typed with
      | assign targetHas valueHas isValue =>
          obtain ⟨_, reaches, _, _, valueTy, targetTy⟩ :=
            setting.assignSides valueRun targetRun targetHas valueHas isValue
          have narrowed := reaches.solved.instantiate_apply
          rcases isVoid with isVoid | isVoid
          · refine absurd isVoid (Bool.eq_false_iff.mp ?_)
            exact Ty.not_void_of_instantiate ((narrowed _).trans valueTy) isValue
          · refine absurd isVoid (Bool.eq_false_iff.mp ?_)
            exact Ty.not_void_of_instantiate ((narrowed _).trans targetTy)
              isValue
  | assign valueRun targetRun _ _ asked =>
      cases typed with
      | assign targetHas valueHas isValue =>
          obtain ⟨changed, reaches, valueWithin, targetWithin, valueTy,
              targetTy⟩ :=
            setting.assignSides valueRun targetRun targetHas valueHas isValue
          refine ⟨changed,
            reaches.unified asked ?_ (reaches.within.apply targetWithin)
              (reaches.within.apply valueWithin)⟩
          rw [reaches.solved.instantiate_apply,
            reaches.solved.instantiate_apply]
          exact targetTy.trans valueTy.symm
  | @call made _ _ _ callRun =>
      cases typed with
      | @call _ _ ty callHas =>
          obtain ⟨drawn, drawReaches, drawSetting, isTy⟩ := setting.drawOne ty
          obtain ⟨changed, callReaches⟩ :=
            inferCall_complete made callRun drawSetting
              (before.within_firstDrawn 0) callHas isTy nofun
          exact ⟨changed, drawReaches.append callReaches⟩
  | returnVoid valueRun isVoid =>
      cases typed with
      | returnValue valueHas isValue =>
          obtain ⟨_, _, _, reaches, isTy⟩ :=
            setting.returned valueRun valueHas isValue
          have notVoid :=
            reaches.not_void (before.within_firstDrawn 0) isTy isValue
          exact absurd isVoid (Bool.eq_false_iff.mp notVoid)
  | returnValue valueRun _ asked =>
      cases typed with
      | returnValue valueHas isValue =>
          obtain ⟨_, changed, drawReaches, reaches, isTy⟩ :=
            setting.returned valueRun valueHas isValue
          have varWithin := before.within_firstDrawn 0
          have whole := drawReaches.append reaches
          refine ⟨changed,
            whole.unified asked ?_ (whole.applyWithin expectedWithin)
              (reaches.applyWithin varWithin)⟩
          rw [reaches.instantiate_apply varWithin]
          refine (whole.instantiate_apply expectedWithin).trans ?_
          exact isResult.trans isTy.symm
  | returnNothing asked =>
      cases typed with
      | returnNothing isVoid =>
          exact ⟨assign,
            (Reaches.refl setting.ready).unified asked (isResult.trans isVoid)
              expectedWithin Ty.within_void⟩
termination_by structural stmt

/-- Inference of well-typed statements records no error. -/
theorem inferBlock_complete
    (stmts : List Stmt)
    {stmts' : List Stmt}
    {scope : Scope}
    {context : Context}
    {expected : Ty}
    {found : Substitution}
    {before after : State}
    {assign : Assignment}
    (run :
      Runs (inferBlock stmts context expected) before (stmts', found) after)
    (setting : Setting scope known assign before context)
    (expectedWithin : expected.Within (Below anyVar before.nextVar))
    (typed : BlockTyped .inferable result scope stmts)
    (isResult : expected.instantiate assign = result) :
    ∃ changed, Reaches scope.funs known before assign found after changed := by
  cases stmts with
  | nil =>
      obtain ⟨_, rfl, rfl⟩ := runs_inferBlock_nil run
      exact ⟨assign, .refl setting.ready⟩
  | cons stmt rest =>
      obtain ⟨_, _, _, _, _, stmtRun, restRun, _, rfl⟩ :=
        runs_inferBlock_cons run
      cases typed with
      | cons stmtTyped restTyped =>
          obtain ⟨_, stmtReaches⟩ :=
            inferStmt_complete stmt stmtRun setting expectedWithin stmtTyped
              isResult
          have stillResult := stmtReaches.instantiate_apply expectedWithin
          obtain ⟨changed, restReaches⟩ :=
            inferBlock_complete rest restRun (setting.step stmtReaches)
              (stmtReaches.applyWithin expectedWithin) restTyped
              (stillResult.trans isResult)
          exact ⟨changed, stmtReaches.append restReaches⟩
termination_by structural stmts

end

end Statements

end SplTyping
