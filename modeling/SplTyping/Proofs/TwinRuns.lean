import SplTyping.Proofs.Erasure
import SplTyping.Proofs.Nodes
import SplTyping.Proofs.Twins

namespace SplTyping

/-!
# Inference keeps step with itself on what is left of a program

Inference of a program and of its erased form are compared function by function.
Neither literals, nor places, nor slots decide what happens next, so that both
runs have the same results up to erasure, and what the second run makes of an
annotated tree renews it.
-/

/-- A call that is erased does not wait. -/
theorem Call.waiting_erased
    {erasure : Erasure}
    (call : Call) :
    (call.erased erasure).waiting = none := by
  rw [Call.erased_eq]

section Exprs

variable {erasure : Erasure}

mutual

/--
Inference of an erased expression goes in step with that of the expression.
-/
theorem inferExpr_inStep
    (expr : Expr)
    (context : Context)
    (expected : Ty)
    (demand : Demand)
    (guard : Option ValueGuard) :
    InStep erasure
      (Twin fun setAside => Renews erasure Expr.kind setAside expr)
      (inferExpr (expr.erased erasure) context expected demand
        (guard.map (ValueGuard.erased erasure)))
      (inferExpr expr context expected demand guard) := by
  cases expr with
  | int value mark =>
      rw [Expr.erased, inferExpr, inferExpr]
      refine (constrain_inStep _ _ _ _).bindSame fun _ => .pure ⟨?_, rfl⟩
      refine (mark.renews_withTy erasure _).build Expr.builds_int ?_
      rintro rfl
      rfl
  | bool value mark =>
      rw [Expr.erased, inferExpr, inferExpr]
      refine (constrain_inStep _ _ _ _).bindSame fun _ => .pure ⟨?_, rfl⟩
      refine (mark.renews_withTy erasure _).build Expr.builds_bool ?_
      rintro rfl
      rfl
  | char value mark =>
      rw [Expr.erased, inferExpr, inferExpr]
      refine (constrain_inStep _ _ _ _).bindSame fun _ => .pure ⟨?_, rfl⟩
      refine (mark.renews_withTy erasure _).build Expr.builds_char ?_
      rintro rfl
      rfl
  | read place =>
      rw [Expr.erased, inferExpr, inferExpr]
      refine (inferPlace_inStep place _ _ _).bindTwin
        fun _ _ _ _ renews => .pure ⟨?_, rfl⟩
      exact renews.done.build Expr.builds_read fun _ => Eq.refl ()
  | pair first second mark =>
      rw [Expr.erased, inferExpr, inferExpr]
      refine fresh_inStep.bindSame fun _ => fresh_inStep.bindSame fun _ => ?_
      refine (inferExpr_inStep first _ _ _
        (some ⟨.pairComponent, mark.span⟩)).bindTwin
          fun _ _ _ _ renewsFirst => ?_
      refine (inferExpr_inStep second _ _ _
        (some ⟨.pairComponent, mark.span⟩)).bindTwin
          fun _ _ _ _ renewsSecond => .ite ?_ ?_
      · refine (report_inStep (.voidValue .pairComponent mark.span)).bindSame
          fun _ => .pure ⟨?_, rfl⟩
        exact ((mark.renews_erased erasure).prod
          (renewsFirst.prod renewsSecond.done)).build Expr.builds_pair
            fun _ => Eq.refl ()
      · refine (constrain_inStep _ _ _ _).bindSame fun _ => .pure ⟨?_, rfl⟩
        exact ((mark.renews_withTy erasure _).prod
          (renewsFirst.prod renewsSecond.done)).build Expr.builds_pair
            fun _ => Eq.refl ()
  | nil mark =>
      rw [Expr.erased, inferExpr, inferExpr]
      refine fresh_inStep.bindSame fun _ =>
        (constrain_inStep _ _ _ _).bindSame fun _ => .pure ⟨?_, rfl⟩
      exact (mark.renews_withTy erasure _).build Expr.builds_nil
        fun _ => Eq.refl ()
  | range first last mark =>
      rw [Expr.erased, inferExpr, inferExpr]
      refine fresh_inStep.bindSame fun _ =>
        (inferExpr_inStep first _ _ _ none).withRuns.bind ?_
      rintro _ ⟨first', found⟩ ⟨first'', _⟩
        ⟨⟨renewsFirst, ⟨⟩⟩, ⟨_, _, run⟩, _, _, run'⟩
      have sameSpan : first'.span = erasure.span first''.span := by
        rw [Expr.span_eq_of_erased (inferExpr_erased .slots run),
          Expr.span_eq_of_erased (inferExpr_erased .slots run'),
          Expr.span_erased]
      refine (rangeBound_inStep _ _ sameSpan).bindSame fun (bound, found) =>
        (inferExpr_inStep last _ _ _ none).bindTwin
          fun _ _ _ _ renewsLast =>
            (constrain_inStep _ _ _ _).bindSame fun _ => .pure ⟨?_, rfl⟩
      exact ((mark.renews_withTy erasure _).prod
        (renewsFirst.prod renewsLast.done)).build Expr.builds_range
          fun _ => Eq.refl ()
  | binary op left right mark =>
      rw [Expr.erased, inferExpr, inferExpr]
      refine (operatorTypes_inStep op).bindSame
        fun (leftTy, rightTy, resultTy) =>
          (inferExpr_inStep left _ _ _
            (some ⟨.operand op, mark.span⟩)).bindTwin
              fun _ _ _ _ renewsLeft => .ite ?_ ?_
      · refine (report_inStep (.voidValue (.operand op) mark.span)).bindSame
          fun _ => .pure ⟨?_, rfl⟩
        exact ((mark.renews_erased erasure).prod
          (renewsLeft.prod right.renews_erased)).build Expr.builds_binary
            fun _ => rfl
      · refine (inferExpr_inStep right _ _ _
          (some ⟨.operand op, mark.span⟩)).bindTwin
            fun _ _ _ _ renewsRight => .ite ?_ ?_
        · refine (report_inStep (.voidValue (.operand op) mark.span)).bindSame
            fun _ => .pure ⟨?_, rfl⟩
          exact ((mark.renews_erased erasure).prod
            (renewsLeft.prod renewsRight.done)).build Expr.builds_binary
              fun _ => rfl
        · refine (constrain_inStep _ _ _ _).bindSame fun _ => .pure ⟨?_, rfl⟩
          exact ((mark.renews_withTy erasure _).prod
            (renewsLeft.prod renewsRight.done)).build Expr.builds_binary
              fun _ => rfl
  | unary op operand mark =>
      rw [Expr.erased, inferExpr, inferExpr]
      refine (inferExpr_inStep operand _ _ _ none).bindTwin
        fun _ _ _ _ renews =>
          (constrain_inStep _ _ _ _).bindSame fun _ => .pure ⟨?_, rfl⟩
      exact ((mark.renews_withTy erasure _).prod renews.done).build
        Expr.builds_unary fun _ => rfl
  | call made =>
      have callSteps :=
        inferCall_inStep made none context expected demand guard
      rw [Call.restamp made.waiting_erased] at callSteps
      rw [Expr.erased, inferExpr, inferExpr]
      refine callSteps.bindTwin fun _ _ _ _ twins => .pure ⟨?_, rfl⟩
      exact twins.renews.done.build Expr.builds_call fun _ => Eq.refl ()
termination_by structural expr

/-- Inference of an erased place goes in step with that of the place. -/
theorem inferPlace_inStep
    (place : Place)
    (context : Context)
    (expected : Ty)
    (demand : Demand) :
    InStep erasure
      (Twin fun setAside => Renews erasure Place.kind setAside place)
      (inferPlace (place.erased erasure) context expected demand)
      (inferPlace place context expected demand) := by
  rcases place with ⟨name, fields, mark⟩
  have sameName : erasure = .slots → name.erased erasure = name := by
    rintro rfl
    rfl
  rw [Place.erased, inferPlace, inferPlace]
  simp only [Name.erased]
  cases context.vars.get? name.text with
  | none =>
      refine (report_inStep (.unknownVariable name.text name.span)).bindSame
        fun _ => .pure ⟨?_, rfl⟩
      exact ((mark.renews_erased erasure).prod
        (Field.renewsAll_erased fields)).build Place.builds sameName
  | some base =>
      refine (inferFields_inStep fields _ _ _ _ _).bindTwin
        fun _ _ _ _ renews =>
          (constrain_inStep _ _ _ _).bindSame fun _ => .pure ⟨?_, rfl⟩
      exact ((mark.renews_withTy erasure _).prod renews.done).build
        Place.builds sameName
termination_by structural place

/-- The same type is selected by fields and by what is left of them. -/
theorem inferFields_inStep
    (fields : List Field)
    (name : String)
    (span : Span)
    (context : Context)
    (current : Ty)
    (found : Substitution) :
    InStep erasure
      (Twin fun setAside =>
        Renews erasure Field.kindAll setAside fields)
      (inferFields (Field.erasedAll erasure fields) name (erasure.span span)
        context current found)
      (inferFields fields name span context current found) := by
  cases fields with
  | nil =>
      exact .pure ⟨.leaf (fun _ => ⟨rfl, rfl⟩) fun _ => rfl, rfl⟩
  | cons field rest =>
      rw [Field.erasedAll, inferFields, inferFields]
      refine (inferField_inStep field _ _ _ _ _).bindTwin
        fun _ _ _ _ renewsField =>
          (inferFields_inStep rest _ _ _ _ _).bindTwin
            fun _ _ _ _ renewsRest => .pure ⟨?_, rfl⟩
      exact (renewsField.prod renewsRest.done).build Field.builds_cons
        fun _ => Eq.refl ()
termination_by structural fields

theorem inferField_inStep
    (field : Field)
    (name : String)
    (span : Span)
    (context : Context)
    (current : Ty)
    (found : Substitution) :
    InStep erasure
      (Twin fun setAside => Renews erasure Field.kind setAside field)
      (inferField (field.erased erasure) name (erasure.span span) context
        current found)
      (inferField field name span context current found) := by
  cases field with
  | hd | tl =>
      rw [Field.erased, inferField, inferField]
      exact fresh_inStep.bindSame fun _ =>
        (constrain_inStep _ _ _ _).bindSame fun _ =>
          .pure ⟨.leaf (fun _ => ⟨rfl, rfl⟩) fun _ => rfl, rfl⟩
  | fst | snd =>
      rw [Field.erased, inferField, inferField]
      exact fresh_inStep.bindSame fun _ => fresh_inStep.bindSame fun _ =>
        (constrain_inStep _ _ _ _).bindSame fun _ =>
          .pure ⟨.leaf (fun _ => ⟨rfl, rfl⟩) fun _ => rfl, rfl⟩
  | index position =>
      rw [Field.erased, inferField, inferField]
      refine fresh_inStep.bindSame fun _ =>
        (constrain_inStep _ _ _ _).bindSame fun _ =>
          (inferExpr_inStep position _ _ _ none).bindTwin
            fun _ _ _ _ renews => .pure ⟨?_, rfl⟩
      exact renews.done.build Field.builds_index fun _ => Eq.refl ()
termination_by structural field

/--
A call goes in step with what is left of it: both are set aside or neither is.
-/
theorem inferCall_inStep
    (call : Call)
    (stamp : Option CallId)
    (context : Context)
    (expected : Ty)
    (demand : Demand)
    (guard : Option ValueGuard) :
    InStep erasure (Twin (CallTwins erasure stamp call))
      (inferCall { call.erased erasure with waiting := stamp } context expected
        demand (guard.map (ValueGuard.erased erasure)))
      (inferCall call context expected demand guard) := by
  rcases call with ⟨callee, args, mark, waiting⟩
  rw [Call.erased, inferCall, inferCall]
  simp only [Name.erased]
  cases context.funs.get? callee.text with
  | none =>
      refine (defer_inStep ⟨callee, args, mark, waiting⟩ stamp _ _ _).bind ?_
      rintro _ _ _ ⟨id, rfl, rfl, rfl⟩
      exact .pure ⟨.waits _ id, rfl⟩
  | some signature =>
      rw [Expr.length_erasedAll]
      refine .ite ?_ ?_
      · refine (inferArgs_inStep args _ _ _ _).bindTwin
          fun _ _ _ outcome renewsArgs => ?_
        cases outcome with
        | none =>
            exact .pure ⟨.stays callee waiting
              ((mark.renews_erased erasure).prod renewsArgs.done), rfl⟩
        | some progress =>
            exact (constrain_inStep _ _ _ _).bindSame fun _ =>
              .pure ⟨.stays callee waiting
                ((mark.renews_withTy erasure _).prod renewsArgs.done), rfl⟩
      · refine (report_inStep (.arity .call callee.text
          signature.params.length args.length mark.span)).bindSame fun _ => ?_
        exact .pure ⟨.stays callee waiting
          ((mark.renews_erased erasure).prod (Expr.renewsAll_erased args)), rfl⟩
termination_by structural call

/-- Arguments go in step with what is left of them and abort together. -/
theorem inferArgs_inStep
    (args : List Expr)
    (params : List Ty)
    (function : String)
    (number : Nat)
    (progress : CallProgress) :
    InStep erasure
      (Twin fun setAside => Renews erasure Expr.kindAll setAside args)
      (inferArgs (Expr.erasedAll erasure args) params function number progress)
      (inferArgs args params function number progress) := by
  cases args with
  | nil => exact .pure ⟨Expr.renewsAll_erased [], rfl⟩
  | cons arg args =>
      cases params with
      | nil =>
          exact .pure ⟨Expr.renewsAll_erased (arg :: args), rfl⟩
      | cons param params =>
          rw [Expr.erasedAll, inferArgs, inferArgs]
          simp only [Expr.span_erased]
          refine fresh_inStep.bindSame fun _ =>
            (inferExpr_inStep arg _ _ _
              (some ⟨.argument function number, arg.span⟩)).bindTwin
                fun _ _ _ _ renewsArg => .ite ?_ ?_
          · refine (report_inStep (.voidValue (.argument function number)
              arg.span)).bindSame fun _ => .pure ⟨?_, rfl⟩
            exact (renewsArg.prod (Expr.renewsAll_erased args)).build
              Expr.builds_cons fun _ => Eq.refl ()
          · refine (unifyOrReport_inStep _ _ _ (TypeError.erased_ofArgument
              erasure function number arg.span)).bindSame fun _ =>
                (inferArgs_inStep args _ _ _ _).bindTwin
                  fun _ _ _ _ renewsRest => .pure ⟨?_, rfl⟩
            exact (renewsArg.prod renewsRest.done).build Expr.builds_cons
              fun _ => Eq.refl ()
termination_by structural args

end

end Exprs

section Stmts

variable {erasure : Erasure}

theorem inferAssign_inStep
    (target : Place)
    (value : Expr)
    (span : Span)
    (context : Context) :
    InStep erasure
      (Twin fun setAside =>
        Renews erasure Stmt.kind setAside (.assign target value span))
      (inferAssign (target.erased erasure) (value.erased erasure)
        (erasure.span span) context)
      (inferAssign target value span context) := by
  unfold inferAssign
  have sameName : (target.erased erasure).name.text = target.name.text := by
    rcases target with ⟨name, fields, mark⟩
    rfl
  rw [sameName]
  refine fresh_inStep.bindSame fun _ =>
    (inferExpr_inStep value _ _ _
      (some ⟨.assignment target.name.text, span⟩)).bindTwin
        fun _ _ _ _ renewsValue => fresh_inStep.bindSame fun _ =>
          (inferPlace_inStep target _ _ _).bindTwin
            fun _ _ _ _ renewsTarget => .ite ?_ ?_
  · exact (report_inStep (.voidValue (.assignment target.name.text)
      span)).bindSame fun _ =>
        .pure ⟨Stmt.renews_assign span renewsValue renewsTarget.done, rfl⟩
  · exact (constrain_inStep _ _ _ _).bindSame fun _ =>
      .pure ⟨Stmt.renews_assign span renewsValue renewsTarget.done, rfl⟩

theorem inferReturn_inStep
    (value : Expr)
    (span : Span)
    (context : Context)
    (expected : Ty) :
    InStep erasure
      (Twin fun setAside =>
        Renews erasure Stmt.kind setAside (.ret (some value) span))
      (inferReturn (value.erased erasure) (erasure.span span) context expected)
      (inferReturn value span context expected) := by
  unfold inferReturn
  refine fresh_inStep.bindSame fun _ =>
    (inferExpr_inStep value _ _ _ (some ⟨.returned, span⟩)).bindTwin
      fun _ _ _ _ renews => .ite ?_ ?_
  · exact (report_inStep (.voidValue .returned span)).bindSame fun _ =>
      .pure ⟨Stmt.renews_ret span renews.done, rfl⟩
  · exact (constrain_inStep _ _ _ _).bindSame fun _ =>
      .pure ⟨Stmt.renews_ret span renews.done, rfl⟩

mutual

/-- Inference of an erased statement goes in step with that of the statement. -/
theorem inferStmt_inStep
    (stmt : Stmt)
    (context : Context)
    (expected : Ty) :
    InStep erasure
      (Twin fun setAside => Renews erasure Stmt.kind setAside stmt)
      (inferStmt (stmt.erased erasure) context expected)
      (inferStmt stmt context expected) := by
  match stmt with
  | .ifElse condition thenBody elseBody span =>
      rw [Stmt.erased, inferStmt, inferStmt]
      refine (inferBlock_inStep thenBody _ _).bindTwin
        fun _ _ _ _ renewsThen =>
          (inferBlock_inStep elseBody _ _).bindTwin
            fun _ _ _ _ renewsElse =>
              (inferExpr_inStep condition _ _ _ none).bindTwin
                fun _ _ _ _ renewsCondition => .pure ⟨?_, rfl⟩
      exact Stmt.renews_ifElse span renewsThen renewsElse renewsCondition.done
  | .whileDo condition body span =>
      rw [Stmt.erased, inferStmt, inferStmt]
      refine (inferBlock_inStep body _ _).bindTwin fun _ _ _ _ renewsBody =>
        (inferExpr_inStep condition _ _ _ none).bindTwin
          fun _ _ _ _ renewsCondition => .pure ⟨?_, rfl⟩
      exact Stmt.renews_whileDo span renewsBody renewsCondition.done
  | .forIn element iterable body span =>
      rw [Stmt.erased, inferStmt, inferStmt]
      refine fresh_inStep.bindSame fun _ =>
        (inferExpr_inStep iterable _ _ _ none).bindTwin
          fun _ _ _ _ renewsIterable => .ite ?_ ?_
      · refine (report_inStep (.redefinition .loopVariable element.text
          element.span)).bindSame fun _ => .pure ⟨?_, rfl⟩
        exact Stmt.renews_forIn element span renewsIterable
          (Stmt.renewsAll_erased body)
      · refine (inferBlock_inStep body _ _).bindTwin
          fun _ _ _ _ renewsBody => .pure ⟨?_, rfl⟩
        exact Stmt.renews_forIn element span renewsIterable renewsBody.done
  | .assign target value span =>
      rw [Stmt.erased, inferStmt, inferStmt]
      exact inferAssign_inStep target value span context
  | .call made =>
      rw [Stmt.erased, inferStmt, inferStmt]
      have sameCallee :
          (made.erased erasure).callee.text = made.callee.text := by
        rw [Call.erased_eq]
        rfl
      rw [sameCallee]
      refine fresh_inStep.bindSame fun discarded => ?_
      have callSteps : InStep erasure _ _ _ :=
        inferCall_inStep made none context discarded
          (.callResult made.callee.text) none
      rw [Call.restamp made.waiting_erased] at callSteps
      refine callSteps.bindTwin fun _ _ _ _ twins => .pure ⟨?_, rfl⟩
      exact twins.renews.done.build Stmt.builds_call fun _ => Eq.refl ()
  | .ret (some value) span =>
      rw [Stmt.erased, inferStmt, Option.map_some, inferStmt]
      exact inferReturn_inStep value span context expected
  | .ret none span =>
      rw [Stmt.erased, Option.map_none, inferStmt, inferStmt]
      refine (constrain_inStep _ _ _ _).bindSame fun _ => .pure ⟨?_, rfl⟩
      refine .leaf (fun _ => ⟨rfl, rfl⟩) ?_
      rintro rfl
      rfl
termination_by structural stmt

/-- Inference of erased statements goes in step with that of the statements. -/
theorem inferBlock_inStep
    (stmts : List Stmt)
    (context : Context)
    (expected : Ty) :
    InStep erasure
      (Twin fun setAside => Renews erasure Stmt.kindAll setAside stmts)
      (inferBlock (Stmt.erasedAll erasure stmts) context expected)
      (inferBlock stmts context expected) := by
  cases stmts with
  | nil => exact .pure ⟨Stmt.renewsAll_erased [], rfl⟩
  | cons stmt rest =>
      rw [Stmt.erasedAll, inferBlock, inferBlock]
      refine (inferStmt_inStep stmt _ _).bindTwin fun _ _ _ _ renewsStmt =>
        (inferBlock_inStep rest _ _).bindTwin
          fun _ _ _ _ renewsRest => .pure ⟨?_, rfl⟩
      exact (renewsStmt.prod renewsRest.done).build Stmt.builds_cons
        fun _ => Eq.refl ()
termination_by structural stmts

end

end Stmts

section Decls

variable {erasure : Erasure}

/-- A declaration goes in step with what is left of it. -/
theorem inferVarDecl_inStep
    (decl : VarDecl)
    (context : Context)
    (expected : Ty) :
    InStep erasure
      (Twin fun setAside => Renews erasure VarDecl.kind setAside decl)
      (inferVarDecl (decl.erased erasure) context expected)
      (inferVarDecl decl context expected) := by
  rcases decl with ⟨written, name, value, mark⟩
  refine .ite ?_ ?_
  · refine (report_inStep (.redefinition .var name.text name.span)).bindSame
      fun _ => .pure ⟨?_, rfl⟩
    exact VarDecl.renews_erased _
  · cases written <;>
      refine InStep.bindSame ?_ fun _ =>
        (inferExpr_inStep value _ _ _
          (some ⟨.declaration name.text, mark.span⟩)).bindTwin
            fun _ _ _ _ renewsValue => .ite
              ((report_inStep (.voidValue (.declaration name.text)
                mark.span)).bindSame fun _ => .pure
                  ⟨VarDecl.renews _ renewsValue.done
                    (mark.renews_erased erasure), rfl⟩)
              ((constrain_inStep _ _ _ _).bindSame fun _ => .pure
                ⟨VarDecl.renews _ renewsValue.done
                  (mark.renews_withTy erasure _), rfl⟩)
    · exact fresh_inStep
    · exact writtenTy_inStep _

/-- Locals go in step with what is left of them. -/
theorem inferLocals_inStep
    (decls : List VarDecl)
    (context : Context) :
    InStep erasure
      (Twin fun setAside =>
        Renews erasure VarDecl.kind.each setAside decls)
      (inferLocals (decls.map (VarDecl.erased erasure)) context)
      (inferLocals decls context) := by
  induction decls generalizing context with
  | nil => exact .pure ⟨.nil _, rfl⟩
  | cons decl rest inductionHypothesis =>
      rw [List.map_cons, inferLocals, inferLocals]
      refine fresh_inStep.bindSame fun _ =>
        (inferVarDecl_inStep decl _ _).bindTwin
          fun _ _ _ _ renewsDecl => (inductionHypothesis _).bindTwin
            fun _ _ _ _ renewsRest => .pure ⟨?_, rfl⟩
      exact renewsDecl.cons renewsRest.done

/-- A name is repeated whatever is left out of it. -/
theorem firstRepeated?_map_erased
    (seen : List String)
    (names : List Name) :
    firstRepeated? seen (names.map (Name.erased erasure)) =
      (firstRepeated? seen names).map (Name.erased erasure) := by
  induction names generalizing seen with
  | nil => rfl
  | cons name rest inductionHypothesis =>
      rw [List.map_cons, firstRepeated?, firstRepeated?, inductionHypothesis,
        apply_ite (Option.map (Name.erased erasure))]
      rfl

/-- A context does not see what is left out of names. -/
theorem Context.bindArgs_map_erased
    (context : Context)
    (args : List Name)
    (types : List Ty) :
    context.bindArgs (args.map (Name.erased erasure)) types =
      context.bindArgs args types := by
  rw [Context.bindArgs, List.zip_map_left, List.foldl_map]
  rfl

/-- As many variables are drawn for the arguments that are left. -/
theorem freshParams_inStep (args : List Name) :
    InStep erasure Same
      ((args.map (Name.erased erasure)).mapM fun _ => fresh)
      (args.mapM fun _ => fresh) := by
  induction args with
  | nil => exact .pure ⟨rfl, rfl⟩
  | cons arg rest inductionHypothesis =>
      rw [List.map_cons, List.mapM_cons, List.mapM_cons]
      exact fresh_inStep.bindSame fun _ =>
        inductionHypothesis.bindSame fun _ => .pure ⟨rfl, rfl⟩

/-- Written signatures are compared alike. -/
theorem inferSignature_inStep
    (name : Name)
    (written : WrittenSignature)
    (inferred : Ty) :
    InStep erasure Same
      (inferSignature (name.erased erasure) (written.erased erasure) inferred)
      (inferSignature name written inferred) := by
  have signatureSteps :
      InStep erasure Same (signatureTy (written.erased erasure))
        (signatureTy written) :=
    (writtenTys_inStep written.params).bindSame fun _ =>
      (writtenTy_inStep written.result).bindSame fun _ => .pure ⟨rfl, rfl⟩
  have unifySteps (declared : Ty) :
      InStep erasure Same
        (unifyOrReport declared inferred .global
          (TypeError.ofSignature name.text
            (if (erasure.span written.span).isUnknown then
              erasure.span name.span
            else
              erasure.span written.span)))
        (unifyOrReport declared inferred .global
          (TypeError.ofSignature name.text
            (if written.span.isUnknown then name.span else written.span))) := by
    rw [erasure.span_choice]
    exact unifyOrReport_inStep _ _ _ (TypeError.erased_ofUnify erasure _ _ _)
  refine signatureSteps.bindSame fun declared => .ite ?_ (unifySteps declared)
  exact (report_inStep (.sharing name.text declared inferred
    name.span)).bindSame fun _ => unifySteps declared

/-- Both runs check a call that is taken, and record their copies of it. -/
theorem inferTaken_inStep
    {γ : Type}
    {next next' : Call × Substitution → InferM γ}
    {taken taken' : List PendingCall}
    {demand : Demand}
    (pending : PendingCall)
    (context : Context)
    (expected : Ty)
    (nexts :
      ∀ copy copy' more,
        InStepFrom erasure taken taken' Same (next (copy, more))
          (next' (copy', more))) :
    InStepFrom erasure (pending :: taken) taken' Same
      (do
        let checked ←
          inferCall
            { pending.call.erased erasure with waiting := pending.call.waiting }
            context expected demand none
        recordResolved pending.id checked.1
        next checked)
      (do
        let checked ← inferCall pending.call context expected demand none
        recordResolved pending.id checked.1
        next' checked) := by
  intro before before' twins
  obtain ⟨setAside, ⟨copy, more⟩, ⟨copy', _⟩, middle, middle', callRun, callRun',
    ⟨callTwins, ⟨⟩⟩, middleTwins, foreseesNext⟩ :=
    inferCall_inStep pending.call pending.call.waiting context expected demand
      none _ before before' twins
  obtain ⟨_, result, _, after, after', nextRun, nextRun', ⟨rfl, rfl⟩,
    afterTwins, foreseesRest⟩ :=
    nexts copy copy' more _ _ (middleTwins.resolve copy copy')
  refine ⟨[], result, result, after, after', ?_, ?_, ⟨rfl, rfl⟩, afterTwins, ?_⟩
  · exact runs_bind.mpr
      ⟨_, middle, callRun, runs_bind.mpr ⟨(), _, rfl, nextRun⟩⟩
  · exact runs_bind.mpr
      ⟨_, middle', callRun', runs_bind.mpr ⟨(), _, rfl, nextRun'⟩⟩
  · intro forecast nothingExpected foresees
    refine foreseesRest forecast nothingExpected ?_
    refine foresees.resolve callTwins middleTwins
      (inferCall_grows callRun).resolved fun isExpected => ?_
    exact foreseesNext forecast isExpected foresees

/-- The calls that waited for a function are taken up in step. -/
theorem inferWaiting_inStep
    (function : String)
    (waiting taken : List PendingCall)
    (context : Context)
    (found : Substitution) :
    InStepFrom erasure (waiting ++ taken) taken Same
      (inferWaiting function (waiting.map (PendingCall.erased erasure)) context
        found)
      (inferWaiting function waiting context found) := by
  induction waiting generalizing context found with
  | nil => exact .pure ⟨rfl, rfl⟩
  | cons pending rest inductionHypothesis =>
      rw [List.map_cons, inferWaiting, inferWaiting]
      refine .get fun state state' twins => ?_
      rw [twins.settled]
      dsimp only [PendingCall.erased]
      refine inferTaken_inStep pending _ _ fun _ _ more => ?_
      cases pending.guard with
      | none => exact inductionHypothesis _ _
      | some guard =>
          dsimp only [Option.map_some]
          split
          · refine (report_inStep (.voidValue guard.use guard.span) _).bind ?_
            rintro _ _ _ ⟨rfl, rfl⟩
            exact inductionHypothesis _ _
          · exact inductionHypothesis _ _

/-- Both runs take the calls of a function and check them. -/
theorem checkWaiting_inStep
    {γ δ : Type}
    {related : List Call → γ → δ → Prop}
    {next : Context × Substitution → InferM γ}
    {next' : Context × Substitution → InferM δ}
    (function : String)
    (context : Context)
    (found : Substitution)
    (nexts : ∀ checked, InStep erasure related (next checked) (next' checked)) :
    InStep erasure related
      (do
        let waiting ← takeCalls function
        inferWaiting function waiting context found >>= next)
      (do
        let waiting ← takeCalls function
        inferWaiting function waiting context found >>= next') := by
  intro taken before before' twins
  have steps :
      InStepFrom erasure ((before'.pending.take function).1 ++ taken) taken
        related
        (inferWaiting function
          ((before'.pending.take function).1.map (PendingCall.erased erasure))
          context found >>= next)
        (inferWaiting function (before'.pending.take function).1 context
          found >>= next') := by
    refine (inferWaiting_inStep function _ taken context found).bind ?_
    rintro _ checked _ ⟨rfl, rfl⟩
    exact nexts checked taken
  have sameTaken :
      (before.pending.take function).1 =
        (before'.pending.take function).1.map (PendingCall.erased erasure) := by
    rw [twins.pending, PendingCalls.erased_take]
  obtain ⟨setAside, result, result', after, after', run, run', isRelated,
    afterTwins, foresees⟩ := steps _ _ (twins.take function)
  rw [← sameTaken] at run
  exact ⟨setAside, result, result', after, after',
    runs_bind.mpr ⟨_, _, rfl, run⟩, runs_bind.mpr ⟨_, _, rfl, run'⟩, isRelated,
    afterTwins, fun forecast isExpected isForeseen =>
      foresees forecast isExpected (isForeseen.take function)⟩

/-- A function goes in step with what is left of it. -/
theorem inferFunDecl_inStep
    (decl : FunDecl)
    (context : Context)
    (expected : Ty) :
    InStep erasure
      (Twin fun setAside => Renews erasure FunDecl.kind setAside decl)
      (inferFunDecl (decl.erased erasure) context expected)
      (inferFunDecl decl context expected) := by
  rcases decl with ⟨name, args, written, locals, body, mark⟩
  refine resetNames_inStep.bindSame fun _ => .ite ?_ ?_
  · exact (report_inStep (.redefinition .function name.text
      name.span)).bindSame fun _ => .pure ⟨FunDecl.renews_erased _, rfl⟩
  dsimp only [FunDecl.erased]
  rw [firstRepeated?_map_erased]
  cases firstRepeated? [] args with
  | some arg =>
      exact (report_inStep (.redefinition .argument arg.text
        arg.span)).bindSame fun _ => .pure ⟨FunDecl.renews_erased _, rfl⟩
  | none =>
      refine (freshParams_inStep args).bindSame fun params =>
        fresh_inStep.bindSame fun result => ?_
      rw [Context.bindArgs_map_erased]
      refine (inferLocals_inStep locals _).bindTwin
        fun _ _ _ (_, _) renewsLocals =>
          (inferBlock_inStep body _ _).bindTwin
            fun _ _ _ _ renewsBody =>
              (constrain_inStep _ _ _ _).bindSame fun _ => ?_
      cases written <;>
        refine InStep.bindSame ?_ fun _ =>
          checkWaiting_inStep _ _ _ fun _ => .pure
            ⟨FunDecl.renews _ renewsLocals renewsBody.done
              (mark.renews_withTy erasure _), rfl⟩
      · exact .pure ⟨rfl, rfl⟩
      · exact inferSignature_inStep _ _ _

end Decls

/--
The declarations between the two passes over a program: globals are renewed, and
functions are still to come.
-/
inductive GlobalsRenewed (erasure : Erasure) :
    List Call → List Decl → List Decl → List Decl → Prop where
  | nil : GlobalsRenewed erasure [] [] [] []
  | var
      {setAside more : List Call}
      {decl decl' decl'' : VarDecl}
      {rest rest' rest'' : List Decl}
      (renewsDecl :
        Renews erasure VarDecl.kind setAside decl decl' decl'')
      (renewed : GlobalsRenewed erasure more rest rest' rest'') :
      GlobalsRenewed erasure (setAside ++ more) (.var decl :: rest)
        (.var decl' :: rest') (.var decl'' :: rest'')
  | fn
      {setAside : List Call}
      {rest rest' rest'' : List Decl}
      (decl : FunDecl)
      (renewed : GlobalsRenewed erasure setAside rest rest' rest'') :
      GlobalsRenewed erasure setAside (.fn decl :: rest)
        (.fn (decl.erased erasure) :: rest') (.fn decl :: rest'')

section Programs

variable {erasure : Erasure}

/-- The pass over globals goes in step. -/
theorem inferGlobals_inStep
    (decls : List Decl)
    (context : Context) :
    InStep erasure (Twin fun setAside => GlobalsRenewed erasure setAside decls)
      (inferGlobals (decls.map (Decl.erased erasure)) context)
      (inferGlobals decls context) := by
  induction decls generalizing context with
  | nil => exact .pure ⟨.nil, rfl⟩
  | cons decl rest inductionHypothesis =>
      cases decl with
      | var decl =>
          refine fresh_inStep.bindSame fun _ =>
            resetNames_inStep.bindSame fun _ =>
              (inferVarDecl_inStep decl _ _).bindTwin
                fun _ _ _ (_, _) renewsDecl =>
                  (settleFindings_inStep _).bindSame fun _ =>
                    (inductionHypothesis _).bindTwin
                      fun more _ _ _ renewed => .pure ⟨?_, rfl⟩
          rw [List.append_nil]
          exact .var renewsDecl renewed
      | fn decl =>
          refine (inductionHypothesis _).bindTwin
            fun _ _ _ _ renewed => .pure ⟨?_, rfl⟩
          rw [List.append_nil]
          exact .fn decl renewed

/-- The pass over functions goes in step, from globals that were renewed. -/
theorem inferFunctions_inStep
    {setAside : List Call}
    {decls decls' decls'' : List Decl}
    (globals : GlobalsRenewed erasure setAside decls decls' decls'')
    (context : Context) :
    InStep erasure
      (Twin fun more =>
        Renews erasure Decl.kind.each (setAside ++ more) decls)
      (inferFunctions decls' context) (inferFunctions decls'' context) := by
  induction globals generalizing context with
  | nil => exact .pure ⟨.nil _, rfl⟩
  | var renewsDecl _ inductionHypothesis =>
      refine (inductionHypothesis context).bindTwin
        fun more _ _ _ renewsRest => .pure ⟨?_, rfl⟩
      have renewsVar := renewsDecl.build Decl.builds_var fun _ => Eq.refl ()
      refine (renewsVar.cons renewsRest).of_subset ?_
      rw [List.append_nil, List.append_assoc]
      exact List.Subset.refl _
  | fn decl _ inductionHypothesis =>
      refine fresh_inStep.bindSame fun _ =>
        (inferFunDecl_inStep decl _ _).bindTwin
          fun _ _ _ (_, _) renewsDecl =>
            (settleFindings_inStep _).bindSame fun _ =>
              (inductionHypothesis _).bindTwin
                fun _ _ _ _ renewsRest => .pure ⟨?_, rfl⟩
      have renewsFn := renewsDecl.build Decl.builds_fn fun _ => Eq.refl ()
      refine (renewsFn.cons renewsRest).of_subset ?_
      rw [List.append_nil]
      exact (List.perm_append_comm_assoc _ _ _).subset

/-- Both passes over a program go in step. -/
theorem inferProgram_inStep
    (program : Program)
    (context : Context) :
    InStep erasure
      (Twin fun setAside first second =>
        Renews erasure Decl.kind.each setAside program.decls first.decls
          second.decls)
      (inferProgram (program.erased erasure) context)
      (inferProgram program context) := by
  refine (inferGlobals_inStep program.decls context).bindTwin
    fun _ _ _ _ renewed => (inferFunctions_inStep renewed _).bindTwin
      fun _ _ _ _ renewsDecls taken => .get fun state state' twins => ?_
  rw [twins.settled]
  refine .pure ⟨renewsDecls.of_subset ?_, rfl⟩
  rw [List.append_nil]
  exact List.Subset.refl _

/-- At the start, both states are the same. -/
theorem Twins.initial : Twins erasure [] .initial .initial where
  nextVar := rfl
  names := rfl
  settled := rfl
  pending := rfl
  errors := rfl
  warnings := rfl
  numbers := .refl _

/--
Inference of a whole program and of what is left of it: the findings are equal,
the errors agree, and the tree is renewed.
-/
structure ProgramTwins
    (erasure : Erasure)
    (program : Program) :
    Prop where
  context : (program.erased erasure).infer.context = program.infer.context
  found : (program.erased erasure).infer.found = program.infer.found
  twins :
    Twins erasure [] (program.erased erasure).inferredState
      program.inferredState
  renews :
    ∃ setAside,
      Renews erasure Decl.kind.each setAside program.decls
          (program.erased erasure).infer.program.decls
          program.infer.program.decls ∧
        ∀ forecast : Forecast erasure, forecast.ExpectsAll setAside →
          forecast.Foresees [] (program.erased erasure).inferredState
            program.inferredState

/-- A program and what is left of it are twins, whatever is erased. -/
theorem Program.twins
    (erasure : Erasure)
    (program : Program) :
    ProgramTwins erasure program := by
  obtain ⟨setAside, ⟨tree, context, found⟩, ⟨tree', _⟩, last, last', run, run',
    ⟨renews, ⟨⟩⟩, twins, foresees⟩ :=
    inferProgram_inStep program .empty [] _ _ .initial
  have isInferred :
      ((program.erased erasure).infer.program,
          (program.erased erasure).infer.context,
          (program.erased erasure).infer.found) = (tree, context, found) :=
    congrArg Prod.fst run
  have isInferred' :
      (program.infer.program, program.infer.context, program.infer.found) =
        (tree', context, found) :=
    congrArg Prod.fst run'
  have isLast : (program.erased erasure).inferredState = last :=
    congrArg Prod.snd run
  have isLast' : program.inferredState = last' := congrArg Prod.snd run'
  obtain ⟨isTree, isContext, isFound⟩ := by
    simpa only [Prod.mk.injEq] using isInferred
  obtain ⟨isTree', isContext', isFound'⟩ := by
    simpa only [Prod.mk.injEq] using isInferred'
  refine ⟨isContext.trans isContext'.symm, isFound.trans isFound'.symm, ?_,
    setAside, ?_, ?_⟩
  · rw [isLast, isLast']
    exact twins
  · rw [isTree, isTree']
    exact renews
  · rw [isLast, isLast']
    exact fun forecast isExpected => foresees forecast isExpected .initial

end Programs

/-- Reporting calls that wait adds no warnings. -/
theorem Program.infer_warnings (program : Program) :
    program.infer.state.diagnostics.warnings =
      program.inferredState.diagnostics.warnings := by
  have run : Runs reportWaiting program.inferredState () program.infer.state :=
    rfl
  have keeps (waiting : List PendingCall) (diagnostics : Diagnostics) :
      (waiting.foldl
          (fun diagnostics unanswered =>
            diagnostics.report unanswered.call.unknownFunction)
          diagnostics).warnings = diagnostics.warnings := by
    induction waiting generalizing diagnostics with
    | nil => rfl
    | cons unanswered rest inductionHypothesis =>
        rw [List.foldl_cons, inductionHypothesis]
        rfl
  rw [reportWaiting, runs_modify] at run
  rw [run]
  exact keeps _ _

/-- The errors and warnings of a program agree with those of what is left of it. -/
theorem Program.infer_diagnostics_erased
    (erasure : Erasure)
    (program : Program) :
    (program.erased erasure).infer.state.diagnostics =
      { errors :=
          program.infer.state.diagnostics.errors.map (TypeError.erased erasure)
        warnings := program.infer.state.diagnostics.warnings } := by
  have twins := (program.twins erasure).twins
  have reported (pending : PendingCall) :
      (pending.erased erasure).call.unknownFunction =
        pending.call.unknownFunction.erased erasure := by
    rw [Call.unknownFunction, PendingCall.erased]
    simp only [Call.erased_eq]
    rfl
  have sameErrors :
      (program.erased erasure).infer.state.diagnostics.errors =
        program.infer.state.diagnostics.errors.map
          (TypeError.erased erasure) := by
    rw [Program.infer_errors, Program.infer_errors, List.map_append,
      twins.errors, twins.pending, PendingCalls.calls_erased, List.map_map,
      List.map_map]
    congr 1
    exact List.map_congr_left fun pending _ => reported pending
  have sameWarnings :
      (program.erased erasure).infer.state.diagnostics.warnings =
        program.infer.state.diagnostics.warnings := by
    rw [Program.infer_warnings, Program.infer_warnings, twins.warnings]
  rw [← sameErrors, ← sameWarnings]

/-- Two answers of a check differ in the report and in places of errors only. -/
inductive SameVerdict :
    Except Failure Checked → Except Failure Checked → Prop where
  | accepted
      (checked : Checked) :
      SameVerdict (.ok checked) (.ok checked)
  | rejected
      {failure failure' : Failure}
      (sameErrors :
        List.Forall₂
          (fun error error' => error.erased .details = error'.erased .details)
          failure.errors failure'.errors) :
      SameVerdict (.error failure) (.error failure')

/--
Programs that differ in places, in the values of literals and in slots only are
accepted alike, with equal contexts, or rejected for the same errors.
-/
theorem typeCheck_ignores_details
    {first second : Program}
    (same : first.erased .details = second.erased .details)
    (source source' : String)
    (config config' : ReportConfig) :
    SameVerdict (typeCheck first source config).2
      (typeCheck second source' config').2 := by
  have sameContext : first.infer.context = second.infer.context := by
    rw [← (first.twins .details).context, same,
      (second.twins .details).context]
  have sameDiagnostics := first.infer_diagnostics_erased .details
  rw [same, second.infer_diagnostics_erased .details] at sameDiagnostics
  obtain ⟨sameErrors, sameWarnings⟩ := Diagnostics.mk.inj sameDiagnostics
  by_cases isClean : first.infer.state.diagnostics.errors = []
  · have isClean' : second.infer.state.diagnostics.errors = [] := by
      rw [isClean, List.map_nil, List.map_eq_nil_iff] at sameErrors
      exact sameErrors
    simp only [typeCheck, Diagnostics.finish, isClean, isClean',
      List.isEmpty_nil, if_true, Except.map, sameContext, ← sameWarnings]
    exact .accepted _
  · have isFailed : second.infer.state.diagnostics.errors ≠ [] := by
      intro isClean'
      rw [isClean', List.map_nil] at sameErrors
      exact isClean (List.map_eq_nil_iff.mp sameErrors.symm)
    rw [typeCheck_error_iff.mpr ⟨isClean, rfl⟩,
      typeCheck_error_iff.mpr ⟨isFailed, rfl⟩]
    have alike := sameErrors.symm
    rw [← List.forall₂_eq_eq_eq, List.forall₂_map_left_iff,
      List.forall₂_map_right_iff] at alike
    exact .rejected alike

/-- A call that waits and two returns that disagree, in given details. -/
def detailedProgram
    (span : Span)
    (value : Int)
    (mark : Mark)
    (stamp : Option CallId) :
    Program where
  decls :=
    [.fn (.ofBody "main" []
        [.call ⟨⟨"later", span⟩, [.int value mark], mark, stamp⟩,
          .ret (some (.int value mark)) span,
          .ret none span]),
      .fn (.ofBody "later" ["x"] [.ret none span])]

theorem detailedProgram_rejected_alike :
    (detailedProgram .unknown 1 .blank none).erased .details =
        (detailedProgram ⟨⟨3, 1⟩, ⟨3, 9⟩⟩ 7 ⟨⟨⟨2, 4⟩, ⟨2, 5⟩⟩, some .bool⟩
          (some 0)).erased .details ∧
      (detailedProgram .unknown 1 .blank none).infer.state.diagnostics.errors =
        [.mismatch .returned .int .void .unknown] ∧
      SameVerdict
        (typeCheck (detailedProgram .unknown 1 .blank none) "" .plain).2
        (typeCheck
          (detailedProgram ⟨⟨3, 1⟩, ⟨3, 9⟩⟩ 7 ⟨⟨⟨2, 4⟩, ⟨2, 5⟩⟩, some .bool⟩
            (some 0))
          "main" (.standard fun _ text => "\x1b[1m" ++ text ++ "\x1b[0m")).2 := by
  have same :
      (detailedProgram .unknown 1 .blank none).erased .details =
        (detailedProgram ⟨⟨3, 1⟩, ⟨3, 9⟩⟩ 7 ⟨⟨⟨2, 4⟩, ⟨2, 5⟩⟩, some .bool⟩
          (some 0)).erased .details := by
    rfl
  refine ⟨same, ?_, typeCheck_ignores_details same "" "main" .plain _⟩
  cbv

end SplTyping
