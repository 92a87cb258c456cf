import SplTyping.Proofs.Runs.Basic

namespace SplTyping

/-!
# Runs over expressions

The ways through an operator, the bounds of a range, an expression, a place and
a field. Several fields are the run of the first one followed by that of the
others.
-/

/-- How the types of an operator are drawn. -/
inductive OperatorRun (before : State) :
    BinOp → Ty → Ty → Ty → State → Prop where
  | cons :
      OperatorRun before .cons
        (.var before.nextVar) (.list (.var before.nextVar))
        (.list (.var before.nextVar)) (before.draw 1)
  | compared
      {op : BinOp}
      (isEquality : op = .eq ∨ op = .ne) :
      OperatorRun before op
        (.var before.nextVar) (.var before.nextVar) .bool (before.draw 1)
  | arithmetic
      {op : BinOp}
      (isArithmetic :
        op = .add ∨ op = .sub ∨ op = .mul ∨ op = .div ∨ op = .mod) :
      OperatorRun before op .int .int .int before
  | ordered
      {op : BinOp}
      (isOrder : op = .lt ∨ op = .gt ∨ op = .le ∨ op = .ge) :
      OperatorRun before op .int .int .bool before
  | logical
      {op : BinOp}
      (isLogical : op = .and ∨ op = .or) :
      OperatorRun before op .bool .bool .bool before

/--
Every run that finds the types of an operator is of one of the listed forms.
-/
theorem operatorRun_of_runs
    {op : BinOp}
    {left right result : Ty}
    {before after : State}
    (run : Runs (operatorTypes op) before (left, right, result) after) :
    OperatorRun before op left right result after := by
  cases op <;>
    simp only [operatorTypes, runs_bind, runs_fresh, runs_pure,
      Prod.mk.injEq] at run
  case cons =>
    obtain ⟨_, _, ⟨rfl, rfl⟩, ⟨rfl, rfl, rfl⟩, rfl⟩ := run
    exact .cons
  case eq | ne =>
    obtain ⟨_, _, ⟨rfl, rfl⟩, ⟨rfl, rfl, rfl⟩, rfl⟩ := run
    exact .compared (by simp)
  case add | sub | mul | div | mod =>
    obtain ⟨⟨rfl, rfl, rfl⟩, rfl⟩ := run
    exact .arithmetic (by simp)
  case lt | gt | le | ge =>
    obtain ⟨⟨rfl, rfl, rfl⟩, rfl⟩ := run
    exact .ordered (by simp)
  case and | or =>
    obtain ⟨⟨rfl, rfl, rfl⟩, rfl⟩ := run
    exact .logical (by simp)

/-- How the type of the bounds of a range is read off its first bound. -/
inductive BoundRun (found : Substitution) (before : State) :
    Ty → Ty → Substitution → State → Prop where
  | int : BoundRun found before .int .int found before
  | char : BoundRun found before .char .char found before
  | unknown
      {id : TypeVar} :
      BoundRun found before (.var id) .int (found.push id .int .global) before
  | other
      {first : Ty}
      {error : TypeError}
      (notInt : first ≠ .int)
      (notChar : first ≠ .char)
      (notVar : ∀ id, first ≠ .var id)
      (mentions : error.types = [.int, first]) :
      BoundRun found before first .int found (before.record error)

/--
Every run that looks at the bound of a range is of one of the listed forms.
-/
theorem boundRun_of_runs
    {first bound : Ty}
    {found extended : Substitution}
    {span : Span}
    {before after : State}
    (run : Runs (rangeBound first found span) before (bound, extended) after) :
    BoundRun found before first bound extended after := by
  unfold rangeBound at run
  split at run
  · simp only [runs_pure, Prod.mk.injEq] at run
    obtain ⟨⟨rfl, rfl⟩, rfl⟩ := run
    exact .int
  · simp only [runs_pure, Prod.mk.injEq] at run
    obtain ⟨⟨rfl, rfl⟩, rfl⟩ := run
    exact .char
  · simp only [runs_pure, Prod.mk.injEq] at run
    obtain ⟨⟨rfl, rfl⟩, rfl⟩ := run
    exact .unknown
  · rename_i notInt notChar notVar
    simp only [runs_bind, runs_report, runs_pure, Prod.mk.injEq] at run
    obtain ⟨_, _, rfl, ⟨rfl, rfl⟩, rfl⟩ := run
    exact .other notInt notChar notVar rfl

/-- How the inference of an expression runs. -/
inductive ExprRun
    (context : Context)
    (expected : Ty)
    (demand : Demand)
    (guard : Option ValueGuard)
    (before : State) :
    Expr → Expr → Substitution → State → Prop where
  | int
      {value : Int}
      {mark : Mark}
      {found : Substitution}
      {after : State}
      (asked : Runs (constrain expected .int demand mark.span) before found after) :
      ExprRun context expected demand guard before
        (.int value mark) (.int value (mark.withTy .int)) found after
  | bool
      {value : Bool}
      {mark : Mark}
      {found : Substitution}
      {after : State}
      (asked : Runs (constrain expected .bool demand mark.span) before found after) :
      ExprRun context expected demand guard before
        (.bool value mark) (.bool value (mark.withTy .bool)) found after
  | char
      {value : Char}
      {mark : Mark}
      {found : Substitution}
      {after : State}
      (asked : Runs (constrain expected .char demand mark.span) before found after) :
      ExprRun context expected demand guard before
        (.char value mark) (.char value (mark.withTy .char)) found after
  | read
      {place place' : Place}
      {found : Substitution}
      {after : State}
      (placeRun :
        Runs (inferPlace place context expected demand) before (place', found)
          after) :
      ExprRun context expected demand guard before
        (.read place) (.read place') found after
  | pairVoid
      {first first' second second' : Expr}
      {mark : Mark}
      {found more : Substitution}
      {middle last : State}
      {error : TypeError}
      (firstRun :
        Runs
          (inferExpr first context (.var before.nextVar) .general
            (some ⟨.pairComponent, mark.span⟩))
          (before.draw 2) (first', found) middle)
      (secondRun :
        Runs
          (inferExpr second (context.narrow found) (.var (before.nextVar + 1))
            .general (some ⟨.pairComponent, mark.span⟩))
          middle (second', more) last)
      (isVoid :
        ((found ++ more).apply (.var before.nextVar)).contains .void = true ∨
          ((found ++ more).apply (.var (before.nextVar + 1))).contains .void =
            true)
      (plain : error.types = []) :
      ExprRun context expected demand guard before
        (.pair first second mark) (.pair first' second' mark) []
        (last.record error)
  | pair
      {first first' second second' : Expr}
      {mark : Mark}
      {found more final : Substitution}
      {middle last after : State}
      (firstRun :
        Runs
          (inferExpr first context (.var before.nextVar) .general
            (some ⟨.pairComponent, mark.span⟩))
          (before.draw 2) (first', found) middle)
      (secondRun :
        Runs
          (inferExpr second (context.narrow found) (.var (before.nextVar + 1))
            .general (some ⟨.pairComponent, mark.span⟩))
          middle (second', more) last)
      (firstValue :
        ((found ++ more).apply (.var before.nextVar)).contains .void = false)
      (secondValue :
        ((found ++ more).apply (.var (before.nextVar + 1))).contains .void =
          false)
      (asked :
        Runs
          (constrain ((found ++ more).apply expected)
            (.pair ((found ++ more).apply (.var before.nextVar))
              ((found ++ more).apply (.var (before.nextVar + 1))))
            demand mark.span)
          last final after) :
      ExprRun context expected demand guard before
        (.pair first second mark)
        (.pair first' second'
          (mark.withTy
            ((found ++ more ++ final).apply
              (.pair ((found ++ more).apply (.var before.nextVar))
                ((found ++ more).apply (.var (before.nextVar + 1)))))))
        (found ++ more ++ final) after
  | nil
      {mark : Mark}
      {found : Substitution}
      {after : State}
      (asked :
        Runs (constrain expected (.list (.var before.nextVar)) demand mark.span)
          (before.draw 1) found after) :
      ExprRun context expected demand guard before
        (.nil mark)
        (.nil (mark.withTy (found.apply (.list (.var before.nextVar)))))
        found after
  | range
      {first first' last last' : Expr}
      {mark : Mark}
      {found extended more final : Substitution}
      {bound : Ty}
      {middle bounded ended after : State}
      (firstRun :
        Runs
          (inferExpr first context (.var before.nextVar) .rangeBound none)
          (before.draw 1) (first', found) middle)
      (boundRun :
        BoundRun found middle (found.apply (.var before.nextVar)) bound extended
          bounded)
      (lastRun :
        Runs
          (inferExpr last (context.narrow extended) bound .rangeBound none)
          bounded (last', more) ended)
      (asked :
        Runs
          (constrain ((extended ++ more).apply expected) (.list bound) demand
            mark.span)
          ended final after) :
      ExprRun context expected demand guard before
        (.range first last mark)
        (.range first' last' (mark.withTy (.list bound)))
        (extended ++ more ++ final) after
  | binaryLeftVoid
      {op : BinOp}
      {left left' right : Expr}
      {mark : Mark}
      {leftTy rightTy resultTy : Ty}
      {found : Substitution}
      {typed middle : State}
      {error : TypeError}
      (operatorRun : OperatorRun before op leftTy rightTy resultTy typed)
      (leftRun :
        Runs
          (inferExpr left context leftTy (.binaryOperand op)
            (some ⟨.operand op, mark.span⟩))
          typed (left', found) middle)
      (isVoid : (found.apply leftTy).contains .void = true)
      (plain : error.types = []) :
      ExprRun context expected demand guard before
        (.binary op left right mark) (.binary op left' right mark) []
        (middle.record error)
  | binaryRightVoid
      {op : BinOp}
      {left left' right right' : Expr}
      {mark : Mark}
      {leftTy rightTy resultTy : Ty}
      {found more : Substitution}
      {typed middle last : State}
      {error : TypeError}
      (operatorRun : OperatorRun before op leftTy rightTy resultTy typed)
      (leftRun :
        Runs
          (inferExpr left context leftTy (.binaryOperand op)
            (some ⟨.operand op, mark.span⟩))
          typed (left', found) middle)
      (rightRun :
        Runs
          (inferExpr right (context.narrow found) (found.apply rightTy)
            (.binaryOperand op) (some ⟨.operand op, mark.span⟩))
          middle (right', more) last)
      (isVoid : ((found ++ more).apply rightTy).contains .void = true)
      (plain : error.types = []) :
      ExprRun context expected demand guard before
        (.binary op left right mark) (.binary op left' right' mark) []
        (last.record error)
  | binary
      {op : BinOp}
      {left left' right right' : Expr}
      {mark : Mark}
      {leftTy rightTy resultTy : Ty}
      {found more final : Substitution}
      {typed middle last after : State}
      (operatorRun : OperatorRun before op leftTy rightTy resultTy typed)
      (leftRun :
        Runs
          (inferExpr left context leftTy (.binaryOperand op)
            (some ⟨.operand op, mark.span⟩))
          typed (left', found) middle)
      (leftValue : (found.apply leftTy).contains .void = false)
      (rightRun :
        Runs
          (inferExpr right (context.narrow found) (found.apply rightTy)
            (.binaryOperand op) (some ⟨.operand op, mark.span⟩))
          middle (right', more) last)
      (rightValue : ((found ++ more).apply rightTy).contains .void = false)
      (asked :
        Runs
          (constrain ((found ++ more).apply expected)
            ((found ++ more).apply resultTy) demand mark.span)
          last final after) :
      ExprRun context expected demand guard before
        (.binary op left right mark)
        (.binary op left' right'
          (mark.withTy
            ((found ++ more ++ final).apply ((found ++ more).apply resultTy))))
        (found ++ more ++ final) after
  | unary
      {op : UnOp}
      {operand operand' : Expr}
      {mark : Mark}
      {found final : Substitution}
      {middle after : State}
      (operandRun :
        Runs (inferExpr operand context op.ty (.unaryOperand op) none) before
          (operand', found) middle)
      (asked :
        Runs (constrain (found.apply expected) op.ty demand mark.span) middle
          final after) :
      ExprRun context expected demand guard before
        (.unary op operand mark) (.unary op operand' (mark.withTy op.ty))
        (found ++ final) after
  | call
      {made made' : Call}
      {found : Substitution}
      {after : State}
      (callRun :
        Runs (inferCall made context expected demand guard) before
          (made', found) after) :
      ExprRun context expected demand guard before
        (.call made) (.call made') found after

/-- Every run of inference on an expression is of one of the listed forms. -/
theorem exprRun_of_runs
    {expr expr' : Expr}
    {context : Context}
    {expected : Ty}
    {demand : Demand}
    {guard : Option ValueGuard}
    {found : Substitution}
    {before after : State}
    (run :
      Runs (inferExpr expr context expected demand guard) before (expr', found)
        after) :
    ExprRun context expected demand guard before expr expr' found after := by
  cases expr with
  | int value mark =>
      simp only [inferExpr, runs_bind, runs_pure, Prod.mk.injEq] at run
      obtain ⟨_, _, asked, ⟨rfl, rfl⟩, rfl⟩ := run
      exact .int asked
  | bool value mark =>
      simp only [inferExpr, runs_bind, runs_pure, Prod.mk.injEq] at run
      obtain ⟨_, _, asked, ⟨rfl, rfl⟩, rfl⟩ := run
      exact .bool asked
  | char value mark =>
      simp only [inferExpr, runs_bind, runs_pure, Prod.mk.injEq] at run
      obtain ⟨_, _, asked, ⟨rfl, rfl⟩, rfl⟩ := run
      exact .char asked
  | read place =>
      simp only [inferExpr, runs_bind, runs_pure, Prod.exists,
        Prod.mk.injEq] at run
      obtain ⟨_, _, _, placeRun, ⟨rfl, rfl⟩, rfl⟩ := run
      exact .read placeRun
  | pair first second mark =>
      simp only [inferExpr, runs_bind, runs_fresh, runs_pure, runs_ite,
        runs_report, Prod.exists, Prod.mk.injEq] at run
      obtain ⟨_, _, ⟨rfl, rfl⟩, _, _, ⟨rfl, rfl⟩, first', found, middle,
        firstRun, second', more, last, secondRun, outcome⟩ := run
      rcases outcome with
        ⟨isVoid, _, _, rfl, ⟨rfl, rfl⟩, rfl⟩ |
          ⟨values, final, _, asked, ⟨rfl, rfl⟩, rfl⟩
      · rw [Bool.or_eq_true] at isVoid
        exact .pairVoid firstRun secondRun isVoid rfl
      · simp only [Bool.or_eq_true, not_or, Bool.not_eq_true] at values
        exact .pair firstRun secondRun values.1 values.2 asked
  | nil mark =>
      simp only [inferExpr, runs_bind, runs_fresh, runs_pure,
        Prod.mk.injEq] at run
      obtain ⟨_, _, ⟨rfl, rfl⟩, _, _, asked, ⟨rfl, rfl⟩, rfl⟩ := run
      exact .nil asked
  | range first last mark =>
      simp only [inferExpr, runs_bind, runs_fresh, runs_pure, Prod.exists,
        Prod.mk.injEq] at run
      obtain ⟨_, _, ⟨rfl, rfl⟩, first', found, middle, firstRun, bound,
        extended, bounded, boundRun, last', more, ended, lastRun, final, _,
        asked, ⟨rfl, rfl⟩, rfl⟩ := run
      exact .range firstRun (boundRun_of_runs boundRun) lastRun asked
  | binary op left right mark =>
      simp only [inferExpr, runs_bind, runs_pure, runs_ite, runs_report,
        Prod.exists, Prod.mk.injEq] at run
      obtain ⟨leftTy, rightTy, resultTy, typed, operatorRun, left', found,
        middle, leftRun, outcome⟩ := run
      have operatorRun := operatorRun_of_runs operatorRun
      rcases outcome with
        ⟨isVoid, _, _, rfl, ⟨rfl, rfl⟩, rfl⟩ |
          ⟨leftValue, right', more, last, rightRun, outcome⟩
      · exact .binaryLeftVoid operatorRun leftRun isVoid rfl
      · rcases outcome with
          ⟨isVoid, _, _, rfl, ⟨rfl, rfl⟩, rfl⟩ |
            ⟨rightValue, final, _, asked, ⟨rfl, rfl⟩, rfl⟩
        · exact .binaryRightVoid operatorRun leftRun rightRun isVoid rfl
        · exact .binary operatorRun leftRun (by simpa using leftValue) rightRun
            (by simpa using rightValue) asked
  | unary op operand mark =>
      simp only [inferExpr, runs_bind, runs_pure, Prod.exists,
        Prod.mk.injEq] at run
      obtain ⟨operand', found, middle, operandRun, final, _, asked,
        ⟨rfl, rfl⟩, rfl⟩ := run
      exact .unary operandRun asked
  | call made =>
      simp only [inferExpr, runs_bind, runs_pure, Prod.exists,
        Prod.mk.injEq] at run
      obtain ⟨_, _, _, callRun, ⟨rfl, rfl⟩, rfl⟩ := run
      exact .call callRun

/-- How the inference of a place runs. -/
inductive PlaceRun
    (context : Context)
    (expected : Ty)
    (demand : Demand)
    (before : State) :
    Place → Place → Substitution → State → Prop where
  | unknown
      {place : Place}
      {error : TypeError}
      (unbound : context.vars.get? place.name.text = none)
      (plain : error.types = []) :
      PlaceRun context expected demand before place place []
        (before.record error)
  | known
      {name : Name}
      {fields fields' : List Field}
      {mark : Mark}
      {base current : Ty}
      {found final : Substitution}
      {middle after : State}
      (bound : context.vars.get? name.text = some base)
      (fieldsRun :
        Runs (inferFields fields name.text mark.span context base []) before
          (fields', current, found) middle)
      (asked :
        Runs (constrain (found.apply expected) current demand mark.span) middle
          final after) :
      PlaceRun context expected demand before
        ⟨name, fields, mark⟩
        ⟨name, fields', mark.withTy ((found ++ final).apply current)⟩
        (found ++ final) after

/-- Every run of inference on a place is of one of the listed forms. -/
theorem placeRun_of_runs
    {place place' : Place}
    {context : Context}
    {expected : Ty}
    {demand : Demand}
    {found : Substitution}
    {before after : State}
    (run :
      Runs (inferPlace place context expected demand) before (place', found)
        after) :
    PlaceRun context expected demand before place place' found after := by
  rcases place with ⟨name, fields, mark⟩
  unfold inferPlace at run
  split at run
  · rename_i unbound
    simp only [runs_bind, runs_report, runs_pure, Prod.mk.injEq] at run
    obtain ⟨_, _, rfl, ⟨rfl, rfl⟩, rfl⟩ := run
    exact .unknown unbound rfl
  · rename_i base bound
    simp only [runs_bind, runs_pure, Prod.exists, Prod.mk.injEq] at run
    obtain ⟨fields', current, found, middle, fieldsRun, final, _, asked,
      ⟨rfl, rfl⟩, rfl⟩ := run
    exact .known bound fieldsRun asked

/-- How the selection of one field runs. -/
inductive FieldRun
    (span : Span)
    (context : Context)
    (current : Ty)
    (found : Substitution)
    (before : State) :
    Field → Field → Ty → Substitution → State → Prop where
  | hd
      {demand : Demand}
      {more : Substitution}
      {after : State}
      (asked :
        Runs (constrain (.list (.var before.nextVar)) current demand span)
          (before.draw 1) more after) :
      FieldRun span context current found before .hd .hd
        ((found ++ more).apply (.var before.nextVar)) (found ++ more) after
  | tl
      {demand : Demand}
      {more : Substitution}
      {after : State}
      (asked :
        Runs (constrain (.list (.var before.nextVar)) current demand span)
          (before.draw 1) more after) :
      FieldRun span context current found before .tl .tl
        ((found ++ more).apply (.list (.var before.nextVar))) (found ++ more)
        after
  | fst
      {demand : Demand}
      {more : Substitution}
      {after : State}
      (asked :
        Runs
          (constrain
            (.pair (.var before.nextVar) (.var (before.nextVar + 1))) current
            demand span)
          (before.draw 2) more after) :
      FieldRun span context current found before .fst .fst
        ((found ++ more).apply (.var before.nextVar)) (found ++ more) after
  | snd
      {demand : Demand}
      {more : Substitution}
      {after : State}
      (asked :
        Runs
          (constrain
            (.pair (.var before.nextVar) (.var (before.nextVar + 1))) current
            demand span)
          (before.draw 2) more after) :
      FieldRun span context current found before .snd .snd
        ((found ++ more).apply (.var (before.nextVar + 1))) (found ++ more)
        after
  | index
      {demand : Demand}
      {position position' : Expr}
      {more last : Substitution}
      {middle after : State}
      (asked :
        Runs (constrain (.list (.var before.nextVar)) current demand span)
          (before.draw 1) more middle)
      (positionRun :
        Runs
          (inferExpr position (context.narrow (found ++ more)) .int .index none)
          middle (position', last) after) :
      FieldRun span context current found before
        (.index position) (.index position')
        ((found ++ more ++ last).apply (.var before.nextVar))
        (found ++ more ++ last) after

/-- Every run of inference on a field is of one of the listed forms. -/
theorem fieldRun_of_runs
    {field field' : Field}
    {name : String}
    {span : Span}
    {context : Context}
    {current selected : Ty}
    {found extended : Substitution}
    {before after : State}
    (run :
      Runs (inferField field name span context current found) before
        (field', selected, extended) after) :
    FieldRun span context current found before field field' selected extended
      after := by
  cases field with
  | hd =>
      simp only [inferField, runs_bind, runs_fresh, runs_pure,
        Prod.mk.injEq] at run
      obtain ⟨_, _, ⟨rfl, rfl⟩, _, _, asked, ⟨rfl, rfl, rfl⟩, rfl⟩ := run
      exact .hd asked
  | tl =>
      simp only [inferField, runs_bind, runs_fresh, runs_pure,
        Prod.mk.injEq] at run
      obtain ⟨_, _, ⟨rfl, rfl⟩, _, _, asked, ⟨rfl, rfl, rfl⟩, rfl⟩ := run
      exact .tl asked
  | fst =>
      simp only [inferField, runs_bind, runs_fresh, runs_pure,
        Prod.mk.injEq] at run
      obtain ⟨_, _, ⟨rfl, rfl⟩, _, _, ⟨rfl, rfl⟩, _, _, asked,
        ⟨rfl, rfl, rfl⟩, rfl⟩ := run
      exact .fst asked
  | snd =>
      simp only [inferField, runs_bind, runs_fresh, runs_pure,
        Prod.mk.injEq] at run
      obtain ⟨_, _, ⟨rfl, rfl⟩, _, _, ⟨rfl, rfl⟩, _, _, asked,
        ⟨rfl, rfl, rfl⟩, rfl⟩ := run
      exact .snd asked
  | index position =>
      simp only [inferField, runs_bind, runs_fresh, runs_pure, Prod.exists,
        Prod.mk.injEq] at run
      obtain ⟨_, _, ⟨rfl, rfl⟩, _, _, asked, position', last, _, positionRun,
        ⟨rfl, rfl, rfl⟩, rfl⟩ := run
      exact .index asked positionRun

/-- Without fields, the type that is selected from is the type selected. -/
theorem runs_inferFields_nil
    {fields' : List Field}
    {name : String}
    {span : Span}
    {context : Context}
    {current selected : Ty}
    {found extended : Substitution}
    {before after : State}
    (run :
      Runs (inferFields [] name span context current found) before
        (fields', selected, extended) after) :
    fields' = [] ∧ selected = current ∧ extended = found ∧ after = before := by
  simp only [inferFields, runs_pure, Prod.mk.injEq] at run
  obtain ⟨⟨rfl, rfl, rfl⟩, rfl⟩ := run
  exact ⟨rfl, rfl, rfl, rfl⟩

/-- Fields are selected one from the type of the other. -/
theorem runs_inferFields_cons
    {field : Field}
    {rest fields' : List Field}
    {name : String}
    {span : Span}
    {context : Context}
    {current selected : Ty}
    {found extended : Substitution}
    {before after : State}
    (run :
      Runs (inferFields (field :: rest) name span context current found) before
        (fields', selected, extended) after) :
    ∃ field' rest' between passed middle,
      Runs (inferField field name span context current found) before
          (field', between, passed) middle ∧
        Runs (inferFields rest name span context between passed) middle
          (rest', selected, extended) after ∧
        fields' = field' :: rest' := by
  simp only [inferFields, runs_bind, runs_pure, Prod.exists,
    Prod.mk.injEq] at run
  obtain ⟨field', between, passed, middle, fieldRun, rest', _, _, _, restRun,
    ⟨rfl, rfl, rfl⟩, rfl⟩ := run
  exact ⟨field', rest', between, passed, middle, fieldRun, restRun, rfl⟩

end SplTyping
