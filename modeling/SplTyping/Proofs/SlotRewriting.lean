import SplTyping.Calls.Resolved
import SplTyping.Proofs.Erasure
import SplTyping.Proofs.TypeSlots

namespace SplTyping

/-!
# Rewriting the slots of a tree

A tree consists of its types, the numbers of its calls, and what is left without
them: two trees that agree in all three are the same (`Program.determined`). So
it is enough to follow these. Changing the types of a tree changes the filled
slots one by one and nothing else, and as long as there is no checked copy to be
put in, this is all that writing back does (`Program.writeBack_rewrites`).
-/

/--
An item is the only one that has its slots and its numbers and is left the same
without them. Other slots and numbers may follow, so that items can be put one
behind the other.
-/
def Determined
    {α : Type}
    (erased : Erasure → α → α)
    (slots : α → List (Option Ty))
    (calls : α → List Call)
    (item : α) :
    Prop :=
  ∀ ⦃other : α⦄ ⦃rest rest' : List (Option Ty)⦄
    ⦃more more' : List (Option CallId)⦄,
    erased .slots other = erased .slots item →
      slots other ++ rest = slots item ++ rest' →
        (calls other).map Call.waiting ++ more =
            (calls item).map Call.waiting ++ more' →
          other = item ∧ rest = rest' ∧ more = more'

/-- A mark is determined by its place and its slot. -/
theorem Mark.determined
    {mark other : Mark}
    {rest rest' : List (Option Ty)}
    (sameErased : other.erased .slots = mark.erased .slots)
    (sameSlots : [other.ty] ++ rest = [mark.ty] ++ rest') :
    other = mark ∧ rest = rest' := by
  obtain ⟨span', ty'⟩ := other
  obtain ⟨span, ty⟩ := mark
  obtain ⟨(rfl : span' = span), _⟩ := Mark.mk.inj sameErased
  obtain ⟨rfl, sameRest⟩ := List.cons.inj sameSlots
  exact ⟨rfl, sameRest⟩

/--
A list is determined if its first item and the others are, for functions that go
through a list item by item.
-/
theorem Determined.cons
    {α : Type}
    {erased : Erasure → α → α}
    {slots : α → List (Option Ty)}
    {calls : α → List Call}
    {erasedAll : Erasure → List α → List α}
    {slotsAll : List α → List (Option Ty)}
    {callsAll : List α → List Call}
    {item : α}
    {items : List α}
    (itemDetermined : Determined erased slots calls item)
    (itemsDetermined : Determined erasedAll slotsAll callsAll items)
    (erasedNil : erasedAll .slots [] = [])
    (erasedCons :
      ∀ first others,
        erasedAll .slots (first :: others) =
          erased .slots first :: erasedAll .slots others)
    (slotsCons :
      ∀ first others, slotsAll (first :: others) = slots first ++ slotsAll others)
    (callsCons :
      ∀ first others,
        callsAll (first :: others) = calls first ++ callsAll others) :
    Determined erasedAll slotsAll callsAll (item :: items) := by
  intro others rest rest' more more' sameErased sameSlots sameNumbers
  cases others with
  | nil =>
      rw [erasedNil, erasedCons] at sameErased
      cases sameErased
  | cons other others =>
      rw [erasedCons, erasedCons] at sameErased
      obtain ⟨sameOther, sameOthers⟩ := List.cons.inj sameErased
      simp only [slotsCons, callsCons, List.map_append, List.append_assoc]
        at sameSlots sameNumbers
      obtain ⟨rfl, slotsLeft, numbersLeft⟩ :=
        itemDetermined sameOther sameSlots sameNumbers
      obtain ⟨rfl, same⟩ := itemsDetermined sameOthers slotsLeft numbersLeft
      exact ⟨rfl, same⟩

/-- If every item of a list is determined, so is the list. -/
theorem Determined.list
    {α : Type}
    {erased : Erasure → α → α}
    {slots : α → List (Option Ty)}
    {calls : α → List Call}
    {items : List α}
    (each : ∀ item ∈ items, Determined erased slots calls item) :
    Determined (fun erasure => List.map (erased erasure)) (List.flatMap slots)
      (List.flatMap calls) items := by
  induction items with
  | nil =>
      intro others rest rest' more more' sameErased sameSlots sameNumbers
      obtain rfl := List.map_eq_nil_iff.mp sameErased
      exact ⟨rfl, sameSlots, sameNumbers⟩
  | cons item items inductionHypothesis =>
      obtain ⟨itemDetermined, itemsDetermined⟩ := List.forall_mem_cons.mp each
      exact itemDetermined.cons (inductionHypothesis itemsDetermined) rfl
        (fun _ _ => rfl) (fun _ _ => List.flatMap_cons)
        fun _ _ => List.flatMap_cons

/-- Two expressions that are determined are so together with a mark. -/
theorem Determined.two
    {first second first' second' : Expr}
    {mark mark' : Mark}
    {rest rest' : List (Option Ty)}
    {more more' : List (Option CallId)}
    (firstDetermined : Determined Expr.erased Expr.slots Expr.calls first)
    (secondDetermined : Determined Expr.erased Expr.slots Expr.calls second)
    (sameFirst : first'.erased .slots = first.erased .slots)
    (sameSecond : second'.erased .slots = second.erased .slots)
    (sameMark : mark'.erased .slots = mark.erased .slots)
    (sameSlots :
      first'.slots ++ second'.slots ++ [mark'.ty] ++ rest =
        first.slots ++ second.slots ++ [mark.ty] ++ rest')
    (sameNumbers :
      (first'.calls ++ second'.calls).map Call.waiting ++ more =
        (first.calls ++ second.calls).map Call.waiting ++ more') :
    (first' = first ∧ second' = second ∧ mark' = mark) ∧
      rest = rest' ∧ more = more' := by
  simp only [List.map_append, List.append_assoc] at sameSlots sameNumbers
  obtain ⟨isFirst, sameSlots, sameNumbers⟩ :=
    firstDetermined sameFirst sameSlots sameNumbers
  obtain ⟨isSecond, sameSlots, sameMore⟩ :=
    secondDetermined sameSecond sameSlots sameNumbers
  obtain ⟨isMark, sameRest⟩ := Mark.determined sameMark sameSlots
  exact ⟨⟨isFirst, isSecond, isMark⟩, sameRest, sameMore⟩

mutual

/-- Expressions with the same types and numbers, and the same otherwise. -/
theorem Expr.determined (expr : Expr) :
    Determined Expr.erased Expr.slots Expr.calls expr := by
  intro other rest rest' more more' sameErased sameSlots sameNumbers
  -- Erasure keeps the constructor, so the other tree has the same one. Slots and
  -- numbers are then used up from left to right, one child at a time.
  cases expr with
  | int value mark =>
      cases other with
      | int value' mark' =>
          obtain ⟨(rfl : value' = value), sameMark⟩ := Expr.int.inj sameErased
          obtain ⟨rfl, sameRest⟩ := Mark.determined sameMark sameSlots
          exact ⟨rfl, sameRest, sameNumbers⟩
      | _ => cases sameErased
  | bool value mark =>
      cases other with
      | bool value' mark' =>
          obtain ⟨(rfl : value' = value), sameMark⟩ := Expr.bool.inj sameErased
          obtain ⟨rfl, sameRest⟩ := Mark.determined sameMark sameSlots
          exact ⟨rfl, sameRest, sameNumbers⟩
      | _ => cases sameErased
  | char value mark =>
      cases other with
      | char value' mark' =>
          obtain ⟨(rfl : value' = value), sameMark⟩ := Expr.char.inj sameErased
          obtain ⟨rfl, sameRest⟩ := Mark.determined sameMark sameSlots
          exact ⟨rfl, sameRest, sameNumbers⟩
      | _ => cases sameErased
  | nil mark =>
      cases other with
      | nil mark' =>
          obtain ⟨rfl, sameRest⟩ :=
            Mark.determined (Expr.nil.inj sameErased) sameSlots
          exact ⟨rfl, sameRest, sameNumbers⟩
      | _ => cases sameErased
  | read place =>
      cases other with
      | read place' =>
          obtain ⟨rfl, same⟩ :=
            Place.determined place (Expr.read.inj sameErased) sameSlots
              sameNumbers
          exact ⟨rfl, same⟩
      | _ => cases sameErased
  | pair first second mark =>
      cases other with
      | pair first' second' mark' =>
          obtain ⟨sameFirst, sameSecond, sameMark⟩ := Expr.pair.inj sameErased
          obtain ⟨⟨rfl, rfl, rfl⟩, same⟩ :=
            Determined.two (Expr.determined first) (Expr.determined second)
              sameFirst sameSecond sameMark sameSlots sameNumbers
          exact ⟨rfl, same⟩
      | _ => cases sameErased
  | range first last mark =>
      cases other with
      | range first' last' mark' =>
          obtain ⟨sameFirst, sameLast, sameMark⟩ := Expr.range.inj sameErased
          obtain ⟨⟨rfl, rfl, rfl⟩, same⟩ :=
            Determined.two (Expr.determined first) (Expr.determined last)
              sameFirst sameLast sameMark sameSlots sameNumbers
          exact ⟨rfl, same⟩
      | _ => cases sameErased
  | binary op left right mark =>
      cases other with
      | binary op' left' right' mark' =>
          obtain ⟨rfl, sameLeft, sameRight, sameMark⟩ :=
            Expr.binary.inj sameErased
          obtain ⟨⟨rfl, rfl, rfl⟩, same⟩ :=
            Determined.two (Expr.determined left) (Expr.determined right)
              sameLeft sameRight sameMark sameSlots sameNumbers
          exact ⟨rfl, same⟩
      | _ => cases sameErased
  | unary op operand mark =>
      cases other with
      | unary op' operand' mark' =>
          obtain ⟨rfl, sameOperand, sameMark⟩ := Expr.unary.inj sameErased
          simp only [Expr.slots, List.append_assoc] at sameSlots
          obtain ⟨rfl, slotsLeft, sameMore⟩ :=
            Expr.determined operand sameOperand sameSlots sameNumbers
          obtain ⟨rfl, sameRest⟩ := Mark.determined sameMark slotsLeft
          exact ⟨rfl, sameRest, sameMore⟩
      | _ => cases sameErased
  | call made =>
      cases other with
      | call made' =>
          obtain ⟨rfl, same⟩ :=
            Call.determined made (Expr.call.inj sameErased) sameSlots
              sameNumbers
          exact ⟨rfl, same⟩
      | _ => cases sameErased
termination_by structural expr

/-- A place is determined by what is left of it, its slots and its numbers. -/
theorem Place.determined (place : Place) :
    Determined Place.erased Place.slots Place.calls place := by
  rcases place with ⟨name, fields, mark⟩
  rintro ⟨name', fields', mark'⟩ rest rest' more more' sameErased sameSlots
    sameNumbers
  obtain ⟨(rfl : name' = name), sameFields, sameMark⟩ := Place.mk.inj sameErased
  simp only [Place.slots, List.append_assoc] at sameSlots
  obtain ⟨rfl, slotsLeft, sameMore⟩ :=
    Field.determinedAll fields sameFields sameSlots sameNumbers
  obtain ⟨rfl, sameRest⟩ := Mark.determined sameMark slotsLeft
  exact ⟨rfl, sameRest, sameMore⟩
termination_by structural place

/-- A field is determined by what is left of it, its slots and its numbers. -/
theorem Field.determined (field : Field) :
    Determined Field.erased Field.slots Field.calls field := by
  intro other rest rest' more more' sameErased sameSlots sameNumbers
  cases field with
  | index position =>
      cases other with
      | index position' =>
          obtain ⟨rfl, same⟩ :=
            Expr.determined position (Field.index.inj sameErased) sameSlots
              sameNumbers
          exact ⟨rfl, same⟩
      | _ => cases sameErased
  | hd | tl | fst | snd =>
      cases other <;> cases sameErased
      exact ⟨rfl, sameSlots, sameNumbers⟩
termination_by structural field

/--
Fields are determined by what is left of them, their slots and their numbers.
-/
theorem Field.determinedAll (fields : List Field) :
    Determined Field.erasedAll Field.slotsAll Field.callsAll fields := by
  cases fields with
  | nil =>
      intro others rest rest' more more' sameErased sameSlots sameNumbers
      cases others with
      | nil => exact ⟨rfl, sameSlots, sameNumbers⟩
      | cons => cases sameErased
  | cons field fields =>
      exact (Field.determined field).cons (Field.determinedAll fields) rfl
        (fun _ _ => rfl) (fun _ _ => rfl) fun _ _ => rfl
termination_by structural fields

/-- The number of a call comes before those of the calls in its arguments. -/
theorem Call.determined (call : Call) :
    Determined Call.erased Call.slots Call.calls call := by
  rcases call with ⟨callee, args, mark, waiting⟩
  rintro ⟨callee', args', mark', waiting'⟩ rest rest' more more' sameErased
    sameSlots sameNumbers
  obtain ⟨(rfl : callee' = callee), sameArgs, sameMark, _⟩ :=
    Call.mk.inj sameErased
  simp only [Call.slots, List.append_assoc] at sameSlots
  obtain ⟨(rfl : waiting' = waiting), numbersLeft⟩ := List.cons.inj sameNumbers
  obtain ⟨rfl, slotsLeft, sameMore⟩ :=
    Expr.determinedAll args sameArgs sameSlots numbersLeft
  obtain ⟨rfl, sameRest⟩ := Mark.determined sameMark slotsLeft
  exact ⟨rfl, sameRest, sameMore⟩
termination_by structural call

/--
Expressions are determined by what is left of them, their slots and their
numbers.
-/
theorem Expr.determinedAll (exprs : List Expr) :
    Determined Expr.erasedAll Expr.slotsAll Expr.callsAll exprs := by
  cases exprs with
  | nil =>
      intro others rest rest' more more' sameErased sameSlots sameNumbers
      cases others with
      | nil => exact ⟨rfl, sameSlots, sameNumbers⟩
      | cons => cases sameErased
  | cons expr exprs =>
      exact (Expr.determined expr).cons (Expr.determinedAll exprs) rfl
        (fun _ _ => rfl) (fun _ _ => rfl) fun _ _ => rfl
termination_by structural exprs

end

mutual

/-- Statements with the same types and numbers, and the same otherwise. -/
theorem Stmt.determined (stmt : Stmt) :
    Determined Stmt.erased Stmt.slots Stmt.calls stmt := by
  intro other rest rest' more more' sameErased sameSlots sameNumbers
  match stmt, other with
  | .ifElse condition thenBody elseBody span, .ifElse _ _ _ span' =>
      obtain ⟨sameCondition, sameThen, sameElse, (rfl : span' = span)⟩ :=
        Stmt.ifElse.inj sameErased
      simp only [Stmt.slots, Stmt.calls, List.map_append, List.append_assoc]
        at sameSlots sameNumbers
      obtain ⟨rfl, slotsLeft, numbersLeft⟩ :=
        condition.determined sameCondition sameSlots sameNumbers
      obtain ⟨rfl, slotsLeft, numbersLeft⟩ :=
        Stmt.determinedAll thenBody sameThen slotsLeft numbersLeft
      obtain ⟨rfl, same⟩ :=
        Stmt.determinedAll elseBody sameElse slotsLeft numbersLeft
      exact ⟨rfl, same⟩
  | .whileDo condition body span, .whileDo _ _ span' =>
      obtain ⟨sameCondition, sameBody, (rfl : span' = span)⟩ :=
        Stmt.whileDo.inj sameErased
      simp only [Stmt.slots, Stmt.calls, List.map_append, List.append_assoc]
        at sameSlots sameNumbers
      obtain ⟨rfl, slotsLeft, numbersLeft⟩ :=
        condition.determined sameCondition sameSlots sameNumbers
      obtain ⟨rfl, same⟩ :=
        Stmt.determinedAll body sameBody slotsLeft numbersLeft
      exact ⟨rfl, same⟩
  | .forIn element iterable body span, .forIn element' _ _ span' =>
      obtain ⟨(rfl : element' = element), sameIterable, sameBody,
          (rfl : span' = span)⟩ :=
        Stmt.forIn.inj sameErased
      simp only [Stmt.slots, Stmt.calls, List.map_append, List.append_assoc]
        at sameSlots sameNumbers
      obtain ⟨rfl, slotsLeft, numbersLeft⟩ :=
        iterable.determined sameIterable sameSlots sameNumbers
      obtain ⟨rfl, same⟩ :=
        Stmt.determinedAll body sameBody slotsLeft numbersLeft
      exact ⟨rfl, same⟩
  | .assign target value span, .assign _ _ span' =>
      obtain ⟨sameTarget, sameValue, (rfl : span' = span)⟩ :=
        Stmt.assign.inj sameErased
      simp only [Stmt.slots, Stmt.calls, List.map_append, List.append_assoc]
        at sameSlots sameNumbers
      obtain ⟨rfl, slotsLeft, numbersLeft⟩ :=
        target.determined sameTarget sameSlots sameNumbers
      obtain ⟨rfl, same⟩ := value.determined sameValue slotsLeft numbersLeft
      exact ⟨rfl, same⟩
  | .call made, .call _ =>
      obtain ⟨rfl, same⟩ :=
        made.determined (Stmt.call.inj sameErased) sameSlots sameNumbers
      exact ⟨rfl, same⟩
  | .ret none span, .ret none span' =>
      obtain ⟨_, (rfl : span' = span)⟩ := Stmt.ret.inj sameErased
      exact ⟨rfl, sameSlots, sameNumbers⟩
  | .ret (some value) span, .ret (some _) span' =>
      obtain ⟨sameValue, (rfl : span' = span)⟩ := Stmt.ret.inj sameErased
      obtain ⟨rfl, same⟩ :=
        value.determined (Option.some.inj sameValue) sameSlots sameNumbers
      exact ⟨rfl, same⟩
termination_by structural stmt

/--
Statements are determined by what is left of them, their slots and their
numbers.
-/
theorem Stmt.determinedAll (stmts : List Stmt) :
    Determined Stmt.erasedAll Stmt.slotsAll Stmt.callsAll stmts := by
  cases stmts with
  | nil =>
      intro others rest rest' more more' sameErased sameSlots sameNumbers
      cases others with
      | nil => exact ⟨rfl, sameSlots, sameNumbers⟩
      | cons => cases sameErased
  | cons stmt stmts =>
      exact (Stmt.determined stmt).cons (Stmt.determinedAll stmts) rfl
        (fun _ _ => rfl) (fun _ _ => rfl) fun _ _ => rfl
termination_by structural stmts

end

/--
A declaration is determined by what is left of it, its slots and its numbers.
-/
theorem VarDecl.determined (decl : VarDecl) :
    Determined VarDecl.erased VarDecl.slots VarDecl.calls decl := by
  obtain ⟨written, name, value, mark⟩ := decl
  rintro ⟨written', name', value', mark'⟩ rest rest' more more' sameErased
    sameSlots sameNumbers
  obtain ⟨rfl, (rfl : name' = name), sameValue, sameMark⟩ :=
    VarDecl.mk.inj sameErased
  simp only [slots, List.append_assoc] at sameSlots
  obtain ⟨rfl, slotsLeft, sameMore⟩ :=
    value.determined sameValue sameSlots sameNumbers
  obtain ⟨rfl, sameRest⟩ := Mark.determined sameMark slotsLeft
  exact ⟨rfl, sameRest, sameMore⟩

/--
A function is determined by what is left of it, its slots and its numbers.
-/
theorem FunDecl.determined (decl : FunDecl) :
    Determined FunDecl.erased FunDecl.slots FunDecl.calls decl := by
  obtain ⟨name, args, written, locals, body, mark⟩ := decl
  rintro ⟨name', args', written', locals', body', mark'⟩ rest rest' more more'
    sameErased sameSlots sameNumbers
  -- Names and written signatures have no slots and are left as they are.
  have sameNames : Name.erased .slots = id := rfl
  have sameWritten : WrittenSignature.erased .slots = id := rfl
  simp only [FunDecl.erased, sameNames, sameWritten, List.map_id, Option.map_id]
    at sameErased
  obtain ⟨rfl, rfl, rfl, sameLocals, sameBody, sameMark⟩ :=
    FunDecl.mk.inj sameErased
  simp only [slots, calls, List.map_append, List.append_assoc]
    at sameSlots sameNumbers
  obtain ⟨rfl, slotsLeft, numbersLeft⟩ :=
    Determined.list (fun item _ => item.determined) sameLocals sameSlots
      sameNumbers
  obtain ⟨rfl, slotsLeft, sameMore⟩ :=
    Stmt.determinedAll body sameBody slotsLeft numbersLeft
  obtain ⟨rfl, sameRest⟩ := Mark.determined sameMark slotsLeft
  exact ⟨rfl, sameRest, sameMore⟩

/-- A declaration of either kind is determined as its tree is. -/
theorem Decl.determined (decl : Decl) :
    Determined Decl.erased Decl.slots Decl.calls decl := by
  intro other rest rest' more more' sameErased sameSlots sameNumbers
  match decl, other with
  | .var decl, .var _ =>
      obtain ⟨rfl, same⟩ :=
        decl.determined (Decl.var.inj sameErased) sameSlots sameNumbers
      exact ⟨rfl, same⟩
  | .fn decl, .fn _ =>
      obtain ⟨rfl, same⟩ :=
        decl.determined (Decl.fn.inj sameErased) sameSlots sameNumbers
      exact ⟨rfl, same⟩

/-- Programs that agree in types, in numbers and in all the rest are equal. -/
theorem Program.determined
    {program other : Program}
    (sameErased : other.erased .slots = program.erased .slots)
    (sameSlots : other.slots = program.slots)
    (sameNumbers :
      other.calls.map Call.waiting = program.calls.map Call.waiting) :
    other = program := by
  obtain ⟨decls⟩ := program
  obtain ⟨decls'⟩ := other
  have sameDecls : decls' = decls :=
    (Determined.list (fun decl _ => decl.determined)
      (Program.mk.inj sameErased) (congrArg (· ++ []) sameSlots)
      (congrArg (· ++ []) sameNumbers)).1
  rw [sameDecls]

section MapTypes

variable (change : Ty → Ty)

/--
A tree with its types changed has its filled slots changed, one by one, and its
numbers and all the rest as they were.
-/
structure Retyped
    {α : Type}
    (mapTypes : (Ty → Ty) → α → α)
    (erased : Erasure → α → α)
    (slots : α → List (Option Ty))
    (calls : α → List Call)
    (item : α) :
    Prop where
  erased : erased .slots (mapTypes change item) = erased .slots item
  slots : slots (mapTypes change item) = (slots item).map (Option.map change)
  numbers :
    (calls (mapTypes change item)).map Call.waiting =
      (calls item).map Call.waiting

mutual

/--
A change of types changes the filled slots of an expression and nothing else.
-/
theorem Expr.mapTypes_retyped (expr : Expr) :
    Retyped change Expr.mapTypes Expr.erased Expr.slots Expr.calls expr := by
  cases expr with
  | int | bool | char | nil => exact ⟨rfl, rfl, rfl⟩
  | read place =>
      obtain ⟨erased, slots, numbers⟩ := Place.mapTypes_retyped place
      exact ⟨congrArg Expr.read erased, slots, numbers⟩
  | pair first second | range first second | binary _ first second =>
      have firstRetyped := Expr.mapTypes_retyped first
      have secondRetyped := Expr.mapTypes_retyped second
      constructor
      · simp only [Expr.mapTypes, Expr.erased, Mark.erased_mapTypes,
          firstRetyped.erased, secondRetyped.erased]
      · simp [Expr.mapTypes, Expr.slots, Mark.mapTypes, firstRetyped.slots,
          secondRetyped.slots]
      · simp only [Expr.mapTypes, Expr.calls, List.map_append,
          firstRetyped.numbers, secondRetyped.numbers]
  | unary _ operand =>
      obtain ⟨erased, slots, numbers⟩ := Expr.mapTypes_retyped operand
      constructor
      · simp only [Expr.mapTypes, Expr.erased, Mark.erased_mapTypes, erased]
      · simp [Expr.mapTypes, Expr.slots, Mark.mapTypes, slots]
      · exact numbers
  | call made =>
      obtain ⟨erased, slots, numbers⟩ := Call.mapTypes_retyped made
      exact ⟨congrArg Expr.call erased, slots, numbers⟩
termination_by structural expr

/-- A change of types changes the filled slots of a place. -/
theorem Place.mapTypes_retyped (place : Place) :
    Retyped change Place.mapTypes Place.erased Place.slots Place.calls
      place := by
  rcases place with ⟨name, fields, mark⟩
  obtain ⟨erased, slots, numbers⟩ := Field.mapTypesAll_retyped fields
  constructor
  · simp only [Place.mapTypes, Place.erased, Mark.erased_mapTypes, erased]
  · simp [Place.mapTypes, Place.slots, Mark.mapTypes, slots]
  · exact numbers
termination_by structural place

/-- A change of types changes the filled slots of a field. -/
theorem Field.mapTypes_retyped (field : Field) :
    Retyped change Field.mapTypes Field.erased Field.slots Field.calls
      field := by
  cases field with
  | hd | tl | fst | snd => exact ⟨rfl, rfl, rfl⟩
  | index position =>
      obtain ⟨erased, slots, numbers⟩ := Expr.mapTypes_retyped position
      exact ⟨congrArg Field.index erased, slots, numbers⟩
termination_by structural field

theorem Field.mapTypesAll_retyped (fields : List Field) :
    Retyped change Field.mapTypesAll Field.erasedAll Field.slotsAll
      Field.callsAll fields := by
  cases fields with
  | nil => exact ⟨rfl, rfl, rfl⟩
  | cons field rest =>
      have fieldRetyped := Field.mapTypes_retyped field
      have restRetyped := Field.mapTypesAll_retyped rest
      constructor
      · simp only [Field.mapTypesAll, Field.erasedAll, fieldRetyped.erased,
          restRetyped.erased]
      · simp only [Field.mapTypesAll, Field.slotsAll, List.map_append,
          fieldRetyped.slots, restRetyped.slots]
      · simp only [Field.mapTypesAll, Field.callsAll, List.map_append,
          fieldRetyped.numbers, restRetyped.numbers]
termination_by structural fields

/-- A change of types changes the filled slots of a call and not its number. -/
theorem Call.mapTypes_retyped (call : Call) :
    Retyped change Call.mapTypes Call.erased Call.slots Call.calls call := by
  rcases call with ⟨callee, args, mark, waiting⟩
  obtain ⟨erased, slots, numbers⟩ := Expr.mapTypesAll_retyped args
  constructor
  · simp only [Call.mapTypes, Call.erased, Mark.erased_mapTypes, erased]
  · simp [Call.mapTypes, Call.slots, Mark.mapTypes, slots]
  · simp only [Call.mapTypes, Call.calls, List.map_cons, numbers]
termination_by structural call

theorem Expr.mapTypesAll_retyped (exprs : List Expr) :
    Retyped change Expr.mapTypesAll Expr.erasedAll Expr.slotsAll Expr.callsAll
      exprs := by
  cases exprs with
  | nil => exact ⟨rfl, rfl, rfl⟩
  | cons expr rest =>
      have exprRetyped := Expr.mapTypes_retyped expr
      have restRetyped := Expr.mapTypesAll_retyped rest
      constructor
      · simp only [Expr.mapTypesAll, Expr.erasedAll, exprRetyped.erased,
          restRetyped.erased]
      · simp only [Expr.mapTypesAll, Expr.slotsAll, List.map_append,
          exprRetyped.slots, restRetyped.slots]
      · simp only [Expr.mapTypesAll, Expr.callsAll, List.map_append,
          exprRetyped.numbers, restRetyped.numbers]
termination_by structural exprs

end

mutual

/-- A change of types changes the filled slots of a statement. -/
theorem Stmt.mapTypes_retyped (stmt : Stmt) :
    Retyped change Stmt.mapTypes Stmt.erased Stmt.slots Stmt.calls stmt := by
  match stmt with
  | .ifElse condition thenBody elseBody _ =>
      have conditionRetyped := condition.mapTypes_retyped change
      have thenRetyped := Stmt.mapTypesAll_retyped thenBody
      have elseRetyped := Stmt.mapTypesAll_retyped elseBody
      constructor
      · simp only [Stmt.mapTypes, Stmt.erased, conditionRetyped.erased,
          thenRetyped.erased, elseRetyped.erased]
      · simp only [Stmt.mapTypes, Stmt.slots, List.map_append,
          conditionRetyped.slots, thenRetyped.slots, elseRetyped.slots]
      · simp only [Stmt.mapTypes, Stmt.calls, List.map_append,
          conditionRetyped.numbers, thenRetyped.numbers, elseRetyped.numbers]
  | .whileDo head body _ | .forIn _ head body _ =>
      have headRetyped := head.mapTypes_retyped change
      have bodyRetyped := Stmt.mapTypesAll_retyped body
      constructor
      · simp only [Stmt.mapTypes, Stmt.erased, headRetyped.erased,
          bodyRetyped.erased]
      · simp only [Stmt.mapTypes, Stmt.slots, List.map_append,
          headRetyped.slots, bodyRetyped.slots]
      · simp only [Stmt.mapTypes, Stmt.calls, List.map_append,
          headRetyped.numbers, bodyRetyped.numbers]
  | .assign target value _ =>
      have targetRetyped := target.mapTypes_retyped change
      have valueRetyped := value.mapTypes_retyped change
      constructor
      · simp only [Stmt.mapTypes, Stmt.erased, targetRetyped.erased,
          valueRetyped.erased]
      · simp only [Stmt.mapTypes, Stmt.slots, List.map_append,
          targetRetyped.slots, valueRetyped.slots]
      · simp only [Stmt.mapTypes, Stmt.calls, List.map_append,
          targetRetyped.numbers, valueRetyped.numbers]
  | .call made =>
      obtain ⟨erased, slots, numbers⟩ := made.mapTypes_retyped change
      exact ⟨congrArg Stmt.call erased, slots, numbers⟩
  | .ret none _ => exact ⟨rfl, rfl, rfl⟩
  | .ret (some value) _ =>
      obtain ⟨erased, slots, numbers⟩ := value.mapTypes_retyped change
      constructor
      · simp only [Stmt.mapTypes, Option.map_some, Stmt.erased, erased]
      · exact slots
      · exact numbers
termination_by structural stmt

theorem Stmt.mapTypesAll_retyped (stmts : List Stmt) :
    Retyped change Stmt.mapTypesAll Stmt.erasedAll Stmt.slotsAll Stmt.callsAll
      stmts := by
  cases stmts with
  | nil => exact ⟨rfl, rfl, rfl⟩
  | cons stmt rest =>
      have stmtRetyped := Stmt.mapTypes_retyped stmt
      have restRetyped := Stmt.mapTypesAll_retyped rest
      constructor
      · simp only [Stmt.mapTypesAll, Stmt.erasedAll, stmtRetyped.erased,
          restRetyped.erased]
      · simp only [Stmt.mapTypesAll, Stmt.slotsAll, List.map_append,
          stmtRetyped.slots, restRetyped.slots]
      · simp only [Stmt.mapTypesAll, Stmt.callsAll, List.map_append,
          stmtRetyped.numbers, restRetyped.numbers]
termination_by structural stmts

end

variable {change}

/-- Items whose types are changed one by one. -/
theorem Retyped.list
    {α : Type}
    {mapTypes : (Ty → Ty) → α → α}
    {erased : Erasure → α → α}
    {slots : α → List (Option Ty)}
    {calls : α → List Call}
    (each : ∀ item, Retyped change mapTypes erased slots calls item)
    (items : List α) :
    Retyped change (fun change => List.map (mapTypes change))
      (fun erasure => List.map (erased erasure)) (List.flatMap slots)
      (List.flatMap calls) items where
  erased := by
    rw [List.map_map]
    exact List.map_congr_left fun item _ => (each item).erased
  slots := by
    rw [List.flatMap_map, List.map_flatMap]
    exact congrArg (items.flatMap ·) (funext fun item => (each item).slots)
  numbers := by
    rw [List.flatMap_map, List.map_flatMap, List.map_flatMap]
    exact congrArg (items.flatMap ·) (funext fun item => (each item).numbers)

variable (change)

/--
A change of types changes the slot of a declaration and those of its value.
-/
theorem VarDecl.mapTypes_retyped (decl : VarDecl) :
    Retyped change VarDecl.mapTypes VarDecl.erased VarDecl.slots VarDecl.calls
      decl := by
  obtain ⟨erased, slots, numbers⟩ := decl.value.mapTypes_retyped change
  constructor
  · simp only [mapTypes, VarDecl.erased, Mark.erased_mapTypes, erased]
  · simp [mapTypes, VarDecl.slots, Mark.mapTypes, slots]
  · exact numbers

/-- A change of types changes the slot of a function and those inside. -/
theorem FunDecl.mapTypes_retyped (decl : FunDecl) :
    Retyped change FunDecl.mapTypes FunDecl.erased FunDecl.slots FunDecl.calls
      decl := by
  have localsRetyped :=
    Retyped.list (VarDecl.mapTypes_retyped change) decl.locals
  have bodyRetyped := Stmt.mapTypesAll_retyped change decl.body
  constructor
  · simp only [mapTypes, FunDecl.erased, Mark.erased_mapTypes,
      localsRetyped.erased, bodyRetyped.erased]
  · simp only [mapTypes, FunDecl.slots, Mark.mapTypes, localsRetyped.slots,
      bodyRetyped.slots, List.map_append, List.map_cons, List.map_nil]
  · simp only [mapTypes, FunDecl.calls, List.map_append, localsRetyped.numbers,
      bodyRetyped.numbers]

theorem Decl.mapTypes_retyped (decl : Decl) :
    Retyped change Decl.mapTypes Decl.erased Decl.slots Decl.calls decl := by
  cases decl with
  | var decl =>
      obtain ⟨erased, slots, numbers⟩ := decl.mapTypes_retyped change
      exact ⟨congrArg Decl.var erased, slots, numbers⟩
  | fn decl =>
      obtain ⟨erased, slots, numbers⟩ := decl.mapTypes_retyped change
      exact ⟨congrArg Decl.fn erased, slots, numbers⟩

/-- Changing the types of a program changes its filled slots and nothing else. -/
theorem Program.mapTypes_retyped (program : Program) :
    Retyped change Program.mapTypes Program.erased Program.slots Program.calls
      program := by
  obtain ⟨erased, slots, numbers⟩ :=
    Retyped.list (Decl.mapTypes_retyped change) program.decls
  exact ⟨congrArg Program.mk erased, slots, numbers⟩

end MapTypes

/-- Types that are changed twice might as well be changed once. -/
theorem Program.mapTypes_mapTypes
    (first second : Ty → Ty)
    (program : Program) :
    (program.mapTypes first).mapTypes second =
      program.mapTypes (second ∘ first) := by
  have inTurn := (program.mapTypes first).mapTypes_retyped second
  have once := program.mapTypes_retyped first
  have atOnce := program.mapTypes_retyped (second ∘ first)
  -- There is no need for another induction on trees.
  apply Program.determined
  · rw [inTurn.erased, once.erased, atOnce.erased]
  · rw [inTurn.slots, once.slots, atOnce.slots, List.map_map,
      Option.map_comp_map]
  · rw [inTurn.numbers, once.numbers, atOnce.numbers]

/-- Where there is no copy to be put in, a step gives back a known item. -/
def GivesBack {α : Type} (step : SettleM α) (item : α) : Prop :=
  step.run .empty = (item, .empty)

namespace GivesBack

/-- A step that returns an item gives it back. -/
theorem pure {α : Type} (item : α) : GivesBack (Pure.pure item) item :=
  rfl

/-- What is given back may go into the next step. -/
theorem bind
    {α β : Type}
    {step : SettleM α}
    {next : α → SettleM β}
    {item : α}
    {result : β}
    (stepGives : GivesBack step item)
    (nextGives : GivesBack (next item) result) :
    GivesBack (step >>= next) result := by
  rw [GivesBack, StateT.run_bind, stepGives]
  exact nextGives

/-- If each item is given back, so is the list. -/
theorem mapM
    {α : Type}
    {step : α → SettleM α}
    (each : ∀ item, GivesBack (step item) item)
    (items : List α) :
    GivesBack (items.mapM step) items := by
  induction items with
  | nil => exact .pure _
  | cons item rest inductionHypothesis =>
      rw [List.mapM_cons]
      exact (each item).bind (inductionHypothesis.bind (.pure _))

end GivesBack

/-- A call without a copy stays, whether or not it has a number. -/
theorem takeCopy_givesBack (waiting : Option CallId) :
    GivesBack (takeCopy waiting) none := by
  cases waiting <;> rfl

section Settling

variable (enter : Call → SettleM Call)

mutual

/-- Where there is no copy, an expression is given back. -/
theorem Expr.settle_givesBack (expr : Expr) :
    GivesBack (expr.settle enter) expr := by
  cases expr with
  | int | bool | char | nil => exact .pure _
  | read place => exact (Place.settle_givesBack place).bind (.pure _)
  | pair first second | range first second | binary _ first second =>
      exact (Expr.settle_givesBack first).bind
        ((Expr.settle_givesBack second).bind (.pure _))
  | unary _ operand => exact (Expr.settle_givesBack operand).bind (.pure _)
  | call made => exact (Call.settle_givesBack made).bind (.pure _)
termination_by structural expr

theorem Place.settle_givesBack (place : Place) :
    GivesBack (place.settle enter) place := by
  rcases place with ⟨name, fields, mark⟩
  exact (Field.settleAll_givesBack fields).bind (.pure _)
termination_by structural place

theorem Field.settle_givesBack (field : Field) :
    GivesBack (field.settle enter) field := by
  cases field with
  | hd | tl | fst | snd => exact .pure _
  | index position => exact (Expr.settle_givesBack position).bind (.pure _)
termination_by structural field

theorem Field.settleAll_givesBack (fields : List Field) :
    GivesBack (Field.settleAll enter fields) fields := by
  cases fields with
  | nil => exact .pure _
  | cons field rest =>
      exact (Field.settle_givesBack field).bind
        ((Field.settleAll_givesBack rest).bind (.pure _))
termination_by structural fields

/-- Where there is no copy, a call is given back with its number. -/
theorem Call.settle_givesBack (call : Call) :
    GivesBack (call.settle enter) call := by
  rcases call with ⟨callee, args, mark, waiting⟩
  exact (takeCopy_givesBack waiting).bind
    ((Expr.settleAll_givesBack args).bind (.pure _))
termination_by structural call

theorem Expr.settleAll_givesBack (exprs : List Expr) :
    GivesBack (Expr.settleAll enter exprs) exprs := by
  cases exprs with
  | nil => exact .pure _
  | cons expr rest =>
      exact (Expr.settle_givesBack expr).bind
        ((Expr.settleAll_givesBack rest).bind (.pure _))
termination_by structural exprs

end

mutual

/-- Where there is no copy, a statement is given back. -/
theorem Stmt.settle_givesBack (stmt : Stmt) :
    GivesBack (stmt.settle enter) stmt := by
  match stmt with
  | .ifElse condition thenBody elseBody _ =>
      exact (condition.settle_givesBack enter).bind
        ((Stmt.settleAll_givesBack thenBody).bind
          ((Stmt.settleAll_givesBack elseBody).bind (.pure _)))
  | .whileDo condition body _ | .forIn _ condition body _ =>
      exact (condition.settle_givesBack enter).bind
        ((Stmt.settleAll_givesBack body).bind (.pure _))
  | .assign target value _ =>
      exact (target.settle_givesBack enter).bind
        ((value.settle_givesBack enter).bind (.pure _))
  | .call made => exact (made.settle_givesBack enter).bind (.pure _)
  | .ret none _ => exact .pure _
  | .ret (some value) _ => exact (value.settle_givesBack enter).bind (.pure _)
termination_by structural stmt

theorem Stmt.settleAll_givesBack (stmts : List Stmt) :
    GivesBack (Stmt.settleAll enter stmts) stmts := by
  cases stmts with
  | nil => exact .pure _
  | cons stmt rest =>
      exact (Stmt.settle_givesBack stmt).bind
        ((Stmt.settleAll_givesBack rest).bind (.pure _))
termination_by structural stmts

end

theorem VarDecl.settle_givesBack (decl : VarDecl) :
    GivesBack (decl.settle enter) decl :=
  (decl.value.settle_givesBack enter).bind (.pure _)

theorem Decl.settle_givesBack (decl : Decl) :
    GivesBack (decl.settle enter) decl := by
  cases decl with
  | var decl => exact (decl.settle_givesBack enter).bind (.pure _)
  | fn decl =>
      have declGives : GivesBack (decl.settle enter) decl :=
        (GivesBack.mapM (VarDecl.settle_givesBack enter) decl.locals).bind
          ((Stmt.settleAll_givesBack enter decl.body).bind (.pure _))
      exact declGives.bind (.pure _)

end Settling

/-- Where there is no copy, a program is given back. -/
theorem Program.settle_givesBack (program : Program) :
    GivesBack program.settle program := by
  have getGives : GivesBack (get : SettleM ResolvedCalls) .empty := rfl
  exact getGives.bind
    ((GivesBack.mapM (Decl.settle_givesBack _) program.decls).bind (.pure _))

/-- Without copies, writing back changes the types of a tree. -/
theorem Program.writeBack_givesBack
    (program : Program)
    (found : Substitution) :
    GivesBack (program.writeBack found) (program.mapTypes found.apply) :=
  program.settle_givesBack.bind (.pure _)

/--
As long as there is no copy to be put in, writing back gives the one tree that
has the narrowed type in every slot that was filled, nothing in every slot that
was empty, and the numbers and all the rest of the program as they were. Writing
back twice is writing back all findings at once.
-/
theorem Program.writeBack_rewrites
    (program : Program)
    (first second : Substitution) :
    ∃ annotated : Program,
      (program.writeBack first).run .empty = (annotated, .empty) ∧
        (∀ tree : Program,
          tree = annotated ↔
            tree.erased .slots = program.erased .slots ∧
              tree.calls.map Call.waiting = program.calls.map Call.waiting ∧
              tree.slots = program.slots.map (Option.map first.apply)) ∧
        (annotated.writeBack second).run .empty =
          (program.writeBack (first ++ second)).run .empty := by
  have retyped := program.mapTypes_retyped first.apply
  refine ⟨program.mapTypes first.apply, program.writeBack_givesBack first,
    fun tree => ⟨?_, ?_⟩, ?_⟩
  · rintro rfl
    exact ⟨retyped.erased, retyped.numbers, retyped.slots⟩
  · rintro ⟨sameErased, sameNumbers, sameSlots⟩
    exact Program.determined (sameErased.trans retyped.erased.symm)
      (sameSlots.trans retyped.slots.symm)
      (sameNumbers.trans retyped.numbers.symm)
  · have inTurn :
        second.apply ∘ first.apply = Substitution.apply (first ++ second) :=
      funext fun ty => (Substitution.apply_append first second ty).symm
    rw [Program.writeBack_givesBack _ second,
      program.writeBack_givesBack (first ++ second),
      Program.mapTypes_mapTypes, inTurn]

end SplTyping
