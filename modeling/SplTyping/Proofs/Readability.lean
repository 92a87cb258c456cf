import Mathlib.Logic.Function.Basic
import SplTyping.Proofs.Unification
import SplTyping.TypeError

namespace SplTyping

/-!
# Types are known by their texts

No two types have the same text. A text need not end where a part of it does:
the text of a pair may be the beginning of the text of a function, and the
number of a variable the beginning of a larger one. But inside a larger text a
type is followed by a comma or by a closing bracket, if by anything, and up to
there it can be read in one way only (`Ty.readable`).

Unification never reports a type as different from itself, so the two types in
an error about it can be told apart by their texts (`Ty.render_unambiguous`).
-/

namespace Ty

/-- The characters of the text of a type. -/
def letters (ty : Ty) : List Char :=
  ty.render.toList

/-- The characters of types that follow another one in a list. -/
def lettersBehind : List Ty → List Char
  | [] => []
  | ty :: rest => ',' :: ' ' :: (ty.letters ++ lettersBehind rest)

/-- The characters of a list of types. -/
def lettersAll : List Ty → List Char
  | [] => []
  | ty :: rest => ty.letters ++ lettersBehind rest

theorem toList_intercalate_renderAll
    (types : List Ty) :
    (", ".intercalate (renderAll types)).toList = lettersAll types := by
  induction types with
  | nil => rfl
  | cons ty rest inductionHypothesis =>
      cases rest with
      | nil => simp [renderAll, lettersAll, lettersBehind, letters]
      | cons next rest =>
          simp only [renderAll] at inductionHypothesis ⊢
          simp [String.intercalate_cons_cons, inductionHypothesis, lettersAll,
            lettersBehind, letters]

theorem letters_list
    (element : Ty) :
    (list element).letters = '[' :: (element.letters ++ [']']) := by
  simp [letters, render]

theorem letters_pair
    (first second : Ty) :
    (pair first second).letters =
      '(' :: (lettersAll [first, second] ++ [')']) := by
  simp [letters, render, lettersAll, lettersBehind]

theorem letters_fn
    (params : List Ty)
    (result : Ty) :
    (fn params result).letters =
      '(' :: (lettersAll params ++
        ')' :: ' ' :: '-' :: '>' :: ' ' :: result.letters) := by
  rw [letters, render, String.toList_append, String.toList_append,
    String.toList_append, toList_intercalate_renderAll]
  simp [letters]

theorem letters_var
    (id : TypeVar) :
    (var id).letters = '\'' :: 't' :: Nat.toDigits 10 id := by
  simp [letters, render]

/-- The first character of the text of a type. -/
def opening : Ty → Char
  | .int => 'I'
  | .bool => 'B'
  | .char => 'C'
  | .void => 'V'
  | .list _ => '['
  | .pair _ _ | .fn _ _ => '('
  | .var _ => '\''

theorem letters_eq_opening_cons
    (ty : Ty) :
    ∃ more, ty.letters = ty.opening :: more := by
  cases ty with
  | list element => exact ⟨_, letters_list element⟩
  | pair first second => exact ⟨_, letters_pair first second⟩
  | fn params result => exact ⟨_, letters_fn params result⟩
  | var id => exact ⟨_, letters_var id⟩
  | _ => exact ⟨_, rfl⟩

/-- A text that begins with two types begins with the first character of both. -/
theorem opening_eq
    {ty other : Ty}
    {rest rest' : List Char}
    (same : ty.letters ++ rest = other.letters ++ rest') :
    ty.opening = other.opening := by
  obtain ⟨more, isText⟩ := ty.letters_eq_opening_cons
  obtain ⟨more', isText'⟩ := other.letters_eq_opening_cons
  rw [isText, isText'] at same
  exact (List.cons.inj same).1

/-- What may follow the text of a type inside of another text. -/
def Stops (rest : List Char) : Prop :=
  ∀ char ∈ rest.head?, char = ',' ∨ char = ']' ∨ char = ')'

/-- The text of a type, up to a stop, is the text of no other type. -/
def Readable (ty : Ty) : Prop :=
  ∀ (other : Ty) (rest rest' : List Char),
    Stops rest →
    Stops rest' →
    ty.letters ++ rest = other.letters ++ rest' →
    ty = other ∧ rest = rest'

theorem stops_lettersBehind
    (types : List Ty)
    (rest : List Char) :
    Stops (lettersBehind types ++ ')' :: rest) := by
  cases types <;> simp [Stops, lettersBehind]

/-- An arrow does not follow a type, only a list of parameters. -/
theorem not_stops_blank
    (rest : List Char) :
    ¬ Stops (' ' :: rest) := by
  simp [Stops]

/-- No type begins with a closing bracket. -/
theorem letters_append_ne
    (ty : Ty)
    (more rest : List Char) :
    ty.letters ++ more ≠ ')' :: rest := by
  intro same
  obtain ⟨behind, isText⟩ := ty.letters_eq_opening_cons
  rw [isText] at same
  have isBracket : ty.opening = ')' := (List.cons.inj same).1
  cases ty <;> cases isBracket

/-- A type of a list is read up to the next one, or to the end of the list. -/
theorem Readable.item
    {ty other : Ty}
    {types others : List Ty}
    {rest rest' : List Char}
    (readable : ty.Readable)
    (same :
      ty.letters ++ (lettersBehind types ++ ')' :: rest) =
        other.letters ++ (lettersBehind others ++ ')' :: rest')) :
    ty = other ∧
      lettersBehind types ++ ')' :: rest =
        lettersBehind others ++ ')' :: rest' :=
  readable other _ _ (stops_lettersBehind types rest)
    (stops_lettersBehind others rest') same

/-- The types behind the first one of a list are read one after the other. -/
theorem lettersBehind_inj
    {types others : List Ty}
    {rest rest' : List Char}
    (readable : ∀ ty ∈ types, ty.Readable)
    (same :
      lettersBehind types ++ ')' :: rest =
        lettersBehind others ++ ')' :: rest') :
    types = others ∧ rest = rest' := by
  induction types generalizing others with
  | nil =>
      cases others with
      | nil => simpa [lettersBehind] using same
      | cons other others => simp [lettersBehind] at same
  | cons ty types inductionHypothesis =>
      cases others with
      | nil => simp [lettersBehind] at same
      | cons other others =>
          simp only [lettersBehind, List.cons_append, List.append_assoc,
            List.cons.injEq, true_and] at same
          obtain ⟨tyReadable, typesReadable⟩ := List.forall_mem_cons.mp readable
          obtain ⟨rfl, sameBehind⟩ := tyReadable.item same
          obtain ⟨rfl, sameRest⟩ := inductionHypothesis typesReadable sameBehind
          exact ⟨rfl, sameRest⟩

/-- A list of types is read up to the bracket that closes it. -/
theorem lettersAll_inj
    {types others : List Ty}
    {rest rest' : List Char}
    (readable : ∀ ty ∈ types, ty.Readable)
    (same :
      lettersAll types ++ ')' :: rest = lettersAll others ++ ')' :: rest') :
    types = others ∧ rest = rest' := by
  cases types with
  | nil =>
      cases others with
      | nil => simpa [lettersAll] using same
      | cons other others =>
          rw [lettersAll, lettersAll, List.nil_append, List.append_assoc] at same
          exact absurd same.symm (letters_append_ne other _ _)
  | cons ty types =>
      cases others with
      | nil =>
          rw [lettersAll, lettersAll, List.nil_append, List.append_assoc] at same
          exact absurd same (letters_append_ne ty _ _)
      | cons other others =>
          rw [lettersAll, lettersAll, List.append_assoc,
            List.append_assoc] at same
          obtain ⟨tyReadable, typesReadable⟩ := List.forall_mem_cons.mp readable
          obtain ⟨rfl, sameBehind⟩ := tyReadable.item same
          obtain ⟨rfl, sameRest⟩ := lettersBehind_inj typesReadable sameBehind
          exact ⟨rfl, sameRest⟩

/-- A stop is not a digit, so the digits of a number end before it. -/
theorem takeWhile_digits
    {rest : List Char}
    (stops : Stops rest)
    (number : Nat) :
    (Nat.toDigits 10 number ++ rest).takeWhile Char.isDigit =
      Nat.toDigits 10 number := by
  rw [List.takeWhile_append_of_pos fun char member =>
    Nat.isDigit_of_mem_toDigits (by decide) (by decide) member]
  cases rest with
  | nil => simp
  | cons char rest =>
      have isStop : char = ',' ∨ char = ']' ∨ char = ')' := stops char rfl
      have notDigit : char.isDigit = false := by
        rcases isStop with rfl | rfl | rfl <;> decide
      simp [notDigit]

theorem digits_inj
    {number other : Nat}
    {rest rest' : List Char}
    (stops : Stops rest)
    (stops' : Stops rest')
    (same : Nat.toDigits 10 number ++ rest = Nat.toDigits 10 other ++ rest') :
    number = other ∧ rest = rest' := by
  have sameDigits : Nat.toDigits 10 number = Nat.toDigits 10 other := by
    rw [← takeWhile_digits stops number, same, takeWhile_digits stops' other]
  refine ⟨?_, ?_⟩
  · rw [← Nat.ofDigitChars_ten_toDigits (n := number), sameDigits,
      Nat.ofDigitChars_ten_toDigits]
  · rw [sameDigits] at same
    exact List.append_cancel_left same

/-- Every type is read in one way up to a stop. -/
theorem readable (ty : Ty) : ty.Readable := by
  induction ty with
  | int | bool | char | void =>
      intro other rest rest' _ _ same
      have sameOpening := opening_eq same
      cases other <;> simp [opening] at sameOpening
      exact ⟨rfl, List.append_cancel_left same⟩
  | var id =>
      intro other rest rest' stops stops' same
      have sameOpening := opening_eq same
      cases other <;> simp [opening] at sameOpening
      rw [letters_var, letters_var] at same
      obtain ⟨rfl, sameRest⟩ :=
        digits_inj stops stops' (List.cons.inj (List.cons.inj same).2).2
      exact ⟨rfl, sameRest⟩
  | list element elementReadable =>
      intro other rest rest' _ _ same
      have sameOpening := opening_eq same
      cases other <;> simp [opening] at sameOpening
      rename_i element'
      rw [letters_list, letters_list, List.cons_append, List.cons_append,
        List.append_assoc, List.append_assoc] at same
      obtain ⟨rfl, sameRest⟩ :=
        elementReadable element' _ _ (by simp [Stops]) (by simp [Stops])
          (List.cons.inj same).2
      exact ⟨rfl, (List.cons.inj sameRest).2⟩
  | pair first second firstReadable secondReadable =>
      intro other rest rest' stops stops' same
      have sameOpening := opening_eq same
      have bothReadable : ∀ ty ∈ [first, second], ty.Readable :=
        List.forall_mem_cons.mpr
          ⟨firstReadable, List.forall_mem_singleton.mpr secondReadable⟩
      cases other <;> simp [opening] at sameOpening
      · rename_i first' second'
        simp only [letters_pair, List.cons_append, List.append_assoc,
          List.nil_append, List.cons.injEq, true_and] at same
        obtain ⟨sameItems, sameRest⟩ := lettersAll_inj bothReadable same
        cases sameItems
        exact ⟨rfl, sameRest⟩
      · rename_i params' result'
        simp only [letters_pair, letters_fn, List.cons_append,
          List.append_assoc, List.nil_append, List.cons.injEq, true_and] at same
        -- The same types in brackets, but only the function goes on with an arrow.
        obtain ⟨_, isRest⟩ := lettersAll_inj bothReadable same
        rw [isRest] at stops
        exact absurd stops (not_stops_blank _)
  | fn params result paramsReadable resultReadable =>
      intro other rest rest' stops stops' same
      have sameOpening := opening_eq same
      cases other <;> simp [opening] at sameOpening
      · rename_i first' second'
        simp only [letters_pair, letters_fn, List.cons_append,
          List.append_assoc, List.nil_append, List.cons.injEq, true_and] at same
        obtain ⟨_, isRest⟩ := lettersAll_inj paramsReadable same
        rw [← isRest] at stops'
        exact absurd stops' (not_stops_blank _)
      · rename_i params' result'
        simp only [letters_fn, List.cons_append, List.append_assoc,
          List.cons.injEq, true_and] at same
        obtain ⟨rfl, sameBehind⟩ := lettersAll_inj paramsReadable same
        simp only [List.cons.injEq, true_and] at sameBehind
        obtain ⟨rfl, sameRest⟩ :=
          resultReadable result' rest rest' stops stops' sameBehind
        exact ⟨rfl, sameRest⟩

/-- Types with the same text are the same. -/
theorem render_injective : Function.Injective render := by
  intro ty other same
  have sameLetters : ty.letters ++ [] = other.letters ++ [] := by
    rw [letters, letters, same]
  have stopsAtEnd : Stops [] := by simp [Stops]
  exact (ty.readable other [] [] stopsAtEnd stopsAtEnd sameLetters).1

end Ty

/-- A type is never reported as different from itself. -/
theorem unify_mismatch_ne
    {left right shown shown' : Ty}
    {flow : Flow}
    (failed : unify left right flow = .error (.mismatch shown shown')) :
    shown ≠ shown' := by
  have noInstance := instantiate_ne_of_solve_mismatch failed .var
  rwa [Ty.instantiate_var, Ty.instantiate_var] at noInstance

/-- The errors that a failed unification is reported as. -/
inductive UnifyError.ReportedAs (failure : UnifyError) : TypeError → Prop where
  | demanded (demand : Demand) (subject : String) (span : Span) :
      ReportedAs failure (.ofUnify demand subject span failure)
  | signature (function : String) (span : Span) :
      ReportedAs failure (.ofSignature function span failure)
  | argument (function : String) (number : Nat) (span : Span) :
      ReportedAs failure (.ofArgument function number span failure)

/-- A reported mismatch is between the two types that could not be unified. -/
theorem UnifyError.ReportedAs.sides
    {failure : UnifyError}
    {demand : Demand}
    {expected found : Ty}
    {span : Span}
    (reported : failure.ReportedAs (.mismatch demand expected found span)) :
    failure = .mismatch expected found ∨ failure = .mismatch found expected := by
  generalize isError : TypeError.mismatch demand expected found span = error
    at reported
  cases failure with
  | arity => cases reported <;> cases isError
  | mismatch left right =>
      cases reported <;> cases isError
      · exact Or.inl rfl
      · exact Or.inl rfl
      · exact Or.inr rfl

/--
Types have different texts unless they are the same. The two types of a failed
unification are never the same, so neither its own message nor the message of an
error that reports it shows one text twice.
-/
theorem Ty.render_unambiguous :
    (∀ ty other : Ty, ty.render = other.render → ty = other) ∧
    ∀ (left right : Ty) (flow : Flow) (failure : UnifyError),
      unify left right flow = .error failure →
      (∀ shown shown',
        failure = .mismatch shown shown' →
        failure.message =
            "cannot unify " ++ shown.render ++ " with " ++ shown'.render ∧
          shown.render ≠ shown'.render) ∧
      ∀ error demand expected found span,
        failure.ReportedAs error →
        error = .mismatch demand expected found span →
        error.message =
            demand.message ++ ": cannot unify " ++ expected.render ++ " with " ++
              found.render ∧
          expected.render ≠ found.render := by
  refine ⟨fun _ _ same => render_injective same, ?_⟩
  intro left right flow failure failed
  have textsDiffer {shown shown' : Ty}
      (isMismatch : failure = .mismatch shown shown') :
      shown.render ≠ shown'.render := by
    subst isMismatch
    exact render_injective.ne (unify_mismatch_ne failed)
  refine ⟨?_, ?_⟩
  · rintro shown shown' isMismatch
    refine ⟨?_, textsDiffer isMismatch⟩
    rw [isMismatch]
    rfl
  · rintro error demand expected found span reported rfl
    refine ⟨rfl, ?_⟩
    rcases reported.sides with sameOrder | otherOrder
    · exact textsDiffer sameOrder
    · exact (textsDiffer otherOrder).symm

/--
A pair and a function with the same types in its brackets: the shorter text is
the beginning of the longer one.
-/
theorem Ty.render_unambiguous_brackets :
    let pair : Ty := .pair (.var 1) (.var 12)
    let function : Ty := .fn [.var 1, .var 12] (.fn [] (.var 1))
    let failure : UnifyError := .mismatch pair function
    let error : TypeError := .ofArgument "f" 1 .unknown failure
    unify pair function .confined = .error failure ∧
      failure.message = "cannot unify ('t1, 't12) with ('t1, 't12) -> () -> 't1" ∧
      failure.ReportedAs error ∧
      error = .mismatch (.argument "f" 1) function pair .unknown ∧
      function.render ≠ pair.render := by
  intro pair function failure error
  have failed : unify pair function .confined = .error failure := by cbv
  have reported : failure.ReportedAs error := .argument "f" 1 .unknown
  have ofFailure := Ty.render_unambiguous.2 pair function .confined failure failed
  refine ⟨failed, ?_, reported, rfl, (ofFailure.2 error _ _ _ _ reported rfl).2⟩
  exact (ofFailure.1 pair function rfl).1.trans (by decide)

end SplTyping
