import SplTyping.Substitution
import SplTyping.Ty.Printer

namespace SplTyping

/-!
# Unification

`unify` finds the bindings that make two types equal. Equations wait in a work
list and are taken from the left: equal sides are dropped, a variable is bound
to the other side and replaced in everything that still waits, and two types of
one shape are taken apart. The first equation that admits none of this is the
error.

The work list ends because every binding takes a variable out of it, and every
other step leaves the variables alone and makes the list smaller. The measure
is the number of distinct variables, then the size.
-/

/-- Two types that have to become equal. -/
structure Equation where
  left : Ty
  right : Ty
  deriving DecidableEq

/-- Why two types have no common instance. -/
inductive UnifyError where
  /-- Two types of different shape, or a variable inside its own type. -/
  | mismatch (left right : Ty)
  /-- Two function types with different numbers of parameters. -/
  | arity (expected found : Nat)
  deriving DecidableEq

namespace UnifyError

/-- The text of a failed unification. -/
def message : UnifyError → String
  | .mismatch left right =>
      "cannot unify " ++ left.render ++ " with " ++ right.render
  | .arity expected found =>
      "expected " ++ toString expected ++ " parameters, found " ++
        toString found

end UnifyError

namespace Equation

/-- The equation with a bound variable replaced on both sides. -/
def replaceBy (binding : Binding) (equation : Equation) : Equation where
  left := binding.replaceIn equation.left
  right := binding.replaceIn equation.right

/-- A work list with a bound variable replaced everywhere. -/
def replaceAll
    (binding : Binding)
    (equations : List Equation) :
    List Equation :=
  equations.map (replaceBy binding)

/-- The variables of both sides. -/
def vars (equation : Equation) : List TypeVar :=
  equation.left.vars ++ equation.right.vars

/-- The number of constructors on both sides. -/
def size (equation : Equation) : Nat :=
  equation.left.size + equation.right.size

/--
The binding that solves an equation with a variable on one side. The left
variable is preferred and takes the given flow; a right variable is bound
globally. A variable that occurs on the other side cannot be bound.
-/
def orient? (flow : Flow) : Equation → Option Binding
  | ⟨.var id, ty⟩ => if id ∈ ty.vars then none else some ⟨id, ty, flow⟩
  | ⟨ty, .var id⟩ => if id ∈ ty.vars then none else some ⟨id, ty, .global⟩
  | _ => none

/-- The equations between the parts of two types of one shape. -/
def parts : Equation → Except UnifyError (List Equation)
  | ⟨.list left, .list right⟩ => .ok [⟨left, right⟩]
  | ⟨.pair left left', .pair right right'⟩ =>
      .ok [⟨left, right⟩, ⟨left', right'⟩]
  | ⟨.fn params result, .fn params' result'⟩ =>
      if params.length = params'.length then
        .ok (List.zipWith Equation.mk params params' ++ [⟨result, result'⟩])
      else
        .error (.arity params'.length params.length)
  | ⟨left, right⟩ => .error (.mismatch left right)

/-- The variables of a work list. -/
def listVars (equations : List Equation) : List TypeVar :=
  equations.flatMap vars

/-- The number of constructors in a work list. -/
def listSize : List Equation → Nat
  | [] => 0
  | equation :: rest => equation.size + listSize rest

/-- The size of a concatenation is the sum of the sizes. -/
theorem listSize_append
    (first second : List Equation) :
    listSize (first ++ second) = listSize first + listSize second := by
  induction first with
  | nil => simp [listSize]
  | cons equation rest inductionHypothesis =>
      simp only [List.cons_append, listSize, inductionHypothesis]
      omega

/-- A binding found for an equation binds one of its variables. -/
theorem orient?_var_mem
    {flow : Flow}
    {equation : Equation}
    {binding : Binding}
    (found : equation.orient? flow = some binding) :
    binding.var ∈ equation.vars := by
  rcases equation with ⟨left, right⟩
  unfold orient? at found
  split at found <;> simp_all [vars, Ty.vars] <;> simp_all [← found.2]

/-- A binding found for an equation does not contain its own variable. -/
theorem orient?_not_mem
    {flow : Flow}
    {equation : Equation}
    {binding : Binding}
    (found : equation.orient? flow = some binding) :
    binding.var ∉ binding.ty.vars := by
  rcases equation with ⟨left, right⟩
  unfold orient? at found
  split at found <;> simp_all <;> simp_all [← found.2]

/-- A binding found for an equation brings in no new variable. -/
theorem orient?_vars_subset
    {flow : Flow}
    {equation : Equation}
    {binding : Binding}
    (found : equation.orient? flow = some binding) :
    binding.ty.vars ⊆ equation.vars := by
  rcases equation with ⟨left, right⟩
  unfold orient? at found
  split at found <;> simp_all [vars] <;> simp_all [← found.2]

/-- Pairing up two lists of types keeps their variables. -/
private theorem listVars_zipWith_subset
    (lefts rights : List Ty) :
    listVars (List.zipWith Equation.mk lefts rights) ⊆
      Ty.varsAll lefts ++ Ty.varsAll rights := by
  induction lefts generalizing rights with
  | nil => simp [listVars]
  | cons left lefts inductionHypothesis =>
      cases rights with
      | nil => simp [listVars]
      | cons right rights =>
          intro id member
          simp only [listVars, List.zipWith_cons_cons, List.flatMap_cons,
            List.mem_append, vars] at member
          simp only [Ty.varsAll, List.mem_append]
          rcases member with (inLeft | inRight) | inRest
          · exact Or.inl (Or.inl inLeft)
          · exact Or.inr (Or.inl inRight)
          · have := inductionHypothesis rights inRest
            simp only [List.mem_append] at this
            rcases this with inLefts | inRights
            · exact Or.inl (Or.inr inLefts)
            · exact Or.inr (Or.inr inRights)

/-- Pairing up two lists of types does not make them larger. -/
private theorem listSize_zipWith_le
    (lefts rights : List Ty) :
    listSize (List.zipWith Equation.mk lefts rights) ≤
      Ty.sizeAll lefts + Ty.sizeAll rights := by
  induction lefts generalizing rights with
  | nil => simp [listSize]
  | cons left lefts inductionHypothesis =>
      cases rights with
      | nil => simp [listSize]
      | cons right rights =>
          have := inductionHypothesis rights
          simp only [List.zipWith_cons_cons, listSize, size, Ty.sizeAll]
          omega

/-- Taking an equation apart brings in no new variable. -/
theorem parts_vars_subset
    {equation : Equation}
    {smaller : List Equation}
    (taken : equation.parts = .ok smaller) :
    listVars smaller ⊆ equation.vars := by
  rcases equation with ⟨left, right⟩
  unfold parts at taken
  split at taken
  · rename_i shape
    cases shape
    cases taken
    simp [listVars, vars, Ty.vars]
  · rename_i shape
    cases shape
    cases taken
    intro id member
    simp only [listVars, List.flatMap_cons, List.flatMap_nil, List.append_nil,
      vars, List.mem_append] at member
    simp only [vars, Ty.vars, List.mem_append]
    rcases member with (inFirst | inSecond) | (inFirst | inSecond)
    · exact Or.inl (Or.inl inFirst)
    · exact Or.inr (Or.inl inSecond)
    · exact Or.inl (Or.inr inFirst)
    · exact Or.inr (Or.inr inSecond)
  · rename_i params result params' result' shape
    cases shape
    split at taken
    · cases taken
      intro id member
      simp only [listVars, List.flatMap_append, List.flatMap_cons,
        List.flatMap_nil, List.append_nil, List.mem_append, vars] at member
      simp only [vars, Ty.vars, List.mem_append]
      rcases member with inParams | inLeft | inRight
      · have := listVars_zipWith_subset params params' inParams
        simp only [List.mem_append] at this
        rcases this with inParams | inParams'
        · exact Or.inl (Or.inl inParams)
        · exact Or.inr (Or.inl inParams')
      · exact Or.inl (Or.inr inLeft)
      · exact Or.inr (Or.inr inRight)
    · cases taken
  · cases taken

/-- Taking an equation apart makes it smaller. -/
theorem parts_size_lt
    {equation : Equation}
    {smaller : List Equation}
    (taken : equation.parts = .ok smaller) :
    listSize smaller < equation.size := by
  rcases equation with ⟨left, right⟩
  unfold parts at taken
  split at taken
  · rename_i shape
    cases shape
    cases taken
    simp [listSize, size, Ty.size]
    omega
  · rename_i shape
    cases shape
    cases taken
    simp [listSize, size, Ty.size]
    omega
  · rename_i params result params' result' shape
    cases shape
    split at taken
    · cases taken
      have := listSize_zipWith_le params params'
      simp [listSize_append, listSize, size, Ty.size]
      omega
    · cases taken
  · cases taken

end Equation

/-- The number of different members of a list of variables. -/
def distinctCount (ids : List TypeVar) : Nat :=
  ids.eraseDups.length

/-- No member is left twice. -/
private theorem eraseDups_nodup :
    ∀ ids : List TypeVar, ids.eraseDups.Nodup
  | [] => by simp
  | id :: rest => by
      rw [List.eraseDups_cons, List.nodup_cons]
      refine ⟨?_, eraseDups_nodup _⟩
      simp [List.mem_eraseDups]
termination_by ids => ids.length
decreasing_by
  exact Nat.lt_succ_of_le (List.length_filter_le _ _)

/-- Fewer variables give no larger count. -/
theorem distinctCount_le
    {ids more : List TypeVar}
    (subset : ids ⊆ more) :
    distinctCount ids ≤ distinctCount more := by
  apply List.Nodup.length_le_of_subset (eraseDups_nodup ids)
  intro id member
  exact List.mem_eraseDups.mpr (subset (List.mem_eraseDups.mp member))

/-- Losing a variable makes the count smaller. -/
theorem distinctCount_lt
    {ids more : List TypeVar}
    {lost : TypeVar}
    (subset : ids ⊆ more)
    (notMember : lost ∉ ids)
    (member : lost ∈ more) :
    distinctCount ids < distinctCount more := by
  have nodup : (lost :: ids.eraseDups).Nodup := by
    rw [List.nodup_cons]
    exact ⟨fun inIds => notMember (List.mem_eraseDups.mp inIds),
      eraseDups_nodup ids⟩
  apply List.Nodup.length_le_of_subset nodup
  intro id idMember
  rw [List.mem_eraseDups]
  rcases List.mem_cons.mp idMember with isLost | inIds
  · exact isLost ▸ member
  · exact subset (List.mem_eraseDups.mp inIds)

namespace Equation

/-- Binding a variable leaves fewer variables in the work list. -/
theorem distinctCount_replaceAll_lt
    {flow : Flow}
    {equation : Equation}
    {binding : Binding}
    (found : equation.orient? flow = some binding)
    (rest : List Equation) :
    distinctCount (listVars (replaceAll binding rest)) <
      distinctCount (listVars (equation :: rest)) := by
  have sides :
      ∀ id,
        id ∈ listVars (replaceAll binding rest) →
          (id ∈ listVars rest ∧ id ≠ binding.var) ∨
            id ∈ binding.ty.vars := by
    intro id member
    simp only [listVars, replaceAll, List.mem_flatMap, List.mem_map] at member
    obtain ⟨_, ⟨waiting, isWaiting, rfl⟩, member⟩ := member
    simp only [vars, replaceBy, List.mem_append,
      Binding.mem_vars_replaceIn] at member
    simp only [listVars, List.mem_flatMap, vars, List.mem_append]
    rcases member with
      (⟨inLeft, notBound⟩ | ⟨_, inBound⟩) |
        (⟨inRight, notBound⟩ | ⟨_, inBound⟩)
    · exact Or.inl ⟨⟨waiting, isWaiting, Or.inl inLeft⟩, notBound⟩
    · exact Or.inr inBound
    · exact Or.inl ⟨⟨waiting, isWaiting, Or.inr inRight⟩, notBound⟩
    · exact Or.inr inBound
  have headVars : equation.vars ⊆ listVars (equation :: rest) := by
    simp [listVars]
  refine distinctCount_lt ?_ ?_ (headVars (orient?_var_mem found))
  · intro id member
    rcases sides id member with ⟨inRest, _⟩ | inBound
    · have restVars : listVars rest ⊆ listVars (equation :: rest) := by
        simp [listVars]
      exact restVars inRest
    · exact headVars (orient?_vars_subset found inBound)
  · intro member
    rcases sides binding.var member with ⟨_, notBound⟩ | inBound
    · exact notBound rfl
    · exact orient?_not_mem found inBound

/-- Taking the first equation apart makes the work list smaller. -/
theorem parts_decreases
    {equation : Equation}
    {smaller : List Equation}
    (taken : equation.parts = .ok smaller)
    (rest : List Equation) :
    distinctCount (listVars (smaller ++ rest)) ≤
        distinctCount (listVars (equation :: rest)) ∧
      listSize (smaller ++ rest) < listSize (equation :: rest) := by
  constructor
  · apply distinctCount_le
    intro id member
    simp only [listVars, List.flatMap_append, List.mem_append] at member
    simp only [listVars, List.flatMap_cons, List.mem_append]
    rcases member with inParts | inRest
    · exact Or.inl (parts_vars_subset taken inParts)
    · exact Or.inr inRest
  · have := parts_size_lt taken
    simp only [listSize_append, listSize]
    omega

/-- Dropping the first equation makes the work list smaller. -/
theorem drop_decreases
    (equation : Equation)
    (rest : List Equation) :
    distinctCount (listVars rest) ≤
        distinctCount (listVars (equation :: rest)) ∧
      listSize rest < listSize (equation :: rest) := by
  constructor
  · apply distinctCount_le
    simp [listVars]
  · have := equation.left.size_pos
    simp only [listSize, size]
    omega

end Equation

/-- A measure that does not grow in its first part and shrinks in its second. -/
private theorem lexDecreases
    {first first' second second' : Nat}
    (decreases : first ≤ first' ∧ second < second') :
    Prod.Lex (· < ·) (· < ·) (first, second) (first', second') := by
  rcases Nat.lt_or_eq_of_le decreases.1 with less | same
  · exact .left _ _ less
  · exact same ▸ .right _ decreases.2

/--
The bindings that solve a work list of equations, in the order in which they
are found.
-/
def solve
    (flow : Flow)
    (equations : List Equation) :
    Except UnifyError Substitution :=
  match equations with
  | [] => .ok []
  | equation :: rest =>
      if equation.left = equation.right then
        solve flow rest
      else
        match _found : equation.orient? flow with
        | some binding =>
            (solve flow (Equation.replaceAll binding rest)).map (binding :: ·)
        | none =>
            match _taken : equation.parts with
            | .ok smaller => solve flow (smaller ++ rest)
            | .error failure => .error failure
termination_by
  (distinctCount (Equation.listVars equations), Equation.listSize equations)
decreasing_by
  · exact lexDecreases (equation.drop_decreases rest)
  · exact .left _ _ (Equation.distinctCount_replaceAll_lt _found rest)
  · exact lexDecreases (Equation.parts_decreases _taken rest)

/-- Nothing is left to solve. -/
@[simp]
theorem solve_nil (flow : Flow) : solve flow [] = .ok [] := by
  rw [solve]

/-- An equation with equal sides asks for nothing. -/
theorem solve_cons_same
    {flow : Flow}
    {equation : Equation}
    (same : equation.left = equation.right)
    (rest : List Equation) :
    solve flow (equation :: rest) = solve flow rest := by
  rw [solve, if_pos same]

/-- A binding comes before the bindings of all that waits behind it. -/
theorem solve_cons_bind
    {flow : Flow}
    {equation : Equation}
    {binding : Binding}
    (differ : equation.left ≠ equation.right)
    (found : equation.orient? flow = some binding)
    (rest : List Equation) :
    solve flow (equation :: rest) =
      (solve flow (Equation.replaceAll binding rest)).map (binding :: ·) := by
  rw [solve, if_neg differ]
  split <;> simp_all

/-- What is found when a variable is bound, if all that waits can be solved. -/
theorem solve_cons_bind_ok
    {flow : Flow}
    {equation : Equation}
    {binding : Binding}
    {rest : List Equation}
    {found : Substitution}
    (differ : equation.left ≠ equation.right)
    (oriented : equation.orient? flow = some binding)
    (solved : solve flow (equation :: rest) = .ok found) :
    ∃ later,
      solve flow (Equation.replaceAll binding rest) = .ok later ∧
        found = binding :: later := by
  rw [solve_cons_bind differ oriented] at solved
  cases waiting : solve flow (Equation.replaceAll binding rest) with
  | error failure => simp [waiting, Except.map] at solved
  | ok later =>
      simp only [waiting, Except.map, Except.ok.injEq] at solved
      exact ⟨later, rfl, solved.symm⟩

/-- The parts of an equation take its place at the front. -/
theorem solve_cons_parts
    {flow : Flow}
    {equation : Equation}
    {smaller : List Equation}
    (differ : equation.left ≠ equation.right)
    (notOriented : equation.orient? flow = none)
    (taken : equation.parts = .ok smaller)
    (rest : List Equation) :
    solve flow (equation :: rest) = solve flow (smaller ++ rest) := by
  rw [solve, if_neg differ]
  split
  · simp_all
  · split <;> simp_all

/-- The first equation that cannot be bound or taken apart is the error. -/
theorem solve_cons_fail
    {flow : Flow}
    {equation : Equation}
    {failure : UnifyError}
    (differ : equation.left ≠ equation.right)
    (notOriented : equation.orient? flow = none)
    (failed : equation.parts = .error failure)
    (rest : List Equation) :
    solve flow (equation :: rest) = .error failure := by
  rw [solve, if_neg differ]
  split
  · simp_all
  · split <;> simp_all

/--
The substitution that makes two types equal. Variables of the left type are
bound with the given flow, variables of the right type globally.
-/
def unify (left right : Ty) (flow : Flow) : Except UnifyError Substitution :=
  solve flow [⟨left, right⟩]

end SplTyping
