import SplTyping.Unification

namespace SplTyping

/-!
# Assignments that solve a substitution

An assignment gives a type to every type variable at once. It solves a
substitution if every bound variable gets what its bound type gets; narrowing by
a solved substitution is then invisible to the assignment.

`unify_ok_iff` says that the bindings found by unification are solved by exactly
the assignments that make the two types equal, and `unify_of_equal` that
unification finds bindings as soon as there is one such assignment.
-/

/-- What every type variable stands for. -/
abbrev Assignment := TypeVar → Ty

namespace Binding

/-- The bound variable and the bound type stand for the same type. -/
def SolvedBy (assign : Assignment) (binding : Binding) : Prop :=
  assign binding.var = binding.ty.instantiate assign

/-- A solved binding may be replaced without changing the instance. -/
theorem SolvedBy.instantiate_replaceIn
    {assign : Assignment}
    {binding : Binding}
    (solved : binding.SolvedBy assign)
    (ty : Ty) :
    (binding.replaceIn ty).instantiate assign = ty.instantiate assign := by
  rw [replaceIn, Ty.instantiate_instantiate]
  apply Ty.instantiate_congr
  intro id _
  by_cases isBound : binding.var = id
  · subst isBound
    rw [if_pos rfl]
    exact solved.symm
  · rw [if_neg isBound]
    rfl

end Binding

namespace Substitution

/-- Every binding is solved. -/
def SolvedBy (assign : Assignment) (substitution : Substitution) : Prop :=
  ∀ binding ∈ substitution, binding.SolvedBy assign

@[simp]
theorem solvedBy_nil (assign : Assignment) : SolvedBy assign [] := by
  intro binding member
  simp at member

@[simp]
theorem solvedBy_cons
    {assign : Assignment}
    {binding : Binding}
    {later : Substitution} :
    SolvedBy assign (binding :: later) ↔
      binding.SolvedBy assign ∧ SolvedBy assign later := by
  simp [SolvedBy]

@[simp]
theorem solvedBy_append
    {assign : Assignment}
    {first second : Substitution} :
    SolvedBy assign (first ++ second) ↔
      SolvedBy assign first ∧ SolvedBy assign second := by
  simp only [SolvedBy, List.forall_mem_append]

/-- Narrowing by a solved substitution does not change the instance. -/
theorem SolvedBy.instantiate_apply
    {assign : Assignment}
    {substitution : Substitution}
    (solved : SolvedBy assign substitution)
    (ty : Ty) :
    (substitution.apply ty).instantiate assign = ty.instantiate assign := by
  induction substitution generalizing ty with
  | nil => rw [apply_nil]
  | cons binding later inductionHypothesis =>
      obtain ⟨headSolved, laterSolved⟩ := solvedBy_cons.mp solved
      rw [apply_cons, inductionHypothesis laterSolved]
      exact headSolved.instantiate_replaceIn ty

end Substitution

namespace Ty

/-- A type is no larger than a list that it is a member of. -/
theorem size_le_sizeAll
    {ty : Ty}
    {types : List Ty}
    (member : ty ∈ types) :
    ty.size ≤ sizeAll types := by
  induction types with
  | nil => simp at member
  | cons head rest inductionHypothesis =>
      simp only [sizeAll]
      rcases List.mem_cons.mp member with isHead | inRest
      · subst isHead
        omega
      · have := inductionHypothesis inRest
        omega

/-- What a variable stands for is smaller than the instance of any type around it. -/
theorem eq_var_or_size_lt
    {id : TypeVar}
    {ty : Ty}
    (assign : Assignment)
    (member : id ∈ ty.vars) :
    ty = .var id ∨ (assign id).size < (ty.instantiate assign).size := by
  -- A part is either the variable itself or larger than its image already.
  have atMost {part : Ty} :
      part = .var id ∨ (assign id).size < (part.instantiate assign).size →
        (assign id).size ≤ (part.instantiate assign).size := by
    rintro (isVar | less)
    · subst isVar
      exact Nat.le_refl _
    · exact Nat.le_of_lt less
  induction ty with
  | list element inductionHypothesis =>
      have := atMost (inductionHypothesis member)
      right
      simp only [instantiate, size]
      omega
  | pair first second firstBound secondBound =>
      simp only [vars, List.mem_append] at member
      right
      simp only [instantiate, size]
      rcases member with inFirst | inSecond
      · have := atMost (firstBound inFirst)
        omega
      · have := atMost (secondBound inSecond)
        omega
  | fn params result paramsBound resultBound =>
      simp only [vars, List.mem_append, mem_varsAll] at member
      right
      simp only [instantiate, size, instantiateAll_eq_map]
      rcases member with ⟨param, paramMember, inParam⟩ | inResult
      · have inAll :=
          size_le_sizeAll (List.mem_map_of_mem (f := instantiate assign) paramMember)
        have := atMost (paramsBound param paramMember inParam)
        omega
      · have := atMost (resultBound inResult)
        omega
  | var other =>
      simp only [vars, List.mem_singleton] at member
      exact Or.inl (congrArg Ty.var member.symm)
  | _ => simp [vars] at member

/-- No assignment makes a variable equal to a larger type around it. -/
theorem instantiate_ne_of_mem_vars
    {id : TypeVar}
    {ty : Ty}
    (assign : Assignment)
    (member : id ∈ ty.vars)
    (larger : .var id ≠ ty) :
    assign id ≠ ty.instantiate assign := by
  intro same
  rcases eq_var_or_size_lt assign member with isVar | less
  · exact larger isVar.symm
  · rw [same] at less
    exact Nat.lt_irrefl _ less

theorem anyContains_iff
    {types : List Ty}
    {part : Ty} :
    anyContains types part = true ↔
      ∃ ty ∈ types, ty.contains part = true := by
  induction types with
  | nil => simp [anyContains]
  | cons ty rest inductionHypothesis =>
      simp [anyContains, inductionHypothesis]

theorem contains_void_list
    {element : Ty} :
    (list element).contains .void = true ↔ element.contains .void = true := by
  simp [contains]

theorem contains_void_pair
    {first second : Ty} :
    (pair first second).contains .void = true ↔
      first.contains .void = true ∨ second.contains .void = true := by
  simp [contains]

theorem contains_void_fn
    {params : List Ty}
    {result : Ty} :
    (fn params result).contains .void = true ↔
      (∃ param ∈ params, param.contains .void = true) ∨
        result.contains .void = true := by
  simp [contains, anyContains_iff]

/--
An instance contains `Void` if the type does, or the type that one of its
variables stands for.
-/
theorem contains_void_instantiate
    {ty : Ty}
    {assign : Assignment} :
    (ty.instantiate assign).contains .void = true ↔
      ty.contains .void = true ∨
        ∃ id ∈ ty.vars, (assign id).contains .void = true := by
  induction ty with
  | int | bool | char | void => simp [instantiate, vars]
  | var id => simp [instantiate, vars, contains]
  | list element inductionHypothesis =>
      rw [instantiate, contains_void_list, contains_void_list,
        inductionHypothesis, vars]
  | pair first second firstHypothesis secondHypothesis =>
      rw [instantiate, contains_void_pair, contains_void_pair,
        firstHypothesis, secondHypothesis, vars]
      simp only [List.mem_append]
      grind
  | fn params result paramsHypothesis resultHypothesis =>
      rw [instantiate, contains_void_fn, contains_void_fn, resultHypothesis,
        vars, instantiateAll_eq_map]
      simp only [List.mem_append, mem_varsAll, List.mem_map]
      grind

end Ty

namespace Equation

/-- Both sides stand for the same type. -/
def SolvedBy (assign : Assignment) (equation : Equation) : Prop :=
  equation.left.instantiate assign = equation.right.instantiate assign

/-- A binding found for an equation is solved by the same assignments. -/
theorem orient?_solvedBy
    {flow : Flow}
    {equation : Equation}
    {binding : Binding}
    (found : equation.orient? flow = some binding)
    (assign : Assignment) :
    binding.SolvedBy assign ↔ equation.SolvedBy assign := by
  rcases equation with ⟨left, right⟩
  unfold orient? at found
  split at found
  · rename_i shape
    cases shape
    split at found
    · cases found
    · cases found
      exact Iff.rfl
  · rename_i shape
    cases shape
    split at found
    · cases found
    · cases found
      exact eq_comm
  · cases found

/--
An equation that nothing is bound for has no variable on a side, or a variable
inside its type.
-/
theorem orient?_eq_none
    {flow : Flow}
    {equation : Equation}
    (notOriented : equation.orient? flow = none) :
    (∃ id, equation.left = .var id ∧ id ∈ equation.right.vars) ∨
      (∃ id, equation.right = .var id ∧ id ∈ equation.left.vars) ∨
      (equation.left.isVar = false ∧ equation.right.isVar = false) := by
  rcases equation with ⟨left, right⟩
  unfold orient? at notOriented
  split at notOriented
  · rename_i shape
    cases shape
    split at notOriented
    · rename_i occurs
      exact Or.inl ⟨_, rfl, occurs⟩
    · cases notOriented
  · rename_i shape
    cases shape
    split at notOriented
    · rename_i occurs
      exact Or.inr (Or.inl ⟨_, rfl, occurs⟩)
    · cases notOriented
  · rename_i ty notLeft notRight
    refine Or.inr (Or.inr ⟨?_, ?_⟩)
    · cases left with
      | var id => exact (notLeft id right rfl).elim
      | _ => rfl
    · cases right with
      | var id => exact (notRight left id rfl).elim
      | _ => rfl

/-- Several equations are solved if each of them is. -/
def AllSolvedBy (assign : Assignment) (equations : List Equation) : Prop :=
  ∀ equation ∈ equations, equation.SolvedBy assign

@[simp]
theorem allSolvedBy_cons
    {assign : Assignment}
    {equation : Equation}
    {rest : List Equation} :
    AllSolvedBy assign (equation :: rest) ↔
      equation.SolvedBy assign ∧ AllSolvedBy assign rest := by
  simp [AllSolvedBy]

@[simp]
theorem allSolvedBy_append
    {assign : Assignment}
    {first second : List Equation} :
    AllSolvedBy assign (first ++ second) ↔
      AllSolvedBy assign first ∧ AllSolvedBy assign second := by
  simp only [AllSolvedBy, List.forall_mem_append]

/-- A solved binding may be replaced throughout a work list. -/
theorem allSolvedBy_replaceAll
    {assign : Assignment}
    {binding : Binding}
    (solved : binding.SolvedBy assign)
    (equations : List Equation) :
    AllSolvedBy assign (replaceAll binding equations) ↔
      AllSolvedBy assign equations := by
  simp only [AllSolvedBy, replaceAll, List.forall_mem_map, SolvedBy, replaceBy,
    solved.instantiate_replaceIn]

/-- Paired-up types have equal instances if the lists do. -/
private theorem allSolvedBy_zipWith
    {assign : Assignment}
    {lefts rights : List Ty}
    (sameLength : lefts.length = rights.length) :
    AllSolvedBy assign (List.zipWith Equation.mk lefts rights) ↔
      Ty.instantiateAll assign lefts = Ty.instantiateAll assign rights := by
  induction lefts generalizing rights with
  | nil =>
      cases rights with
      | nil => simp [AllSolvedBy]
      | cons right rights => simp at sameLength
  | cons left lefts inductionHypothesis =>
      cases rights with
      | nil => simp at sameLength
      | cons right rights =>
          simp only [List.length_cons, Nat.add_right_cancel_iff] at sameLength
          simp only [List.zipWith_cons_cons, allSolvedBy_cons, SolvedBy,
            Ty.instantiateAll, List.cons.injEq, inductionHypothesis sameLength]

/-- The parts of an equation are solved by the same assignments. -/
theorem parts_allSolvedBy
    {equation : Equation}
    {smaller : List Equation}
    (taken : equation.parts = .ok smaller)
    (assign : Assignment) :
    AllSolvedBy assign smaller ↔ equation.SolvedBy assign := by
  rcases equation with ⟨left, right⟩
  unfold parts at taken
  split at taken
  · rename_i shape
    cases shape
    cases taken
    simp [AllSolvedBy, SolvedBy, Ty.instantiate]
  · rename_i shape
    cases shape
    cases taken
    simp [AllSolvedBy, SolvedBy, Ty.instantiate]
  · rename_i shape
    cases shape
    split at taken
    · rename_i sameLength
      cases taken
      simp only [allSolvedBy_append, allSolvedBy_zipWith sameLength]
      simp [AllSolvedBy, SolvedBy, Ty.instantiate]
    · cases taken
  · cases taken

/-- An equation between two shapes that cannot be taken apart has no solution. -/
theorem parts_error_not_solvedBy
    {equation : Equation}
    {failure : UnifyError}
    (failed : equation.parts = .error failure)
    (leftShape : equation.left.isVar = false)
    (rightShape : equation.right.isVar = false)
    (differ : equation.left ≠ equation.right)
    (assign : Assignment) :
    ¬ equation.SolvedBy assign := by
  rcases equation with ⟨left, right⟩
  intro solved
  cases left with
  | var id => cases leftShape
  | fn params result =>
      cases right with
      | fn params' result' =>
          simp only [SolvedBy, Ty.instantiate, Ty.fn.injEq,
            Ty.instantiateAll_eq_map] at solved
          have sameLength : params.length = params'.length := by
            simpa using congrArg List.length solved.1
          simp [parts, sameLength] at failed
      | var id => cases rightShape
      | _ => simp [SolvedBy, Ty.instantiate] at solved
  | list element =>
      cases right with
      | list element' => simp [parts] at failed
      | var id => cases rightShape
      | _ => simp [SolvedBy, Ty.instantiate] at solved
  | pair first second =>
      cases right with
      | pair first' second' => simp [parts] at failed
      | var id => cases rightShape
      | _ => simp [SolvedBy, Ty.instantiate] at solved
  | _ =>
      cases right with
      | var id => cases rightShape
      | _ => simp_all [SolvedBy, Ty.instantiate]

/-- An equation that can neither be bound nor taken apart has no solution. -/
theorem not_solvedBy_of_stuck
    {flow : Flow}
    {equation : Equation}
    {failure : UnifyError}
    (differ : equation.left ≠ equation.right)
    (notOriented : equation.orient? flow = none)
    (failed : equation.parts = .error failure)
    (assign : Assignment) :
    ¬ equation.SolvedBy assign := by
  rcases orient?_eq_none notOriented with
    ⟨id, isLeft, occurs⟩ | ⟨id, isRight, occurs⟩ | ⟨leftShape, rightShape⟩
  · rw [isLeft] at differ
    intro solved
    rw [SolvedBy, isLeft] at solved
    exact Ty.instantiate_ne_of_mem_vars assign occurs differ solved
  · rw [isRight] at differ
    intro solved
    rw [SolvedBy, isRight] at solved
    exact Ty.instantiate_ne_of_mem_vars assign occurs differ.symm solved.symm
  · exact parts_error_not_solvedBy failed leftShape rightShape differ assign

end Equation

/-- The bindings found for a work list are solved by the same assignments. -/
theorem solve_solvedBy
    {flow : Flow}
    {equations : List Equation}
    {found : Substitution}
    (solved : solve flow equations = .ok found)
    (assign : Assignment) :
    found.SolvedBy assign ↔ Equation.AllSolvedBy assign equations := by
  induction equations using solve.induct flow generalizing found with
  | case1 =>
      rw [solve_nil] at solved
      cases solved
      simp [Equation.AllSolvedBy]
  | case2 equation rest same inductionHypothesis =>
      rw [solve_cons_same same] at solved
      rw [inductionHypothesis solved, Equation.allSolvedBy_cons,
        Equation.SolvedBy, same]
      simp
  | case3 equation rest differ binding oriented inductionHypothesis =>
      obtain ⟨bindings, later, rfl⟩ := solve_cons_bind_ok differ oriented solved
      rw [Substitution.solvedBy_cons, Equation.allSolvedBy_cons,
        inductionHypothesis later, Equation.orient?_solvedBy oriented]
      apply and_congr_right
      intro headSolved
      exact Equation.allSolvedBy_replaceAll
        ((Equation.orient?_solvedBy oriented assign).mpr headSolved) rest
  | case4 equation rest differ notOriented smaller taken inductionHypothesis =>
      rw [solve_cons_parts differ notOriented taken] at solved
      rw [inductionHypothesis solved, Equation.allSolvedBy_append,
        Equation.allSolvedBy_cons, Equation.parts_allSolvedBy taken]
  | case5 equation rest differ notOriented failure failed =>
      rw [solve_cons_fail differ notOriented failed] at solved
      cases solved

/-- A work list that some assignment solves yields bindings. -/
theorem solve_of_allSolvedBy
    {equations : List Equation}
    {assign : Assignment}
    (flow : Flow)
    (solvable : Equation.AllSolvedBy assign equations) :
    ∃ found, solve flow equations = .ok found := by
  induction equations using solve.induct flow with
  | case1 => exact ⟨[], solve_nil flow⟩
  | case2 equation rest same inductionHypothesis =>
      rw [solve_cons_same same]
      exact inductionHypothesis (Equation.allSolvedBy_cons.mp solvable).2
  | case3 equation rest differ binding oriented inductionHypothesis =>
      obtain ⟨headSolved, restSolved⟩ := Equation.allSolvedBy_cons.mp solvable
      have bindingSolved :=
        (Equation.orient?_solvedBy oriented assign).mpr headSolved
      obtain ⟨later, found⟩ :=
        inductionHypothesis
          ((Equation.allSolvedBy_replaceAll bindingSolved rest).mpr restSolved)
      refine ⟨binding :: later, ?_⟩
      rw [solve_cons_bind differ oriented, found]
      rfl
  | case4 equation rest differ notOriented smaller taken inductionHypothesis =>
      obtain ⟨headSolved, restSolved⟩ := Equation.allSolvedBy_cons.mp solvable
      rw [solve_cons_parts differ notOriented taken]
      apply inductionHypothesis
      rw [Equation.allSolvedBy_append, Equation.parts_allSolvedBy taken]
      exact ⟨headSolved, restSolved⟩
  | case5 equation rest differ notOriented failure failed =>
      obtain ⟨headSolved, _⟩ := Equation.allSolvedBy_cons.mp solvable
      exact (Equation.not_solvedBy_of_stuck differ notOriented failed assign
        headSolved).elim

/-- The bindings that unify two types are solved by what makes them equal. -/
theorem unify_ok_iff
    {left right : Ty}
    {flow : Flow}
    {found : Substitution}
    (unified : unify left right flow = .ok found)
    (assign : Assignment) :
    found.SolvedBy assign ↔
      left.instantiate assign = right.instantiate assign := by
  rw [solve_solvedBy unified]
  simp [Equation.AllSolvedBy, Equation.SolvedBy]

/-- Types with a common instance are unified, and the assignment solves the bindings. -/
theorem unify_of_equal
    {left right : Ty}
    {assign : Assignment}
    (flow : Flow)
    (same : left.instantiate assign = right.instantiate assign) :
    ∃ found, unify left right flow = .ok found ∧ found.SolvedBy assign := by
  have solvable : Equation.AllSolvedBy assign [⟨left, right⟩] := by
    simpa [Equation.AllSolvedBy, Equation.SolvedBy] using same
  obtain ⟨found, unified⟩ := solve_of_allSolvedBy flow solvable
  exact ⟨found, unified, (unify_ok_iff unified assign).mpr same⟩

end SplTyping
