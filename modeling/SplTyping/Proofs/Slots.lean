import SplTyping.Proofs.Freshness
import SplTyping.Proofs.Nodes
import SplTyping.Proofs.Waiting

namespace SplTyping

/-!
# What the slots of a tree hold

The slot of a call holds the function type at which its callee is used. Its
parameter types are made of the types of the arguments by what the call found
out, some of which is confined to the call. An argument is plain if nothing
about it can be confined: its type mentions no variables, or it is a call that
waits. What is confined to a call when its last argument is looked at is not
seen by other arguments; so only those before the last one have to be plain for
the call to show the type of its result.
-/

/-- The number under which an expression waits, if it is a call that waits. -/
def Expr.stamp? : Expr → Option CallId
  | .call made => made.waiting
  | _ => none

/-- A type is recorded, and it mentions no variables. -/
def Ground (recorded : Option Ty) : Prop :=
  ∃ ty, recorded = some ty ∧ ty.vars = []

mutual

/-- Nothing about an expression can be confined to a call that is given it. -/
def Expr.Plain : Expr → Prop
  | .int _ mark
  | .bool _ mark
  | .char _ mark
  | .pair _ _ mark
  | .nil mark
  | .range _ _ mark
  | .binary _ _ _ mark
  | .unary _ _ mark => Ground mark.ty
  | .read place => Ground place.mark.ty
  | .call made => made.Plain

/--
A call waits, or has a result without variables and arguments that are plain up
to the last one.
-/
def Call.Plain : Call → Prop
  | ⟨_, args, mark, waiting⟩ =>
      waiting.isSome = true ∨
        (Expr.PlainInit args ∧ Ground (mark.ty.map Ty.callResult))

/-- All of some expressions but the last one are plain. -/
def Expr.PlainInit : List Expr → Prop
  | [] => True
  | [_] => True
  | expr :: next :: rest => expr.Plain ∧ Expr.PlainInit (next :: rest)

end

/-- If an expression is a call, its arguments are plain up to the last one. -/
def Expr.InitPlain : Expr → Prop
  | .call made => Expr.PlainInit made.args
  | _ => True

/-- If an expression is a call, its arguments are plain. -/
def Expr.ArgsPlain : Expr → Prop
  | .call made => ∀ arg ∈ made.args, arg.Plain
  | _ => True

theorem Expr.plain_iff (expr : Expr) :
    expr.Plain ↔
      expr.stamp?.isSome = true ∨ (expr.InitPlain ∧ Ground expr.ty?) := by
  cases expr with
  | call made =>
      obtain ⟨callee, args, mark, waiting⟩ := made
      exact Iff.rfl
  | _ => simp [Plain, stamp?, InitPlain, ty?, mark]

/--
A value shows its type: it is no call, or a call whose arguments are plain. If
the type does not have to agree with another one, the last argument of a call
that does not wait need not be plain.
-/
def Value.Plain (value : Value) : Prop :=
  value.expr.ArgsPlain ∨
    (value.agrees = false ∧ value.expr.stamp? = none ∧ value.expr.InitPlain)

/-- A type is recorded for an expression; for a call, as the result of its callee. -/
def Expr.Shown (expr : Expr) (ty : Ty) : Prop :=
  match expr with
  | .call made => ∃ params, made.mark.ty = some (.fn params ty)
  | expr => expr.mark.ty = some ty

theorem Expr.Shown.ty?_eq
    {expr : Expr}
    {ty : Ty}
    (shown : expr.Shown ty) :
    expr.ty? = some ty := by
  cases expr with
  | call made =>
      obtain ⟨params, isTy⟩ := shown
      rw [ty?, isTy]
      rfl
  | _ => exact shown

/-- Each argument shows a type, unless it is a call whose type is open. -/
inductive ArgsShow : List Expr → List Ty → Prop where
  | nil : ArgsShow [] []
  | cons
      {arg : Expr}
      {args : List Expr}
      {ty : Ty}
      {types : List Ty}
      (shown : arg.stamp? = none → arg.InitPlain → arg.Shown ty)
      (rest : ArgsShow args types) :
      ArgsShow (arg :: args) (ty :: types)

/--
If a call has recorded a type, it is that of a function whose parameter types
are made of the types that the arguments show.
-/
def Call.Meets (call : Call) : Prop :=
  ∀ ty, call.mark.ty = some ty →
    ∃ (types : List Ty) (view : Substitution) (result : Ty),
      ArgsShow call.args types ∧ ty = .fn (types.map view.apply) result

/--
The type of an expression does not contain `Void`, unless it is a call with an
argument that is not plain.
-/
def Expr.VoidFree (expr : Expr) : Prop :=
  expr.ArgsPlain → ∀ ty, expr.ty? = some ty →
    expr.Shown ty ∧ ty.contains .void = false

/-- The type of a value does not contain `Void` if the value shows its type. -/
def Value.VoidFree (value : Value) : Prop :=
  value.Plain → ∀ ty, value.expr.ty? = some ty →
    value.expr.Shown ty ∧ ty.contains .void = false

/-- A binding for an equation is confined only if it binds a variable on the left. -/
theorem Equation.orient?_global
    {flow : Flow}
    {equation : Equation}
    {binding : Binding}
    (oriented : equation.orient? flow = some binding)
    (shared : flow = .global ∨ equation.left.vars = []) :
    binding.flow = .global := by
  rcases equation with ⟨left, right⟩
  unfold orient? at oriented
  split at oriented
  · rename_i id ty shape
    cases shape
    rcases shared with rfl | closed
    · split at oriented
      · cases oriented
      · cases oriented
        rfl
    · cases closed
  · split at oriented
    · cases oriented
    · cases oriented
      rfl
  · cases oriented

private theorem zipWith_closed
    {lefts rights : List Ty}
    (closed : Ty.varsAll lefts = []) :
    ∀ part ∈ List.zipWith Equation.mk lefts rights, part.left.vars = [] := by
  induction lefts generalizing rights with
  | nil => exact nofun
  | cons left lefts inductionHypothesis =>
      cases rights with
      | nil => exact nofun
      | cons right rights =>
          rw [Ty.varsAll, List.append_eq_nil_iff] at closed
          rw [List.zipWith_cons_cons, List.forall_mem_cons]
          exact ⟨closed.1, inductionHypothesis closed.2⟩

theorem Equation.parts_closed
    {equation : Equation}
    {smaller : List Equation}
    (taken : equation.parts = .ok smaller)
    (closed : equation.left.vars = []) :
    ∀ part ∈ smaller, part.left.vars = [] := by
  rcases equation with ⟨left, right⟩
  unfold parts at taken
  split at taken
  · rename_i left right shape
    cases shape
    cases taken
    simpa [Ty.vars] using closed
  · rename_i left left' right right' shape
    cases shape
    cases taken
    simpa [Ty.vars] using closed
  · rename_i params result params' result' shape
    cases shape
    split at taken
    · cases taken
      rw [Ty.vars, List.append_eq_nil_iff] at closed
      obtain ⟨paramsClosed, resultClosed⟩ := closed
      rw [List.forall_mem_append]
      exact ⟨zipWith_closed paramsClosed, by simpa using resultClosed⟩
    · cases taken
  · cases taken

/-- Bindings are shared if nothing on the left is open, or the flow is global. -/
theorem solve_global
    {flow : Flow}
    {equations : List Equation}
    {found : Substitution}
    (solved : solve flow equations = .ok found)
    (shared :
      flow = .global ∨ ∀ equation ∈ equations, equation.left.vars = []) :
    ∀ binding ∈ found, binding.flow = .global := by
  induction equations using solve.induct flow generalizing found with
  | case1 =>
      rw [solve_nil] at solved
      cases solved
      exact List.forall_mem_nil _
  | case2 equation rest same inductionHypothesis =>
      rw [solve_cons_same same] at solved
      exact inductionHypothesis solved
        (shared.imp_right fun closed => (List.forall_mem_cons.mp closed).2)
  | case3 equation rest differ binding oriented inductionHypothesis =>
      obtain ⟨bindings, later, rfl⟩ := solve_cons_bind_ok differ oriented solved
      have headShared :=
        shared.imp_right fun closed => (List.forall_mem_cons.mp closed).1
      have replacedShared :
          flow = .global ∨
            ∀ equation ∈ Equation.replaceAll binding rest,
              equation.left.vars = [] := by
        refine shared.imp_right fun closed replaced member => ?_
        obtain ⟨waiting, isWaiting, rfl⟩ := List.mem_map.mp member
        have waitingClosed :=
          (List.forall_mem_cons.mp closed).2 waiting isWaiting
        have unmentioned : binding.var ∉ waiting.left.vars := by
          rw [waitingClosed]
          exact List.not_mem_nil
        rw [Equation.replaceBy,
          Binding.replaceIn_of_not_mem unmentioned, waitingClosed]
      exact List.forall_mem_cons.mpr
        ⟨Equation.orient?_global oriented headShared,
          inductionHypothesis later replacedShared⟩
  | case4 equation rest differ notOriented smaller taken inductionHypothesis =>
      rw [solve_cons_parts differ notOriented taken] at solved
      refine inductionHypothesis solved (shared.imp_right fun closed => ?_)
      obtain ⟨headClosed, restClosed⟩ := List.forall_mem_cons.mp closed
      exact List.forall_mem_append.mpr
        ⟨Equation.parts_closed taken headClosed, restClosed⟩
  | case5 equation rest differ notOriented failure failed =>
      rw [solve_cons_fail differ notOriented failed] at solved
      cases solved

/-- Nothing is confined if all bindings are shared. -/
theorem split_of_global
    {found : Substitution}
    (shared : ∀ binding ∈ found, binding.flow = .global) :
    found.split.1 = found := by
  rw [Substitution.split, List.partition_eq_filter_filter]
  exact List.filter_eq_self.mpr fun binding member => by
    simp [shared binding member]

end SplTyping
