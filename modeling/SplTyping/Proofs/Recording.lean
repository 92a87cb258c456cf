import SplTyping.Proofs.Blank

namespace SplTyping

/-!
# What inference records

If no error is recorded, the slot of an inferred expression holds the expected
type, narrowed by what was found. For a call this holds if nothing is confined
to it, which is so if its arguments are plain; and also if nothing that the call
sees mentions the expected type, and its arguments are plain up to the last one.
A call that waits has an empty slot, and a copy of it is recorded later; if its
value is needed, that is remembered in the waiting call, and the type of the copy
is looked at then.

`State.Book` says what is known about waiting calls and copies, and `Records`
what one step adds to the tree.
-/

/-- A call waits as it was found, with types that have been drawn. -/
structure PendingKept
    (bound : TypeVar)
    (next : CallId)
    (pending : PendingCall) :
    Prop where
  idBelow : pending.id < next
  stamped : pending.call.waiting = some pending.id
  slotBlank : pending.call.mark.ty = none
  argsBlank : Expr.erasedAll .slots pending.call.args = pending.call.args
  contextWithin : pending.context.Within (Below anyVar bound)
  expectedWithin : pending.expected.Within (Below anyVar bound)

/-- A call that waits is kept while variables and numbers are drawn. -/
theorem PendingKept.mono
    {bound later : TypeVar}
    {next last : CallId}
    {pending : PendingCall}
    (kept : PendingKept bound next pending)
    (grows : bound ≤ later)
    (nextLe : next ≤ last) :
    PendingKept later last pending where
  idBelow := Nat.lt_of_lt_of_le kept.idBelow nextLe
  stamped := kept.stamped
  slotBlank := kept.slotBlank
  argsBlank := kept.argsBlank
  contextWithin := kept.contextWithin.mono (Below.mono grows)
  expectedWithin := kept.expectedWithin.mono (Below.mono grows)

/--
The copy of a call is a value, or will be looked at for being one. Calls that
were taken to be checked are counted as waiting.
-/
structure State.Vouched
    (taken : List PendingCall)
    (state : State)
    (id : CallId) :
    Prop where
  idBelow : id < state.pending.nextId
  resolved :
    ∀ copy, state.resolved.get? id = some copy → (Expr.call copy).VoidFree
  waiting :
    state.AllWaiting fun _ pending =>
      pending.id = id → pending.guard.isSome = true
  taken : ∀ pending ∈ taken, pending.id = id → pending.guard.isSome = true

/-- An expression whose value is needed shows no `Void`, now or later. -/
def ValueGood (vouched : CallId → Prop) (value : Value) : Prop :=
  value.VoidFree ∧ ∀ id, value.expr.stamp? = some id → vouched id

/-- All calls meet their arguments, and all values are good. -/
structure NodesGood
    (vouched : CallId → Prop)
    (calls : List Call)
    (values : List Value) :
    Prop where
  calls : ∀ call ∈ calls, call.Meets
  values : ∀ value ∈ values, ValueGood vouched value

namespace NodesGood

variable {vouched later : CallId → Prop}
variable {calls others : List Call} {values more : List Value}

theorem nil : NodesGood vouched [] [] :=
  ⟨nofun, nofun⟩

/-- The nodes of two good trees are good. -/
theorem append
    (first : NodesGood vouched calls values)
    (second : NodesGood vouched others more) :
    NodesGood vouched (calls ++ others) (values ++ more) :=
  ⟨List.forall_mem_append.mpr ⟨first.calls, second.calls⟩,
    List.forall_mem_append.mpr ⟨first.values, second.values⟩⟩

/-- The nodes of a good tree are good in each of its parts. -/
theorem of_append
    (good : NodesGood vouched (calls ++ others) (values ++ more)) :
    NodesGood vouched calls values ∧ NodesGood vouched others more := by
  obtain ⟨firstCalls, secondCalls⟩ := List.forall_mem_append.mp good.calls
  obtain ⟨firstValues, secondValues⟩ := List.forall_mem_append.mp good.values
  exact ⟨⟨firstCalls, firstValues⟩, ⟨secondCalls, secondValues⟩⟩

theorem addValue
    {value : Value}
    (good : NodesGood vouched calls values)
    (valueGood : ValueGood vouched value) :
    NodesGood vouched calls (value :: values) :=
  ⟨good.calls, List.forall_mem_cons.mpr ⟨valueGood, good.values⟩⟩

theorem of_addValue
    {value : Value}
    (good : NodesGood vouched calls (value :: values)) :
    ValueGood vouched value ∧ NodesGood vouched calls values :=
  have ⟨valueGood, valuesGood⟩ := List.forall_mem_cons.mp good.values
  ⟨valueGood, good.calls, valuesGood⟩

/-- What is vouched for may grow. -/
theorem mono
    (good : NodesGood vouched calls values)
    (widens : ∀ id, vouched id → later id) :
    NodesGood later calls values :=
  ⟨good.calls, fun value member =>
    ⟨(good.values value member).1, fun id isStamp =>
      widens id ((good.values value member).2 id isStamp)⟩⟩

/-- Nothing is shown yet by blank nodes. -/
theorem of_blank (blank : BlankNodes calls values) :
    NodesGood vouched calls values where
  calls := by
    intro call member ty recorded
    rw [blank.1 call member] at recorded
    cases recorded
  values := by
    intro value member
    have isBlank := blank.2 value member
    refine ⟨fun _ ty shown => ?_, fun id isStamp => ?_⟩
    · rw [Expr.ty?_of_blank isBlank] at shown
      cases shown
    · rw [Expr.stamp?_of_blank isBlank] at isStamp
      cases isStamp

end NodesGood

/-- Waiting calls are kept, and recorded copies are good. -/
structure State.Book (taken : List PendingCall) (state : State) : Prop where
  waiting :
    state.AllWaiting fun _ pending =>
      PendingKept state.nextVar state.pending.nextId pending
  takenKept :
    ∀ pending ∈ taken,
      PendingKept state.nextVar state.pending.nextId pending
  resolved :
    ∀ id copy, state.resolved.get? id = some copy →
      id < state.pending.nextId ∧ copy.waiting.isSome = true ∧
        NodesGood (state.Vouched taken) copy.calls copy.values

section Changes

variable {taken : List PendingCall} {before middle after : State}

/-- Only waiting calls and copies matter to what is vouched for. -/
theorem State.Vouched.change
    {id : CallId}
    (vouched : before.Vouched taken id)
    (samePending : after.pending = before.pending)
    (sameResolved : after.resolved = before.resolved) :
    after.Vouched taken id where
  idBelow := by
    rw [samePending]
    exact vouched.idBelow
  resolved := by
    rw [sameResolved]
    exact vouched.resolved
  waiting := vouched.waiting.mono (fun _ _ guarded => guarded) samePending
  taken := vouched.taken

/-- A step that leaves calls alone leaves the book as it is. -/
theorem State.Book.change
    (book : before.Book taken)
    (grows : before.nextVar ≤ after.nextVar)
    (samePending : after.pending = before.pending)
    (sameResolved : after.resolved = before.resolved) :
    after.Book taken where
  waiting := by
    rw [samePending]
    exact book.waiting.mono
      (fun _ _ kept => kept.mono grows (Nat.le_refl _)) samePending
  takenKept := by
    rw [samePending]
    exact fun pending member =>
      (book.takenKept pending member).mono grows (Nat.le_refl _)
  resolved := by
    intro id copy recorded
    rw [sameResolved] at recorded
    obtain ⟨idBelow, isStamped, good⟩ := book.resolved id copy recorded
    rw [samePending]
    exact ⟨idBelow, isStamped, good.mono fun _ vouched =>
      vouched.change samePending sameResolved⟩

/-- What a step of inference adds to a tree and to the book. -/
structure Records
    (taken : List PendingCall)
    (before after : State)
    (calls : List Call)
    (values : List Value) :
    Prop where
  book : after.Book taken
  vouches : ∀ id, before.Vouched taken id → after.Vouched taken id
  nodes : NodesGood (after.Vouched taken) calls values

namespace Records

variable {calls others : List Call} {values more : List Value}

/-- Doing nothing records nothing. -/
theorem refl (book : before.Book taken) : Records taken before before [] [] where
  book := book
  vouches := fun _ => id
  nodes := .nil

/-- Two steps record their parts of a tree. -/
theorem append
    (first : Records taken before middle calls values)
    (second : Records taken middle after others more) :
    Records taken before after (calls ++ others) (values ++ more) where
  book := second.book
  vouches := fun id vouched => second.vouches id (first.vouches id vouched)
  nodes := (first.nodes.mono second.vouches).append second.nodes

/-- The order in which parts were gone through is forgotten. -/
theorem swap
    (records : Records taken before after (calls ++ others) (values ++ more)) :
    Records taken before after (others ++ calls) (more ++ values) where
  book := records.book
  vouches := records.vouches
  nodes :=
    ⟨fun call member =>
      records.nodes.calls call
        (List.mem_append.mpr (List.mem_append.mp member).symm),
      fun value member =>
        records.nodes.values value
          (List.mem_append.mpr (List.mem_append.mp member).symm)⟩

/-- A step before that leaves calls alone may be left out. -/
theorem of_change
    (records : Records taken middle after calls values)
    (samePending : middle.pending = before.pending)
    (sameResolved : middle.resolved = before.resolved) :
    Records taken before after calls values where
  book := records.book
  vouches := fun id vouched =>
    records.vouches id (vouched.change samePending sameResolved)
  nodes := records.nodes

theorem of_draw
    {count : Nat}
    (records : Records taken (before.draw count) after calls values) :
    Records taken before after calls values :=
  records.of_change rfl rfl

/-- A good value may be added to what is recorded. -/
theorem addValue
    {value : Value}
    (records : Records taken before after calls values)
    (good : ValueGood (after.Vouched taken) value) :
    Records taken before after calls (value :: values) where
  book := records.book
  vouches := records.vouches
  nodes := records.nodes.addValue good

end Records

theorem State.Book.draw (book : before.Book taken) (count : Nat) :
    (before.draw count).Book taken :=
  book.change (Nat.le_add_right _ _) rfl rfl

theorem ValueGood.mono
    {vouched later : CallId → Prop}
    {value : Value}
    (good : ValueGood vouched value)
    (widens : ∀ id, vouched id → later id) :
    ValueGood later value :=
  ⟨good.1, fun id isStamp => widens id (good.2 id isStamp)⟩

/-- An expression with a type that is free of void is a good value. -/
theorem ValueGood.of_shown
    {vouched : CallId → Prop}
    {value : Value}
    {ty : Ty}
    (unstamped : value.expr.stamp? = none)
    (shown : value.expr.Shown ty)
    (isValue : ty.contains .void = false) :
    ValueGood vouched value := by
  refine ⟨fun _ other recorded => ?_, fun id isStamp => ?_⟩
  · rw [shown.ty?_eq, Option.some.injEq] at recorded
    rw [← recorded]
    exact ⟨shown, isValue⟩
  · rw [unstamped] at isStamp
    cases isStamp

end Changes

/--
What the slot of an inferred expression holds; `unseen` says that the expected
type is not seen while the expression is inferred.
-/
structure Shows
    (taken : List PendingCall)
    (guard : Option ValueGuard)
    (unseen : Prop)
    (expected : Ty)
    (found : Substitution)
    (after : State)
    (expr : Expr) :
    Prop where
  shown :
    expr.stamp? = none → expr.ArgsPlain ∨ (unseen ∧ expr.InitPlain) →
      expr.Shown (found.apply expected)
  waits :
    ∀ id, expr.stamp? = some id →
      found = [] ∧ expr.ty? = none ∧
        (guard.isSome = true → after.Vouched taken id)

section Shows

variable {taken : List PendingCall} {guard : Option ValueGuard} {unseen : Prop}
variable {expected : Ty} {found : Substitution} {after : State} {expr : Expr}

/-- The slot of an expression that is no call shows the expected type. -/
theorem Shows.of_shown
    (unstamped : expr.stamp? = none)
    (shown : expr.Shown (found.apply expected)) :
    Shows taken guard unseen expected found after expr where
  shown := fun _ _ => shown
  waits := by
    intro id isStamp
    rw [unstamped] at isStamp
    cases isStamp

/-- An expression that was looked at for being a value is good. -/
theorem Shows.valueGood
    (shows : Shows taken guard unseen expected found after expr)
    (agrees : Bool)
    (guarded : guard.isSome = true)
    (isValue : (found.apply expected).contains .void = false)
    (apart : agrees = false → unseen) :
    ValueGood (after.Vouched taken) ⟨expr, agrees⟩ := by
  refine ⟨fun plain ty recorded => ?_, fun id isStamp => ?_⟩
  · cases isStamp : expr.stamp? with
    | none =>
        have shown :=
          shows.shown isStamp
            (plain.imp_right fun ⟨isApart, _, initPlain⟩ =>
              ⟨apart isApart, initPlain⟩)
        rw [shown.ty?_eq, Option.some.injEq] at recorded
        rw [← recorded]
        exact ⟨shown, isValue⟩
    | some id =>
        rw [(shows.waits id isStamp).2.1] at recorded
        cases recorded
  · exact (shows.waits id isStamp).2.2 guarded

end Shows

/-- Narrowing does not take `Void` out of a type. -/
theorem Substitution.not_void_of_apply
    {found : Substitution}
    {ty : Ty}
    (isValue : (found.apply ty).contains .void = false) :
    ty.contains .void = false := by
  rw [← Bool.not_eq_true] at isValue ⊢
  exact fun isVoid => isValue (Ty.contains_void_instantiate.mpr (Or.inl isVoid))

/-- A variable that was drawn later is not narrowed. -/
theorem Substitution.Within.apply_unseen
    {live : TypeVar → Prop}
    {bound id : TypeVar}
    {found : Substitution}
    (within : found.Within (Below live bound))
    (unseen : bound ≤ id) :
    found.apply (.var id) = .var id := by
  refine Substitution.apply_of_unbound (Ty.within_var.mpr ?_)
  rintro binding member rfl
  exact absurd (within binding member).1.2 (Nat.not_lt.mpr unseen)

/-- The type of a node is what was expected of it. -/
theorem apply_shape
    {found final : Substitution}
    {expected : Ty}
    {flow : Flow}
    (shape : Ty)
    (settled : found.Settled)
    (unified :
      unify (found.apply expected) (found.apply shape) flow = .ok final) :
    (found ++ final).apply (found.apply shape) =
      (found ++ final).apply expected := by
  rw [Substitution.apply_append, Substitution.apply_append,
    settled.apply_apply, apply_eq_of_unify unified]

/-- What the slot of an inferred call holds. -/
inductive CallShows
    (taken : List PendingCall)
    (guard : Option ValueGuard)
    (unseen : Prop)
    (expected : Ty)
    (found : Substitution)
    (after : State)
    (call : Call) :
    Call → Prop where
  | checked
      {call' : Call}
      (sameStamp : call'.waiting = call.waiting)
      (shown :
        (Expr.call call').ArgsPlain ∨ (unseen ∧ (Expr.call call').InitPlain) →
          (Expr.call call').Shown (found.apply expected)) :
      CallShows taken guard unseen expected found after call call'
  | waits
      {call' : Call}
      {id : CallId}
      (nothing : found = [])
      (stamped : call'.waiting = some id)
      (slotBlank : call'.mark.ty = none)
      (vouched : guard.isSome = true → after.Vouched taken id) :
      CallShows taken guard unseen expected found after call call'

/-- A call shows as an expression what it shows as a call. -/
theorem CallShows.shows
    {taken : List PendingCall}
    {guard : Option ValueGuard}
    {unseen : Prop}
    {expected : Ty}
    {found : Substitution}
    {after : State}
    {call call' : Call}
    (callShows : CallShows taken guard unseen expected found after call call')
    (unstamped : call.waiting = none) :
    Shows taken guard unseen expected found after (.call call') := by
  cases callShows with
  | checked sameStamp shown =>
      refine ⟨fun _ => shown, fun id isStamp => ?_⟩
      rw [Expr.stamp?, sameStamp, unstamped] at isStamp
      cases isStamp
  | waits nothing stamped slotBlank vouched =>
      refine ⟨fun isNone => ?_, fun id isStamp => ?_⟩
      · rw [Expr.stamp?, stamped] at isNone
        cases isNone
      · rw [Expr.stamp?, stamped, Option.some.injEq] at isStamp
        subst isStamp
        refine ⟨nothing, ?_, vouched⟩
        rw [Expr.ty?, slotBlank]
        rfl

section SettingAside

variable {taken : List PendingCall} {call : Call} {context : Context}
variable {expected : Ty} {guard : Option ValueGuard} {before : State}

/-- Calls are numbered one after the other, so a new number is vouched for. -/
theorem State.Book.vouched_next
    (book : before.Book taken)
    (guarded : guard.isSome = true) :
    (before.setAside call context expected guard).Vouched taken
      before.pending.nextId where
  idBelow := Nat.lt_succ_self _
  resolved := by
    intro copy recorded
    have idBelow := (book.resolved _ copy recorded).1
    exact absurd idBelow (Nat.lt_irrefl _)
  waiting := by
    refine State.AllWaiting.setAside ?_ fun _ => guarded
    exact book.waiting.mono
      (fun _ _ kept isNext => absurd kept.idBelow (isNext ▸ Nat.lt_irrefl _))
      rfl
  taken := fun pending member isNext =>
    absurd (book.takenKept pending member).idBelow (isNext ▸ Nat.lt_irrefl _)

/-- A new number takes nothing from what is vouched for. -/
theorem State.Vouched.setAside
    {id : CallId}
    (vouched : before.Vouched taken id) :
    (before.setAside call context expected guard).Vouched taken id where
  idBelow := Nat.lt_succ_of_lt vouched.idBelow
  resolved := vouched.resolved
  waiting :=
    vouched.waiting.setAside fun isNext =>
      absurd vouched.idBelow (isNext ▸ Nat.lt_irrefl _)
  taken := vouched.taken

/-- A blank call may be set aside, with types that have been drawn. -/
theorem State.Book.setAside
    (book : before.Book taken)
    (argsBlank : Expr.erasedAll .slots call.args = call.args)
    (slotBlank : call.mark.ty = none)
    (contextWithin : context.Within (Below anyVar before.nextVar))
    (expectedWithin : expected.Within (Below anyVar before.nextVar)) :
    (before.setAside call context expected guard).Book taken where
  waiting := by
    refine State.AllWaiting.setAside ?_ ?_
    · exact book.waiting.mono
        (fun _ _ kept => kept.mono (Nat.le_refl _) (Nat.le_succ _)) rfl
    · exact
        { idBelow := Nat.lt_succ_self _
          stamped := rfl
          slotBlank
          argsBlank
          contextWithin
          expectedWithin }
  takenKept := fun pending member =>
    (book.takenKept pending member).mono (Nat.le_refl _) (Nat.le_succ _)
  resolved := by
    intro id copy recorded
    obtain ⟨idBelow, isStamped, good⟩ := book.resolved id copy recorded
    exact ⟨Nat.lt_succ_of_lt idBelow, isStamped,
      good.mono fun _ vouched => vouched.setAside⟩

end SettingAside

/-- What is known where a step of inference starts. -/
structure Opened
    (taken : List PendingCall)
    (state : State)
    (context : Context)
    (expected : Ty) :
    Prop where
  book : state.Book taken
  scene : Scene anyVar state context
  expectedWithin : expected.Within (Below anyVar state.nextVar)

namespace Opened

variable {taken : List PendingCall} {before after : State}
variable {context : Context} {expected other : Ty} {found : Substitution}

/-- A variable is drawn, and a step is started with it. -/
theorem draw (opened : Opened taken before context expected) (count : Nat) :
    Opened taken (before.draw (count + 1)) context (.var before.nextVar) where
  book := opened.book.draw _
  scene := opened.scene.grow (.draw _ _)
  expectedWithin := opened.scene.within_next count

/-- After a step, the next one starts with what was found out. -/
theorem narrow
    (opened : Opened taken before context expected)
    (grows : before.Grows after)
    (book : after.Book taken)
    (within : found.Within (Below anyVar after.nextVar))
    (otherWithin : other.Within (Below anyVar after.nextVar)) :
    Opened taken after (context.narrow found) other where
  book := book
  scene := opened.scene.narrowAny grows within
  expectedWithin := otherWithin

end Opened

/-- No variable of a type is seen in a context. -/
def Unseen (state : State) (context : Context) (ty : Ty) : Prop :=
  ∀ id ∈ ty.vars, Scene (fun other => anyVar other ∧ other ≠ id) state context

/-- A closed type has no variable to be seen. -/
theorem Unseen.of_closed
    {state : State}
    {context : Context}
    {ty : Ty}
    (closed : ty.vars = []) :
    Unseen state context ty := by
  intro id member
  rw [closed] at member
  cases member

/-- A variable that has just been drawn is not seen. -/
theorem Scene.unseen_next
    {before : State}
    {context : Context}
    (scene : Scene anyVar before context)
    (count : Nat) :
    Unseen (before.draw (count + 1)) context (.var before.nextVar) := by
  intro id member
  rw [List.mem_singleton.mp member]
  exact scene.reserve (.draw _ _) (Nat.le_refl _)
    (Nat.lt_add_of_pos_right (Nat.succ_pos count))

/-- What is known after the arguments of a call have been gone through. -/
structure ArgsRecorded
    (taken : List PendingCall)
    (progress reached : CallProgress)
    (before after : State)
    (args : List Expr) :
    Prop where
  types :
    ∃ types, reached.types = progress.types ++ types ∧ ArgsShow args types
  shares :
    (∀ arg ∈ args, arg.Plain) →
      ∃ added,
        reached.view = progress.view ++ added ∧
          reached.outward = progress.outward ++ added
  settled :
    progress.view.Settled → (args ≠ [] → progress.view = progress.outward) →
      Expr.PlainInit args → reached.view.Settled
  records :
    Records taken before after (Expr.callsAll args) (Expr.valuesAll args)
  values : ∀ arg ∈ args, ValueGood (after.Vouched taken) ⟨arg, false⟩

theorem ArgsRecorded.nil
    {taken : List PendingCall}
    {progress : CallProgress}
    {before : State}
    (book : before.Book taken) :
    ArgsRecorded taken progress progress before before [] where
  types := ⟨[], (List.append_nil _).symm, .nil⟩
  shares := fun _ => ⟨[], (List.append_nil _).symm, (List.append_nil _).symm⟩
  settled := fun settled _ _ => settled
  records := .refl book
  values := List.forall_mem_nil _

/-- What a plain argument finds out about its parameter is all passed on. -/
theorem Shows.shares
    {taken : List PendingCall}
    {guard : Option ValueGuard}
    {unseen : Prop}
    {id : TypeVar}
    {param : Ty}
    {found more : Substitution}
    {after : State}
    {arg : Expr}
    (shows : Shows taken guard unseen (.var id) found after arg)
    (isUnseen : unseen)
    (plain : arg.Plain)
    (unified :
      unify (found.apply (.var id)) param
        (CallProgress.flowOf (found.apply (.var id)) (.var id)) = .ok more) :
    more.split.1 = more := by
  refine split_of_global (solve_global unified ?_)
  rw [CallProgress.flowOf]
  split
  · exact Or.inl rfl
  · rename_i known
    refine Or.inr ?_
    rw [List.forall_mem_singleton]
    cases isStamp : arg.stamp? with
    | some other =>
        rw [(shows.waits other isStamp).1, Substitution.apply_nil] at known
        exact absurd rfl known
    | none =>
        rcases arg.plain_iff.mp plain with stamped | ⟨initPlain, ty, isTy, closed⟩
        · rw [isStamp] at stamped
          cases stamped
        · have shown := shows.shown isStamp (Or.inr ⟨isUnseen, initPlain⟩)
          rw [shown.ty?_eq, Option.some.injEq] at isTy
          rw [isTy]
          exact closed

/-- An argument is recorded before those behind it. -/
theorem ArgsRecorded.cons
    {taken : List PendingCall}
    {guard : Option ValueGuard}
    {unseen : Prop}
    {id : TypeVar}
    {param : Ty}
    {found more : Substitution}
    {progress reached : CallProgress}
    {before middle after : State}
    {arg : Expr}
    {args : List Expr}
    (rest :
      ArgsRecorded taken (progress.next (found.apply (.var id)) found more)
        reached middle after args)
    (argRecords : Records taken before middle arg.calls arg.values)
    (argShows : Shows taken guard unseen (.var id) found middle arg)
    (isUnseen : unseen)
    (guarded : guard.isSome = true)
    (isValue : (found.apply (.var id)).contains .void = false)
    (unified :
      unify (found.apply (.var id)) param
        (CallProgress.flowOf (found.apply (.var id)) (.var id)) = .ok more)
    (settled : (progress.outward ++ found ++ more).Settled) :
    ArgsRecorded taken progress reached before after (arg :: args) where
  types := by
    obtain ⟨types, sameTypes, argsShow⟩ := rest.types
    refine ⟨found.apply (.var id) :: types, ?_, .cons ?_ argsShow⟩
    · rw [sameTypes, CallProgress.next, List.append_assoc,
        List.singleton_append]
    · exact fun isNone initPlain =>
        argShows.shown isNone (Or.inr ⟨isUnseen, initPlain⟩)
  shares := by
    intro plain
    obtain ⟨argPlain, argsPlain⟩ := List.forall_mem_cons.mp plain
    obtain ⟨added, viewEq, outwardEq⟩ := rest.shares argsPlain
    refine ⟨found ++ more ++ added, ?_, ?_⟩
    · rw [viewEq, CallProgress.next]
      simp only [List.append_assoc]
    · rw [outwardEq, CallProgress.next,
        argShows.shares isUnseen argPlain unified]
      simp only [List.append_assoc]
  settled := by
    intro _ shared plain
    have sameView := shared (List.cons_ne_nil _ _)
    refine rest.settled ?_ (fun more => ?_) ?_
    · rwa [CallProgress.next, sameView]
    · obtain ⟨next, others, rfl⟩ := List.exists_cons_of_ne_nil more
      rw [CallProgress.next, argShows.shares isUnseen plain.1 unified, sameView]
    · cases args with
      | nil => trivial
      | cons => exact plain.2
  records := argRecords.append rest.records
  values :=
    List.forall_mem_cons.mpr
      ⟨(argShows.valueGood false guarded isValue fun _ => isUnseen).mono
        rest.records.vouches,
        rest.values⟩

/-- A range whose first bound is not an error has bounds of a basic type. -/
theorem BoundRun.clean
    {found extended : Substitution}
    {first bound : Ty}
    {before after : State}
    (run : BoundRun found before first bound extended after)
    (isClean : after.Clean) :
    after = before ∧ ∀ found : Substitution, found.apply bound = bound := by
  cases run with
  | int | char | unknown => exact ⟨rfl, fun _ => rfl⟩
  | other => exact absurd isClean (State.not_clean_record _ _)

section Operators

variable {taken : List PendingCall} {op : BinOp} {left right result : Ty}
variable {before typed : State}

/-- The operands of an operator may be expected to have its types. -/
theorem OperatorRun.opened
    {context : Context}
    {expected : Ty}
    (run : OperatorRun before op left right result typed)
    (opened : Opened taken before context expected) :
    Opened taken typed context left ∧
      right.Within (Below anyVar typed.nextVar) := by
  obtain ⟨leftWithin, rightWithin, _⟩ := run.within opened.scene.supply
  refine ⟨⟨?_, opened.scene.grow run.grows, leftWithin⟩, rightWithin⟩
  cases run with
  | cons | compared => exact opened.book.draw 1
  | arithmetic | ordered | logical => exact opened.book

/-- The variables of an operator are no part of what is recorded. -/
theorem OperatorRun.records
    {after : State}
    {calls : List Call}
    {values : List Value}
    (run : OperatorRun before op left right result typed)
    (records : Records taken typed after calls values) :
    Records taken before after calls values := by
  cases run with
  | cons | compared => exact records.of_draw
  | arithmetic | ordered | logical => exact records

/--
The variables of an operator are new, so the context does not mention them.
-/
theorem OperatorRun.unseen
    {context : Context}
    (run : OperatorRun before op left right result typed)
    (scene : Scene anyVar before context) :
    Unseen typed context left ∧
      (op.agrees = false →
        ∀ found : Substitution, (found.apply right).vars = []) := by
  cases run with
  | cons => exact ⟨scene.unseen_next 0, nofun⟩
  | compared isEquality =>
      refine ⟨scene.unseen_next 0, ?_⟩
      rcases isEquality with rfl | rfl <;> exact nofun
  | arithmetic | ordered | logical => exact ⟨.of_closed rfl, fun _ _ => rfl⟩

/-- The types of unary operators are closed. -/
theorem UnOp.apply_ty (op : UnOp) (found : Substitution) :
    found.apply op.ty = op.ty := by
  cases op <;> rfl

end Operators

/-- A type that is not seen is narrowed by no argument of a call. -/
theorem inferArgs_unseen
    {args args' : List Expr}
    {callee function : String}
    {signature : Signature}
    {expected : Ty}
    {number : Nat}
    {context : Context}
    {reached : CallProgress}
    {before after : State}
    (run :
      Runs
        (inferArgs args signature.params function number (.start context)) before
        (args', some reached) after)
    (unseen : Unseen before context expected)
    (known : context.funs.get? callee = some signature) :
    reached.view.apply expected = expected ∧
      reached.outward.apply expected = expected := by
  have keeps (id : TypeVar) (member : id ∈ expected.vars) :=
    inferArgs_keepsTo run (unseen id member).supply
      (CallProgress.keepsTo_start (unseen id member).context)
      ((unseen id member).context.funs _ _ known).1
  constructor
  · refine Substitution.apply_of_unbound fun id member binding isBinding same => ?_
    exact ((keeps id member).viewWithin binding isBinding).1.1.2 same.symm
  · refine Substitution.apply_of_unbound fun id member binding isBinding same => ?_
    exact ((keeps id member).outward.within binding isBinding).1.1.2 same.symm

mutual

/--
What inference of a blank expression records, if there is no error: good nodes
and a slot with the expected type.
-/
theorem inferExpr_records
    {taken : List PendingCall}
    {expr expr' : Expr}
    {context : Context}
    {expected : Ty}
    {demand : Demand}
    {guard : Option ValueGuard}
    {found : Substitution}
    {before after : State}
    (run :
      Runs (inferExpr expr context expected demand guard) before (expr', found)
        after)
    (blank : expr.erased .slots = expr)
    (opened : Opened taken before context expected)
    (clean : after.Clean) :
    Records taken before after expr'.calls expr'.values ∧
      Shows taken guard (Unseen before context expected) expected found after
        expr' := by
  have keeps := inferExpr_keepsTo run opened.scene opened.expectedWithin
  cases exprRun_of_runs run with
  | int asked | bool asked | char asked =>
      obtain ⟨unified, rfl⟩ := unifyOrReport_clean asked clean
      refine ⟨.refl opened.book, .of_shown rfl ?_⟩
      rw [apply_eq_of_unify unified]
      rfl
  | read placeRun =>
      obtain ⟨records, shown⟩ := inferPlace_records placeRun (Expr.read.inj blank) opened clean
      exact ⟨records, .of_shown rfl shown⟩
  | pairVoid | binaryLeftVoid | binaryRightVoid =>
      exact absurd clean (State.not_clean_record _ _)
  | @pair _ _ _ _ _ found more _ middle _ _ firstRun secondRun firstValue
      secondValue asked =>
      obtain ⟨unified, rfl⟩ := unifyOrReport_clean asked clean
      obtain ⟨firstBlank, secondBlank, _⟩ := Expr.pair.inj blank
      have firstGrows := inferExpr_grows firstRun
      have firstOpened := opened.draw 1
      obtain ⟨firstRecords, firstShows⟩ :=
        inferExpr_records firstRun firstBlank firstOpened
          ((inferExpr_grows secondRun).clean clean)
      have reserved :=
        inferExpr_keepsTo firstRun opened.scene.reserveSecond.1
          opened.scene.reserveSecond.2
      have secondVar :
          (Ty.var (before.nextVar + 1)).Within
            (Below anyVar middle.nextVar) :=
        Ty.within_var.mpr
          ⟨trivial,
            Nat.lt_of_lt_of_le (Nat.lt_succ_self _) firstGrows.nextVar⟩
      obtain ⟨secondRecords, secondShows⟩ :=
        inferExpr_records secondRun secondBlank
          (firstOpened.narrow firstGrows firstRecords.book
            (reserved.widen fun _ _ => trivial).within secondVar)
          clean
      have untouched :
          found.apply (.var (before.nextVar + 1)) =
            .var (before.nextVar + 1) := by
        refine Substitution.apply_of_unbound (Ty.within_var.mpr ?_)
        rintro binding member same
        exact (reserved.within binding member).1.1.2 same.symm
      rw [Substitution.apply_append] at firstValue secondValue
      rw [untouched] at secondValue
      have secondUnseen :
          Unseen middle (context.narrow found) (.var (before.nextVar + 1)) := by
        intro id member
        rw [List.mem_singleton.mp member]
        exact (opened.scene.reserveSecond.1.narrow firstGrows reserved).widen
          fun _ isLeft => isLeft.1
      have firstGood :=
        (firstShows.valueGood false rfl (Substitution.not_void_of_apply firstValue)
          fun _ => opened.scene.unseen_next 1).mono secondRecords.vouches
      have secondGood :=
        secondShows.valueGood false rfl secondValue fun _ => secondUnseen
      have settled : (found ++ more).Settled :=
        keeps.settled.sublist (List.sublist_append_left _ _)
      have slot :=
        apply_shape (.pair (.var before.nextVar) (.var (before.nextVar + 1)))
          settled unified
      refine ⟨?_, .of_shown rfl (congrArg some slot)⟩
      have both := (firstRecords.append secondRecords).of_draw
      exact (both.addValue secondGood).addValue firstGood
  | nil asked =>
      obtain ⟨unified, rfl⟩ := unifyOrReport_clean asked clean
      refine ⟨(Records.refl (opened.book.draw 1)).of_draw, .of_shown rfl ?_⟩
      rw [apply_eq_of_unify unified]
      rfl
  | range firstRun boundRun lastRun asked =>
      obtain ⟨unified, rfl⟩ := unifyOrReport_clean asked clean
      obtain ⟨firstBlank, lastBlank, _⟩ := Expr.range.inj blank
      obtain ⟨rfl, closed⟩ :=
        boundRun.clean ((inferExpr_grows lastRun).clean clean)
      have firstGrows := inferExpr_grows firstRun
      have firstOpened := opened.draw 0
      have firstKeeps :=
        inferExpr_keepsTo firstRun firstOpened.scene firstOpened.expectedWithin
      have boundKeeps :=
        boundRun.keepsTo firstKeeps
          (firstKeeps.apply (firstOpened.expectedWithin.grow firstGrows))
      obtain ⟨firstRecords, _⟩ :=
        inferExpr_records firstRun firstBlank firstOpened
          ((inferExpr_grows lastRun).clean clean)
      obtain ⟨lastRecords, _⟩ :=
        inferExpr_records lastRun lastBlank
          (firstOpened.narrow firstGrows firstRecords.book boundKeeps.within
            boundRun.within)
          clean
      refine ⟨(firstRecords.append lastRecords).of_draw, .of_shown rfl ?_⟩
      rw [Substitution.apply_append, apply_eq_of_unify unified]
      exact congrArg (some ∘ Ty.list) (closed _).symm
  | binary operatorRun leftRun leftValue rightRun rightValue asked =>
      obtain ⟨unified, rfl⟩ := unifyOrReport_clean asked clean
      obtain ⟨_, leftBlank, rightBlank, _⟩ := Expr.binary.inj blank
      have leftGrows := inferExpr_grows leftRun
      obtain ⟨leftOpened, rightWithin⟩ := operatorRun.opened opened
      have leftKeeps :=
        inferExpr_keepsTo leftRun leftOpened.scene leftOpened.expectedWithin
      obtain ⟨leftRecords, leftShows⟩ :=
        inferExpr_records leftRun leftBlank leftOpened
          ((inferExpr_grows rightRun).clean clean)
      obtain ⟨rightRecords, rightShows⟩ :=
        inferExpr_records rightRun rightBlank
          (leftOpened.narrow leftGrows leftRecords.book leftKeeps.within
            (leftKeeps.within.apply (rightWithin.grow leftGrows)))
          clean
      rw [Substitution.apply_append] at rightValue
      obtain ⟨leftUnseen, rightClosed⟩ := operatorRun.unseen opened.scene
      have leftGood :=
        (leftShows.valueGood false rfl leftValue fun _ => leftUnseen).mono
          rightRecords.vouches
      have rightGood :=
        rightShows.valueGood _ rfl rightValue fun isApart =>
          .of_closed (rightClosed isApart _)
      have slot :=
        apply_shape _ (keeps.settled.sublist (List.sublist_append_left _ _))
          unified
      refine ⟨?_, .of_shown rfl (congrArg some slot)⟩
      have both := operatorRun.records (leftRecords.append rightRecords)
      exact (both.addValue rightGood).addValue leftGood
  | @unary op _ _ _ _ _ _ _ operandRun asked =>
      obtain ⟨unified, rfl⟩ := unifyOrReport_clean asked clean
      obtain ⟨_, operandBlank, _⟩ := Expr.unary.inj blank
      obtain ⟨operandRecords, _⟩ :=
        inferExpr_records operandRun operandBlank
          ⟨opened.book, opened.scene, op.ty_within⟩ clean
      refine ⟨operandRecords, .of_shown rfl ?_⟩
      rw [Substitution.apply_append, apply_eq_of_unify unified, op.apply_ty]
      rfl
  | call callRun =>
      obtain ⟨argsBlank, slotBlank, unstamped⟩ :=
        Call.parts_of_blank (Expr.call.inj blank)
      obtain ⟨records, shows⟩ :=
        inferCall_records callRun argsBlank slotBlank opened clean
      exact ⟨records, shows.shows unstamped⟩
termination_by structural expr

/--
What inference of a blank place records: its slot holds the expected type.
-/
theorem inferPlace_records
    {taken : List PendingCall}
    {place place' : Place}
    {context : Context}
    {expected : Ty}
    {demand : Demand}
    {found : Substitution}
    {before after : State}
    (run :
      Runs (inferPlace place context expected demand) before (place', found)
        after)
    (blank : place.erased .slots = place)
    (opened : Opened taken before context expected)
    (clean : after.Clean) :
    Records taken before after place'.calls place'.values ∧
      place'.mark.ty = some (found.apply expected) := by
  cases placeRun_of_runs run with
  | unknown => exact absurd clean (State.not_clean_record _ _)
  | @known _ _ _ _ base current found final _ _ bound fieldsRun asked =>
      obtain ⟨unified, rfl⟩ := unifyOrReport_clean asked clean
      have baseLeft :
          base.Within (Below (Substitution.leaves [] anyVar) before.nextVar) :=
        by simpa using opened.scene.context.vars _ _ bound
      obtain ⟨_, currentWithin⟩ :=
        inferFields_keepsTo fieldsRun opened.scene .nil baseLeft
      have records :=
        inferFields_records fieldsRun (Place.mk.inj blank).2.1 opened.book
          opened.scene .nil baseLeft clean
      have untouched : found.apply current = current :=
        Substitution.apply_of_unbound
          (currentWithin.mono fun _ ⟨isLeft, _⟩ => isLeft.2)
      refine ⟨records, congrArg some ?_⟩
      rw [Substitution.apply_append, Substitution.apply_append, untouched,
        apply_eq_of_unify unified]
termination_by structural place

/-- Fields record the values of their indices. -/
theorem inferFields_records
    {taken : List PendingCall}
    {fields fields' : List Field}
    {name : String}
    {span : Span}
    {context : Context}
    {current selected : Ty}
    {found extended : Substitution}
    {before after : State}
    (run :
      Runs (inferFields fields name span context current found) before
        (fields', selected, extended) after)
    (blank : Field.erasedAll .slots fields = fields)
    (book : before.Book taken)
    (scene : Scene anyVar before context)
    (keeps : found.KeepsTo anyVar before.nextVar)
    (currentWithin :
      current.Within (Below (found.leaves anyVar) before.nextVar))
    (clean : after.Clean) :
    Records taken before after (Field.callsAll fields')
      (Field.valuesAll fields') := by
  cases fields with
  | nil =>
      obtain ⟨rfl, _, _, rfl⟩ := runs_inferFields_nil run
      exact .refl book
  | cons field rest =>
      obtain ⟨_, _, _, _, _, fieldRun, restRun, rfl⟩ :=
        runs_inferFields_cons run
      obtain ⟨fieldBlank, restBlank⟩ := List.cons.inj blank
      have fieldRecords :=
        inferField_records fieldRun fieldBlank book scene keeps currentWithin
          ((inferFields_grows restRun).clean clean)
      obtain ⟨fieldKeeps, betweenWithin⟩ :=
        inferField_keepsTo fieldRun scene keeps currentWithin
      have restRecords :=
        inferFields_records restRun restBlank fieldRecords.book
          (scene.grow (inferField_grows fieldRun)) fieldKeeps betweenWithin
          clean
      exact fieldRecords.append restRecords
termination_by structural fields

theorem inferField_records
    {taken : List PendingCall}
    {field field' : Field}
    {name : String}
    {span : Span}
    {context : Context}
    {current selected : Ty}
    {found extended : Substitution}
    {before after : State}
    (run :
      Runs (inferField field name span context current found) before
        (field', selected, extended) after)
    (blank : field.erased .slots = field)
    (book : before.Book taken)
    (scene : Scene anyVar before context)
    (keeps : found.KeepsTo anyVar before.nextVar)
    (currentWithin :
      current.Within (Below (found.leaves anyVar) before.nextVar))
    (clean : after.Clean) :
    Records taken before after field'.calls field'.values := by
  cases fieldRun_of_runs run with
  | hd asked | tl asked | fst asked | snd asked =>
      obtain ⟨_, rfl⟩ := unifyOrReport_clean asked clean
      exact (Records.refl (book.draw _)).of_draw
  | index asked positionRun =>
      obtain ⟨_, rfl⟩ :=
        unifyOrReport_clean asked ((inferExpr_grows positionRun).clean clean)
      obtain ⟨bothKeep, _⟩ :=
        keeps.select scene.supply currentWithin (.draw _ _) asked
          (Ty.within_list.mpr
            (Ty.within_var.mpr ⟨Nat.le_refl _, Nat.lt_succ_self _⟩))
      obtain ⟨positionRecords, _⟩ :=
        inferExpr_records positionRun (Field.index.inj blank)
          ⟨book.draw _, scene.narrowAny (.draw _ _) bothKeep.within,
            Ty.within_int⟩
          clean
      exact positionRecords.of_draw
termination_by structural field

/--
A call is set aside, or records its arguments and the type of its function.
-/
theorem inferCall_records
    {taken : List PendingCall}
    {call call' : Call}
    {context : Context}
    {expected : Ty}
    {demand : Demand}
    {guard : Option ValueGuard}
    {found : Substitution}
    {before after : State}
    (run :
      Runs (inferCall call context expected demand guard) before (call', found)
        after)
    (argsBlank : Expr.erasedAll .slots call.args = call.args)
    (slotBlank : call.mark.ty = none)
    (opened : Opened taken before context expected)
    (clean : after.Clean) :
    Records taken before after call'.calls call'.values ∧
      CallShows taken guard (Unseen before context expected) expected found after
        call call' := by
  have keeps := inferCall_keepsTo run opened.scene opened.expectedWithin
  cases callRun_of_runs run with
  | arity => exact absurd clean (State.not_clean_record _ _)
  | void _ _ argsRun => exact absurd clean (inferArgs_aborted argsRun)
  | waits unknown =>
      refine ⟨⟨?_, fun _ vouched => vouched.setAside, ?_⟩,
        .waits rfl rfl slotBlank opened.book.vouched_next⟩
      · exact opened.book.setAside argsBlank slotBlank opened.scene.context
          opened.expectedWithin
      · exact .of_blank (Call.blankNodes _ argsBlank slotBlank)
  | @checked _ _ args' _ _ signature progress _ _ _ known sameLength argsRun
      asked =>
      obtain ⟨unified, rfl⟩ := unifyOrReport_clean asked clean
      have argsRecorded :=
        inferArgs_records argsRun sameLength argsBlank opened.book
          (CallProgress.keepsTo_start opened.scene.context)
          (opened.scene.context.funs _ _ known).1 clean
      obtain ⟨types, sameTypes, argsShow⟩ := argsRecorded.types
      have argsRecords := argsRecorded.records
      refine ⟨⟨argsRecords.book, argsRecords.vouches, ?_, ?_⟩,
        .checked rfl ?_⟩
      · refine List.forall_mem_cons.mpr ⟨?_, argsRecords.nodes.calls⟩
        rintro ty ⟨⟩
        exact ⟨types, _, _, argsShow, by rw [sameTypes]; rfl⟩
      · exact List.forall_mem_append.mpr
          ⟨List.forall_mem_map.mpr argsRecorded.values,
            argsRecords.nodes.values⟩
      · rintro (plain | ⟨unseen, initPlain⟩)
        · obtain ⟨added, viewEq, outwardEq⟩ := argsRecorded.shares plain
          rw [show progress.outward = progress.view from
            outwardEq.trans viewEq.symm] at keeps ⊢
          refine ⟨_, congrArg (fun result => some (Ty.fn _ result)) ?_⟩
          exact apply_shape signature.result
            (keeps.settled.sublist (List.sublist_append_left _ _)) unified
        · have settled :=
            argsRecorded.settled Substitution.settled_nil (fun _ => rfl)
              initPlain
          have apart := inferArgs_unseen argsRun unseen known
          refine ⟨_, congrArg (fun result => some (Ty.fn _ result)) ?_⟩
          rw [apply_shape signature.result settled unified,
            Substitution.apply_append, Substitution.apply_append, apart.1,
            apart.2]
termination_by structural call

/-- Each argument is recorded with the type of its parameter. -/
theorem inferArgs_records
    {taken : List PendingCall}
    {args args' : List Expr}
    {params : List Ty}
    {function : String}
    {number : Nat}
    {progress reached : CallProgress}
    {before after : State}
    (run :
      Runs (inferArgs args params function number progress) before
        (args', some reached) after)
    (sameLength : args.length = params.length)
    (blank : Expr.erasedAll .slots args = args)
    (book : before.Book taken)
    (keeps : progress.KeepsTo anyVar before.nextVar)
    (paramsWithin :
      ∀ param ∈ params, param.Within (Below anyVar before.nextVar))
    (clean : after.Clean) :
    ArgsRecorded taken progress reached before after args' := by
  cases argsRun_of_runs run with
  | done nothing =>
      cases args with
      | nil => exact .nil book
      | cons =>
          rcases nothing with isNil | isNil
          · cases isNil
          · rw [isNil] at sameLength
            cases sameLength
  | @next _ _ _ _ param argTy _ found more _ middle _ _ argRun argTyEq value
      asked restRun =>
      obtain ⟨argBlank, restBlank⟩ := List.cons.inj blank
      have middleClean := (inferArgs_grows restRun).clean clean
      obtain ⟨unified, rfl⟩ := unifyOrReport_clean asked middleClean
      have argGrows := inferExpr_grows argRun
      have scene : Scene (progress.outward.leaves anyVar) before progress.context :=
        ⟨keeps.outward.supply (fun _ _ => trivial) (Nat.le_refl _),
          keeps.context⟩
      have argOpened :
          Opened taken (before.draw 1) progress.context (.var before.nextVar) :=
        ⟨book.draw _, scene.any.grow (.draw _ _), scene.any.within_next 0⟩
      have foundKeeps :=
        inferExpr_keepsTo argRun (scene.grow (.draw _ _)) (scene.within_next 0)
      obtain ⟨moreKeeps, nextKeeps⟩ :=
        keeps.step foundKeeps asked argTyEq (fun _ _ => trivial)
          argGrows.nextVar (paramsWithin param List.mem_cons_self)
      have startGrows := (State.Grows.draw before 1).trans argGrows
      have foundOn := keeps.outward.append foundKeeps startGrows.nextVar
      have settled :=
        (foundOn.append ((Substitution.leaves_append _ _ _).symm ▸ moreKeeps)
          (Nat.le_refl _)).settled
      rw [Substitution.apply_append,
        keeps.viewWithin.apply_unseen (Nat.le_refl _)] at argTyEq
      subst argTyEq
      obtain ⟨argRecords, argShows⟩ :=
        inferExpr_records argRun argBlank argOpened middleClean
      have rest :=
        inferArgs_records restRun (Nat.succ.inj sameLength) restBlank
          argRecords.book nextKeeps
          (fun other member =>
            (paramsWithin other (List.mem_cons_of_mem _ member)).grow
              startGrows)
          clean
      exact rest.cons argRecords.of_draw argShows (scene.any.unseen_next 0) rfl
        value unified settled
termination_by structural args

end

mutual

/-- What inference of a blank statement records, if there is no error. -/
theorem inferStmt_records
    {taken : List PendingCall}
    {stmt stmt' : Stmt}
    {context : Context}
    {expected : Ty}
    {found : Substitution}
    {before after : State}
    (run : Runs (inferStmt stmt context expected) before (stmt', found) after)
    (blank : stmt.erased .slots = stmt)
    (opened : Opened taken before context expected)
    (clean : after.Clean) :
    Records taken before after stmt'.calls stmt'.values := by
  cases stmtRun_of_runs run with
  | forTaken | assignVoid | returnVoid =>
      exact absurd clean (State.not_clean_record _ _)
  | ifElse thenRun elseRun conditionRun =>
      obtain ⟨conditionBlank, thenBlank, elseBlank, _⟩ := Stmt.ifElse.inj blank
      have elseClean := (inferExpr_grows conditionRun).clean clean
      have thenGrows := inferBlock_grows thenRun
      have elseGrows := inferBlock_grows elseRun
      have thenKeeps :=
        inferBlock_keepsTo thenRun opened.scene opened.expectedWithin
      have thenRecords :=
        inferBlock_records thenRun thenBlank opened (elseGrows.clean elseClean)
      have elseOpened :=
        opened.narrow thenGrows thenRecords.book thenKeeps.within
          (thenKeeps.within.apply (opened.expectedWithin.grow thenGrows))
      have elseKeeps :=
        inferBlock_keepsTo elseRun elseOpened.scene elseOpened.expectedWithin
      have elseRecords :=
        inferBlock_records elseRun elseBlank elseOpened elseClean
      have bothWithin :=
        Substitution.within_append.mpr
          ⟨(thenKeeps.mono elseGrows.nextVar).within, elseKeeps.within⟩
      obtain ⟨conditionRecords, _⟩ :=
        inferExpr_records conditionRun conditionBlank
          (opened.narrow (thenGrows.trans elseGrows) elseRecords.book
            bothWithin Ty.within_bool)
          clean
      have records :=
        ((thenRecords.append elseRecords).append conditionRecords).swap
      simpa only [Stmt.calls, Stmt.values, List.append_assoc] using records
  | whileDo bodyRun conditionRun =>
      obtain ⟨conditionBlank, bodyBlank, _⟩ := Stmt.whileDo.inj blank
      have bodyKeeps :=
        inferBlock_keepsTo bodyRun opened.scene opened.expectedWithin
      have bodyRecords :=
        inferBlock_records bodyRun bodyBlank opened
          ((inferExpr_grows conditionRun).clean clean)
      obtain ⟨conditionRecords, _⟩ :=
        inferExpr_records conditionRun conditionBlank
          (opened.narrow (inferBlock_grows bodyRun) bodyRecords.book
            bodyKeeps.within Ty.within_bool)
          clean
      exact (bodyRecords.append conditionRecords).swap
  | @forIn name _ _ _ _ _ _ _ _ _ iterableRun _ bodyRun =>
      obtain ⟨_, iterableBlank, bodyBlank, _⟩ := Stmt.forIn.inj blank
      have iterableGrows := inferExpr_grows iterableRun
      have element := opened.draw 0
      have iterableOpened :
          Opened taken (before.draw 1) context (.list (.var before.nextVar)) :=
        ⟨element.book, element.scene,
          Ty.within_list.mpr element.expectedWithin⟩
      have iterableKeeps :=
        inferExpr_keepsTo iterableRun iterableOpened.scene
          iterableOpened.expectedWithin
      obtain ⟨iterableRecords, _⟩ :=
        inferExpr_records iterableRun iterableBlank iterableOpened
          ((inferBlock_grows bodyRun).clean clean)
      have bodyScene :=
        (element.scene.narrowAny iterableGrows iterableKeeps.within).bindVar
          name.text
          (iterableKeeps.within.apply
            (element.expectedWithin.grow iterableGrows))
      have bodyRecords :=
        inferBlock_records bodyRun bodyBlank
          ⟨iterableRecords.book, bodyScene,
            iterableKeeps.within.apply
              (opened.expectedWithin.grow
                ((State.Grows.draw _ _).trans iterableGrows))⟩
          clean
      exact (iterableRecords.append bodyRecords).of_draw
  | @assign _ _ _ _ _ found _ _ middle _ _ valueRun targetRun valueValue
      targetValue asked =>
      obtain ⟨_, rfl⟩ := unifyOrReport_clean asked clean
      obtain ⟨targetBlank, valueBlank, _⟩ := Stmt.assign.inj blank
      have valueOpened := opened.draw 0
      have valueKeeps :=
        inferExpr_keepsTo valueRun valueOpened.scene valueOpened.expectedWithin
      obtain ⟨valueRecords, valueShows⟩ :=
        inferExpr_records valueRun valueBlank valueOpened
          ((inferPlace_grows targetRun).clean clean)
      have valueNarrowed :=
        valueOpened.narrow (inferExpr_grows valueRun) valueRecords.book
          valueKeeps.within Ty.within_bool
      obtain ⟨targetRecords, targetShown⟩ :=
        inferPlace_records targetRun targetBlank (valueNarrowed.draw 0) clean
      rw [Substitution.apply_append] at valueValue targetValue
      rw [valueKeeps.within.apply_unseen (Nat.le_refl _)] at targetValue
      have valueGood :=
        (valueShows.valueGood false rfl (Substitution.not_void_of_apply valueValue)
          fun _ => opened.scene.unseen_next 0).mono targetRecords.of_draw.vouches
      have both := (valueRecords.append targetRecords.of_draw).of_draw.swap
      exact (both.addValue valueGood).addValue
        (.of_shown rfl targetShown targetValue)
  | call callRun =>
      obtain ⟨argsBlank, slotBlank, _⟩ :=
        Call.parts_of_blank (Stmt.call.inj blank)
      obtain ⟨records, _⟩ :=
        inferCall_records callRun argsBlank slotBlank (opened.draw 0) clean
      exact records.of_draw
  | returnValue valueRun isValue asked =>
      obtain ⟨_, rfl⟩ := unifyOrReport_clean asked clean
      have valueBlank := Option.some.inj (Stmt.ret.inj blank).1
      obtain ⟨valueRecords, valueShows⟩ :=
        inferExpr_records valueRun valueBlank (opened.draw 0) clean
      exact valueRecords.of_draw.addValue
        (valueShows.valueGood false rfl isValue fun _ => opened.scene.unseen_next 0)
  | returnNothing asked =>
      obtain ⟨_, rfl⟩ := unifyOrReport_clean asked clean
      exact .refl opened.book
termination_by structural stmt

/-- Statements record their parts one after the other. -/
theorem inferBlock_records
    {taken : List PendingCall}
    {stmts stmts' : List Stmt}
    {context : Context}
    {expected : Ty}
    {found : Substitution}
    {before after : State}
    (run :
      Runs (inferBlock stmts context expected) before (stmts', found) after)
    (blank : Stmt.erasedAll .slots stmts = stmts)
    (opened : Opened taken before context expected)
    (clean : after.Clean) :
    Records taken before after (Stmt.callsAll stmts')
      (Stmt.valuesAll stmts') := by
  cases stmts with
  | nil =>
      obtain ⟨rfl, _, rfl⟩ := runs_inferBlock_nil run
      exact .refl opened.book
  | cons stmt rest =>
      obtain ⟨_, _, _, _, _, stmtRun, restRun, rfl, _⟩ :=
        runs_inferBlock_cons run
      obtain ⟨stmtBlank, restBlank⟩ := List.cons.inj blank
      have stmtGrows := inferStmt_grows stmtRun
      have stmtKeeps :=
        inferStmt_keepsTo stmtRun opened.scene opened.expectedWithin
      have stmtRecords :=
        inferStmt_records stmtRun stmtBlank opened
          ((inferBlock_grows restRun).clean clean)
      have restRecords :=
        inferBlock_records restRun restBlank
          (opened.narrow stmtGrows stmtRecords.book stmtKeeps.within
            (stmtKeeps.within.apply (opened.expectedWithin.grow stmtGrows)))
          clean
      exact stmtRecords.append restRecords
termination_by structural stmts

end

end SplTyping
