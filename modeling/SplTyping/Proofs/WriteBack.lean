import SplTyping.Proofs.Drafts

namespace SplTyping

/-!
# Writing back fills slots only

When inference is over, each checked copy takes the place of the call with its
number, and the copies that belong inside of it take their places there. Since
what stands inside of a copy has greater numbers, this describes one final form
for each number. The copies are found by number and taken away one by one; as no
number stands in two places, every copy ends up at the call that was set aside
under its number, and none is left over. A call whose callee is never declared
stays as it was set aside.
-/

/-- What becomes of numbered calls if copies are put in `depth` deep. -/
def Outcome.deep (copies : ResolvedCalls) (ty : Ty → Ty) : Nat → Outcome
  | 0 => { call := fun _ => none, ty }
  | depth + 1 =>
      { call := fun id =>
          (copies.get? id).map (Call.innerUnder (Outcome.deep copies ty depth))
        ty }

theorem Outcome.deep_ty
    (copies : ResolvedCalls)
    (ty : Ty → Ty)
    (depth : Nat) :
    (Outcome.deep copies ty depth).ty = ty := by
  cases depth <;> rfl

/-- An outcome in which each copy takes its place, with its own parts finished. -/
structure Outcome.Finishes
    (outcome : Outcome)
    (copies : ResolvedCalls)
    (ty : Ty → Ty) :
    Prop where
  ty : outcome.ty = ty
  call :
    ∀ id, outcome.call id = (copies.get? id).map (Call.innerUnder outcome)

/-- What stands inside of copies is bare and has greater numbers than they. -/
structure CopiesNest (copies : ResolvedCalls) (bound : CallId) : Prop where
  bounded : ∀ id copy, copies.get? id = some copy → id < bound
  bare : ∀ call ∈ copies.numbered, Expr.numberedAll call.args = []
  later :
    ∀ id copy, copies.get? id = some copy →
      ∀ call ∈ Expr.numberedAll copy.args,
        call ∈ copies.numbered ∧ ∀ inner ∈ call.waiting, id < inner

/-- Copies can be followed inwards: their numbers grow, and there is a greatest. -/
theorem CopiesNest.inward
    {copies : ResolvedCalls}
    {bound : CallId}
    {motive : CallId → Prop}
    (nest : CopiesNest copies bound)
    (step :
      ∀ id,
        (∀ copy, copies.get? id = some copy →
          ∀ call ∈ Expr.numberedAll copy.args, ∀ inner ∈ call.waiting,
            motive inner) →
          motive id)
    (id : CallId) :
    motive id := by
  have byRemaining (remaining : Nat) :
      ∀ id, bound ≤ remaining + id → motive id := by
    induction remaining with
    | zero =>
        intro id isPast
        rw [Nat.zero_add] at isPast
        exact step id fun copy found =>
          absurd (nest.bounded id copy found) (Nat.not_lt.mpr isPast)
    | succ remaining inductionHypothesis =>
        intro id isNear
        refine step id fun copy found call isInner inner isNumber =>
          inductionHypothesis inner ?_
        have isLater : id + 1 ≤ inner :=
          (nest.later id copy found call isInner).2 inner isNumber
        rw [Nat.add_right_comm, Nat.add_assoc] at isNear
        exact Nat.le_trans isNear (Nat.add_le_add_left isLater _)
  exact byRemaining bound id (Nat.le_add_right _ _)

/-- Going deeper changes nothing once the numbers are used up. -/
theorem CopiesNest.deep_call
    {copies : ResolvedCalls}
    {bound : CallId}
    (nest : CopiesNest copies bound)
    (ty : Ty → Ty)
    (id : CallId) :
    ∀ depth : Nat, bound ≤ depth + id →
      (Outcome.deep copies ty (depth + 1)).call id =
        (Outcome.deep copies ty depth).call id := by
  induction id using nest.inward with | step id inner
  intro depth isDeep
  cases found : copies.get? id with
  | none => cases depth <;> simp [Outcome.deep, found]
  | some copy =>
      cases depth with
      | zero =>
          rw [Nat.zero_add] at isDeep
          exact absurd (nest.bounded id copy found) (Nat.not_lt.mpr isDeep)
      | succ depth =>
          have agree :
              (Outcome.deep copies ty (depth + 1)).AgreeOn
                (Outcome.deep copies ty depth) (Expr.numberedAll copy.args) :=
            { ty := (Outcome.deep_ty _ _ _).trans (Outcome.deep_ty _ _ _).symm
              bare := fun call isInner =>
                nest.bare call (nest.later id copy found call isInner).1
              call := fun call isInner number isNumber =>
                inner copy found call isInner number isNumber depth <| by
                  have isLater : id + 1 ≤ number :=
                    (nest.later id copy found call isInner).2 number isNumber
                  rw [Nat.add_right_comm, Nat.add_assoc] at isDeep
                  exact Nat.le_trans isDeep (Nat.add_le_add_left isLater _) }
          simp only [Outcome.deep, found, Option.map_some]
          exact congrArg some (copy.innerUnder_congr agree)

/-- Copies that nest have final forms. -/
theorem CopiesNest.exists_finishes
    {copies : ResolvedCalls}
    {bound : CallId}
    (nest : CopiesNest copies bound)
    (ty : Ty → Ty) :
    ∃ outcome : Outcome, outcome.Finishes copies ty := by
  refine ⟨Outcome.deep copies ty bound, Outcome.deep_ty _ _ _, fun id => ?_⟩
  exact (nest.deep_call ty id bound (Nat.le_add_right _ _)).symm

section Tables

variable {κ α : Type} [DecidableEq κ] {table : Table κ α}

/-- Erasing a key takes its entry away. -/
theorem Table.perm_erase
    {key : κ}
    (distinct : table.keys.Nodup)
    (isKey : key ∈ table.keys) :
    ∃ value,
      table.get? key = some value ∧
        table.entries.Perm ((key, value) :: (table.erase key).entries) := by
  obtain ⟨entries⟩ := table
  simp only [get?, erase, keys] at distinct isKey ⊢
  induction entries with
  | nil => cases isKey
  | cons entry rest inductionHypothesis =>
      obtain ⟨entryKey, entryValue⟩ := entry
      obtain ⟨notInRest, restDistinct⟩ := List.nodup_cons.mp distinct
      by_cases isEntry : entryKey = key
      · subst isEntry
        refine ⟨entryValue, by simp [lookup?], ?_⟩
        rw [List.filter_cons_of_neg (by simp), List.filter_eq_self.mpr]
        intro other isOther
        have differs : other.1 ≠ entryKey := fun same =>
          notInRest (List.mem_map.mpr ⟨other, isOther, same⟩)
        simpa using differs
      · have inRest : key ∈ rest.map Prod.fst := by
          rcases List.mem_cons.mp isKey with same | inRest
          · exact absurd same.symm isEntry
          · exact inRest
        obtain ⟨value, found, perm⟩ := inductionHypothesis restDistinct inRest
        refine ⟨value, by simpa [lookup?, isEntry] using found, ?_⟩
        rw [List.filter_cons_of_pos (by simpa using isEntry)]
        exact (perm.cons _).trans (.swap _ _ _)

/-- A value that is found stands in the table. -/
theorem Table.mem_of_get?
    {key : κ}
    {value : α}
    (found : table.get? key = some value) :
    (key, value) ∈ table.entries := by
  obtain ⟨entries⟩ := table
  simp only [get?] at found ⊢
  induction entries with
  | nil => cases found
  | cons entry rest inductionHypothesis =>
      by_cases isEntry : entry.1 = key
      · rw [lookup?, if_pos isEntry, Option.some.injEq] at found
        rw [← isEntry, ← found]
        exact List.mem_cons_self
      · rw [lookup?, if_neg isEntry] at found
        exact List.mem_cons_of_mem _ (inductionHypothesis found)

/-- What is not a key has no value. -/
theorem Table.get?_of_not_mem
    {key : κ}
    (unused : key ∉ table.keys) :
    table.get? key = none := by
  cases found : table.get? key with
  | none => rfl
  | some value =>
      exact absurd (List.mem_map.mpr ⟨_, mem_of_get? found, rfl⟩) unused

/-- If no key stands twice, every entry is found. -/
theorem Table.get?_of_mem
    {entry : κ × α}
    (distinct : table.keys.Nodup)
    (isEntry : entry ∈ table.entries) :
    table.get? entry.1 = some entry.2 := by
  obtain ⟨value, found, perm⟩ :=
    perm_erase distinct (List.mem_map.mpr ⟨entry, isEntry, rfl⟩)
  rcases List.mem_cons.mp (perm.mem_iff.mp isEntry) with same | isLeft
  · rw [found, same]
  · exact absurd (List.mem_filter.mp isLeft).2 (by simp)

end Tables

/--
The copies finish some calls that are owed and those inside of the copies: they
have the final forms of these calls, each copy is for one of them, and calls
without a copy are left as they are.
-/
structure Supplies
    (outcome : Outcome)
    (copies : ResolvedCalls)
    (owed : List Call) :
    Prop where
  keys : copies.keys.Nodup
  distinct : ((owed ++ copies.numbered).map Call.waiting).Nodup
  finals :
    ∀ entry ∈ copies.entries,
      outcome.call entry.1 = some (entry.2.innerUnder outcome)
  lost :
    ∀ call ∈ owed ++ copies.numbered, ∀ id ∈ call.waiting, id ∉ copies.keys →
      outcome.call id = none ∧ Expr.numberedAll call.args = []
  needed :
    ∀ id ∈ copies.keys, some id ∈ (owed ++ copies.numbered).map Call.waiting
  later :
    ∀ entry ∈ copies.entries, ∀ call ∈ Expr.numberedAll entry.2.args,
      ∀ id ∈ call.waiting, entry.1 < id

namespace Supplies

variable {outcome : Outcome} {copies : ResolvedCalls} {owed : List Call}
variable {call : Call} {id : CallId}

/-- A call that is owed finds its copy; what is inside the copy is owed then. -/
theorem take
    (supplies : Supplies outcome copies (call :: owed))
    (isNumber : call.waiting = some id)
    (isKey : id ∈ copies.keys) :
    ∃ copy,
      copies.get? id = some copy ∧
        outcome.call id = some (copy.innerUnder outcome) ∧
        Supplies outcome (copies.erase id)
          (Expr.numberedAll copy.args ++ owed) ∧
        (copies.erase id).size < copies.size := by
  obtain ⟨copy, found, perm⟩ := Table.perm_erase supplies.keys isKey
  have keysPerm : copies.keys.Perm (id :: (copies.erase id).keys) :=
    perm.map Prod.fst
  have isEntry : (id, copy) ∈ copies.entries :=
    perm.mem_iff.mpr List.mem_cons_self
  have entryLeft
      (entry : CallId × Call)
      (isLeft : entry ∈ (copies.erase id).entries) :
      entry ∈ copies.entries :=
    perm.mem_iff.mpr (List.mem_cons_of_mem _ isLeft)
  have numberedPerm :
      copies.numbered.Perm
        (Expr.numberedAll copy.args ++ (copies.erase id).numbered) :=
    perm.flatMap_right _
  have restPerm :
      (owed ++ copies.numbered).Perm
        (Expr.numberedAll copy.args ++ owed ++ (copies.erase id).numbered) := by
    refine (numberedPerm.append_left _).trans ?_
    rw [← List.append_assoc]
    exact List.perm_append_comm.append_right _
  obtain ⟨notAgain, restDistinct⟩ := List.nodup_cons.mp supplies.distinct
  rw [isNumber] at notAgain
  obtain ⟨notLeft, leftDistinct⟩ :=
    List.nodup_cons.mp (keysPerm.nodup_iff.mp supplies.keys)
  refine ⟨copy, found, supplies.finals _ isEntry, ?_, ?_⟩
  · constructor
    · exact leftDistinct
    · exact (restPerm.map _).nodup_iff.mp restDistinct
    · exact fun entry isLeft => supplies.finals entry (entryLeft entry isLeft)
    · intro other isOwed number otherNumber notKey
      refine supplies.lost other
        (List.mem_cons_of_mem _ (restPerm.mem_iff.mpr isOwed)) number
        otherNumber fun wasKey => ?_
      rcases List.mem_cons.mp (keysPerm.mem_iff.mp wasKey) with rfl | isLeft
      · exact notAgain
          (List.mem_map.mpr ⟨other, restPerm.mem_iff.mpr isOwed, otherNumber⟩)
      · exact notKey isLeft
    · intro number isLeft
      have wasNeeded :=
        supplies.needed number
          (keysPerm.mem_iff.mpr (List.mem_cons_of_mem _ isLeft))
      rcases List.mem_cons.mp wasNeeded with isCall | isRest
      · rw [isNumber] at isCall
        rw [Option.some.inj isCall] at isLeft
        exact absurd isLeft notLeft
      · exact (restPerm.map _).mem_iff.mp isRest
    · exact fun entry isLeft => supplies.later entry (entryLeft entry isLeft)
  · rw [Table.size, Table.size, perm.length_eq, List.length_cons]
    exact Nat.lt_succ_self _

/-- A call without a copy has no final form but its own. -/
theorem skip
    (supplies : Supplies outcome copies (call :: owed))
    (isNumber : call.waiting = some id)
    (notKey : id ∉ copies.keys) :
    outcome.call id = none ∧ Expr.numberedAll call.args = [] ∧
      Supplies outcome copies owed := by
  obtain ⟨noFinal, noneInside⟩ :=
    supplies.lost call List.mem_cons_self id isNumber notKey
  refine ⟨noFinal, noneInside, supplies.keys,
    (List.nodup_cons.mp supplies.distinct).2, supplies.finals, ?_, ?_,
    supplies.later⟩
  · exact fun other isOwed => supplies.lost other (List.mem_cons_of_mem _ isOwed)
  · intro number isKey
    rcases List.mem_cons.mp (supplies.needed number isKey) with isCall | isRest
    · rw [isNumber] at isCall
      rw [Option.some.inj isCall] at isKey
      exact absurd isKey notKey
    · exact isRest

/-- If nothing is owed, no copy is left: it would stand inside another one. -/
theorem nothing_left
    (supplies : Supplies outcome copies []) :
    copies.entries = [] := by
  have noKey (id : CallId) : id ∉ copies.keys := by
    induction id using Nat.strongRecOn with
    | ind id inductionHypothesis =>
        intro isKey
        obtain ⟨call, isInner, isNumber⟩ :=
          List.mem_map.mp (supplies.needed id isKey)
        obtain ⟨entry, isEntry, inEntry⟩ := List.mem_flatMap.mp isInner
        exact inductionHypothesis entry.1
          (supplies.later entry isEntry call inEntry id isNumber)
          (List.mem_map.mpr ⟨entry, isEntry, rfl⟩)
  exact List.eq_nil_iff_forall_not_mem.mpr fun entry isEntry =>
    noKey entry.1 (List.mem_map.mpr ⟨entry, isEntry, rfl⟩)

end Supplies

/--
Started with at most `depth` copies that supply some calls and others, a step
uses up those for these calls, returns what is asked and leaves copies that
supply the others.
-/
def Fills
    {α : Type}
    (outcome : Outcome)
    (depth : Nat)
    (calls : List Call)
    (step : SettleM α)
    (post : α → Prop) :
    Prop :=
  ∀ copies owed, Supplies outcome copies (calls ++ owed) →
    copies.size ≤ depth →
      post (step.run copies).1 ∧ Supplies outcome (step.run copies).2 owed ∧
        (step.run copies).2.size ≤ copies.size

namespace Fills

variable {α β : Type} {outcome : Outcome} {depth : Nat} {calls more : List Call}

theorem pure
    {value : α}
    {post : α → Prop}
    (holds : post value) :
    Fills outcome depth [] (Pure.pure value) post :=
  fun _ _ supplies _ => ⟨holds, supplies, Nat.le_refl _⟩

/-- What the second step finds is what the first one has left. -/
theorem bind
    {step : SettleM α}
    {next : α → SettleM β}
    {middle : α → Prop}
    {post : β → Prop}
    (first : Fills outcome depth calls step middle)
    (second :
      ∀ value, middle value → Fills outcome depth more (next value) post) :
    Fills outcome depth (calls ++ more) (step >>= next) post := by
  intro copies owed supplies isBelow
  rw [List.append_assoc] at supplies
  obtain ⟨holds, left, fewer⟩ := first copies _ supplies isBelow
  obtain ⟨done, rest, stillFewer⟩ :=
    second _ holds _ owed left (Nat.le_trans fewer isBelow)
  exact ⟨done, rest, Nat.le_trans stillFewer fewer⟩

/-- A step whose result is wrapped. -/
theorem wrap
    {step : SettleM α}
    {wrapped : α → β}
    {middle : α → Prop}
    {post : β → Prop}
    (first : Fills outcome depth calls step middle)
    (holds : ∀ value, middle value → post (wrapped value)) :
    Fills outcome depth calls (step >>= fun value => Pure.pure (wrapped value))
      post := by
  have both := first.bind fun value isMiddle => pure (holds value isMiddle)
  rwa [List.append_nil] at both

/-- Results that look as they should, one by one. -/
theorem mapM
    {γ : Type}
    {step : α → SettleM β}
    {callsOf : α → List Call}
    {view : β → γ}
    {target : α → γ}
    (items : List α)
    (each :
      ∀ item,
        Fills outcome depth (callsOf item) (step item) fun result =>
          view result = target item) :
    Fills outcome depth (items.flatMap callsOf) (items.mapM step) fun results =>
      results.map view = items.map target := by
  induction items with
  | nil => exact .pure rfl
  | cons item rest inductionHypothesis =>
      rw [List.mapM_cons]
      exact (each item).bind fun _ isItem =>
        inductionHypothesis.wrap fun _ isRest =>
          congr (congrArg List.cons isItem) isRest

end Fills

/-- A way to go on inside of copies that finishes them. -/
def EntersUnder
    (outcome : Outcome)
    (depth : Nat)
    (enter : Call → SettleM Call) :
    Prop :=
  ∀ copy, ∀ fewer < depth,
    Fills outcome fewer (Expr.numberedAll copy.args) (enter copy)
      fun copy' => copy'.mapTypes outcome.ty = copy.innerUnder outcome

/-- A copy that is there is taken away. -/
theorem takeCopy_run
    {copies : ResolvedCalls}
    {id : CallId}
    {copy : Call}
    (found : copies.get? id = some copy) :
    (takeCopy (some id)).run copies = (some copy, copies.erase id) := by
  simp only [takeCopy, StateT.run_bind, StateT.run_get, pure_bind, found]
  rfl

section Settling

variable {outcome : Outcome} {depth : Nat} {enter : Call → SettleM Call}

/-- The copy of a call takes its place, or the call is left if it has none. -/
theorem Call.settle_numbered
    (enters : EntersUnder outcome depth enter)
    (callee : Name)
    (args : List Expr)
    (mark : Mark)
    (id : CallId)
    (argsSettle :
      Fills outcome depth (Expr.numberedAll args)
        (Expr.settleAll enter args) fun args' =>
          Expr.mapTypesAll outcome.ty args' = Expr.underAll outcome args) :
    Fills outcome depth [⟨callee, args, mark, some id⟩]
      (Call.settle enter ⟨callee, args, mark, some id⟩) fun call' =>
        call'.mapTypes outcome.ty =
          Call.under outcome ⟨callee, args, mark, some id⟩ := by
  intro copies owed supplies isBelow
  by_cases isKey : id ∈ copies.keys
  · obtain ⟨copy, found, isFinal, left, fewer⟩ := supplies.take rfl isKey
    have run :
        (Call.settle enter ⟨callee, args, mark, some id⟩).run copies =
          (enter copy).run (copies.erase id) := by
      simp only [Call.settle, StateT.run_bind, takeCopy_run found]
      rfl
    rw [run]
    obtain ⟨finished, rest, stillFewer⟩ :=
      enters copy _ (Nat.lt_of_lt_of_le fewer isBelow) _ owed left
        (Nat.le_refl _)
    refine ⟨finished.trans ?_, rest,
      Nat.le_trans stillFewer (Nat.le_of_lt fewer)⟩
    rw [Call.under, Option.bind_some, isFinal, Option.getD_some]
  · obtain ⟨noFinal, noneInside, left⟩ := supplies.skip rfl isKey
    have notFound := Table.get?_of_not_mem isKey
    have run :
        (Call.settle enter ⟨callee, args, mark, some id⟩).run copies =
          StateT.run
            (do
              let args ← Expr.settleAll enter args
              return (⟨callee, args, mark, some id⟩ : Call))
            copies := by
      simp only [Call.settle, takeCopy, StateT.run_bind, StateT.run_get,
        pure_bind, notFound, StateT.run_pure]
    rw [run]
    rw [show Expr.numberedAll args = [] from noneInside] at argsSettle
    obtain ⟨finished, rest, fewer⟩ := argsSettle copies owed left isBelow
    refine ⟨?_, rest, fewer⟩
    rw [Call.under, Option.bind_some, noFinal, Option.getD_none, ← finished]
    rfl

mutual

/--
With copies put in and types applied, an expression is what the outcome makes of
it.
-/
theorem Expr.settle_under
    (enters : EntersUnder outcome depth enter)
    (expr : Expr) :
    Fills outcome depth expr.numbered (expr.settle enter)
      fun expr' => expr'.mapTypes outcome.ty = expr.under outcome := by
  cases expr with
  | int | bool | char | nil => exact .pure rfl
  | read place =>
      exact (Place.settle_under enters place).wrap fun _ settled =>
        congrArg Expr.read settled
  | pair first second | range first second | binary _ first second =>
      exact (Expr.settle_under enters first).bind fun _ firstSettled =>
        (Expr.settle_under enters second).wrap fun _ secondSettled => by
          rw [Expr.mapTypes, Expr.under, firstSettled, secondSettled]
  | unary _ operand =>
      exact (Expr.settle_under enters operand).wrap fun _ settled => by
        rw [Expr.mapTypes, Expr.under, settled]
  | call made =>
      exact (Call.settle_under enters made).wrap fun _ settled =>
        congrArg Expr.call settled
termination_by structural expr

theorem Place.settle_under
    (enters : EntersUnder outcome depth enter)
    (place : Place) :
    Fills outcome depth place.numbered (place.settle enter)
      fun place' => place'.mapTypes outcome.ty = place.under outcome := by
  rcases place with ⟨name, fields, mark⟩
  exact (Field.settleAll_under enters fields).wrap fun _ settled => by
    rw [Place.mapTypes, Place.under, settled]
termination_by structural place

theorem Field.settle_under
    (enters : EntersUnder outcome depth enter)
    (field : Field) :
    Fills outcome depth field.numbered (field.settle enter)
      fun field' => field'.mapTypes outcome.ty = field.under outcome := by
  cases field with
  | hd | tl | fst | snd => exact .pure rfl
  | index position =>
      exact (Expr.settle_under enters position).wrap fun _ settled =>
        congrArg Field.index settled
termination_by structural field

theorem Field.settleAll_under
    (enters : EntersUnder outcome depth enter)
    (fields : List Field) :
    Fills outcome depth (Field.numberedAll fields)
      (Field.settleAll enter fields) fun fields' =>
        Field.mapTypesAll outcome.ty fields' =
          Field.underAll outcome fields := by
  cases fields with
  | nil => exact .pure rfl
  | cons field rest =>
      exact (Field.settle_under enters field).bind fun _ fieldSettled =>
        (Field.settleAll_under enters rest).wrap fun _ restSettled => by
          rw [Field.mapTypesAll, Field.underAll, fieldSettled, restSettled]
termination_by structural fields

/--
With copies put in and types applied, a call is what the outcome makes of it.
-/
theorem Call.settle_under
    (enters : EntersUnder outcome depth enter)
    (call : Call) :
    Fills outcome depth call.numbered (call.settle enter)
      fun call' => call'.mapTypes outcome.ty = call.under outcome := by
  rcases call with ⟨callee, args, mark, waiting⟩
  have argsSettle := Expr.settleAll_under enters args
  cases waiting with
  | some id =>
      rw [Call.numbered]
      exact Call.settle_numbered enters callee args mark id argsSettle
  | none =>
      rw [Call.numbered]
      have settled :
          Fills outcome depth (Expr.numberedAll args)
            (Expr.settleAll enter args >>= fun args' =>
              pure (Call.mk callee args' mark none))
            fun call' =>
              call'.mapTypes outcome.ty =
                Call.under outcome ⟨callee, args, mark, none⟩ :=
        argsSettle.wrap fun _ isSettled => by
          rw [Call.mapTypes, Call.under, isSettled]
          rfl
      exact settled
termination_by structural call

theorem Expr.settleAll_under
    (enters : EntersUnder outcome depth enter)
    (exprs : List Expr) :
    Fills outcome depth (Expr.numberedAll exprs)
      (Expr.settleAll enter exprs) fun exprs' =>
        Expr.mapTypesAll outcome.ty exprs' = Expr.underAll outcome exprs := by
  cases exprs with
  | nil => exact .pure rfl
  | cons expr rest =>
      exact (Expr.settle_under enters expr).bind fun _ exprSettled =>
        (Expr.settleAll_under enters rest).wrap fun _ restSettled => by
          rw [Expr.mapTypesAll, Expr.underAll, exprSettled, restSettled]
termination_by structural exprs

end

/-- Copies are finished however deep they stand inside one another. -/
theorem Call.settleArgs_entersUnder (depth : Nat) :
    EntersUnder outcome depth (Call.settleArgs depth) := by
  induction depth with
  | zero => exact fun _ _ isBelow => absurd isBelow (Nat.not_lt_zero _)
  | succ depth inductionHypothesis =>
      rintro ⟨callee, args, mark, waiting⟩ fewer isBelow
      -- Inside of a copy at least one copy less is left than outside.
      have enters : EntersUnder outcome fewer (Call.settleArgs depth) :=
        fun copy smaller isSmaller =>
          inductionHypothesis copy smaller
            (Nat.lt_of_lt_of_le isSmaller (Nat.le_of_lt_succ isBelow))
      exact (Expr.settleAll_under enters args).wrap fun _ settled => by
        rw [Call.mapTypes, Call.innerUnder, settled]

mutual

/--
With copies put in and types applied, a statement is what the outcome makes of
it.
-/
theorem Stmt.settle_under
    (enters : EntersUnder outcome depth enter)
    (stmt : Stmt) :
    Fills outcome depth stmt.numbered (stmt.settle enter)
      fun stmt' => stmt'.mapTypes outcome.ty = stmt.under outcome := by
  match stmt with
  | .ifElse condition thenBody elseBody _ =>
      exact (condition.settle_under enters).bind fun _ conditionSettled =>
        (Stmt.settleAll_under enters thenBody).bind fun _ thenSettled =>
          (Stmt.settleAll_under enters elseBody).wrap fun _ elseSettled => by
            rw [Stmt.mapTypes, Stmt.under, conditionSettled, thenSettled,
              elseSettled]
  | .whileDo head body _ | .forIn _ head body _ =>
      exact (head.settle_under enters).bind fun _ headSettled =>
        (Stmt.settleAll_under enters body).wrap fun _ bodySettled => by
          rw [Stmt.mapTypes, Stmt.under, headSettled, bodySettled]
  | .assign target value _ =>
      exact (target.settle_under enters).bind fun _ targetSettled =>
        (value.settle_under enters).wrap fun _ valueSettled => by
          rw [Stmt.mapTypes, Stmt.under, targetSettled, valueSettled]
  | .call made =>
      exact (made.settle_under enters).wrap fun _ settled =>
        congrArg Stmt.call settled
  | .ret none _ => exact .pure rfl
  | .ret (some value) _ =>
      exact (value.settle_under enters).wrap fun _ settled => by
        rw [Stmt.mapTypes, Stmt.under, Option.map_some, Option.map_some,
          settled]
termination_by structural stmt

theorem Stmt.settleAll_under
    (enters : EntersUnder outcome depth enter)
    (stmts : List Stmt) :
    Fills outcome depth (Stmt.numberedAll stmts)
      (Stmt.settleAll enter stmts) fun stmts' =>
        Stmt.mapTypesAll outcome.ty stmts' = Stmt.underAll outcome stmts := by
  cases stmts with
  | nil => exact .pure rfl
  | cons stmt rest =>
      exact (Stmt.settle_under enters stmt).bind fun _ stmtSettled =>
        (Stmt.settleAll_under enters rest).wrap fun _ restSettled => by
          rw [Stmt.mapTypesAll, Stmt.underAll, stmtSettled, restSettled]
termination_by structural stmts

end

/--
With copies put in and types applied, a declaration is what the outcome makes of
it.
-/
theorem VarDecl.settle_under
    (enters : EntersUnder outcome depth enter)
    (decl : VarDecl) :
    Fills outcome depth decl.numbered (decl.settle enter)
      fun decl' => decl'.mapTypes outcome.ty = decl.under outcome :=
  (decl.value.settle_under enters).wrap fun _ settled => by
    rw [VarDecl.mapTypes, VarDecl.under, settled]

theorem Decl.settle_under
    (enters : EntersUnder outcome depth enter)
    (decl : Decl) :
    Fills outcome depth decl.numbered (decl.settle enter)
      fun decl' => decl'.mapTypes outcome.ty = decl.under outcome := by
  cases decl with
  | var decl =>
      exact (decl.settle_under enters).wrap fun _ settled =>
        congrArg Decl.var settled
  | fn decl =>
      have localsSettle :=
        Fills.mapM decl.locals (VarDecl.settle_under enters)
      have declSettles :
          Fills outcome depth decl.numbered (decl.settle enter)
            fun decl' => decl'.mapTypes outcome.ty = decl.under outcome :=
        localsSettle.bind fun _ localsSettled =>
          (Stmt.settleAll_under enters decl.body).wrap fun _ bodySettled => by
            rw [FunDecl.mapTypes, FunDecl.under, localsSettled, bodySettled]
      exact declSettles.wrap fun _ settled => congrArg Decl.fn settled

end Settling

/-- Copies that supply a program finish it, and none of them is left. -/
theorem Program.writeBack_run
    {program : Program}
    {outcome : Outcome}
    {found : Substitution}
    {copies : ResolvedCalls}
    (supplies : Supplies outcome copies program.numbered)
    (sameTypes : outcome.ty = found.apply) :
    (program.writeBack found).run copies = (program.under outcome, .empty) := by
  have enters : EntersUnder outcome copies.size (Call.settleArgs copies.size) :=
    Call.settleArgs_entersUnder copies.size
  have declsSettle := Fills.mapM program.decls (Decl.settle_under enters)
  rw [← List.append_nil program.numbered] at supplies
  obtain ⟨finished, left, _⟩ := declsSettle copies [] supplies (Nat.le_refl _)
  rw [sameTypes] at finished
  exact Prod.ext (congrArg Program.mk finished)
    (congrArg Table.mk left.nothing_left)

/-- An outcome that keeps the arguments of a call keeps the call. -/
theorem Call.erased_innerUnder
    {outcome : Outcome}
    {erasure : Erasure}
    (call : Call)
    (keeps : outcome.Keeps erasure (Expr.numberedAll call.args)) :
    (call.innerUnder outcome).erased erasure = call.erased erasure := by
  simp only [Call.erased_eq, Call.innerUnder, Mark.erased_mapTypes,
    Expr.erasedAll_underAll call.args keeps]

namespace Drafts

variable {queued placed : List Call} {state : State}
variable {outcome : Outcome} {ty : Ty → Ty}

theorem numberedAll_eq_nil
    {call : Call}
    (drafts : Drafts queued placed state)
    (isPlaced : call ∈ placed ++ state.resolved.numbered) :
    Expr.numberedAll call.args = [] :=
  Expr.numberedAll_eq_nil call.args
    (drafts.bare call (drafts.nodes.mem_iff.mp isPlaced))

/-- Copies come from calls set aside earlier, so they nest. -/
theorem nest
    (drafts : Drafts queued placed state) :
    CopiesNest state.resolved state.pending.nextId where
  bounded := fun id copy found => by
    obtain ⟨call, isQueued, isNumber, _⟩ :=
      (drafts.copies _ (Table.mem_of_get? found)).original
    exact drafts.number_lt isQueued isNumber
  bare := fun call isNumbered =>
    drafts.numberedAll_eq_nil (List.mem_append_right _ isNumbered)
  later := fun id copy found call isInner => by
    have isEntry := Table.mem_of_get? found
    exact ⟨List.mem_flatMap.mpr ⟨_, isEntry, isInner⟩,
      (drafts.copies _ isEntry).later call isInner⟩

/-- The copies at the end are the final forms of the calls that were set aside. -/
theorem supplies
    (drafts : Drafts queued placed state)
    (keys : state.resolved.keys.Nodup)
    (finishes : outcome.Finishes state.resolved ty) :
    Supplies outcome state.resolved placed where
  keys := keys
  distinct := (drafts.nodes.map _).nodup_iff.mpr drafts.distinct
  finals := fun entry isEntry => by
    rw [finishes.call, Table.get?_of_mem keys isEntry, Option.map_some]
  lost := fun call isPlaced id _ notKey => by
    rw [finishes.call, Table.get?_of_not_mem notKey]
    exact ⟨rfl, drafts.numberedAll_eq_nil isPlaced⟩
  needed := fun id isKey => by
    obtain ⟨entry, isEntry, rfl⟩ := List.mem_map.mp isKey
    obtain ⟨call, isQueued, isNumber, _⟩ := (drafts.copies entry isEntry).original
    exact List.mem_map.mpr
      ⟨call, drafts.nodes.mem_iff.mpr isQueued, isNumber⟩
  later := fun entry isEntry => (drafts.copies entry isEntry).later

/-- A copy is made of the one call with its number. -/
theorem copy_erased
    {call copy : Call}
    {id : CallId}
    (drafts : Drafts queued placed state)
    (isPlaced : call ∈ placed ++ state.resolved.numbered)
    (isNumber : call.waiting = some id)
    (found : state.resolved.get? id = some copy) :
    copy.erased .slots = call.erased .slots := by
  obtain ⟨original, isQueued, sameNumber, sameErased⟩ :=
    (drafts.copies _ (Table.mem_of_get? found)).original
  have sameCall : original = call :=
    List.inj_on_of_nodup_map drafts.distinct isQueued
      (drafts.nodes.mem_iff.mp isPlaced) (sameNumber.trans isNumber.symm)
  rw [sameErased, sameCall]

/-- Final forms differ from the calls that were set aside in slots only. -/
theorem keeps
    (drafts : Drafts queued placed state)
    (finishes : outcome.Finishes state.resolved ty) :
    outcome.Keeps .slots (placed ++ state.resolved.numbered) := by
  have sameFinal (id : CallId) :
      ∀ call ∈ placed ++ state.resolved.numbered, call.waiting = some id →
        ∀ final ∈ outcome.call id,
          final.erased .slots = call.erased .slots := by
    induction id using drafts.nest.inward with | step id inner
    intro call isPlaced isNumber final isFinal
    rw [finishes.call] at isFinal
    obtain ⟨copy, found, rfl⟩ := Option.map_eq_some_iff.mp isFinal
    have keepsArgs : outcome.Keeps .slots (Expr.numberedAll copy.args) := by
      intro part isInner
      have isPlacedInner :=
        List.mem_append_right placed (drafts.nest.later id copy found part isInner).1
      exact ⟨drafts.numberedAll_eq_nil isPlacedInner, fun number isNumber =>
        inner copy found part isInner number isNumber part isPlacedInner isNumber⟩
    rw [← drafts.copy_erased isPlaced isNumber found]
    exact copy.erased_innerUnder keepsArgs
  exact fun call isPlaced =>
    ⟨drafts.numberedAll_eq_nil isPlaced, fun id isNumber =>
      sameFinal id call isPlaced isNumber⟩

end Drafts

/--
How an inferred program is written back: every number stands at one call of the
tree or of the copies, the copy with this number is made of this call, and it
takes the place of the call in the annotated tree.
-/
structure WrittenBack
    (inferred : Inferred)
    (outcome : Outcome)
    (annotated : Program) :
    Prop where
  numbers :
    ((inferred.program.numbered ++ inferred.state.resolved.numbered).map
        Call.waiting).Perm
      ((List.range inferred.state.pending.nextId).map some)
  originals :
    ∀ call ∈ inferred.program.numbered ++ inferred.state.resolved.numbered,
      ∀ id ∈ call.waiting, ∀ copy ∈ inferred.state.resolved.get? id,
        copy.erased .slots = call.erased .slots
  finishes :
    outcome.Finishes inferred.state.resolved inferred.found.apply
  tree : annotated = inferred.program.under outcome

/-- No call has two copies. -/
theorem Program.inferredState_keys (program : Program) :
    program.inferredState.resolved.keys.Nodup := by
  have distinct :=
    program.inferredState_accounts.ids.nodup_iff.mpr List.nodup_range
  exact (List.nodup_append.mp (List.nodup_append.mp distinct).1).1

/-- The tree that is returned is the one written back, errors or not. -/
theorem typeCheck_tree
    (program : Program)
    (source : String)
    (config : ReportConfig) :
    (typeCheck program source config).1 = program.infer.writeBack.1 :=
  rfl

section Program

variable {program : Program} {queued : List Call} {outcome : Outcome}

/-- Copies take the places of the calls set aside, and none of them is left. -/
theorem Program.infer_writeBack
    (drafts :
      Drafts queued program.infer.program.numbered program.inferredState)
    (finishes :
      outcome.Finishes program.inferredState.resolved
        program.infer.found.apply) :
    program.infer.writeBack = (program.infer.program.under outcome, .empty) :=
  Program.writeBack_run (drafts.supplies program.inferredState_keys finishes)
    finishes.ty

theorem Program.writeBack_erased
    (drafts :
      Drafts queued program.infer.program.numbered program.inferredState)
    (finishes :
      outcome.Finishes program.inferredState.resolved
        program.infer.found.apply) :
    program.infer.writeBack.1.erased .slots = program.erased .slots := by
  rw [Program.infer_writeBack drafts finishes,
    Program.erased_under (drafts.keeps finishes).of_append.1,
    Program.infer_erased]

end Program

/-- If no call carries a number yet, a check leaves all but the slots as it was. -/
theorem typeCheck_tree_erased
    {program : Program}
    (unstamped : ∀ call ∈ program.calls, call.waiting = none)
    (source : String)
    (config : ReportConfig) :
    (typeCheck program source config).1.erased .slots =
      program.erased .slots := by
  obtain ⟨queued, drafts⟩ := program.inferredState_drafts unstamped
  obtain ⟨outcome, finishes⟩ :=
    drafts.nest.exists_finishes program.infer.found.apply
  exact Program.writeBack_erased drafts finishes

/--
If no call of a program carries a number yet, then checking it fills slots only,
accepted or not: each checked copy ends up at the call that was set aside under
its number, no copy is left over, and all but the slots is as it was.
-/
theorem typeCheck_fills_slots
    {program : Program}
    (unstamped : ∀ call ∈ program.calls, call.waiting = none)
    (source : String)
    (config : ReportConfig) :
    (typeCheck program source config).1.erased .slots = program.erased .slots ∧
      program.infer.writeBack.2 = .empty ∧
      ∃ outcome,
        WrittenBack program.infer outcome
          (typeCheck program source config).1 := by
  obtain ⟨queued, drafts⟩ := program.inferredState_drafts unstamped
  obtain ⟨outcome, finishes⟩ :=
    drafts.nest.exists_finishes program.infer.found.apply
  have written := Program.infer_writeBack drafts finishes
  have numbers := drafts.nodes.map Call.waiting
  rw [drafts.numbers] at numbers
  refine ⟨typeCheck_tree_erased unstamped source config,
    congrArg Prod.snd written, outcome, numbers, ?_, finishes,
    congrArg Prod.fst written⟩
  exact fun call isPlaced id isNumber copy found =>
    drafts.copy_erased isPlaced isNumber found

/-- Calls three deep that wait, the innermost for a function that never comes. -/
def lostProgram : Program where
  decls :=
    [.fn (.ofBody "main" []
        [.call (.ofText "outer"
          [.call (.ofText "inner" [.call (.ofText "missing" [])])])]),
      .fn (.ofBody "outer" ["x"] [.ret none .unknown]),
      .fn (.ofBody "inner" ["y"] [.ret (some (.int 1 .blank)) .unknown])]

theorem lostProgram_filled :
    (∀ call ∈ lostProgram.calls, call.waiting = none) ∧
      (typeCheck lostProgram "" .plain).1.calls.map
          (fun call => (call.callee.text, call.waiting, call.mark.ty.isSome)) =
        [("outer", some 0, true), ("inner", some 1, true),
          ("missing", some 2, false)] ∧
      (typeCheck lostProgram "" .plain).1.erased .slots =
        lostProgram.erased .slots ∧
      lostProgram.infer.writeBack.2 = .empty ∧
      ∃ outcome,
        WrittenBack lostProgram.infer outcome
          (typeCheck lostProgram "" .plain).1 := by
  have unstamped : ∀ call ∈ lostProgram.calls, call.waiting = none := by
    have noNumbers : lostProgram.calls.map Call.waiting = [none, none, none] := by
      cbv
    intro call isCall
    have isNone : call.waiting ∈ lostProgram.calls.map Call.waiting :=
      List.mem_map_of_mem isCall
    rw [noNumbers] at isNone
    simpa using isNone
  refine ⟨unstamped, ?_, typeCheck_fills_slots unstamped "" .plain⟩
  rw [typeCheck_tree]
  cbv

end SplTyping
