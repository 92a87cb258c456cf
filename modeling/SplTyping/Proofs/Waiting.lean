import SplTyping.Proofs.Runs.Program

namespace SplTyping

/-!
# Calls that wait

A property of all waiting calls, seen with the callees they wait for, is kept by
everything that leaves them alone. Setting a call aside asks for the property of
that call; taking the calls of a function gives it for them, and leaves calls
that wait for other functions.
-/

/-- Every call that waits has a property, together with its callee. -/
def State.AllWaiting
    (property : String → PendingCall → Prop)
    (state : State) :
    Prop :=
  ∀ queue ∈ state.pending.queues, ∀ pending ∈ queue.calls,
    property queue.callee pending

namespace CallQueue

/-- A call in the queues was just added, or it was there before. -/
theorem mem_enqueue
    {callee : String}
    {added pending : PendingCall}
    {queues : List CallQueue}
    {queue : CallQueue}
    (inQueues : queue ∈ enqueue callee added queues)
    (inQueue : pending ∈ queue.calls) :
    (queue.callee = callee ∧ pending = added) ∨
      ∃ earlier ∈ queues,
        earlier.callee = queue.callee ∧ pending ∈ earlier.calls := by
  induction queues with
  | nil =>
      rw [enqueue, List.mem_singleton] at inQueues
      subst inQueues
      exact Or.inl ⟨rfl, List.mem_singleton.mp inQueue⟩
  | cons first rest inductionHypothesis =>
      rw [enqueue] at inQueues
      split at inQueues
      · rename_i sameCallee
        rcases List.mem_cons.mp inQueues with rfl | inRest
        · rcases List.mem_append.mp inQueue with inFirst | isAdded
          · exact Or.inr ⟨first, List.mem_cons_self, sameCallee, inFirst⟩
          · exact Or.inl ⟨rfl, List.mem_singleton.mp isAdded⟩
        · exact Or.inr ⟨queue, List.mem_cons_of_mem _ inRest, rfl, inQueue⟩
      · split at inQueues
        · rcases List.mem_cons.mp inQueues with rfl | inOld
          · exact Or.inl ⟨rfl, List.mem_singleton.mp inQueue⟩
          · exact Or.inr ⟨queue, inOld, rfl, inQueue⟩
        · rcases List.mem_cons.mp inQueues with rfl | inRest
          · exact Or.inr ⟨queue, List.mem_cons_self, rfl, inQueue⟩
          · rcases inductionHypothesis inRest with
              isAdded | ⟨earlier, isEarlier, same⟩
            · exact Or.inl isAdded
            · exact Or.inr
                ⟨earlier, List.mem_cons_of_mem _ isEarlier, same⟩

end CallQueue

namespace State.AllWaiting

variable {property other : String → PendingCall → Prop} {state after : State}

/--
What holds of all waiting calls may be weakened as long as they stay the same.
-/
theorem mono
    (all : state.AllWaiting property)
    (weakens :
      ∀ callee pending, property callee pending → other callee pending)
    (samePending : after.pending = state.pending) :
    after.AllWaiting other := by
  intro queue inQueues pending inQueue
  rw [samePending] at inQueues
  exact weakens _ _ (all queue inQueues pending inQueue)

/--
What holds of all waiting calls holds after one more is set aside with it.
-/
theorem setAside
    {call : Call}
    {context : Context}
    {expected : Ty}
    {guard : Option ValueGuard}
    (all : state.AllWaiting property)
    (added :
      property call.callee.text
        { id := state.pending.nextId
          call := { call with waiting := some state.pending.nextId }
          context
          expected
          guard }) :
    (state.setAside call context expected guard).AllWaiting property := by
  intro queue inQueues pending inQueue
  rcases CallQueue.mem_enqueue inQueues inQueue with
    ⟨isCallee, rfl⟩ | ⟨earlier, isEarlier, sameCallee, inEarlier⟩
  · rw [isCallee]
    exact added
  · rw [← sameCallee]
    exact all earlier isEarlier pending inEarlier

/-- What holds of all waiting calls holds of those that are taken. -/
theorem taken
    {function : String}
    {pending : PendingCall}
    (all : state.AllWaiting property)
    (isTaken : pending ∈ (state.pending.take function).1) :
    property function pending := by
  simp only [PendingCalls.take, List.partition_eq_filter_filter,
    List.mem_flatMap, List.mem_filter, decide_eq_true_eq] at isTaken
  obtain ⟨queue, ⟨inQueues, isFunction⟩, inQueue⟩ := isTaken
  rw [← isFunction]
  exact all queue inQueues pending inQueue

/-- After the calls of a function are taken, all others wait as before. -/
theorem without
    (all : state.AllWaiting property)
    (function : String) :
    (state.without function).AllWaiting fun callee pending =>
      property callee pending ∧ callee ≠ function := by
  intro queue inQueues pending inQueue
  simp only [State.without, PendingCalls.take,
    List.partition_eq_filter_filter, List.mem_filter, Function.comp_apply,
    Bool.not_eq_true', decide_eq_false_iff_not] at inQueues
  exact ⟨all queue inQueues.1 pending inQueue, inQueues.2⟩

end State.AllWaiting

end SplTyping
