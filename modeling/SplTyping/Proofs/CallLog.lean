import Mathlib.Data.String.Basic
import SplTyping.Calls.Pending

namespace SplTyping

/-!
# The log of waiting calls

The calls that wait are kept in one queue per callee. For whoever sets calls
aside and takes them back this is a plain list, in the order in which the calls
were set aside: taking the calls of a callee takes them out of the list, and
draining sorts the list by callee and empties it. `CallLog` is this list, and
`PendingCalls.serves_as_log` says that every sequence of requests is answered
alike by both. Numbers are given out in order, and each call comes back at most
once, as it was set aside.
-/

/-- What can be asked of waiting calls. -/
inductive QueueRequest where
  | defer
      (call : Call)
      (context : Context)
      (expected : Ty)
      (guard : Option ValueGuard)
  | take (callee : String)
  | drain

/-- What is answered to a request. -/
inductive QueueAnswer where
  /-- The call that was set aside, under its number. -/
  | deferred (call : Call)
  /-- Calls that do not wait any longer. -/
  | released (calls : List PendingCall)

namespace QueueAnswer

/-- The number that an answer gives to a call. -/
def number? : QueueAnswer → Option CallId
  | .deferred call => call.waiting
  | .released _ => none

/-- The calls that an answer gives back. -/
def calls : QueueAnswer → List PendingCall
  | .deferred _ => []
  | .released calls => calls

end QueueAnswer

/-- Requests are served one after the other. -/
def serveAll
    {σ : Type}
    (serve : QueueRequest → σ → QueueAnswer × σ) :
    List QueueRequest → σ → List QueueAnswer × σ
  | [], state => ([], state)
  | request :: rest, state =>
      let (answer, next) := serve request state
      let (answers, last) := serveAll serve rest next
      (answer :: answers, last)

/-- One request is served by the queues. -/
def PendingCalls.serve :
    QueueRequest → PendingCalls → QueueAnswer × PendingCalls
  | .defer call context expected guard, pending =>
      let (stamped, after) := pending.defer call context expected guard
      (.deferred stamped, after)
  | .take callee, pending =>
      let (taken, after) := pending.take callee
      (.released taken, after)
  | .drain, pending =>
      let (drained, after) := pending.drain
      (.released drained, after)

/-- The name of the function that a call waits for. -/
def PendingCall.callee (pending : PendingCall) : String :=
  pending.call.callee.text

/-- The calls that wait for one function. -/
def callsFor (callee : String) (calls : List PendingCall) : List PendingCall :=
  calls.filter fun pending => pending.callee = callee

/-- Calls sorted by callee; those of one callee keep their order. -/
def sortedByCallee (calls : List PendingCall) : List PendingCall :=
  calls.mergeSort fun first second => first.callee ≤ second.callee

/-- The waiting calls in the order in which they were set aside. -/
structure CallLog where
  calls : List PendingCall
  /-- How many calls have been set aside so far. -/
  count : Nat

namespace CallLog

/-- Nothing has been set aside. -/
def empty : CallLog where
  calls := []
  count := 0

/-- One request is served by the log. -/
def serve : QueueRequest → CallLog → QueueAnswer × CallLog
  | .defer call context expected guard, log =>
      let stamped : Call := { call with waiting := some log.count }
      (.deferred stamped,
        { calls := log.calls ++ [⟨log.count, stamped, context, expected, guard⟩]
          count := log.count + 1 })
  | .take callee, log =>
      (.released (callsFor callee log.calls),
        { log with
          calls := log.calls.filter fun pending => pending.callee ≠ callee })
  | .drain, log =>
      (.released (sortedByCallee log.calls), { log with calls := [] })

end CallLog

/-- The call that a request sets aside, if any, under a given number. -/
def QueueRequest.deferred (number : CallId) : QueueRequest → List PendingCall
  | .defer call context expected guard =>
      [⟨number, { call with waiting := some number }, context, expected, guard⟩]
  | .take _ | .drain => []

/-- The calls that requests set aside, numbered from `next` on. -/
def deferredFrom (next : CallId) : List QueueRequest → List PendingCall
  | [] => []
  | request :: rest =>
      let deferred := request.deferred next
      deferred ++ deferredFrom (next + deferred.length) rest

/-- The calls for a function are those among all calls that wait for it. -/
theorem mem_callsFor
    {callee : String}
    {calls : List PendingCall}
    {pending : PendingCall} :
    pending ∈ callsFor callee calls ↔
      pending ∈ calls ∧ pending.callee = callee := by
  simp only [callsFor, List.mem_filter, decide_eq_true_eq]

theorem callsFor_cons_same
    (first : PendingCall)
    (calls : List PendingCall) :
    callsFor first.callee (first :: calls) =
      first :: callsFor first.callee calls :=
  List.filter_cons_of_pos (decide_eq_true rfl)

theorem callsFor_cons_other
    {callee : String}
    {first : PendingCall}
    (isOther : first.callee ≠ callee)
    (calls : List PendingCall) :
    callsFor callee (first :: calls) = callsFor callee calls :=
  List.filter_cons_of_neg (by simpa using isOther)

/-- The calls for a function keep their order. -/
theorem callsFor_append
    (callee : String)
    (calls more : List PendingCall) :
    callsFor callee (calls ++ more) =
      callsFor callee calls ++ callsFor callee more :=
  List.filter_append ..

/-- If no call waits for a function, there are no calls for it. -/
theorem callsFor_eq_nil
    {callee : String}
    {calls : List PendingCall}
    (noneWaits : ∀ pending ∈ calls, pending.callee ≠ callee) :
    callsFor callee calls = [] :=
  List.filter_eq_nil_iff.mpr (by simpa using noneWaits)

/-- Two lists hold the same calls for every callee, in the same order. -/
def SameByCallee (calls others : List PendingCall) : Prop :=
  ∀ callee, callsFor callee calls = callsFor callee others

/-- Lists with the same calls for every callee have the same calls. -/
theorem SameByCallee.mem
    {calls others : List PendingCall}
    {pending : PendingCall}
    (same : SameByCallee calls others)
    (member : pending ∈ calls) :
    pending ∈ others := by
  have isFor : pending ∈ callsFor pending.callee calls :=
    mem_callsFor.mpr ⟨member, rfl⟩
  rw [same] at isFor
  exact (mem_callsFor.mp isFor).1

/-- The same calls may be chosen from both lists. -/
theorem SameByCallee.filter
    {calls others : List PendingCall}
    (same : SameByCallee calls others)
    (choose : PendingCall → Bool) :
    SameByCallee (calls.filter choose) (others.filter choose) := by
  intro callee
  have chosen := congrArg (List.filter choose) (same callee)
  rwa [callsFor, callsFor, List.filter_comm, List.filter_comm choose] at chosen

/-- Calls stand in the order of their callees. -/
def InCalleeOrder (calls : List PendingCall) : Prop :=
  calls.Pairwise fun first second => first.callee ≤ second.callee

/-- The first call in the order of callees waits for the least one. -/
theorem InCalleeOrder.head_le
    {first pending : PendingCall}
    {calls : List PendingCall}
    (ordered : InCalleeOrder (first :: calls))
    (member : pending ∈ first :: calls) :
    first.callee ≤ pending.callee := by
  rcases List.mem_cons.mp member with rfl | inRest
  · exact le_refl _
  · exact List.rel_of_pairwise_cons ordered inRest

/-- Ordered lists with the same calls for every callee are the same. -/
theorem InCalleeOrder.unique
    {calls others : List PendingCall}
    (ordered : InCalleeOrder calls)
    (othersOrdered : InCalleeOrder others)
    (same : SameByCallee calls others) :
    calls = others := by
  induction calls generalizing others with
  | nil =>
      cases others with
      | nil => rfl
      | cons other rest =>
          have noneFor := same other.callee
          rw [callsFor_cons_same] at noneFor
          cases noneFor
  | cons call calls inductionHypothesis =>
      cases others with
      | nil =>
          have noneFor := same call.callee
          rw [callsFor_cons_same] at noneFor
          cases noneFor
      | cons other others =>
          -- Both heads stand in both lists, so each has the least callee.
          have isLeast : call.callee ≤ other.callee :=
            ordered.head_le
              (SameByCallee.mem (fun callee => (same callee).symm)
                List.mem_cons_self)
          have otherLeast : other.callee ≤ call.callee :=
            othersOrdered.head_le (same.mem List.mem_cons_self)
          have sameCallee : other.callee = call.callee :=
            le_antisymm otherLeast isLeast
          have sameFor := same call.callee
          rw [callsFor_cons_same, ← sameCallee, callsFor_cons_same] at sameFor
          obtain ⟨rfl, sameRest⟩ := List.cons.inj sameFor
          have restSame : SameByCallee calls others := by
            intro callee
            by_cases isCallee : call.callee = callee
            · rw [← isCallee]
              exact sameRest
            · have sameOther := same callee
              rwa [callsFor_cons_other isCallee,
                callsFor_cons_other isCallee] at sameOther
          rw [inductionHypothesis (List.Pairwise.of_cons ordered)
            (List.Pairwise.of_cons othersOrdered) restSame]

section Sorting

private theorem calleeLe_trans (first second third : PendingCall) :
    decide (first.callee ≤ second.callee) = true →
      decide (second.callee ≤ third.callee) = true →
        decide (first.callee ≤ third.callee) = true := by
  simp only [decide_eq_true_eq]
  exact le_trans

private theorem calleeLe_total (first second : PendingCall) :
    (decide (first.callee ≤ second.callee) ||
      decide (second.callee ≤ first.callee)) = true := by
  simp only [Bool.or_eq_true, decide_eq_true_eq]
  exact le_total _ _

/-- Sorting puts calls into the order of their callees. -/
theorem sortedByCallee_ordered (calls : List PendingCall) :
    InCalleeOrder (sortedByCallee calls) := by
  have ordered := List.pairwise_mergeSort calleeLe_trans calleeLe_total calls
  simp only [decide_eq_true_eq] at ordered
  exact ordered

/-- The calls of one callee keep their order. -/
theorem sortedByCallee_stable (calls : List PendingCall) :
    SameByCallee (sortedByCallee calls) calls := by
  intro callee
  -- The sort keeps every sublist that is ordered already, and calls of one
  -- callee are.
  have isOrdered :
      (callsFor callee calls).Pairwise fun first second =>
        decide (first.callee ≤ second.callee) = true := by
    refine List.pairwise_of_forall_mem_list ?_
    intro first isFirst second isSecond
    rw [(mem_callsFor.mp isFirst).2, (mem_callsFor.mp isSecond).2]
    exact decide_eq_true (le_refl _)
  have isSublist : (callsFor callee calls).Sublist (sortedByCallee calls) :=
    List.sublist_mergeSort calleeLe_trans calleeLe_total isOrdered
      List.filter_sublist
  have ofCallee :
      (callsFor callee calls).Sublist
        (callsFor callee (sortedByCallee calls)) := by
    have filtered := isSublist.filter fun pending => pending.callee = callee
    simp only [callsFor, List.filter_filter, Bool.and_self] at filtered
    exact filtered
  have samePerm :
      (callsFor callee (sortedByCallee calls)).Perm (callsFor callee calls) :=
    (List.mergeSort_perm calls _).filter _
  exact (ofCallee.eq_of_length samePerm.length_eq.symm).symm

end Sorting

namespace CallQueue

/--
There is one queue for each callee that some call waits for, in the order of the
callees, and the calls in it wait for that callee.
-/
structure Filed (queues : List CallQueue) : Prop where
  ascending : queues.Pairwise fun first second => first.callee < second.callee
  nonempty : ∀ queue ∈ queues, queue.calls ≠ []
  own : ∀ queue ∈ queues, ∀ pending ∈ queue.calls, pending.callee = queue.callee

/-- A queue is as before, or its callee's with one more call at the end. -/
theorem mem_of_mem_enqueue
    {callee : String}
    {added : PendingCall}
    {queues : List CallQueue}
    {queue : CallQueue}
    (member : queue ∈ enqueue callee added queues) :
    queue ∈ queues ∨
      ∃ earlier,
        (earlier = [] ∨ ⟨callee, earlier⟩ ∈ queues) ∧
          queue = ⟨callee, earlier ++ [added]⟩ := by
  induction queues with
  | nil => exact Or.inr ⟨[], Or.inl rfl, List.mem_singleton.mp member⟩
  | cons first rest inductionHypothesis =>
      obtain ⟨firstCallee, firstCalls⟩ := first
      by_cases isFirst : firstCallee = callee
      · subst isFirst
        rw [enqueue, if_pos rfl] at member
        rcases List.mem_cons.mp member with isGrown | inRest
        · exact Or.inr ⟨firstCalls, Or.inr List.mem_cons_self, isGrown⟩
        · exact Or.inl (List.mem_cons_of_mem _ inRest)
      · by_cases isBefore : callee < firstCallee
        · rw [enqueue, if_neg isFirst, if_pos isBefore] at member
          rcases List.mem_cons.mp member with isNew | isOld
          · exact Or.inr ⟨[], Or.inl rfl, isNew⟩
          · exact Or.inl isOld
        · rw [enqueue, if_neg isFirst, if_neg isBefore] at member
          rcases List.mem_cons.mp member with rfl | inRest
          · exact Or.inl List.mem_cons_self
          · rcases inductionHypothesis inRest with
              isOld | ⟨earlier, isEarlier, isGrown⟩
            · exact Or.inl (List.mem_cons_of_mem _ isOld)
            · exact Or.inr ⟨earlier,
                isEarlier.imp_right (List.mem_cons_of_mem _), isGrown⟩

namespace Filed

variable {queues : List CallQueue}

/-- The queues behind the first one are filed. -/
theorem tail
    {first : CallQueue}
    (filed : Filed (first :: queues)) :
    Filed queues where
  ascending := filed.ascending.of_cons
  nonempty := fun queue member =>
    filed.nonempty queue (List.mem_cons_of_mem _ member)
  own := fun queue member =>
    filed.own queue (List.mem_cons_of_mem _ member)

/-- No call waits for a callee before those of the queues. -/
theorem callsFor_of_before
    {callee : String}
    (filed : Filed queues)
    (isBefore : ∀ queue ∈ queues, callee < queue.callee) :
    callsFor callee (queues.flatMap CallQueue.calls) = [] := by
  apply callsFor_eq_nil
  intro pending isPending
  obtain ⟨queue, isQueue, inQueue⟩ := List.mem_flatMap.mp isPending
  rw [filed.own queue isQueue pending inQueue]
  exact ne_of_gt (isBefore queue isQueue)

/-- A call is queued where the order of callees wants it. -/
theorem enqueue_ascending
    {callee : String}
    {added : PendingCall}
    (filed : Filed queues) :
    (enqueue callee added queues).Pairwise fun first second =>
      first.callee < second.callee := by
  induction queues with
  | nil => exact List.pairwise_singleton _ _
  | cons first rest inductionHypothesis =>
      obtain ⟨firstBefore, restAscending⟩ :=
        List.pairwise_cons.mp filed.ascending
      rw [enqueue]
      split_ifs with isFirst isBefore
      · rw [isFirst] at firstBefore
        exact List.pairwise_cons.mpr ⟨firstBefore, restAscending⟩
      · refine List.pairwise_cons.mpr ⟨?_, filed.ascending⟩
        intro queue member
        rcases List.mem_cons.mp member with rfl | inRest
        · exact isBefore
        · exact lt_trans isBefore (firstBefore queue inRest)
      · have isBehind : first.callee < callee :=
          lt_of_le_of_ne (not_lt.mp isBefore) isFirst
        refine List.pairwise_cons.mpr ⟨?_, inductionHypothesis filed.tail⟩
        intro queue member
        rcases mem_of_mem_enqueue member with isOld | ⟨_, _, rfl⟩
        · exact firstBefore queue isOld
        · exact isBehind

/-- Queues stay filed when a call is added. -/
theorem enqueue
    (filed : Filed queues)
    (added : PendingCall) :
    Filed (CallQueue.enqueue added.callee added queues) where
  ascending := filed.enqueue_ascending
  nonempty := by
    intro queue member
    rcases mem_of_mem_enqueue member with isOld | ⟨earlier, _, rfl⟩
    · exact filed.nonempty queue isOld
    · exact List.append_ne_nil_of_right_ne_nil _ (List.cons_ne_nil _ _)
  own := by
    intro queue member pending inQueue
    rcases mem_of_mem_enqueue member with isOld | ⟨earlier, isEarlier, rfl⟩
    · exact filed.own queue isOld pending inQueue
    · rcases List.mem_append.mp inQueue with inEarlier | isAdded
      · rcases isEarlier with rfl | isEarlier
        · cases inEarlier
        · exact filed.own _ isEarlier pending inEarlier
      · rw [List.mem_singleton.mp isAdded]

/-- An added call comes behind the calls that wait for its callee already. -/
theorem callsFor_enqueue
    (filed : Filed queues)
    (added : PendingCall)
    (callee : String) :
    callsFor callee
        ((CallQueue.enqueue added.callee added queues).flatMap
          CallQueue.calls) =
      callsFor callee (queues.flatMap CallQueue.calls ++ [added]) := by
  induction queues with
  | nil => rfl
  | cons first rest inductionHypothesis =>
      have firstBefore := (List.pairwise_cons.mp filed.ascending).1
      -- Calls that wait for different callees may stand in either order.
      have moved
          {calls : List PendingCall}
          (noneWaits : callsFor added.callee calls = []) :
          callsFor callee ([added] ++ calls) =
            callsFor callee (calls ++ [added]) := by
        rw [callsFor_append, callsFor_append]
        by_cases isCallee : added.callee = callee
        · subst isCallee
          rw [noneWaits, List.append_nil, List.nil_append]
        · rw [callsFor_cons_other isCallee]
          exact (List.append_nil _).symm
      rw [CallQueue.enqueue]
      split_ifs with isFirst isBefore
      · have noneWaits :=
          filed.tail.callsFor_of_before (isFirst ▸ firstBefore)
        rw [List.flatMap_cons, List.flatMap_cons, List.append_assoc,
          List.append_assoc, callsFor_append, moved noneWaits,
          ← callsFor_append]
      · have noneWaits :
            callsFor added.callee ((first :: rest).flatMap CallQueue.calls) =
              [] := by
          refine filed.callsFor_of_before fun queue member => ?_
          rcases List.mem_cons.mp member with rfl | inRest
          · exact isBefore
          · exact lt_trans isBefore (firstBefore queue inRest)
        rw [List.flatMap_cons, moved noneWaits]
      · rw [List.flatMap_cons, List.flatMap_cons, List.append_assoc,
          callsFor_append, callsFor_append, inductionHypothesis filed.tail]

/-- Choosing queues by callee is choosing calls by callee. -/
theorem flatMap_filter
    (filed : Filed queues)
    (choose : String → Bool) :
    (queues.filter fun queue => choose queue.callee).flatMap CallQueue.calls =
      (queues.flatMap CallQueue.calls).filter fun pending =>
        choose pending.callee := by
  rw [List.filter_flatMap]
  induction queues with
  | nil => rfl
  | cons first rest inductionHypothesis =>
      have firstOwn := filed.own first List.mem_cons_self
      have restChosen := inductionHypothesis filed.tail
      by_cases isChosen : choose first.callee = true
      · have allChosen :
            first.calls.filter (fun pending => choose pending.callee) =
              first.calls :=
          List.filter_eq_self.mpr fun pending member => by
            rw [firstOwn pending member, isChosen]
        rw [List.filter_cons, if_pos isChosen, List.flatMap_cons,
          List.flatMap_cons, allChosen, restChosen]
      · have noneChosen :
            first.calls.filter (fun pending => choose pending.callee) = [] :=
          List.filter_eq_nil_iff.mpr fun pending member => by
            rwa [firstOwn pending member]
        rw [List.filter_cons, if_neg isChosen, List.flatMap_cons, noneChosen,
          restChosen, List.nil_append]

/-- Queues stay filed when some are taken out. -/
theorem filter
    (filed : Filed queues)
    (choose : CallQueue → Bool) :
    Filed (queues.filter choose) where
  ascending := filed.ascending.filter _
  nonempty := fun queue member =>
    filed.nonempty queue (List.mem_of_mem_filter member)
  own := fun queue member =>
    filed.own queue (List.mem_of_mem_filter member)

/-- One queue behind the other, the calls are in the order of their callees. -/
theorem inCalleeOrder (filed : Filed queues) :
    InCalleeOrder (queues.flatMap CallQueue.calls) := by
  refine List.pairwise_flatMap.mpr ⟨?_, ?_⟩
  · intro queue isQueue
    refine List.pairwise_of_forall_mem_list ?_
    intro first isFirst second isSecond
    rw [filed.own queue isQueue first isFirst,
      filed.own queue isQueue second isSecond]
  · refine filed.ascending.imp_of_mem ?_
    intro queue later isQueue isLater isBefore first isFirst second isSecond
    rw [filed.own queue isQueue first isFirst,
      filed.own later isLater second isSecond]
    exact le_of_lt isBefore

end Filed

end CallQueue

/-- The queues hold what the log holds. -/
structure PendingCalls.Represents
    (pending : PendingCalls)
    (log : CallLog) :
    Prop where
  number : pending.nextId = log.count
  filed : CallQueue.Filed pending.queues
  same : SameByCallee (pending.queues.flatMap CallQueue.calls) log.calls

namespace PendingCalls.Represents

variable {pending : PendingCalls} {log : CallLog}

/-- Empty queues hold what an empty log does. -/
theorem empty : PendingCalls.empty.Represents CallLog.empty where
  number := rfl
  filed := ⟨.nil, List.forall_mem_nil _, List.forall_mem_nil _⟩
  same := fun _ => rfl

/-- The calls of the queues are those of the log, sorted by callee. -/
theorem calls_eq (represents : pending.Represents log) :
    pending.queues.flatMap CallQueue.calls = sortedByCallee log.calls :=
  represents.filed.inCalleeOrder.unique (sortedByCallee_ordered _) fun callee =>
    (represents.same callee).trans (sortedByCallee_stable log.calls callee).symm

/-- There are as many calls in the queues as in the log. -/
theorem size_eq (represents : pending.Represents log) :
    pending.size = log.calls.length := by
  rw [size, represents.calls_eq]
  exact (List.mergeSort_perm _ _).length_eq

theorem isEmpty_iff (represents : pending.Represents log) :
    pending.isEmpty = true ↔ pending.size = 0 := by
  rw [isEmpty, size, List.isEmpty_iff, List.length_eq_zero_iff,
    List.flatMap_eq_nil_iff]
  constructor
  · intro noQueues
    rw [noQueues]
    exact List.forall_mem_nil _
  · intro allEmpty
    exact List.eq_nil_iff_forall_not_mem.mpr fun queue member =>
      represents.filed.nonempty queue member (allEmpty queue member)

/-- A request is answered alike, and what is left is alike. -/
theorem step
    (represents : pending.Represents log)
    (request : QueueRequest) :
    (PendingCalls.serve request pending).1 = (log.serve request).1 ∧
      (PendingCalls.serve request pending).2.Represents
        (log.serve request).2 := by
  cases request with
  | defer call context expected guard =>
      obtain ⟨queues, nextId⟩ := pending
      obtain rfl : nextId = log.count := represents.number
      let added : PendingCall :=
        ⟨log.count, { call with waiting := some log.count }, context, expected,
          guard⟩
      refine ⟨rfl, rfl, represents.filed.enqueue added, fun callee => ?_⟩
      have behind := represents.filed.callsFor_enqueue added callee
      rw [callsFor_append, represents.same, ← callsFor_append] at behind
      exact behind
  | take callee =>
      have taken :=
        represents.filed.flatMap_filter fun name => decide (name = callee)
      have left :=
        represents.filed.flatMap_filter fun name => decide (name ≠ callee)
      simp only [PendingCalls.serve, take, CallLog.serve,
        List.partition_eq_filter_filter, Function.comp_def, ← decide_not]
      refine ⟨congrArg QueueAnswer.released
        (taken.trans (represents.same callee)), represents.number,
        represents.filed.filter _, ?_⟩
      rw [left]
      exact represents.same.filter _
  | drain =>
      exact ⟨congrArg QueueAnswer.released represents.calls_eq,
        represents.number, empty.filed, fun _ => rfl⟩

/-- All requests are answered alike, and what is left in the end is alike. -/
theorem run
    (represents : pending.Represents log)
    (requests : List QueueRequest) :
    (serveAll PendingCalls.serve requests pending).1 =
        (serveAll CallLog.serve requests log).1 ∧
      (serveAll PendingCalls.serve requests pending).2.Represents
        (serveAll CallLog.serve requests log).2 := by
  induction requests generalizing pending log with
  | nil => exact ⟨rfl, represents⟩
  | cons request rest inductionHypothesis =>
      obtain ⟨sameAnswer, next⟩ := represents.step request
      obtain ⟨sameAnswers, last⟩ := inductionHypothesis next
      exact ⟨List.cons_eq_cons.mpr ⟨sameAnswer, sameAnswers⟩, last⟩

end PendingCalls.Represents

namespace CallLog

/-- The numbers given out and the calls given back in serving some requests. -/
structure Ledger
    (log after : CallLog)
    (answers : List QueueAnswer)
    (deferred : List PendingCall) :
    Prop where
  count : after.count = log.count + deferred.length
  numbers :
    answers.filterMap QueueAnswer.number? = deferred.map PendingCall.id
  calls :
    (answers.flatMap QueueAnswer.calls ++ after.calls).Perm
      (log.calls ++ deferred)

/-- What is given out and given back adds up. -/
theorem Ledger.trans
    {first second third : CallLog}
    {answers more : List QueueAnswer}
    {deferred later : List PendingCall}
    (ledger : Ledger first second answers deferred)
    (ledger' : Ledger second third more later) :
    Ledger first third (answers ++ more) (deferred ++ later) where
  count := by
    rw [ledger'.count, ledger.count, List.length_append, Nat.add_assoc]
  numbers := by
    rw [List.filterMap_append, List.map_append, ledger.numbers,
      ledger'.numbers]
  calls := by
    rw [List.flatMap_append, List.append_assoc]
    refine (ledger'.calls.append_left _).trans ?_
    rw [← List.append_assoc, ← List.append_assoc]
    exact ledger.calls.append_right _

/-- The ledger of a single request. -/
theorem serve_ledger (log : CallLog) (request : QueueRequest) :
    Ledger log (log.serve request).2 [(log.serve request).1]
      (request.deferred log.count) := by
  cases request with
  | defer call context expected guard => exact ⟨rfl, rfl, .refl _⟩
  | take callee =>
      refine ⟨rfl, rfl, ?_⟩
      simp only [serve, QueueRequest.deferred, QueueAnswer.calls, callsFor,
        List.flatMap_singleton, List.append_nil, decide_not]
      exact List.filter_append_perm _ _
  | drain =>
      refine ⟨rfl, rfl, ?_⟩
      simp only [serve, QueueRequest.deferred, QueueAnswer.calls,
        List.flatMap_singleton, List.append_nil]
      exact List.mergeSort_perm _ _

/-- The ledger of some requests that are served one after the other. -/
theorem serveAll_ledger (log : CallLog) (requests : List QueueRequest) :
    Ledger log (serveAll serve requests log).2 (serveAll serve requests log).1
      (deferredFrom log.count requests) := by
  induction requests generalizing log with
  | nil =>
      refine ⟨rfl, rfl, ?_⟩
      rw [deferredFrom, List.append_nil]
      exact .refl _
  | cons request rest inductionHypothesis =>
      have first := log.serve_ledger request
      have others := inductionHypothesis (log.serve request).2
      rw [first.count] at others
      exact first.trans others

end CallLog

/-- A request sets its call aside under the next number. -/
theorem QueueRequest.map_id_deferred
    (number : CallId)
    (request : QueueRequest) :
    (request.deferred number).map PendingCall.id =
      List.range' number (request.deferred number).length := by
  cases request <;> rfl

/-- Requests set their calls aside under consecutive numbers. -/
theorem map_id_deferredFrom (next : CallId) (requests : List QueueRequest) :
    (deferredFrom next requests).map PendingCall.id =
      List.range' next (deferredFrom next requests).length := by
  induction requests generalizing next with
  | nil => rfl
  | cons request rest inductionHypothesis =>
      rw [deferredFrom, List.map_append, request.map_id_deferred,
        inductionHypothesis, List.length_append, List.range'_append_1]

/--
Any requests are answered by the queues as by a list of waiting calls in the
order in which they were set aside. After them there are as many calls in the
queues as in the list, and the queues count as empty exactly if there is none.
The numbers given out are `0`, `1`, `2` and so on, and the calls that were given
back, together with those that still wait, are the calls that were set aside,
each once and as it was then.
-/
theorem PendingCalls.serves_as_log (requests : List QueueRequest) :
    ∃ (answers : List QueueAnswer) (pending : PendingCalls) (log : CallLog),
      serveAll PendingCalls.serve requests .empty = (answers, pending) ∧
        serveAll CallLog.serve requests .empty = (answers, log) ∧
        pending.size = log.calls.length ∧
        (pending.isEmpty = true ↔ pending.size = 0) ∧
        answers.filterMap QueueAnswer.number? = List.range log.count ∧
        (deferredFrom 0 requests).map PendingCall.id = List.range log.count ∧
        (answers.flatMap QueueAnswer.calls ++ log.calls).Perm
          (deferredFrom 0 requests) := by
  obtain ⟨sameAnswers, represents⟩ :=
    PendingCalls.Represents.empty.run requests
  have ledger := CallLog.empty.serveAll_ledger requests
  have ids : (deferredFrom 0 requests).map PendingCall.id =
      List.range (serveAll CallLog.serve requests .empty).2.count := by
    rw [map_id_deferredFrom, ledger.count, List.range_eq_range']
    exact congrArg (List.range' 0) (Nat.zero_add _).symm
  exact ⟨_, _, _, Prod.ext sameAnswers rfl, rfl, represents.size_eq,
    represents.isEmpty_iff, ledger.numbers.trans ids, ids, ledger.calls⟩

end SplTyping
