import SplTyping.Context
import SplTyping.TypeError

namespace SplTyping

/-!
# Calls that wait for their callee

A function may be called before it is declared. Such a call is set aside with
everything needed to check it later, under a number that is also written into
the tree. Waiting calls are kept in one queue per callee, and the queues in the
order of the callees' names, so that what is never taken can be reported in a
fixed order.
-/

/-- A call that waits, with the circumstances in which it was reached. -/
structure PendingCall where
  id : CallId
  call : Call
  context : Context
  expected : Ty
  guard : Option ValueGuard

/-- The waiting calls of one callee, in the order in which they were reached. -/
structure CallQueue where
  callee : String
  calls : List PendingCall

/-- All waiting calls, and the number for the next one. -/
structure PendingCalls where
  queues : List CallQueue
  nextId : CallId

namespace CallQueue

/-- The queues with one call added at the end of its callee's queue. -/
def enqueue
    (callee : String)
    (pending : PendingCall) :
    List CallQueue → List CallQueue
  | [] => [⟨callee, [pending]⟩]
  | queue :: rest =>
      if queue.callee = callee then
        ⟨callee, queue.calls ++ [pending]⟩ :: rest
      else if callee < queue.callee then
        ⟨callee, [pending]⟩ :: queue :: rest
      else
        queue :: enqueue callee pending rest

end CallQueue

namespace PendingCalls

/-- No call waits. -/
def empty : PendingCalls where
  queues := []
  nextId := 0

/--
Set a call aside. The call is stamped with its number; the stamped call is
returned and also the one that waits.
-/
def defer
    (pending : PendingCalls)
    (call : Call)
    (context : Context)
    (expected : Ty)
    (guard : Option ValueGuard) :
    Call × PendingCalls :=
  let stamped : Call := { call with waiting := some pending.nextId }
  (stamped,
    { queues :=
        CallQueue.enqueue call.callee.text
          ⟨pending.nextId, stamped, context, expected, guard⟩ pending.queues
      nextId := pending.nextId + 1 })

/-- The waiting calls of one callee, and what waits without them. -/
def take
    (pending : PendingCalls)
    (callee : String) :
    List PendingCall × PendingCalls :=
  let (taken, left) :=
    pending.queues.partition fun queue => queue.callee = callee
  (taken.flatMap CallQueue.calls,
    { queues := left, nextId := pending.nextId })

/--
All waiting calls, by the name of the callee and then in the order in which they
were reached, and what waits without them.
-/
def drain (pending : PendingCalls) : List PendingCall × PendingCalls :=
  (pending.queues.flatMap CallQueue.calls,
    { queues := [], nextId := pending.nextId })

/-- The number of waiting calls. -/
def size (pending : PendingCalls) : Nat :=
  (pending.queues.flatMap CallQueue.calls).length

/-- Whether no call waits. -/
def isEmpty (pending : PendingCalls) : Bool :=
  pending.queues.isEmpty

end PendingCalls

end SplTyping
