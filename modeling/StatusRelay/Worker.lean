import StatusRelay.Agent
import StatusRelay.Reconciler

/-!
# Workers

A worker takes a key from the queue, reconciles it and settles it, one request at a time. A write
to the hub that takes time is under way until it takes effect or the time for it is up, whichever
comes first; in the latter case it never takes effect. A worker that is told to stop while a key is
in its hands marks the key done and gives up what it was doing.
-/
namespace StatusRelay

abbrev WorkerId := Nat

abbrev Reconcile := Program (Except AgentError Outcome)

/-- When a write under way ends, and whether it takes effect then. -/
structure PendingCall where
  stamp : Stamp
  takesEffect : Bool
  deriving DecidableEq, Repr

inductive Worker where
  /-- About to ask the queue for a key. -/
  | asking
  /-- Registered with the queue. -/
  | waiting
  /-- Between two requests of a reconcile. -/
  | working (key : ObjectKey) (rest : Reconcile)
  /-- In the middle of a write to the hub. -/
  | writing (key : ObjectKey) (call : HubCall) (pending : PendingCall)
      (next : Except AgentError call.Answer → Reconcile)
  | stopped

namespace Worker

def isStopped : Worker → Bool
  | .stopped => true
  | _ => false

/-- Whether the worker goes on without being woken. -/
def isRunning : Worker → Bool
  | .asking | .working _ _ => true
  | .waiting | .writing _ _ _ _ | .stopped => false

/-- The timer that the worker waits for. -/
def stamp? : Worker → Option Stamp
  | .writing _ _ pending _ => some pending.stamp
  | _ => none

/-- The key in the worker's hands. -/
def key? : Worker → Option ObjectKey
  | .working key _ | .writing key _ _ _ => some key
  | .asking | .waiting | .stopped => none

end Worker

namespace Agent

/-- A key was processed: it is tried again after a while or forgotten, and marked done. -/
def settle (a : Agent) (key : ObjectKey) (result : Except AgentError Outcome) : Agent :=
  let again :=
    match result with
    | .ok .settled => false
    | .ok .again => true
    | .error e => e.isRetryable
  if again then
    let (queue, clock) := a.queue.addRateLimited key a.clock
    { a with queue := queue.done key, clock := clock }
  else { a with queue := (a.queue.forget key).done key }

/-- Starts a call that does not take effect at once; nothing if it does. -/
def beginWrite? (a : Agent) (c : HubCall) : Option (PendingCall × Agent) :=
  match a.hub.delayOf c with
  | 0 => none
  | ms =>
      let delay := Duration.ofMillis ms
      let takesEffect := decide (delay.nanos ≤ a.timeout.nanos)
      let (stamp, clock) := a.clock.timer (delay.min a.timeout)
      some (⟨stamp, takesEffect⟩, { a with clock := clock })

/-- Ends a write under way. -/
def endWrite (a : Agent) (c : HubCall) (pending : PendingCall) :
    Except AgentError c.Answer × Agent :=
  if pending.takesEffect then a.perform c else (.error (.hubTimeout c.describe), a)

/-- What a worker does with what the queue hands out. -/
def taken (a : Agent) : Handout ObjectKey → Worker
  | .item key => .working key (Reconciler.reconcile a.cluster key).run
  | .closed => .stopped
  | .nothing => .waiting

/-- The next request of a reconcile. -/
def request (a : Agent) (key : ObjectKey) : Reconcile → Worker × Agent
  | .done result => (.asking, a.settle key result)
  | .ask (.hub c) next =>
      match a.beginWrite? c with
      | some (pending, a) => (.writing key c pending next, a)
      | none =>
          let (value, a) := a.perform c
          (.working key (next value), a)
  | .ask r next =>
      let (value, a) := answer r a
      (.working key (next value), a)

/-- One step of a worker that is running, was woken or whose write ends. -/
def step (a : Agent) (id : WorkerId) : Worker → Worker × Agent
  | .asking =>
      let (handout, queue) := a.queue.poll id
      (a.taken handout, { a with queue := queue })
  | .waiting =>
      let (handout, queue) := a.queue.resume id
      (a.taken handout, { a with queue := queue })
  | .working key rest => a.request key rest
  | .writing key c pending next =>
      let (value, a) := a.endWrite c pending
      (.working key (next value), a)
  | .stopped => (.stopped, a)

/-- A worker is told to stop. -/
def dismiss (a : Agent) (id : WorkerId) : Worker → Agent
  | .asking | .stopped => a
  | .waiting => { a with queue := a.queue.leave id }
  | .working key _ | .writing key _ _ _ => { a with queue := a.queue.done key }

end Agent
end StatusRelay
