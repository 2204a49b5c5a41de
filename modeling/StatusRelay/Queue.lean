import StatusRelay.Clock
import StatusRelay.Limiter
import StatusRelay.Signal

/-!
# The work queue

An item waits in the queue at most once, and an item that is being processed is not handed out
again: added meanwhile, it is parked until `done` queues it. Items can be added after a delay,
which a rate limiter chooses for retries. After `shutDown` nothing is added any more, what waits is
still handed out, and then the queue is closed.

`offer` and `check` are the steps that touch the items, and `poll` is one round of a caller that
asks for an item: it registers with the signal first and looks at the items then, so that a
wake-up between the two is not lost.
-/
namespace StatusRelay

/-- An item that will be added later. -/
structure Delayed (α : Type) where
  item : α
  stamp : Stamp
  deriving DecidableEq, Repr

instance {α : Type} [DecidableEq α] : LawfulBEq (Delayed α) := inferInstance

structure WorkQueue (α : Type) where
  waiting : List α := []
  /-- Items that wait or were added again while being processed. -/
  dirty : List α := []
  processing : List α := []
  shuttingDown : Bool := false
  signal : Signal := {}
  limiter : Limiter α
  delayed : List (Delayed α) := []
  deriving Repr

/-- What a caller gets: an item, the news that the queue is closed, or nothing yet. -/
inductive Handout (α : Type) where
  | item (a : α)
  | closed
  | nothing
  deriving DecidableEq, Repr

namespace WorkQueue

variable {α : Type} [DecidableEq α]

/-- Takes note of an item; `true` if it was queued and a caller is to be woken. -/
def offer (q : WorkQueue α) (a : α) : Bool × WorkQueue α :=
  if q.shuttingDown || q.dirty.contains a then (false, q)
  else if q.processing.contains a then (false, { q with dirty := a :: q.dirty })
  else (true, { q with dirty := a :: q.dirty, waiting := q.waiting ++ [a] })

def notifyOne (q : WorkQueue α) : WorkQueue α := { q with signal := q.signal.notifyOne }

def add (q : WorkQueue α) (a : α) : WorkQueue α :=
  match q.offer a with
  | (true, q) => q.notifyOne
  | (false, q) => q

def addAll (q : WorkQueue α) (items : List α) : WorkQueue α := items.foldl add q

/-- Adds an item after a delay, at once if there is none. -/
def addAfter (q : WorkQueue α) (a : α) (delay : Duration) (clock : Clock) :
    WorkQueue α × Clock :=
  if delay.isZero then (q.add a, clock)
  else if q.shuttingDown then (q, clock)
  else
    let (stamp, clock) := clock.timer delay
    ({ q with delayed := q.delayed ++ [⟨a, stamp⟩] }, clock)

/-- Adds an item after the delay that the limiter chooses. -/
def addRateLimited (q : WorkQueue α) (a : α) (clock : Clock) : WorkQueue α × Clock :=
  let (delay, limiter) := q.limiter.next a clock.now
  ({ q with limiter := limiter } : WorkQueue α).addAfter a delay clock

def forget (q : WorkQueue α) (a : α) : WorkQueue α := { q with limiter := q.limiter.forget a }

def requeues (q : WorkQueue α) (a : α) : Nat := q.limiter.requeues a

/-- Forgets a timer that fired. -/
def expire (q : WorkQueue α) (stamp : Stamp) : WorkQueue α :=
  { q with delayed := q.delayed.filter fun d => !decide (d.stamp = stamp) }

/-- A timer fires: its item is added. -/
def fire (q : WorkQueue α) (d : Delayed α) : WorkQueue α := (q.expire d.stamp).add d.item

/-- Looks at the items once. -/
def check (q : WorkQueue α) : Handout α × WorkQueue α :=
  match q.waiting with
  | a :: rest =>
      (.item a, { q with
        waiting := rest, processing := q.processing.insert a, dirty := q.dirty.erase a })
  | [] => if q.shuttingDown then (.closed, q) else (.nothing, q)

def enroll (q : WorkQueue α) (t : Ticket) : Bool × WorkQueue α :=
  let (permit, signal) := q.signal.enroll t
  (permit, { q with signal := signal })

def leave (q : WorkQueue α) (t : Ticket) : WorkQueue α := { q with signal := q.signal.leave t }

/-- One round of a caller. With nothing handed out the caller stays registered; a permit that it
took is spent, so it looks again and registers. -/
def poll (q : WorkQueue α) (t : Ticket) : Handout α × WorkQueue α :=
  let (permit, q) := q.enroll t
  match q.check with
  | (.nothing, q) => (.nothing, if permit then (q.enroll t).2 else q)
  | (handout, q) => (handout, q.leave t)

/-- A caller that was woken takes its next round. -/
def resume (q : WorkQueue α) (t : Ticket) : Handout α × WorkQueue α :=
  ({ q with signal := q.signal.resume t } : WorkQueue α).poll t

/-- Marks an item as finished, and queues it again if it was added meanwhile. -/
def done (q : WorkQueue α) (a : α) : WorkQueue α :=
  let q := { q with processing := q.processing.erase a }
  if q.dirty.contains a then ({ q with waiting := q.waiting ++ [a] } : WorkQueue α).notifyOne
  else q

def shutDown (q : WorkQueue α) : WorkQueue α :=
  { q with shuttingDown := true, signal := q.signal.notifyAll }

def size (q : WorkQueue α) : Nat := q.waiting.length

/-- The queue on one line. -/
def text (q : WorkQueue α) : String :=
  "WorkQueue \x7b queued: " ++ toString q.waiting.length ++
    ", processing: " ++ toString q.processing.length ++
    ", shutting_down: " ++ toString q.shuttingDown ++ " \x7d"

end WorkQueue
end StatusRelay
