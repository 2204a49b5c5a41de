import StatusRelay.Queue

/-!
# Waiting for items

A queue together with the callers that wait for its items in the background and the timers of the
items that are added later. Who can go on stands in line and has a turn of its own; items whose
time has come are added in the order of their stamps. A caller in the foreground does not wait: it
takes an item if there is one and gives up otherwise.
-/
namespace StatusRelay

/-- Whose turn it is: a caller's, or that of a timer that is due. -/
inductive QueueTurn (α : Type) where
  | caller (t : Ticket)
  | fire (d : Delayed α)
  deriving DecidableEq, Repr

/-- A caller that is done waiting: it got an item, or the queue is closed. -/
structure Served (α : Type) where
  ticket : Ticket
  item : Option α
  deriving DecidableEq, Repr

structure WaitingRoom (α : Type) where
  queue : WorkQueue α
  clock : Clock := {}
  /-- Callers so far; the foreground's ticket is 0 and theirs count from 1. -/
  callers : Nat := 0
  line : List (QueueTurn α) := []
  /-- The callers that were served, in the order in which that happened. -/
  served : List (Served α) := []
  deriving Repr

namespace WaitingRoom

variable {α : Type} [DecidableEq α]

def withQueue (r : WaitingRoom α) (q : WorkQueue α) : WaitingRoom α := { r with queue := q }

/-- A caller comes in. -/
def join (r : WaitingRoom α) : Ticket × WaitingRoom α :=
  let t := r.callers + 1
  (t, { r with callers := t, line := r.line ++ [.caller t] })

/-- The foreground asks once. -/
def ask (r : WaitingRoom α) : Handout α × WaitingRoom α :=
  match r.queue.poll 0 with
  | (.nothing, q) => (.nothing, r.withQueue (q.leave 0))
  | (handout, q) => (handout, r.withQueue q)

/-- Adds an item after a delay. -/
def addAfter (r : WaitingRoom α) (a : α) (delay : Duration) : WaitingRoom α :=
  let (queue, clock) := r.queue.addAfter a delay r.clock
  { r with queue := queue, clock := clock }

/-- Adds an item after the delay that the limiter chooses. -/
def addRateLimited (r : WaitingRoom α) (a : α) : WaitingRoom α :=
  let (queue, clock) := r.queue.addRateLimited a r.clock
  { r with queue := queue, clock := clock }

/-! ## Turns -/

/-- What a caller does with what the queue hands out. -/
def receive (r : WaitingRoom α) (t : Ticket) : Handout α → WaitingRoom α
  | .item a => { r with served := r.served ++ [⟨t, some a⟩] }
  | .closed => { r with served := r.served ++ [⟨t, none⟩] }
  | .nothing => r

/-- One round of a caller. -/
def callerTurn (r : WaitingRoom α) (t : Ticket) : WaitingRoom α :=
  let (handout, queue) := r.queue.resume t
  (r.withQueue queue).receive t handout

/-- Puts the callers in line that the queue has woken. -/
def collectWoken (r : WaitingRoom α) : WaitingRoom α :=
  let woken := (r.queue.signal.chosen ++ r.queue.signal.released).map QueueTurn.caller
  { r with line := r.line ++ woken.filter fun t => !r.line.contains t }

def turn (r : WaitingRoom α) : QueueTurn α → WaitingRoom α
  | .caller t => r.callerTurn t
  | .fire d => r.withQueue (r.queue.fire d)

def isDue (r : WaitingRoom α) (d : Delayed α) : Bool := decide (d.stamp.due ≤ r.clock.now)

/-- Puts the timers in line that are due. -/
def collectDue (r : WaitingRoom α) : WaitingRoom α :=
  let due := (r.queue.delayed.filter r.isDue).mergeSort fun a b => a.stamp.before b.stamp
  { r with line := r.line ++ due.map .fire }

/-- Grants up to so many turns. -/
def settle : Nat → WaitingRoom α → WaitingRoom α
  | 0, r => r
  | turns + 1, r =>
      let r := r.collectWoken
      let r := if r.line.isEmpty then r.collectDue else r
      match r.line with
      | [] => r
      | t :: rest => settle turns (({ r with line := rest } : WaitingRoom α).turn t)

/-- Turns enough for everybody in line, every item that is due and every caller that they wake. -/
def settled (r : WaitingRoom α) : WaitingRoom α :=
  r.settle (2 * (r.line.length + r.queue.delayed.length + r.callers) + 1)

/-! ## Time -/

def nextDue? (r : WaitingRoom α) : Option Nat :=
  (firstStamp? (r.queue.delayed.map Delayed.stamp)).map Stamp.due

def setTime (r : WaitingRoom α) (time : Nat) : WaitingRoom α :=
  { r with clock := r.clock.advanceTo time }

/-- Lets everything happen that is due up to a time. -/
def runUntil (time : Nat) : Nat → WaitingRoom α → WaitingRoom α
  | 0, r => r.setTime time
  | stops + 1, r =>
      match r.nextDue? with
      | some due => if due ≤ time then runUntil time stops (r.setTime due).settled else r.setTime time
      | none => r.setTime time

/-- Lets time pass. No timer is set meanwhile, so there are as many stops as items to be added. -/
def sleep (r : WaitingRoom α) (d : Duration) : WaitingRoom α :=
  (r.runUntil (r.clock.now + d.nanos) r.queue.delayed.length).settled

end WaitingRoom
end StatusRelay
