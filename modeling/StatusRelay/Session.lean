import StatusRelay.Config
import StatusRelay.Worker

/-!
# Running the agent

The run of the agent from waiting for the deployment records to the end of its workers, and the
order in which things happen on one processor. What can go on waits in line for its turn; a turn
lasts until its owner waits for something. When nobody is in line any more, time moves on to the
next timer, and all timers due then put their owners in line in the order of their stamps.

The foreground is a caller outside the line, such as an operator's command: it goes on without
taking turns until it has to wait itself. Every loop takes the number of turns that it may grant
as fuel; a run that needs more is left where it stands.
-/
namespace StatusRelay

/-- How far a run of the agent has come. -/
inductive Phase where
  /-- Waiting until the deployment records are listed, with a deadline. -/
  | syncing (deadline : Stamp)
  | serving
  /-- Told to stop and waiting for the workers. -/
  | draining
  | ended (result : Except AgentError Unit)

structure Controller where
  config : Config
  phase : Phase
  workers : List WorkerId := []

/-- Whose turn it is. -/
inductive Turn where
  | worker (id : WorkerId)
  | controller (n : Nat)
  /-- A timer of the queue that is due. -/
  | fire (d : Delayed ObjectKey)
  deriving DecidableEq, Repr

structure Session where
  agent : Agent
  workers : List Worker := []
  controllers : List Controller := []
  /-- Whether the agent was told to stop. -/
  stopping : Bool := false
  line : List Turn := []

namespace Session

def now (r : Session) : Nat := r.agent.clock.now

/-- Puts a turn at the end of the line, unless it is in line already. -/
def enqueueTurn (r : Session) (t : Turn) : Session :=
  if r.line.contains t then r else { r with line := r.line ++ [t] }

/-- Puts the workers in line that the queue has woken. -/
def collectWoken (r : Session) : Session :=
  let s := r.agent.queue.signal
  (s.chosen ++ s.released).foldl (fun r t => r.enqueueTurn (.worker t)) r

def withAgent (r : Session) (a : Agent) : Session := { r with agent := a }

def setWorker (r : Session) (id : WorkerId) (w : Worker) : Session :=
  { r with workers := r.workers.set id w }

def setController (r : Session) (n : Nat) (c : Controller) : Session :=
  { r with controllers := r.controllers.set n c }

def allStopped (r : Session) (ids : List WorkerId) : Bool :=
  ids.all fun id =>
    match r.workers[id]? with
    | some w => w.isStopped
    | none => true

/-! ## The controller's turns -/

def neverSynced (timeout : Duration) : AgentError :=
  .cacheSync ("AppliedManifestWork cache not synced after " ++ timeout.text)

def watchEnded : AgentError := .cacheSync "AppliedManifestWork watch ended before syncing"

/-- Whether a controller has something to do. -/
def canMove (r : Session) (c : Controller) : Bool :=
  match c.phase with
  | .syncing deadline =>
      r.agent.works.ingest.synced || !r.agent.worksFed || decide (deadline.due ≤ r.now)
  | .serving => r.stopping
  | .draining => r.allStopped c.workers
  | .ended _ => false

/-- Starts the workers of a controller. -/
def startServing (r : Session) (n : Nat) (c : Controller) : Session :=
  let ids := (List.range c.config.workers).map (r.workers.length + ·)
  let r := { r with workers := r.workers ++ List.replicate c.config.workers Worker.asking }
  let r := r.setController n { c with phase := .serving, workers := ids }
  ids.foldl (fun r id => r.enqueueTurn (.worker id)) r

def stopWorks (r : Session) : Session :=
  { r with agent := { r.agent with works := r.agent.works.stop } }

/-- Closes the queue; the workers are told to stop. -/
def startDraining (r : Session) (n : Nat) (c : Controller) : Session :=
  let r := { r with agent := { r.agent with queue := r.agent.queue.shutDown } }
  let r := r.setController n { c with phase := .draining }
  c.workers.foldl (fun r id => r.enqueueTurn (.worker id)) r

/-- Stops every watch. -/
def finish (r : Session) (n : Nat) (c : Controller) : Session :=
  let r := { r with agent := { r.agent with registry := r.agent.registry.shutdown } }
  r.stopWorks.setController n { c with phase := .ended (.ok ()) }

def controllerTurn (r : Session) (n : Nat) (c : Controller) : Session :=
  match c.phase with
  | .syncing deadline =>
      if r.agent.works.ingest.synced then r.startServing n c
      else if !r.agent.worksFed then r.setController n { c with phase := .ended (.error watchEnded) }
      else if deadline.due ≤ r.now then
        r.stopWorks.setController n
          { c with phase := .ended (.error (neverSynced c.config.cacheSyncTimeout)) }
      else r
  | .serving => if r.stopping then r.startDraining n c else r
  | .draining => if r.allStopped c.workers then r.finish n c else r
  | .ended _ => r

/-! ## The workers' turns -/

/-- A worker notices that it is to stop where it waits for something or asks for the next key. -/
def noticesStop (r : Session) : Worker → Bool
  | .asking | .waiting | .writing _ _ _ _ => r.stopping
  | .working _ _ | .stopped => false

def workerTurn (r : Session) (id : WorkerId) (w : Worker) : Session :=
  if r.noticesStop w then
    ((r.withAgent (r.agent.dismiss id w)).setWorker id .stopped).collectWoken
  else
    let (w, a) := r.agent.step id w
    let r := ((r.withAgent a).setWorker id w).collectWoken
    if w.isRunning then { r with line := .worker id :: r.line } else r

def turn (r : Session) : Turn → Session
  | .worker id =>
      match r.workers[id]? with
      | some w => r.workerTurn id w
      | none => r
  | .controller n =>
      match r.controllers[n]? with
      | some c => r.controllerTurn n c
      | none => r
  | .fire d => (r.withAgent { r.agent with queue := r.agent.queue.fire d }).collectWoken

/-! ## Time -/

/-- The timers of the workers, each with its owner's turn. -/
def workerTimers (r : Session) : List (Stamp × Turn) :=
  r.workers.zipIdx.filterMap fun e => e.1.stamp?.map fun s => (s, .worker e.2)

def controllerTimers (r : Session) : List (Stamp × Turn) :=
  r.controllers.zipIdx.filterMap fun e =>
    match e.1.phase with
    | .syncing deadline => some (deadline, .controller e.2)
    | _ => none

def delayTimers (r : Session) : List (Stamp × Turn) :=
  r.agent.queue.delayed.map fun d => (d.stamp, .fire d)

def timers (r : Session) : List (Stamp × Turn) :=
  r.delayTimers ++ r.workerTimers ++ r.controllerTimers

def movable (r : Session) : List Turn :=
  r.controllers.zipIdx.filterMap fun e => if r.canMove e.1 then some (.controller e.2) else none

/-- Turns whose timers are due, in the order of their stamps. -/
def dueTurns (r : Session) : List Turn :=
  let due := r.timers.filter fun e => decide (e.1.due ≤ r.now)
  (due.mergeSort fun a b => a.1.before b.1).map Prod.snd

/-- A new line: the controllers that can move and everybody whose timer is due. -/
def refill (r : Session) : Session :=
  let line := r.dueTurns
  let first := r.movable.filter fun t => !line.contains t
  { r with line := first ++ line }

/-- Grants turns until nobody is left in line. -/
def settle : Nat → Session → Session
  | 0, r => r
  | fuel + 1, r =>
      match r.line with
      | t :: rest => settle fuel (({ r with line := rest } : Session).turn t)
      | [] =>
          let r := r.refill
          match r.line with
          | [] => r
          | t :: rest => settle fuel (({ r with line := rest } : Session).turn t)

def nextDue? (r : Session) : Option Nat := (firstStamp? (r.timers.map Prod.fst)).map Stamp.due

def setTime (r : Session) (time : Nat) : Session :=
  { r with agent := { r.agent with clock := r.agent.clock.advanceTo time } }

/-- Lets everything happen that is due before a time, and moves on to that time. What is due at
that very time has not had its turn yet. -/
def runUntil (turns : Nat) (time : Nat) : Nat → Session → Session
  | 0, r => r.setTime time
  | fuel + 1, r =>
      let r := r.settle turns
      match r.nextDue? with
      | some due => if due < time then runUntil turns time fuel (r.setTime due) else r.setTime time
      | none => r.setTime time

/-- The turns that one wait may grant. -/
def patience : Nat := 1000000

def settled (r : Session) : Session := r.settle patience

def waitUntil (r : Session) (time : Nat) : Session := r.runUntil patience time patience

/-- Lets time pass. -/
def sleep (r : Session) (d : Duration) : Session := (r.waitUntil (r.now + d.nanos)).settled

/-! ## The foreground -/

/-- A request of the foreground. While its write is under way the others have their turns. -/
def serve : (q : Request) → Session → q.Answer × Session
  | .hub c, r =>
      match r.agent.beginWrite? c with
      | some (pending, a) =>
          let r := (r.withAgent a).waitUntil pending.stamp.due
          let (value, a) := r.agent.endWrite c pending
          (value, r.withAgent a)
      | none =>
          let (value, a) := r.agent.perform c
          (value, r.withAgent a)
  | q, r =>
      let (value, a) := Agent.answer q r.agent
      (value, (r.withAgent a).collectWoken)

/-- Runs a program in the foreground. -/
def perform {α : Type} (r : Session) (p : Program α) : α × Session := p.run serve r

def reconcile (r : Session) (key : ObjectKey) : Except AgentError Outcome × Session :=
  r.perform (Reconciler.reconcile r.agent.cluster key).run

/-- A call to the hub that waits as long as it takes. -/
def callHub (r : Session) (c : HubCall) : c.Result × Session :=
  let delay := Duration.ofMillis (r.agent.hub.delayOf c)
  let r := if delay.isZero then r else r.waitUntil (r.now + delay.nanos)
  let (result, hub) := r.agent.hub.perform c
  (result, r.withAgent { r.agent with hub := hub })

/-- A key that was processed, and its failures so far. -/
structure Processed where
  key : ObjectKey
  requeues : Nat
  deriving DecidableEq, Repr

/-- Takes up to `limit` keys off the queue and processes each. -/
def processKeys : Nat → Session → List Processed × Session
  | 0, r => ([], r)
  | limit + 1, r =>
      if r.agent.queue.waiting.isEmpty then ([], r)
      else
        match r.agent.queue.poll r.workers.length with
        | (.item key, queue) =>
            let (result, r) := (r.withAgent { r.agent with queue := queue }).reconcile key
            let r := (r.withAgent (r.agent.settle key result)).collectWoken
            let (rest, after) := processKeys limit r
            (⟨key, r.agent.queue.requeues key⟩ :: rest, after)
        | (_, queue) => ([], r.withAgent { r.agent with queue := queue })

/-! ## Starting and stopping -/

/-- Starts a run of the agent. -/
def start (r : Session) (config : Config) : Session :=
  let (deadline, clock) := r.agent.clock.timer config.cacheSyncTimeout
  { r with
    agent := { r.agent with clock := clock }
    controllers := r.controllers ++ [⟨config, .syncing deadline, []⟩] }

/-- Tells every run to stop. -/
def stop (r : Session) : Session := { r with stopping := true }

/-- The stream of the deployment records' events ends. -/
def dropWorks (r : Session) : Session := { r with agent := { r.agent with worksFed := false } }

end Session

/-- A run of the agent on one line. -/
def Session.text (r : Session) (config : Config) : String :=
  "Controller \x7b config: " ++ config.text ++ ", queue: " ++ r.agent.queue.text ++
    ", registry: " ++ r.agent.registry.text ++ ", .. \x7d"

end StatusRelay
