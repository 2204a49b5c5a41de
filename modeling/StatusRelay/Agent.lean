import StatusRelay.Hub
import StatusRelay.Program
import StatusRelay.Queue
import StatusRelay.Registry

/-!
# The agent's state

Everything that keys are reconciled against: the hub, what lookups of API resources find, the
tracker, the registry of watches, the watch of the deployment records, and the work queue. `answer`
says what a request is answered and how the state changes when the request takes effect at once.
-/
namespace StatusRelay

structure Agent where
  /-- The cluster's name and hub namespace. -/
  cluster : String
  /-- The longest that a call to the hub may take. -/
  timeout : Duration
  /-- The resources that lookups find, by first match. -/
  resources : List ApiResource := []
  hub : Hub := {}
  tracker : Tracker := {}
  registry : Registry := {}
  /-- The watch of the deployment records. -/
  works : Watch := .start appliedWorkResource
  /-- Whether that watch still has a stream of events. -/
  worksFed : Bool := true
  queue : WorkQueue ObjectKey := { limiter := .standard }
  clock : Clock := {}
  deriving Repr

namespace Agent

def resourceNamed (a : Agent) (group version plural : String) : Except AgentError ApiResource :=
  match a.resources.find? fun r => r.group == group && r.version == version && r.plural == plural
  with
  | some r => .ok r
  | none => .error (.discovery (resourceText group version plural))

def resourceOfKind (a : Agent) (kind : ResourceKind) : Except AgentError ApiResource :=
  match a.resources.find? fun r => decide (r.resourceKind = kind) with
  | some r => .ok r
  | none => .error (.discovery kind.text)

/-- The cache for a kind; deployment records have their own watch. -/
def cacheOf? (a : Agent) (kind : ResourceKind) : Option Cache :=
  if kind = appliedWorkKind then some a.works.ingest.cache else a.registry.lister? kind

def find (a : Agent) (kind : ResourceKind) (ns name : String) : Sighting :=
  match a.cacheOf? kind with
  | none => .noWatch
  | some cache =>
      match cache.lookup? ns name with
      | some o => .present o
      | none => .absent

/-- The error of a hub call as the agent's own. -/
def liftHub {α : Type} : Except HubError α → Except AgentError α
  | .ok a => .ok a
  | .error e => .error (.hub e)

/-- A call to the hub takes effect. -/
def perform (a : Agent) (c : HubCall) : Except AgentError c.Answer × Agent :=
  let (result, hub) := a.hub.perform c
  (liftHub result, { a with hub := hub })

/-- The answer to a request that takes effect at once. -/
def answer : (r : Request) → Agent → r.Answer × Agent
  | .hub c, a => a.perform c
  | .resourceNamed group version plural, a => (a.resourceNamed group version plural, a)
  | .resourceOfKind kind, a => (a.resourceOfKind kind, a)
  | .find kind ns name, a => (a.find kind ns name, a)
  | .replaceSet work manifestWork applied, a =>
      let (changes, tracker) := a.tracker.replace work manifestWork applied
      (changes, { a with tracker := tracker })
  | .removeSet work, a =>
      let (released, tracker) := a.tracker.remove work
      (released, { a with tracker := tracker })
  | .ownerOf uid, a => (a.tracker.ownerOf? uid, a)
  | .acquire resource uid, a =>
      let (started, registry) := a.registry.acquire resource uid
      (started, { a with registry := registry })
  | .release kind uid, a =>
      let (stopped, registry) := a.registry.release kind uid
      (stopped, { a with registry := registry })
  | .enqueue key, a => ((), { a with queue := a.queue.add key })

/-! ## Events -/

/-- What becomes of an event. -/
inductive Delivery where
  | delivered
  | noWatch
  | stopped
  /-- The object has no name, so no cache can hold it. -/
  | refused
  deriving DecidableEq, Repr

/-- An event for the watch of the deployment records. What its stream still brings after it was
stopped is taken in as before. -/
def deliverWork (a : Agent) (e : WatchEvent) : Delivery × Agent :=
  if !a.worksFed then (.noWatch, a)
  else
    match a.works.ingest.handle? e with
    | none => (.refused, a)
    | some (ingest, keys) =>
        (.delivered, { a with
          works := { a.works with ingest := ingest }
          queue := a.queue.addAll keys })

/-- An event for the latest watch of a kind. -/
def deliver (a : Agent) (kind : ResourceKind) (e : WatchEvent) : Delivery × Agent :=
  match a.registry.latest? kind with
  | none => (.noWatch, a)
  | some n =>
      match a.registry.watch? n with
      | none => (.noWatch, a)
      | some w =>
          if w.stopped then (.stopped, a)
          else
            match w.ingest.handle? e with
            | none => (.refused, a)
            | some (ingest, keys) =>
                (.delivered, { a with
                  registry := a.registry.setIngest n ingest
                  queue := a.queue.addAll keys })

/-- The reconciling side of the agent on one line. -/
def reconcilerText (a : Agent) : String :=
  "Reconciler \x7b work_kind: " ++ appliedWorkKind.fieldsText ++
    ", tracked: " ++ toString a.tracker.trackedCount ++ ", .. \x7d"

end Agent
end StatusRelay
