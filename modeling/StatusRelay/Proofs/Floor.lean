import StatusRelay.Session

/-!
# Workers on one floor

An agent and its workers, moved by any order of turns, events, timers that fire and changes of the
hub's moods. A turn is one step of one worker, so two workers interleave at every request, and a
write under way ends in whatever turn is given to it. No order is excluded: a run of a session is
one of the lists of moves here.

What lookups of API resources find is a pair of functions. The agent's own list of resources gives
one such pair, and for it the moves are the agent's own steps.

`log` tells what happened in a run, for the properties that depend on the order of things.
-/
namespace StatusRelay

structure Lookups where
  named (group version plural : String) : Except AgentError ApiResource
  ofKind (kind : ResourceKind) : Except AgentError ApiResource

namespace Agent

/-- What the agent's own list answers. -/
def lookups (a : Agent) : Lookups := ⟨a.resourceNamed, a.resourceOfKind⟩

/-- `answer` with other lookups than the agent's own. -/
def answerFrom (l : Lookups) : (r : Request) → Agent → r.Answer × Agent
  | .resourceNamed group version plural, a => (l.named group version plural, a)
  | .resourceOfKind kind, a => (l.ofKind kind, a)
  | r, a => answer r a

def requestFrom (l : Lookups) (a : Agent) (key : ObjectKey) : Reconcile → Worker × Agent
  | .done result => (.asking, a.settle key result)
  | .ask (.hub c) next =>
      match a.beginWrite? c with
      | some (pending, a) => (.writing key c pending next, a)
      | none =>
          let (value, a) := a.perform c
          (.working key (next value), a)
  | .ask r next =>
      let (value, a) := answerFrom l r a
      (.working key (next value), a)

def stepFrom (l : Lookups) (a : Agent) (id : WorkerId) : Worker → Worker × Agent
  | .working key rest => a.requestFrom l key rest
  | w => a.step id w

theorem requestFrom_lookups (a : Agent) (key : ObjectKey) (rest : Reconcile) :
    a.requestFrom a.lookups key rest = a.request key rest := by
  cases rest with
  | done result => rfl
  | ask r next => cases r <;> rfl

theorem stepFrom_lookups (a : Agent) (id : WorkerId) (w : Worker) :
    a.stepFrom a.lookups id w = a.step id w := by
  cases w with
  | working key rest => exact requestFrom_lookups a key rest
  | asking | waiting | writing | stopped => rfl

/-- An agent that has done nothing yet, before a hub that has the deployment records only. -/
def fresh (cluster : String) (timeout : Duration) (limiter : Limiter ObjectKey)
    (manifestWorks : Table RecordKey ManifestWork) : Agent where
  cluster := cluster
  timeout := timeout
  hub := { manifestWorks := manifestWorks }
  queue := { limiter := limiter }

end Agent

structure Floor where
  agent : Agent
  workers : List Worker

inductive Move where
  /-- A worker's turn. -/
  | turn (id : WorkerId)
  /-- An event for the watch of the deployment records. -/
  | work (e : WatchEvent)
  /-- An event for the watch of a kind. -/
  | object (kind : ResourceKind) (e : WatchEvent)
  /-- A timer of the queue. -/
  | fire (d : Delayed ObjectKey)
  /-- From now on the hub refuses writes or not, and takes so many milliseconds for each. -/
  | mood (failWrites : Bool) (writeDelay : Nat)
  /-- Time passes. -/
  | pass (time : Nat)
  deriving Repr

/-- What happened, as far as the order of things matters. -/
inductive Note where
  /-- A record was found to list a UID that its last set did not list. -/
  | listed (uid : String)
  /-- The last record that listed a UID dropped it. -/
  | dropped (uid : String)
  /-- The registry was told to count a UID in. -/
  | acquired (uid : String)
  /-- The registry was told to count a UID out. -/
  | released (uid : String)
  | posted (key : ObjectKey)
  /-- A worker found an object at the coordinates of its key. -/
  | found (id : WorkerId) (key : ObjectKey)
  /-- A worker made a record. -/
  | created (id : WorkerId) (record : String)
  /-- A worker that was to delete a record did so, or found none. -/
  | cleared (id : WorkerId) (record : String)
  deriving DecidableEq, Repr

def Program.isDone {α : Type} : Program α → Bool
  | .done _ => true
  | .ask _ _ => false

namespace Note

/-- Whether a note is about what is tracked or held. -/
def isNews : Note → Bool
  | .listed _ | .dropped _ | .acquired _ | .released _ => true
  | .posted _ | .found _ _ | .created _ _ | .cleared _ _ => false

/-- What a tracker reports. -/
def ofChanges (d : AppliedSet.Difference) : List Note :=
  d.added.entries.map (fun e => listed e.uid) ++ d.removed.entries.map fun e => dropped e.uid

/-- What the answer to a worker's request shows; `last` says that it was the last request. -/
def ofAnswer (id : WorkerId) (key : ObjectKey) (last : Bool) : (r : Request) → r.Answer → List Note
  | .hub (.create _ record), .ok _ => [created id (record.metadata.name.getD "")]
  | .hub (.delete _ name), .ok _ => [cleared id name]
  | .hub (.delete _ name), .error e => if e.isNotFound then [cleared id name] else []
  | .hub (.getRecord _ name), .error _ => if last then [cleared id name] else []
  | .find _ _ _, .present _ => [found id { key with deleted := none }]
  | .replaceSet _ _ _, changes => ofChanges changes
  | .removeSet _, forgotten => ofChanges { removed := forgotten.getD {} }
  | .acquire _ uid, _ => [acquired uid]
  | .release _ uid, _ => [released uid]
  | .enqueue key, () => [posted key]
  | _, _ => []

variable {id : WorkerId} {key : ObjectKey} {last : Bool} {cluster : String} {n : Note}

/-- All that is seen of a create is the record that it made. -/
theorem eq_of_mem_ofAnswer_create {record : WorkStatus} {v : Except AgentError WorkStatus}
    (h : n ∈ ofAnswer id key last (.hub (.create cluster record)) v) :
    n = created id (record.metadata.name.getD "") := by
  cases v with
  | ok _ => exact List.mem_singleton.mp h
  | error _ => cases h

theorem eq_of_mem_ofAnswer_delete {name : String} {v : Except AgentError Unit}
    (h : n ∈ ofAnswer id key last (.hub (.delete cluster name)) v) : n = cleared id name := by
  cases v with
  | ok _ => exact List.mem_singleton.mp h
  | error e =>
      simp only [ofAnswer] at h
      split at h
      · exact List.mem_singleton.mp h
      · cases h

end Note

namespace Floor

/-- The floor of an agent that starts with so many workers. -/
def start (a : Agent) (workers : Nat) : Floor := ⟨a, List.replicate workers .asking⟩

def turn (l : Lookups) (f : Floor) (id : WorkerId) : Floor :=
  match f.workers[id]? with
  | some w =>
      let (w, a) := f.agent.stepFrom l id w
      ⟨a, f.workers.set id w⟩
  | none => f

def withAgent (f : Floor) (a : Agent) : Floor := { f with agent := a }

def move (l : Lookups) (f : Floor) : Move → Floor
  | .turn id => f.turn l id
  | .work e => f.withAgent (f.agent.deliverWork e).2
  | .object kind e => f.withAgent (f.agent.deliver kind e).2
  | .fire d =>
      if d ∈ f.agent.queue.delayed then
        f.withAgent { f.agent with queue := f.agent.queue.fire d }
      else f
  | .mood failWrites writeDelay =>
      f.withAgent { f.agent with
        hub := { f.agent.hub with failWrites := failWrites, writeDelay := writeDelay } }
  | .pass time => f.withAgent { f.agent with clock := f.agent.clock.advanceTo time }

/-- The keys that an intake queues for an event. -/
def reported (i : Ingest) (e : WatchEvent) : List Note :=
  match i.handle? e with
  | some (_, keys) => keys.map Note.posted
  | none => []

def turnNotes (l : Lookups) (a : Agent) (id : WorkerId) : Worker → List Note
  | .working key (.ask (.hub c) next) =>
      match a.beginWrite? c with
      | some _ => []
      | none =>
          let value := (a.perform c).1
          Note.ofAnswer id key (next value).isDone (.hub c) value
  | .working key (.ask r next) =>
      let value := (Agent.answerFrom l r a).1
      Note.ofAnswer id key (next value).isDone r value
  | .writing key c pending next =>
      let value := (a.endWrite c pending).1
      Note.ofAnswer id key (next value).isDone (.hub c) value
  | _ => []

/-- What a move shows. -/
def notes (l : Lookups) (f : Floor) : Move → List Note
  | .turn id =>
      match f.workers[id]? with
      | some w => turnNotes l f.agent id w
      | none => []
  | .work e => if f.agent.worksFed then reported f.agent.works.ingest e else []
  | .object kind e =>
      match f.agent.registry.latest? kind with
      | some n =>
          match f.agent.registry.watch? n with
          | some w => if w.stopped then [] else reported w.ingest e
          | none => []
      | none => []
  | .fire _ | .mood _ _ | .pass _ => []

def run (l : Lookups) : Floor → List Move → Floor := List.foldl (move l)

/-- Everything that a run shows. -/
def log (l : Lookups) : Floor → List Move → List Note
  | _, [] => []
  | f, m :: rest => f.notes l m ++ log l (f.move l m) rest

@[simp] theorem run_cons (l : Lookups) (f : Floor) (m : Move) (rest : List Move) :
    f.run l (m :: rest) = (f.move l m).run l rest := rfl

theorem run_append (l : Lookups) (f : Floor) (first rest : List Move) :
    f.run l (first ++ rest) = (f.run l first).run l rest := List.foldl_append

theorem run_concat (l : Lookups) (f : Floor) (first : List Move) (m : Move) :
    f.run l (first ++ [m]) = (f.run l first).move l m := run_append l f first [m]

theorem log_append (l : Lookups) (f : Floor) (first rest : List Move) :
    f.log l (first ++ rest) = f.log l first ++ (f.run l first).log l rest := by
  induction first generalizing f with
  | nil => rfl
  | cons m first ih => simp only [List.cons_append, log, run_cons, ih, List.append_assoc]

theorem log_concat (l : Lookups) (f : Floor) (first : List Move) (m : Move) :
    f.log l (first ++ [m]) = f.log l first ++ (f.run l first).notes l m := by
  rw [log_append, log, log, List.append_nil]

/-- Some move of the run was as `p` says, and every note since then is as `q` says. -/
def Since (p : Floor → Move → Prop) (q : Note → Prop) (l : Lookups) (f : Floor)
    (moves : List Move) : Prop :=
  ∃ before m after, moves = before ++ m :: after ∧ p (f.run l before) m ∧
    ∀ n ∈ (f.run l before).log l (m :: after), q n

namespace Since

variable {p : Floor → Move → Prop} {q : Note → Prop} {l : Lookups} {f : Floor}
  {moves : List Move} {m : Move}

theorem concat (h : Since p q l f moves) (hn : ∀ n ∈ (f.run l moves).notes l m, q n) :
    Since p q l f (moves ++ [m]) := by
  obtain ⟨before, first, after, rfl, hp, hafter⟩ := h
  refine ⟨before, first, after ++ [m], by simp, hp, fun n hm => ?_⟩
  rw [← List.cons_append, log_concat, ← run_append] at hm
  rcases List.mem_append.mp hm with hm | hm
  · exact hafter n hm
  · exact hn n hm

theorem now (hp : p (f.run l moves) m) (hn : ∀ n ∈ (f.run l moves).notes l m, q n) :
    Since p q l f (moves ++ [m]) := by
  refine ⟨moves, m, [], rfl, hp, fun n hm => hn n ?_⟩
  rwa [log, log, List.append_nil] at hm

end Since

/-- Every move is made where `p` allows it. -/
def Along (p : Floor → Move → Prop) (l : Lookups) : Floor → List Move → Prop
  | _, [] => True
  | f, m :: rest => p f m ∧ Along p l (f.move l m) rest

theorem along_of_forall {p : Floor → Move → Prop} {l : Lookups} {f : Floor} {moves : List Move}
    (h : ∀ m ∈ moves, ∀ f, p f m) : Along p l f moves := by
  induction moves generalizing f with
  | nil => trivial
  | cons m rest ih =>
      exact ⟨h m List.mem_cons_self f, ih fun n hn => h n (List.mem_cons_of_mem _ hn)⟩

theorem along_append {p : Floor → Move → Prop} {l : Lookups} {f : Floor} {first rest : List Move} :
    Along p l f (first ++ rest) ↔ Along p l f first ∧ Along p l (f.run l first) rest := by
  induction first generalizing f with
  | nil => exact ⟨fun h => ⟨trivial, h⟩, And.right⟩
  | cons m first ih =>
      rw [List.cons_append, Along, ih, ← and_assoc]
      rfl

end Floor

/-! ## The turns of a session -/

namespace Session

def floor (r : Session) : Floor := ⟨r.agent, r.workers⟩

theorem floor_enqueueTurn (r : Session) (t : Turn) : (r.enqueueTurn t).floor = r.floor := by
  unfold enqueueTurn
  split <;> rfl

theorem floor_enqueueTurns (r : Session) (ids : List WorkerId) :
    (ids.foldl (fun r id => r.enqueueTurn (.worker id)) r).floor = r.floor := by
  induction ids generalizing r with
  | nil => rfl
  | cons id rest ih => rw [List.foldl_cons, ih, floor_enqueueTurn]

theorem floor_collectWoken (r : Session) : r.collectWoken.floor = r.floor :=
  floor_enqueueTurns r _

/-- Until it is told to stop, a session moves its workers as the floor does. -/
theorem floor_turn_worker (r : Session) (id : WorkerId) (h : r.stopping = false) :
    (r.turn (.worker id)).floor = r.floor.move r.agent.lookups (.turn id) := by
  unfold turn Floor.move Floor.turn
  cases hw : r.workers[id]? with
  | none => simp [floor, hw]
  | some w =>
      have hn : r.noticesStop w = false := by
        unfold noticesStop
        cases w <;> simp [h]
      simp only [floor, hw, workerTurn, hn, Bool.false_eq_true, if_false, Agent.stepFrom_lookups]
      have hc := floor_collectWoken ((r.withAgent (r.agent.step id w).2).setWorker id
        (r.agent.step id w).1)
      simp only [floor, withAgent, setWorker] at hc
      split <;> exact hc

theorem floor_turn_fire (r : Session) {d : Delayed ObjectKey} (hd : d ∈ r.agent.queue.delayed) :
    (r.turn (.fire d)).floor = r.floor.move r.agent.lookups (.fire d) := by
  have hm : r.floor.move r.agent.lookups (.fire d) =
      r.floor.withAgent { r.agent with queue := r.agent.queue.fire d } := if_pos hd
  rw [hm]
  exact floor_collectWoken _

end Session
end StatusRelay
