import StatusRelay.Proofs.Acts
import StatusRelay.Proofs.Company
import StatusRelay.Proofs.Deployments

/-!
# Reconciles before any hub

What a hub answers is taken from outside here, so that nothing is assumed of it. Then a reconcile
does at most one thing that matters to the agent itself: the key of a deployment record has a set
stored for a record, and queues the keys of what changed. All other requests only ask. The hub in
memory is one such hub, and before it the foreground of a session is a client.
-/
namespace StatusRelay

open Projector Reconciler

/-! ## Programs that only ask -/

/-- The request leaves the tracker, the registry and the queue as they are. -/
def Request.isQuery : Request → Bool
  | .hub _ | .resourceNamed _ _ _ | .resourceOfKind _ | .find _ _ _ | .ownerOf _ => true
  | .replaceSet _ _ _ | .removeSet _ | .acquire _ _ | .release _ _ | .enqueue _ => false

namespace Program

variable {α β : Type}

/-- Every request that the program may make is a query. -/
def Asks : Program α → Prop
  | .done _ => True
  | .ask r next => r.isQuery = true ∧ ∀ v, (next v).Asks

theorem Asks.bind {p : Program α} {f : α → Program β} (hp : p.Asks) (hf : ∀ a, (f a).Asks) :
    (p.bind f).Asks := by
  induction p with
  | done a => exact hf a
  | ask r next ih => exact ⟨hp.1, fun v => ih v (hp.2 v)⟩

end Program

namespace Attempt

variable {α β : Type}

def Asks (p : Attempt α) : Prop := p.run.Asks

theorem Asks.bind {p : Attempt α} {f : α → Attempt β} (hp : p.Asks) (hf : ∀ a, (f a).Asks) :
    (p >>= f).Asks := by
  refine Program.Asks.bind hp fun v => ?_
  cases v with
  | ok a => exact hf a
  | error e => trivial

theorem asks_pure (a : α) : (pure a : Attempt α).Asks := trivial

theorem asks_throw (e : AgentError) : (throw e : Attempt α).Asks := trivial

theorem asks_request {r : Request} (hr : r.isQuery = true) : (request r).Asks :=
  ⟨hr, fun _ => trivial⟩

theorem asks_hub (call : HubCall) : (hub call).Asks := ⟨rfl, fun _ => trivial⟩

theorem asks_hub? (call : HubCall) : (hub? call).Asks := by
  refine ⟨rfl, fun v => ?_⟩
  cases v <;> trivial

theorem asks_resourceOfKind (kind : ResourceKind) : (resourceOfKind kind).Asks :=
  ⟨rfl, fun _ => trivial⟩

end Attempt

open Attempt

variable {cluster : String} {key : ObjectKey} {o : Object}

theorem asks_delete (cluster kind ns name : String) : (delete cluster kind ns name).Asks := by
  refine (asks_hub? _).bind fun record? => ?_
  cases record? with
  | none => exact asks_pure ()
  | some _ => exact (asks_hub? _).bind fun _ => asks_pure ()

theorem asks_create (kind : ResourceKind) (owner : TrackedOwner) :
    (create cluster o kind owner).Asks := by
  refine (asks_hub _).bind fun work => ?_
  split
  · exact (asks_resourceOfKind kind).bind fun _ => (asks_hub _).bind fun _ => asks_pure _
  · exact asks_pure none

theorem asks_syncLabel (record : WorkStatus) : (syncLabel cluster o record).Asks := by
  unfold syncLabel
  split
  · exact asks_pure record
  · split
    · exact asks_pure record
    · exact asks_hub _

theorem asks_syncStatus (record : WorkStatus) : (syncStatus cluster o record).Asks := by
  unfold syncStatus
  split
  · exact asks_pure ()
  · split
    · exact asks_pure ()
    · exact (asks_hub _).bind fun _ => asks_pure ()

theorem asks_sync (kind : ResourceKind) (owner : TrackedOwner) :
    (sync cluster o kind owner).Asks := by
  have hrecord : (recordFor cluster o kind owner).Asks := by
    refine (asks_hub? _).bind fun record? => ?_
    cases record? with
    | some record => exact asks_pure _
    | none => exact asks_create kind owner
  refine hrecord.bind fun record? => ?_
  cases record? with
  | none => exact asks_pure ()
  | some record => exact (asks_syncLabel record).bind fun _ => asks_syncStatus _

theorem asks_reconcileObject : (reconcileObject cluster key o).Asks := by
  refine (asks_request rfl).bind fun owner? => ?_
  cases owner? with
  | some owner => exact (asks_sync _ owner).bind fun _ => asks_pure _
  | none =>
      simp only
      split
      · exact (asks_delete _ _ _ _).bind fun _ => asks_pure _
      · exact asks_pure _

theorem asks_resolve (key : ObjectKey) : (resolve key).Asks := by
  refine (asks_request rfl).bind fun sighting => ?_
  split
  · exact asks_pure _
  · exact asks_pure _
  · exact asks_pure _
  · exact asks_throw _

/-- The key of any object but a deployment record only asks. -/
theorem asks_reconcile (hk : key.kind ≠ appliedWorkKind) : (reconcile cluster key).Asks := by
  unfold reconcile
  split
  · exact asks_throw _
  · refine (asks_resolve key).bind fun resolved => ?_
    cases resolved with
    | nothing => exact asks_pure _
    | live o => exact asks_reconcileObject
    | gone snapshot => exact (asks_delete _ _ _ _).bind fun _ => asks_pure _

/-! ## Answers from outside -/

/-- A hub of some kind: what it answers to a call, what it is like after that, and what time it is
then. -/
structure Service (σ : Type) where
  reply : (c : HubCall) → σ → Except AgentError c.Answer × σ
  time : σ → Nat

/-- An agent, and a hub that it is before. -/
structure Client (σ : Type) where
  agent : Agent
  hub : σ

namespace Client

variable {σ : Type}

/-- The agent answers its requests itself, apart from calls to the hub. -/
def answer (l : Lookups) (service : Service σ) : (r : Request) → Client σ → r.Answer × Client σ
  | .hub c, s =>
      let (value, hub) := service.reply c s.hub
      (value, ⟨{ s.agent with clock := s.agent.clock.advanceTo (service.time hub) }, hub⟩)
  | r, s =>
      let (value, a) := Agent.answerFrom l r s.agent
      (value, { s with agent := a })

/-- As long as keys are in line, a worker asks for one, and reconciles and settles it. -/
def processNext (l : Lookups) (service : Service σ) (id : WorkerId) (s : Client σ) : Client σ :=
  if s.agent.queue.waiting.isEmpty then s
  else
    match s.agent.queue.poll id with
    | (.item key, queue) =>
        let (result, s) := (reconcile s.agent.cluster key).run.run (answer l service)
          { s with agent := { s.agent with queue := queue } }
        { s with agent := s.agent.settle key result }
    | (_, queue) => { s with agent := { s.agent with queue := queue } }

/-- The worker does so time and again, with no event and no timer between. -/
def rounds (l : Lookups) (service : Service σ) (id : WorkerId) : Nat → Client σ → Client σ
  | 0, s => s
  | n + 1, s => rounds l service id n (s.processNext l service id)

/-- With nothing in line nothing happens. -/
theorem rounds_of_idle {l : Lookups} {service : Service σ} {id : WorkerId} {s : Client σ}
    (h : s.agent.queue.waiting = []) (n : Nat) : s.rounds l service id n = s := by
  have hstays : s.processNext l service id = s := by
    unfold processNext
    rw [h]
    rfl
  induction n with
  | zero => rfl
  | succ n ih => rw [rounds, hstays, ih]

end Client

/-! ## What a reconcile does -/

/-- The tracker becomes another and keys are queued; the deployment records stay as cached. -/
structure Agent.Becomes (a : Agent) (t : Tracker) (keys : List ObjectKey) (a' : Agent) : Prop where
  tracker : a'.tracker = t
  works : a'.works = a.works
  queue : a'.queue = a.queue.addAll keys

theorem Agent.Becomes.refl (a : Agent) : a.Becomes a.tracker [] a := ⟨rfl, rfl, rfl⟩

/-- More keys are queued. -/
theorem Agent.Becomes.trans {a a' a'' : Agent} {t : Tracker} {keys keys' : List ObjectKey}
    (h : a.Becomes t keys a') (h' : a'.Becomes a'.tracker keys' a'') :
    a.Becomes t (keys ++ keys') a'' where
  tracker := h'.tracker.trans h.tracker
  works := h'.works.trans h.works
  queue := by
    rw [h'.queue, h.queue]
    exact List.foldl_append.symm

variable {σ : Type} {l : Lookups} {service : Service σ} {s : Client σ}

theorem Client.answer_query {r : Request} (hr : r.isQuery = true) (s : Client σ) :
    s.agent.Becomes s.agent.tracker [] (s.answer l service r).2.agent := by
  cases r with
  | hub | resourceNamed | resourceOfKind | find | ownerOf => exact ⟨rfl, rfl, rfl⟩
  | replaceSet | removeSet | acquire | release | enqueue => cases hr

theorem Program.run_ask {α : Type} (answer : (r : Request) → σ → r.Answer × σ) (r : Request)
    (next : r.Answer → Program α) (s : σ) :
    (Program.ask r next).run answer s = (next (answer r s).1).run answer (answer r s).2 := rfl

theorem Program.Asks.becomes {α : Type} {p : Program α} (hp : p.Asks) (s : Client σ) :
    s.agent.Becomes s.agent.tracker [] (p.run (Client.answer l service) s).2.agent := by
  induction p generalizing s with
  | done a => exact .refl s.agent
  | ask r next ih => exact (Client.answer_query hp.1 s).trans (ih _ (hp.2 _) _)

/-- The keys that are queued for changes. What is not served is passed over. -/
def Change.keys (l : Lookups) : List Change → List ObjectKey
  | [] => []
  | c :: rest =>
      match l.named c.entry.group c.entry.version c.entry.resource with
      | .ok resource => c.key resource :: keys l rest
      | .error _ => keys l rest

open Stage

/-- The registry is told first, and the key is queued then. -/
theorem becomes_telling {c : Change} {resource : ApiResource} {changes : List Change}
    {keys : List ObjectKey}
    (h : ∀ s : Client σ, s.agent.Becomes s.agent.tracker keys
      (((changing changes).rest cluster key).run (Client.answer l service) s).2.agent)
    (s : Client σ) :
    s.agent.Becomes s.agent.tracker (c.key resource :: keys)
      (((telling c resource changes).rest cluster key).run (Client.answer l service)
        s).2.agent := by
  have hposted : ∀ s : Client σ, s.agent.Becomes s.agent.tracker (c.key resource :: keys)
      (((posting c resource changes).rest cluster key).run (Client.answer l service)
        s).2.agent := by
    intro s
    have hqueued : s.agent.Becomes s.agent.tracker [c.key resource]
        (s.answer l service (.enqueue (c.key resource))).2.agent := ⟨rfl, rfl, rfl⟩
    exact hqueued.trans (h _)
  have htold : ∀ gained : Bool, s.agent.Becomes s.agent.tracker [] (s.answer l service
      (if gained then .acquire resource c.uid
        else .release resource.resourceKind c.uid)).2.agent := by
    intro gained
    cases gained <;> exact ⟨rfl, rfl, rfl⟩
  rw [rest_telling, Program.run_ask]
  exact (htold c.gained).trans (hposted _)

theorem becomes_changing (changes : List Change) (s : Client σ) :
    s.agent.Becomes s.agent.tracker (Change.keys l changes)
      (((changing changes).rest cluster key).run (Client.answer l service) s).2.agent := by
  induction changes generalizing s with
  | nil => exact .refl s.agent
  | cons c rest ih =>
      have hasked : s.agent.Becomes s.agent.tracker [] (s.answer l service
          (.resourceNamed c.entry.group c.entry.version c.entry.resource)).2.agent :=
        Client.answer_query rfl s
      have hanswer : (s.answer l service
          (.resourceNamed c.entry.group c.entry.version c.entry.resource)).1 =
          l.named c.entry.group c.entry.version c.entry.resource := rfl
      rw [rest_changing, Program.run_ask, hanswer, Change.keys]
      cases l.named c.entry.group c.entry.version c.entry.resource with
      | error e => exact hasked.trans (ih _)
      | ok resource => exact hasked.trans (becomes_telling ih _)

/-- What the key of a deployment record would have stored, and for which record. -/
inductive Agent.Offers (a : Agent) (key : ObjectKey) : String → AppliedSet → Prop
  | listed {o : Object} {work : AppliedWork}
      (hf : a.find key.kind key.ns key.name = .present o)
      (hw : AppliedWork.ofObject o = .ok work) (hready : o.Ready work) :
      Offers a key o.name (AppliedSet.ofResources work.resources)
  | gone {snapshot : DeletedSnapshot} (hf : ∀ o, a.find key.kind key.ns key.name ≠ .present o)
      (hd : key.deleted = some snapshot) : Offers a key snapshot.name {}

/-- What reconciling a key does to the agent. -/
inductive Agent.Reconciled (l : Lookups) (a : Agent) (key : ObjectKey) (a' : Agent) : Prop
  | nothing (h : a.Becomes a.tracker [] a')
  | stores {name manifestWork : String} {applied : AppliedSet}
      (hk : key.kind = appliedWorkKind) (ho : a.Offers key name applied)
      (h : a.Becomes (a.tracker.replace name manifestWork applied).2
        (Change.keys l (Change.ofDifference (a.tracker.replace name manifestWork applied).1)) a')

theorem Tracker.replace_empty (t : Tracker) (work manifestWork : String) :
    (t.replace work manifestWork {}).1 =
      { removed := (t.replace work manifestWork {}).1.removed } := by
  have hadded : (t.replace work manifestWork {}).1.added = {} := by
    rw [Tracker.added_replace, Tracker.difference_empty]
  exact congrArg (AppliedSet.Difference.mk · _) hadded

theorem reconciled_opened {a : Agent} (hb : a.Becomes a.tracker [] s.agent)
    (hk : key.kind = appliedWorkKind) (hf : a.find key.kind key.ns key.name = .present o) :
    a.Reconciled l key
      (((opened o).rest cluster key).run (Client.answer l service) s).2.agent := by
  rcases opened_cases o with ⟨_, _, _, he⟩ | ⟨work, hw, ⟨_, he⟩ | ⟨hready, he⟩⟩
  · rw [he]
    exact .nothing hb
  · rw [he]
    exact .nothing hb
  · have hstored : a.Becomes
        (a.tracker.replace o.name work.manifestWork (.ofResources work.resources)).2 []
        (s.answer l service
          (.replaceSet o.name work.manifestWork (.ofResources work.resources))).2.agent :=
      ⟨hb.tracker ▸ rfl, hb.works, hb.queue⟩
    have hanswer : (s.answer l service
        (.replaceSet o.name work.manifestWork (.ofResources work.resources))).1 =
        (a.tracker.replace o.name work.manifestWork (.ofResources work.resources)).1 :=
      hb.tracker ▸ rfl
    rw [he, rest_replacing, Program.run_ask, hanswer]
    exact .stores hk (.listed hf hw hready) (hstored.trans (becomes_changing _ _))

theorem reconciled_removing {a : Agent} {snapshot : DeletedSnapshot}
    (hb : a.Becomes a.tracker [] s.agent) (hk : key.kind = appliedWorkKind)
    (hf : ∀ o, a.find key.kind key.ns key.name ≠ .present o)
    (hd : key.deleted = some snapshot) :
    a.Reconciled l key
      (((removing snapshot.name).rest cluster key).run (Client.answer l service) s).2.agent := by
  have hanswer : (s.answer l service (.removeSet snapshot.name)).1 =
      (a.tracker.remove snapshot.name).1 := hb.tracker ▸ rfl
  have hforgot : a.Becomes (a.tracker.remove snapshot.name).2 []
      (s.answer l service (.removeSet snapshot.name)).2.agent :=
    ⟨hb.tracker ▸ rfl, hb.works, hb.queue⟩
  rw [rest_removing, Program.run_ask, hanswer]
  cases hg : a.tracker.works.get? snapshot.name with
  | none =>
      rw [Tracker.remove_of_get?_eq_none hg] at hforgot ⊢
      exact .nothing (hforgot.trans (becomes_changing [] _))
  | some tracked =>
      rw [Tracker.remove_eq_replace hg ""] at hforgot ⊢
      have hqueued : a.Becomes (a.tracker.replace snapshot.name "" {}).2
          (Change.keys l (Change.ofDifference (a.tracker.replace snapshot.name "" {}).1))
          (((changing (Change.ofDifference
            { removed := (a.tracker.replace snapshot.name "" {}).1.removed })).rest cluster
              key).run (Client.answer l service)
            (s.answer l service (.removeSet snapshot.name)).2).2.agent := by
        rw [Tracker.replace_empty]
        exact hforgot.trans (becomes_changing _ _)
      exact .stores hk (.gone hf hd) hqueued

/-- Whatever the hub answers, a reconcile stores at most one set and queues the keys of what
changed. -/
theorem reconciled_reconcile (key : ObjectKey) (s : Client σ) :
    s.agent.Reconciled l key
      ((reconcile cluster key).run.run (Client.answer l service) s).2.agent := by
  by_cases hk : key.kind = appliedWorkKind
  · rw [← rest_first]
    unfold first
    split
    · exact .nothing (.refl s.agent)
    have hasked : s.agent.Becomes s.agent.tracker []
        (s.answer l service (.find key.kind key.ns key.name)).2.agent := Client.answer_query rfl s
    have hanswer : (s.answer l service (.find key.kind key.ns key.name)).1 =
        s.agent.find key.kind key.ns key.name := rfl
    rw [rest_fresh, Program.run_ask, hanswer]
    cases hf : s.agent.find key.kind key.ns key.name with
    | present o =>
        simp only [if_pos hk]
        exact reconciled_opened hasked hk hf
    | absent | noWatch =>
        cases hd : key.deleted with
        | none => exact .nothing hasked
        | some snapshot =>
            simp only [if_pos hk]
            exact reconciled_removing hasked hk (by simp [hf]) hd
  · exact .nothing ((asks_reconcile hk).becomes s)

/-! ## The foreground of a session -/

/-- The hub in memory while it answers at once. -/
def Hub.prompt : Service Hub where
  reply c hub := (Agent.liftHub (hub.perform c).1, (hub.perform c).2)
  time _ := 0

namespace Session

/-- The session has the client's agent and hub, and the hub takes no time for anything. -/
structure Mirrors (r : Session) (l : Lookups) (id : WorkerId) (s : Client Hub) : Prop where
  agent : r.agent = { s.agent with hub := s.hub }
  prompt : s.hub.writeDelay = 0
  lookups : s.agent.lookups = l
  workers : r.workers.length = id

variable {r : Session} {id : WorkerId} {s : Client Hub}

theorem Mirrors.collectWoken (h : r.Mirrors l id s) : r.collectWoken.Mirrors l id s := by
  obtain ⟨ha, hw, -, -⟩ := unlined_eq_iff.mp (unlined_collectWoken r)
  exact ⟨ha.trans h.agent, h.prompt, h.lookups, hw ▸ h.workers⟩

/-- A hub that is prompt begins no write that takes effect later. -/
theorem Mirrors.beginWrite? (h : r.Mirrors l id s) (c : HubCall) :
    r.agent.beginWrite? c = none := by
  cases hb : r.agent.beginWrite? c with
  | none => rfl
  | some begun =>
      refine absurd ?_ (Scene.writeDelay_of_beginWrite? hb).2
      rw [h.agent]
      exact h.prompt

theorem Mirrors.serve (h : r.Mirrors l id s) (q : Request) :
    (Session.serve q r).1 = (s.answer l Hub.prompt q).1 ∧
      (Session.serve q r).2.Mirrors l id (s.answer l Hub.prompt q).2 := by
  have hnone := h.beginWrite?
  obtain ⟨agent, workers, controllers, stopping, line⟩ := r
  obtain ⟨hagent, hprompt, rfl, hworkers⟩ := h
  obtain rfl : agent = _ := hagent
  cases q with
  | hub c =>
      have hmood : (s.hub.perform c).2.mood = s.hub.mood := Hub.mood_perform s.hub c
      simp only [Session.serve, hnone]
      refine ⟨rfl, ?_, (congrArg Mood.writeDelay hmood).trans hprompt, rfl, hworkers⟩
      simp [Client.answer, Hub.prompt, Session.withAgent, Agent.perform, Clock.advanceTo]
  | resourceNamed | resourceOfKind | find | replaceSet | removeSet | ownerOf | acquire | release
  | enqueue => exact ⟨rfl, Mirrors.collectWoken ⟨rfl, hprompt, rfl, hworkers⟩⟩

theorem Mirrors.perform {α : Type} (h : r.Mirrors l id s) (p : Program α) :
    (r.perform p).1 = (p.run (Client.answer l Hub.prompt) s).1 ∧
      (r.perform p).2.Mirrors l id (p.run (Client.answer l Hub.prompt) s).2 := by
  unfold Session.perform
  induction p generalizing r s with
  | done a => exact ⟨rfl, h⟩
  | ask q next ih =>
      obtain ⟨hvalue, hs⟩ := h.serve q
      rw [Program.run_ask, Program.run_ask, hvalue]
      exact ih _ hs

theorem Mirrors.settle (h : r.Mirrors l id s) (key : ObjectKey)
    (result : Except AgentError Outcome) :
    (r.withAgent (r.agent.settle key result)).Mirrors l id
      { s with agent := s.agent.settle key result } := by
  refine ⟨?_, h.prompt, ?_, h.workers⟩
  · change r.agent.settle key result = _
    rw [h.agent, Agent.settle_eq, Agent.settle_eq]
    split <;> rfl
  · obtain ⟨queue, clock, he⟩ := Agent.settle_frame s.agent key result
    rw [he]
    exact h.lookups

/-- With a hub that takes no time, the keys that a session processes in its foreground are rounds
of a client. -/
theorem Mirrors.processKeys (h : r.Mirrors l id s) (n : Nat) :
    (r.processKeys n).2.Mirrors l id (s.rounds l Hub.prompt id n) := by
  induction n generalizing r s with
  | zero => exact h
  | succ n ih =>
      have hqueue : r.agent.queue = s.agent.queue := by rw [h.agent]
      have hcluster : r.agent.cluster = s.agent.cluster := by rw [h.agent]
      cases hw : s.agent.queue.waiting with
      | nil =>
          rw [Client.rounds_of_idle hw]
          simp only [Session.processKeys, hqueue, hw, List.isEmpty_nil, if_true]
          exact h
      | cons first rest =>
          obtain ⟨key, queue, hpoll⟩ : ∃ key queue, s.agent.queue.poll id = (.item key, queue) := by
            obtain ⟨key, hout, -⟩ := WorkQueue.takes_poll (hw ▸ List.cons_ne_nil _ _) id
            exact ⟨key, _, Prod.ext hout rfl⟩
          have htaken : (r.withAgent { r.agent with queue := queue }).Mirrors l id
              { s with agent := { s.agent with queue := queue } } := by
            refine ⟨?_, h.prompt, h.lookups, h.workers⟩
            rw [h.agent]
            rfl
          have hreconcile : (r.withAgent { r.agent with queue := queue }).reconcile key =
              (r.withAgent { r.agent with queue := queue }).perform
                (Reconciler.reconcile s.agent.cluster key).run := by
            rw [← hcluster]
            rfl
          obtain ⟨hresult, hdone⟩ :=
            htaken.perform (Reconciler.reconcile s.agent.cluster key).run
          simp only [Session.processKeys, Client.rounds, Client.processNext, hqueue, hw,
            List.isEmpty_cons, Bool.false_eq_true, if_false, h.workers, hpoll, hreconcile]
          refine ih (Mirrors.collectWoken ?_)
          rw [← hresult]
          exact hdone.settle key _

/-- So it is for the client that has the session's agent and hub. -/
theorem agent_processKeys (r : Session) (h : r.agent.hub.writeDelay = 0) (n : Nat) :
    let s := (⟨r.agent, r.agent.hub⟩ : Client Hub).rounds r.agent.lookups Hub.prompt
      r.workers.length n
    (r.processKeys n).2.agent = { s.agent with hub := s.hub } := by
  intro s
  have hmirrors : r.Mirrors r.agent.lookups r.workers.length ⟨r.agent, r.agent.hub⟩ :=
    ⟨rfl, h, rfl, rfl⟩
  exact (hmirrors.processKeys n).agent

end Session
end StatusRelay
