import StatusRelay.Proofs.Stages
import StatusRelay.Proofs.Backlog

/-!
# What a worker has in hand

A worker is free or has a key in hand at some stage. `Answered` lists what the answer to the next
request can do, stage by stage: it leads on to another stage, changes at most one part of the agent,
and shows at most what the log keeps of it. `Turned` adds taking a key and settling it. A floor
whose workers are what hands stand for moves as the hands do, so whatever holds of all these cases
holds of every run.
-/
namespace StatusRelay

namespace Stage

/-- How the reconcile ended, if nothing is left to ask. -/
def result? : Stage → Option (Except AgentError Outcome)
  | finished result => some result
  | changing [] => some (.ok .settled)
  | _ => none

/-- The write to the hub that comes next. -/
def write? (cluster : String) : Stage → Option HubCall
  | creating _ record => some (.create cluster record)
  | patching _ record label =>
      some (.patchLabels cluster record.name (.ofList [(Labels.singletonKey, label)]))
  | updating record status => some (.updateStatus cluster (record.setStatus (some status)))
  | erasing record => some (.delete cluster record)
  | _ => none

/-! What holds of the stages that may follow, holds of the one that does. -/

variable {P : Stage → Prop} {o : Object}

theorem of_labelled (record : WorkStatus) (hf : ∀ result, P (finished result))
    (hu : ∀ status, o.status = some status → P (updating record status)) :
    P (labelled o record) := by
  unfold labelled
  split
  · exact hf _
  · rename_i status hs
    split
    · exact hf _
    · exact hu status hs

theorem of_recorded (record : WorkStatus) (hf : ∀ result, P (finished result))
    (hu : ∀ status, o.status = some status → P (updating record status))
    (hp : ∀ label, o.metadata.label? Labels.singletonKey = some label →
      P (patching o record label)) :
    P (recorded o record) := by
  unfold recorded
  split
  · exact of_labelled record hf hu
  · rename_i label hl
    split
    · exact of_labelled record hf hu
    · exact hp label hl

theorem of_opened (hf : ∀ result, P (finished result))
    (hr : ∀ work, AppliedWork.ofObject o = .ok work →
      P (replacing o.name work.manifestWork (AppliedSet.ofResources work.resources))) :
    P (opened o) := by
  unfold opened
  split
  · exact hf _
  · rename_i work hw
    simp only
    split
    · exact hf _
    · exact hr work hw

theorem of_first (hf : ∀ result, P (finished result)) (h : P fresh) (key : ObjectKey) :
    P (first key) := by
  unfold first
  split
  · exact hf _
  · exact h

theorem of_written (hf : ∀ result, P (finished result)) {next : WorkStatus → Stage}
    (h : ∀ record, P (next record)) (v : Except AgentError WorkStatus) : P (written next v) := by
  cases v with
  | ok record => exact h record
  | error e => exact hf _

theorem of_created (hf : ∀ result, P (finished result))
    (hu : ∀ record status, P (updating record status))
    (hp : ∀ record label, P (patching o record label)) (v : Except AgentError WorkStatus) :
    P (written (recorded o) v) :=
  of_written hf (fun record => of_recorded record hf (fun status _ => hu record status)
    fun label _ => hp record label) v

theorem of_patched (hf : ∀ result, P (finished result))
    (hu : ∀ record status, P (updating record status)) (v : Except AgentError WorkStatus) :
    P (written (labelled o) v) :=
  of_written hf (fun record => of_labelled record hf fun status _ => hu record status) v

theorem of_updated (hf : ∀ result, P (finished result)) (v : Except AgentError WorkStatus) :
    P (written (fun _ => finished (.ok .settled)) v) :=
  of_written hf (fun _ => hf _) v

theorem of_erased (hf : ∀ result, P (finished result)) (v : Except AgentError Unit) :
    P (erased v) := by
  unfold erased
  split
  · exact hf _
  · split <;> exact hf _

end Stage

/-- A write that takes effect, or does not because its time was up. -/
inductive Wrote (a : Agent) (c : HubCall) : Except AgentError c.Answer → Agent → Prop
  | effect : Wrote a c (a.perform c).1 (a.perform c).2
  | timeout : Wrote a c (.error (.hubTimeout c.describe)) a

open Stage

/-- An answer that changes nothing. -/
inductive Leads (l : Lookups) (a : Agent) (id : WorkerId) (key : ObjectKey) :
    Stage → Stage → List Note → Prop
  | present (o : Object) (h : a.find key.kind key.ns key.name = .present o)
      (hk : key.kind ≠ appliedWorkKind) :
      Leads l a id key fresh (found o) [.found id { key with deleted := none }]
  | presentWork (o : Object) (h : a.find key.kind key.ns key.name = .present o)
      (hk : key.kind = appliedWorkKind) :
      Leads l a id key fresh (opened o) [.found id { key with deleted := none }]
  | gone (snapshot : DeletedSnapshot) (h : ∀ o, a.find key.kind key.ns key.name ≠ .present o)
      (hd : key.deleted = some snapshot) (hk : key.kind ≠ appliedWorkKind) :
      Leads l a id key fresh (looking (recordName snapshot.kind snapshot.ns snapshot.name)) []
  | workGone (snapshot : DeletedSnapshot) (h : ∀ o, a.find key.kind key.ns key.name ≠ .present o)
      (hd : key.deleted = some snapshot) (hk : key.kind = appliedWorkKind) :
      Leads l a id key fresh (removing snapshot.name) []
  | absent (h : a.find key.kind key.ns key.name = .absent) (hd : key.deleted = none) :
      Leads l a id key fresh (finished (.ok .settled)) []
  | unwatched (h : a.find key.kind key.ns key.name = .noWatch) (hd : key.deleted = none) :
      Leads l a id key fresh (finished (.error (.listerNotFound key.kind.text))) []
  | owned (o : Object) (owner : TrackedOwner) (h : a.tracker.ownerOf? o.uid = some owner) :
      Leads l a id key (found o) (reading o owner) []
  | unowned (o : Object) (h : a.tracker.ownerOf? o.uid = none) (hd : key.isDeleted = false) :
      Leads l a id key (found o) (finished (.ok .settled)) []
  | unownedDeleted (o : Object) (h : a.tracker.ownerOf? o.uid = none)
      (hd : key.isDeleted = true) :
      Leads l a id key (found o) (looking (recordName key.kind.kind key.ns key.name)) []
  | read (o : Object) (owner : TrackedOwner) (record : WorkStatus)
      (h : a.hub.getRecord a.cluster (Projector.recordNameOf o key.kind) = .ok record) :
      Leads l a id key (reading o owner) (recorded o record) []
  | missing (o : Object) (owner : TrackedOwner)
      (h : a.hub.records.get? (a.cluster, Projector.recordNameOf o key.kind) = none) :
      Leads l a id key (reading o owner) (fetching o owner) []
  | fetched (o : Object) (owner : TrackedOwner) (work : ManifestWork)
      (h : a.hub.getManifestWork a.cluster owner.manifestWork = .ok work)
      (hm : work.labels.isManaged = true) :
      Leads l a id key (fetching o owner) (resolving o work) []
  | unmanaged (o : Object) (owner : TrackedOwner) (work : ManifestWork)
      (h : a.hub.getManifestWork a.cluster owner.manifestWork = .ok work)
      (hm : work.labels.isManaged = false) :
      Leads l a id key (fetching o owner) (finished (.ok .settled)) []
  | unfetched (o : Object) (owner : TrackedOwner) (e : HubError)
      (h : a.hub.getManifestWork a.cluster owner.manifestWork = .error e) :
      Leads l a id key (fetching o owner) (finished (.error (.hub e))) []
  | resolved (o : Object) (work : ManifestWork) (resource : ApiResource)
      (h : l.ofKind key.kind = .ok resource) :
      Leads l a id key (resolving o work)
        (creating o (Projector.newRecord a.cluster o key.kind work resource.plural)) []
  | unresolved (o : Object) (work : ManifestWork) (e : AgentError)
      (h : l.ofKind key.kind = .error e) :
      Leads l a id key (resolving o work) (finished (.error e)) []
  | looked (name : String) (record : WorkStatus)
      (h : a.hub.getRecord a.cluster name = .ok record) :
      Leads l a id key (looking name) (erasing name) []
  | clear (name : String) (h : a.hub.records.get? (a.cluster, name) = none) :
      Leads l a id key (looking name) (finished (.ok .settled)) [.cleared id name]
  | served (c : Change) (changes : List Change) (resource : ApiResource)
      (h : l.named c.entry.group c.entry.version c.entry.resource = .ok resource) :
      Leads l a id key (changing (c :: changes)) (telling c resource changes) []
  | unserved (c : Change) (changes : List Change) (e : AgentError)
      (h : l.named c.entry.group c.entry.version c.entry.resource = .error e) :
      Leads l a id key (changing (c :: changes)) (changing changes) []

/-- What the answer to the next request does. -/
inductive Answered (l : Lookups) (a : Agent) (id : WorkerId) (key : ObjectKey) :
    Stage → Stage → Agent → List Note → Prop
  | leads {st st' : Stage} {notes : List Note} (h : Leads l a id key st st' notes) :
      Answered l a id key st st' a notes
  | creates (o : Object) (record : WorkStatus) {v : Except AgentError WorkStatus} {a' : Agent}
      (h : Wrote a (.create a.cluster record) v a') :
      Answered l a id key (creating o record) (written (recorded o) v) a'
        (Note.ofAnswer id key false (.hub (.create a.cluster record)) v)
  | patches (o : Object) (record : WorkStatus) (label : String)
      {v : Except AgentError WorkStatus} {a' : Agent}
      (h : Wrote a (.patchLabels a.cluster record.name
        (.ofList [(Labels.singletonKey, label)])) v a') :
      Answered l a id key (patching o record label) (written (labelled o) v) a' []
  | updates (record : WorkStatus) (status : Json) {v : Except AgentError WorkStatus} {a' : Agent}
      (h : Wrote a (.updateStatus a.cluster (record.setStatus (some status))) v a') :
      Answered l a id key (updating record status)
        (written (fun _ => finished (.ok .settled)) v) a' []
  | erases (name : String) {v : Except AgentError Unit} {a' : Agent}
      (h : Wrote a (.delete a.cluster name) v a') :
      Answered l a id key (erasing name) (erased v) a'
        (Note.ofAnswer id key false (.hub (.delete a.cluster name)) v)
  | replaces (work manifestWork : String) (applied : AppliedSet) :
      Answered l a id key (replacing work manifestWork applied)
        (changing (Change.ofDifference (a.tracker.replace work manifestWork applied).1))
        { a with tracker := (a.tracker.replace work manifestWork applied).2 }
        (Note.ofChanges (a.tracker.replace work manifestWork applied).1)
  | removes (work : String) :
      Answered l a id key (removing work)
        (changing (Change.ofDifference { removed := (a.tracker.remove work).1.getD {} }))
        { a with tracker := (a.tracker.remove work).2 }
        (Note.ofChanges { removed := (a.tracker.remove work).1.getD {} })
  | acquires (c : Change) (resource : ApiResource) (changes : List Change)
      (hc : c.gained = true) :
      Answered l a id key (telling c resource changes) (posting c resource changes)
        { a with registry := (a.registry.acquire resource c.uid).2 } [.acquired c.uid]
  | releases (c : Change) (resource : ApiResource) (changes : List Change)
      (hc : c.gained = false) :
      Answered l a id key (telling c resource changes) (posting c resource changes)
        { a with registry := (a.registry.release resource.resourceKind c.uid).2 }
        [.released c.uid]
  | posts (c : Change) (resource : ApiResource) (changes : List Change) :
      Answered l a id key (posting c resource changes) (changing changes)
        { a with queue := a.queue.add (c.key resource) } [.posted (c.key resource)]

inductive Hand where
  | free
  /-- Registered with the queue. -/
  | idle
  | busy (key : ObjectKey) (stage : Stage) (pending : Option PendingCall)
  | gone

/-- The worker that has this in hand. -/
def Hand.worker (cluster : String) : Hand → Worker
  | free => .asking
  | idle => .waiting
  | busy key stage none => .working key (stage.rest cluster key)
  | busy key stage (some pending) =>
      match stage.write? cluster, stage.rest cluster key with
      | some _, .ask (.hub c) next => .writing key c pending next
      | _, rest => .working key rest
  | gone => .stopped

/-- What a worker's turn does. -/
inductive Turned (l : Lookups) (a : Agent) (id : WorkerId) : Hand → Hand → Agent → List Note → Prop
  | waits {h : Hand} {q : WorkQueue ObjectKey} (hh : h = .free ∨ h = .idle)
      (hq : a.queue.SameItems q) : Turned l a id h .idle { a with queue := q } []
  | takes {h : Hand} {q : WorkQueue ObjectKey} (key : ObjectKey) (hh : h = .free ∨ h = .idle)
      (hq : a.queue.HandsOut key q) (hs : q.Sound a.clock) :
      Turned l a id h (.busy key (first key) none) { a with queue := q } []
  | begins (key : ObjectKey) (stage : Stage) {p : Option PendingCall} (pending : PendingCall)
      {clock : Clock} (hw : (stage.write? a.cluster).isSome = true)
      (hc : a.clock.issued ≤ clock.issued) :
      Turned l a id (.busy key stage p) (.busy key stage (some pending))
        { a with clock := clock } []
  | answers (key : ObjectKey) {stage stage' : Stage} {p : Option PendingCall} {a' : Agent}
      {notes : List Note} (h : Answered l a id key stage stage' a' notes) :
      Turned l a id (.busy key stage p) (.busy key stage' none) a' notes
  | settles (key : ObjectKey) {stage : Stage} {p : Option PendingCall}
      {result : Except AgentError Outcome} (h : stage.result? = some result) :
      Turned l a id (.busy key stage p) .free (a.settle key result) []
  | gone : Turned l a id .gone .gone a []

/-! ## Every turn is one of these -/

namespace Hand

variable {l : Lookups} {a : Agent} {id : WorkerId} {key : ObjectKey} {stage : Stage}
  {p : Option PendingCall}

/-- The turn of a worker with this in hand is one that `Turned` lists. -/
def Plays (l : Lookups) (a : Agent) (id : WorkerId) (h : Hand) : Prop :=
  ∃ h' a', a.stepFrom l id (h.worker a.cluster) = (h'.worker a.cluster, a') ∧
    Turned l a id h h' a' (Floor.turnNotes l a id (h.worker a.cluster))

theorem key?_worker_busy (cluster : String) :
    ((busy key stage p).worker cluster).key? = some key := by
  unfold worker
  cases p with
  | none => rfl
  | some pending =>
      simp only
      split <;> rfl

theorem worker_busy (cluster : String) (hw : stage.write? cluster = none) :
    (busy key stage p).worker cluster = .working key (stage.rest cluster key) := by
  cases p with
  | none => rfl
  | some pending => simp [worker, hw]

theorem worker_writing {cluster : String} {c : HubCall} {pending : PendingCall}
    {next : Except AgentError c.Answer → Reconcile}
    (hw : (stage.write? cluster).isSome = true)
    (hr : stage.rest cluster key = .ask (.hub c) next) :
    (busy key stage (some pending)).worker cluster = .writing key c pending next := by
  obtain ⟨c', hc⟩ := Option.isSome_iff_exists.mp hw
  simp [worker, hc, hr]

/-- The worker goes on with the program of the stage that it has in hand. -/
theorem rest_of_working {cluster : String} {x : Hand} {q : Reconcile}
    (h : x.worker cluster = .working key q) :
    ∃ stage p, x = busy key stage p ∧ stage.rest cluster key = q := by
  cases x with
  | free | idle | gone => cases h
  | busy key' stage p =>
      cases p with
      | none =>
          cases h
          exact ⟨stage, none, rfl, rfl⟩
      | some pending =>
          simp only [worker] at h
          split at h
          · cases h
          · cases h
            exact ⟨stage, some pending, rfl, rfl⟩

theorem beginWrite?_of_read {c : HubCall} (hc : c.isWrite = false) : a.beginWrite? c = none := by
  simp [Agent.beginWrite?, Hub.delayOf, hc]

theorem clock_of_beginWrite? {c : HubCall} {pending : PendingCall} {a' : Agent}
    (h : a.beginWrite? c = some (pending, a')) :
    ∃ clock : Clock, a.clock.issued ≤ clock.issued ∧ a' = { a with clock := clock } := by
  unfold Agent.beginWrite? at h
  split at h
  · cases h
  · cases h
    exact ⟨_, Nat.le_succ _, rfl⟩

theorem wrote_endWrite (c : HubCall) (pending : PendingCall) :
    Wrote a c (a.endWrite c pending).1 (a.endWrite c pending).2 := by
  unfold Agent.endWrite
  split
  · exact .effect
  · exact .timeout

theorem ofAnswer_write {c : HubCall} (hc : c.isWrite = true) (last : Bool)
    (v : Except AgentError c.Answer) :
    Note.ofAnswer id key last (.hub c) v = Note.ofAnswer id key false (.hub c) v := by
  cases c with
  | getManifestWork | getRecord => cases hc
  | create | delete | patchLabels | updateStatus => cases v <;> rfl

/-- How a stage goes on: not at all, with a write, or with a request that is answered at once. -/
inductive Continues (l : Lookups) (a : Agent) (id : WorkerId) (key : ObjectKey) (stage : Stage) :
    Prop
  | ends {result : Except AgentError Outcome} (h : stage.result? = some result)
      (hw : stage.write? a.cluster = none) (hr : stage.rest a.cluster key = .done result)
  | writes {c : HubCall} {f : Except AgentError c.Answer → Stage}
      (hw : (stage.write? a.cluster).isSome = true) (hc : c.isWrite = true)
      (hr : stage.rest a.cluster key = .ask (.hub c) fun v => (f v).rest a.cluster key)
      (ha : ∀ v a', Wrote a c v a' →
        Answered l a id key stage (f v) a' (Note.ofAnswer id key false (.hub c) v))
  | asks {r : Request} {f : r.Answer → Stage} (hw : stage.write? a.cluster = none)
      (hr : stage.rest a.cluster key = .ask r fun v => (f v).rest a.cluster key)
      (hread : ∀ c, r = .hub c → c.isWrite = false)
      (ha : ∀ v a', Agent.answerFrom l r a = (v, a') →
        Answered l a id key stage (f v) a'
          (Note.ofAnswer id key ((f v).rest a.cluster key).isDone r v))

theorem Continues.plays (h : Continues l a id key stage) : Plays l a id (busy key stage p) := by
  unfold Plays
  cases h with
  | ends h hw hr =>
      rw [worker_busy a.cluster hw, hr]
      exact ⟨free, _, rfl, .settles key h⟩
  | @writes c f hw hc hr ha =>
      -- A write is begun in one turn and may end in another.
      cases p with
      | none =>
          have hworker : (busy key stage none).worker a.cluster =
              .working key (.ask (.hub c) fun v => (f v).rest a.cluster key) := by
            rw [← hr]
            rfl
          rw [hworker]
          simp only [Agent.stepFrom, Agent.requestFrom, Floor.turnNotes]
          cases hb : a.beginWrite? c with
          | some begun =>
              obtain ⟨pending, a'⟩ := begun
              obtain ⟨clock, hclock, rfl⟩ := clock_of_beginWrite? hb
              exact ⟨busy key stage (some pending), _, by rw [worker_writing hw hr],
                .begins key stage pending hw hclock⟩
          | none =>
              refine ⟨busy key (f (a.perform c).1) none, (a.perform c).2, rfl, ?_⟩
              simp only [ofAnswer_write hc]
              exact .answers key (ha _ _ .effect)
      | some pending =>
          rw [worker_writing hw hr]
          refine ⟨busy key (f (a.endWrite c pending).1) none, (a.endWrite c pending).2, rfl, ?_⟩
          simp only [Floor.turnNotes, ofAnswer_write hc]
          exact .answers key (ha _ _ (wrote_endWrite c pending))
  | @asks r f hw hr hread ha =>
      rw [worker_busy a.cluster hw, hr]
      refine ⟨busy key (f (Agent.answerFrom l r a).1) none, (Agent.answerFrom l r a).2, ?_, ?_⟩
      · cases r with
        | hub c =>
            simp only [Agent.stepFrom, Agent.requestFrom, beginWrite?_of_read (hread c rfl)]
            rfl
        | _ => rfl
      · have hnotes : Floor.turnNotes l a id
            (.working key (.ask r fun v => (f v).rest a.cluster key)) =
            Note.ofAnswer id key ((f (Agent.answerFrom l r a).1).rest a.cluster key).isDone r
              (Agent.answerFrom l r a).1 := by
          cases r with
          | hub c => simp only [Floor.turnNotes, beginWrite?_of_read (hread c rfl)]; rfl
          | _ => rfl
        rw [hnotes]
        exact .answers key (ha _ _ rfl)

theorem leads_gone {snapshot : DeletedSnapshot}
    (hnot : ∀ o, a.find key.kind key.ns key.name ≠ .present o) (hd : key.deleted = some snapshot) :
    Answered l a id key fresh (if key.kind = appliedWorkKind then removing snapshot.name
      else looking (recordName snapshot.kind snapshot.ns snapshot.name)) a [] := by
  by_cases hk : key.kind = appliedWorkKind
  · rw [if_pos hk]
    exact .leads (.workGone snapshot hnot hd hk)
  · rw [if_neg hk]
    exact .leads (.gone snapshot hnot hd hk)

theorem continues_fresh :
    Continues l a id key (.fresh) := by
  refine .asks rfl rest_fresh (fun c hc => by cases hc) ?_
  intro v a' hv
  cases hv
  cases hf : a.find key.kind key.ns key.name with
  | present o =>
      by_cases hk : key.kind = appliedWorkKind
      · simp only [if_pos hk]
        exact .leads (.presentWork o hf hk)
      · simp only [if_neg hk]
        exact .leads (.present o hf hk)
  | absent =>
      have hnot : ∀ o, a.find key.kind key.ns key.name ≠ .present o := by simp [hf]
      cases hd : key.deleted with
      | none => exact .leads (.absent hf hd)
      | some snapshot => exact leads_gone hnot hd
  | noWatch =>
      have hnot : ∀ o, a.find key.kind key.ns key.name ≠ .present o := by simp [hf]
      cases hd : key.deleted with
      | none => exact .leads (.unwatched hf hd)
      | some snapshot => exact leads_gone hnot hd

theorem continues_found (o : Object) :
    Continues l a id key (.found o) := by
  refine .asks rfl rest_found (fun c hc => by cases hc) ?_
  intro v a' hv
  cases hv
  cases ho : a.tracker.ownerOf? o.uid with
  | some owner => exact .leads (.owned o owner ho)
  | none =>
      cases hd : key.isDeleted with
      | true => exact .leads (.unownedDeleted o ho hd)
      | false => exact .leads (.unowned o ho hd)

theorem getRecord_cases (h : Hub) (ns name : String) :
    (∃ record, h.getRecord ns name = .ok record ∧ h.records.get? (ns, name) = some record) ∨
      h.records.get? (ns, name) = none ∧
        h.getRecord ns name = .error (.notFound (HubCall.recordText ns name)) := by
  unfold Hub.getRecord
  cases h.records.get? (ns, name) with
  | some record => exact Or.inl ⟨record, rfl, rfl⟩
  | none => exact Or.inr ⟨rfl, rfl⟩

theorem continues_reading (o : Object) (owner : TrackedOwner) :
    Continues l a id key (.reading o owner) := by
  refine .asks rfl rest_reading (fun c hc => by cases hc; rfl) ?_
  intro v a' hv
  cases hv
  rcases getRecord_cases a.hub a.cluster (Projector.recordNameOf o key.kind) with
    ⟨record, hr, _⟩ | ⟨hnone, hr⟩
  · simp only [hr, Agent.liftHub, Note.ofAnswer]
    exact .leads (.read o owner record hr)
  · simp only [hr, Agent.liftHub, Note.ofAnswer, AgentError.isNotFound, HubError.isNotFound,
      if_true, rest_fetching, Program.isDone]
    exact .leads (.missing o owner hnone)

theorem continues_fetching (o : Object) (owner : TrackedOwner) :
    Continues l a id key (.fetching o owner) := by
  refine .asks rfl rest_fetching (fun c hc => by cases hc; rfl) ?_
  intro v a' hv
  cases hv
  cases hw : a.hub.getManifestWork a.cluster owner.manifestWork with
  | ok work =>
      simp only [Agent.liftHub, Note.ofAnswer]
      cases hm : work.labels.isManaged with
      | true => exact .leads (.fetched o owner work hw hm)
      | false => exact .leads (.unmanaged o owner work hw hm)
  | error e => exact .leads (.unfetched o owner e hw)

theorem continues_looking (name : String) :
    Continues l a id key (.looking name) := by
  refine .asks rfl rest_looking (fun c hc => by cases hc; rfl) ?_
  intro v a' hv
  cases hv
  rcases getRecord_cases a.hub a.cluster name with ⟨record, hr, _⟩ | ⟨hnone, hr⟩
  · simp only [hr, Agent.liftHub, Note.ofAnswer]
    exact .leads (.looked name record hr)
  · simp only [hr, Agent.liftHub, Note.ofAnswer, AgentError.isNotFound, HubError.isNotFound,
      if_true, rest, Program.isDone]
    exact .leads (.clear name hnone)

theorem continues_telling (c : Change) (resource : ApiResource) (changes : List Change) :
    Continues l a id key (.telling c resource changes) := by
  cases hc : c.gained with
  | true =>
      refine .asks (r := .acquire resource c.uid) (f := fun _ => .posting c resource changes)
        rfl (by rw [rest_telling, hc]; rfl) (fun c hc => by cases hc) ?_
      intro v a' hv
      cases hv
      exact .acquires c resource changes hc
  | false =>
      refine .asks (r := .release resource.resourceKind c.uid)
        (f := fun _ => .posting c resource changes)
        rfl (by rw [rest_telling, hc]; rfl) (fun c hc => by cases hc) ?_
      intro v a' hv
      cases hv
      exact .releases c resource changes hc

theorem continues (stage : Stage) : Continues l a id key stage := by
  cases stage with
  | fresh => exact continues_fresh
  | found o => exact continues_found o
  | reading o owner => exact continues_reading o owner
  | fetching o owner => exact continues_fetching o owner
  | resolving o work =>
      refine .asks rfl rest_resolving (fun c hc => by cases hc) ?_
      intro v a' hv
      cases hv
      cases hr : l.ofKind key.kind with
      | ok resource => exact .leads (.resolved o work resource hr)
      | error e => exact .leads (.unresolved o work e hr)
  | creating o record =>
      exact .writes (c := .create a.cluster record) rfl rfl rest_creating
        fun v a' h => .creates o record h
  | patching o record label =>
      refine .writes
        (c := .patchLabels a.cluster record.name (.ofList [(Labels.singletonKey, label)]))
        rfl rfl rest_patching ?_
      intro v a' h
      have hn : Note.ofAnswer id key false (.hub (.patchLabels a.cluster record.name
          (.ofList [(Labels.singletonKey, label)]))) v = [] := by cases v <;> rfl
      rw [hn]
      exact .patches o record label h
  | updating record status =>
      refine .writes (c := .updateStatus a.cluster (record.setStatus (some status)))
        rfl rfl rest_updating ?_
      intro v a' h
      have hn : Note.ofAnswer id key false
          (.hub (.updateStatus a.cluster (record.setStatus (some status)))) v = [] := by
        cases v <;> rfl
      rw [hn]
      exact .updates record status h
  | looking name => exact continues_looking name
  | erasing name =>
      exact .writes (c := .delete a.cluster name) rfl rfl rest_erasing
        fun v a' h => .erases name h
  | replacing work manifestWork applied =>
      refine .asks rfl rest_replacing (fun c hc => by cases hc) ?_
      intro v a' hv
      cases hv
      exact .replaces work manifestWork applied
  | removing work =>
      refine .asks rfl rest_removing (fun c hc => by cases hc) ?_
      intro v a' hv
      cases hv
      exact .removes work
  | changing changes =>
      cases changes with
      | nil => exact .ends rfl rfl rfl
      | cons c changes =>
          refine .asks rfl rest_changing (fun c hc => by cases hc) ?_
          intro v a' hv
          cases hv
          cases hn : l.named c.entry.group c.entry.version c.entry.resource with
          | ok resource => exact .leads (.served c changes resource hn)
          | error e => exact .leads (.unserved c changes e hn)
  | telling c resource changes => exact continues_telling c resource changes
  | posting c resource changes =>
      refine .asks rfl rest_posting (fun c hc => by cases hc) ?_
      intro v a' hv
      cases hv
      exact .posts c resource changes
  | finished result => exact .ends rfl rfl rfl

theorem worker_first (cluster : String) (key : ObjectKey) :
    (busy key (first key) none).worker cluster =
      .working key (Reconciler.reconcile cluster key).run := by
  rw [← rest_first]
  rfl

theorem plays (h : Hand) (hq : a.queue.Sound a.clock) : Plays l a id h := by
  cases h with
  | free =>
      rcases WorkQueue.poll_cases hq id with ⟨hn, hs⟩ | ⟨key, hk, hout, hs⟩
      · refine ⟨idle, _, ?_, .waits (Or.inl rfl) hs⟩
        simp only [worker, Agent.stepFrom, Agent.step, hn, Agent.taken]
      · refine ⟨busy key (first key) none, _, ?_, .takes key (Or.inl rfl) hout hs⟩
        rw [worker_first]
        simp only [worker, Agent.stepFrom, Agent.step, hk, Agent.taken]
  | idle =>
      rcases WorkQueue.resume_cases hq id with ⟨hn, hs⟩ | ⟨key, hk, hout, hs⟩
      · refine ⟨idle, _, ?_, .waits (Or.inr rfl) hs⟩
        simp only [worker, Agent.stepFrom, Agent.step, hn, Agent.taken]
      · refine ⟨busy key (first key) none, _, ?_, .takes key (Or.inr rfl) hout hs⟩
        rw [worker_first]
        simp only [worker, Agent.stepFrom, Agent.step, hk, Agent.taken]
  | busy key stage p => exact (continues stage).plays
  | gone => exact ⟨gone, a, rfl, .gone⟩

end Hand

end StatusRelay
