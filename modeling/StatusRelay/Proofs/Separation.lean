import StatusRelay.Proofs.Records
import StatusRelay.Proofs.RecordNames

/-!
# Whose record a worker touches

A key is taken to the object that the cache files under its name, in its namespace or in none, or
to its snapshot. So a worker handles the records of at most two identities: that of its key, and
that of the key's namesake without a namespace. Every record stands under the name made from its
source, so the records of all other objects are left alone, as far as hashes tell them apart. Any
number of workers may be at work: nothing here depends on what the others do.

Kinds of different groups have no records of their own if they share a name, nor has an object
without a namespace next to a namesake that has one.
-/
namespace StatusRelay

open Stage Ingest

/-- The identity that a key is about. -/
def ObjectKey.identity (k : ObjectKey) : Identity := ⟨k.kind.kind, k.ns, k.name⟩

/-- A snapshot in the key is one of what the key is about. -/
def ObjectKey.Faithful (k : ObjectKey) : Prop :=
  ∀ s, k.deleted = some s → (⟨s.kind, s.ns, s.name⟩ : Identity) = k.identity

/-- The objects that watches may have and the identities that records may have. -/
structure Stock where
  has : ResourceKind → Object → Prop
  knows : Identity → Prop
  knows_of_has : ∀ kind o, has kind o → knows (o.identity kind)

/-- What stands under the name of an identity, and every record that carries it, is as before. -/
def Hub.Spares (before after : Hub) (cluster : String) (i : Identity) : Prop :=
  after.records.get? (cluster, i.record) = before.records.get? (cluster, i.record) ∧
    ∀ k record, record.source.identity = i →
      (after.records.get? k = some record ↔ before.records.get? k = some record)

namespace Stock

/-- A key may be taken to the object. -/
structure Resolves (s : Stock) (key : ObjectKey) (o : Object) : Prop where
  has : s.has key.kind o
  name : o.name = key.name
  ns : o.ns = key.ns ∨ o.ns = ""

/-- The identities whose records a worker with the key handles. -/
def Means (s : Stock) (key : ObjectKey) (i : Identity) : Prop :=
  i = key.identity ∨ ∃ o, s.Resolves key o ∧ i = o.identity key.kind

/-- The record has the name made from its source. -/
structure Titled (s : Stock) (name : String) (record : WorkStatus) : Prop where
  named : record.metadata.name = some name
  made : name = record.source.identity.record
  known : s.knows record.source.identity

/-- A stage handles the record of what its key is taken to. -/
def Concerns (s : Stock) (key : ObjectKey) : Stage → Prop
  | found o | reading o _ | fetching o _ | resolving o _ => s.Resolves key o
  | creating o record => s.Resolves key o ∧ s.Titled (o.identity key.kind).record record
  | patching o record _ =>
      s.Resolves key o ∧ record.metadata.name = some (o.identity key.kind).record
  | updating record _ => ∃ o, s.Resolves key o ∧
      record.metadata.name = some (o.identity key.kind).record
  | looking name | erasing name => key.Faithful → name = key.identity.record
  | fresh | replacing _ _ _ | removing _ | changing _ | telling _ _ _ | posting _ _ _
  | finished _ => True

def Titles (s : Stock) (a : Agent) : Prop :=
  ∀ name record, a.hub.records.get? (a.cluster, name) = some record → s.Titled name record

variable {s : Stock} {l : Lookups} {a a' : Agent} {id : WorkerId} {key : ObjectKey}
  {st st' : Stage} {notes : List Note} {o : Object} {record : WorkStatus} {name : String}

namespace Titled

theorem setVersion (h : s.Titled name record) (version : String) :
    s.Titled name (record.setVersion version) := ⟨h.named, h.made, h.known⟩

theorem setNs (h : s.Titled name record) (ns : String) : s.Titled name (record.setNs ns) :=
  ⟨h.named, h.made, h.known⟩

theorem setStatus (h : s.Titled name record) (status : Option Json) :
    s.Titled name (record.setStatus status) := ⟨h.named, h.made, h.known⟩

theorem mergeLabels (h : s.Titled name record) (labels : Labels) :
    s.Titled name (record.mergeLabels labels) := ⟨h.named, h.made, h.known⟩

end Titled

/-! ## Stages -/

theorem concerns_finished (s : Stock) (key : ObjectKey) (result : Except AgentError Outcome) :
    s.Concerns key (finished result) := trivial

theorem concerns_labelled (h : s.Resolves key o)
    (hn : record.metadata.name = some (o.identity key.kind).record) :
    s.Concerns key (labelled o record) :=
  of_labelled record (s.concerns_finished key) fun _ _ => ⟨o, h, hn⟩

theorem concerns_recorded (h : s.Resolves key o)
    (hn : record.metadata.name = some (o.identity key.kind).record) :
    s.Concerns key (recorded o record) :=
  of_recorded record (s.concerns_finished key) (fun _ _ => ⟨o, h, hn⟩) fun _ _ => ⟨h, hn⟩

/-- Watches file the objects of the stock at their places. -/
def Shelves (s : Stock) (kind : ResourceKind) (i : Ingest) : Prop :=
  i.Entries fun e => place? e.2 = some e.1 ∧ s.has kind e.2

/-- What a worker finds is what its key may be taken to. -/
theorem resolves_of_find (hs : ∀ kind i, a.registry.intake? kind = some i → s.Shelves kind i)
    (hk : key.kind ≠ appliedWorkKind) (hf : a.find key.kind key.ns key.name = .present o) :
    s.Resolves key o := by
  obtain ⟨i, hi, hat⟩ := (Agent.find_present_iff hk (key.ns, key.name) o).mp hf
  rcases (hs key.kind i hi).of_lookup? hat with ⟨hplace, hhas⟩ | ⟨hplace, hhas⟩
  · obtain ⟨hname, hns⟩ := eq_of_place hplace
    exact ⟨hhas, hname, Or.inl hns⟩
  · obtain ⟨hname, hns⟩ := eq_of_place hplace
    exact ⟨hhas, hname, Or.inr hns⟩

/-- A new record has the name made from its source. -/
theorem titled_newRecord (h : s.Resolves key o) (cluster : String) (work : ManifestWork)
    (plural : String) :
    s.Titled (o.identity key.kind).record
      (Projector.newRecord cluster o key.kind work plural) where
  named := rfl
  made := rfl
  known := s.knows_of_has key.kind o h.has

theorem concerns_leads (hs : ∀ kind i, a.registry.intake? kind = some i → s.Shelves kind i)
    (ht : s.Titles a) (hst : s.Concerns key st) (ha : Leads l a id key st st' notes) :
    s.Concerns key st' := by
  cases ha with
  | present o hf hk => exact resolves_of_find hs hk hf
  | presentWork o => exact of_opened (s.concerns_finished key) fun _ _ => trivial
  | gone snapshot _ hd _ =>
      intro hfaithful
      rw [← hfaithful snapshot hd, Identity.record]
  | unownedDeleted =>
      intro _
      rw [Identity.record, ObjectKey.identity]
  | owned | missing | fetched | looked => exact hst
  | read o owner record hr => exact concerns_recorded hst (ht _ record (getRecord_ok hr)).named
  | resolved o work r => exact ⟨hst, titled_newRecord hst a.cluster work r.plural⟩
  | workGone | absent | unwatched | unowned | unmanaged | unfetched | unresolved | clear | served
  | unserved => trivial

/-! ## Turns -/

/-- What a worker does to the hub with a key in hand: names still fit sources, what it goes on with
is about its key, and only records that its key means are touched. -/
structure Handled (s : Stock) (a a' : Agent) (key : ObjectKey) (st' : Stage) : Prop where
  titles : s.Titles a'
  concerns : s.Concerns key st'
  others : key.Faithful → ∀ k, (∀ i, s.Means key i → k ≠ (a.cluster, i.record)) →
    a'.hub.records.get? k = a.hub.records.get? k

namespace Handled

theorem of_records (h : a'.hub.records = a.hub.records) (hc : a'.cluster = a.cluster)
    (ht : s.Titles a) (hst : s.Concerns key st') : s.Handled a a' key st' where
  titles := by
    intro name record hr
    rw [h, hc] at hr
    exact ht name record hr
  concerns := hst
  others := by
    intro _ k _
    rw [h]

theorem of_insert {i : Identity}
    (h : a.Rewrote a' (a.hub.records.insert (a.cluster, i.record) record))
    (hm : s.Means key i) (hd : s.Titled i.record record) (ht : s.Titles a)
    (hst : s.Concerns key st') : s.Handled a a' key st' := by
  obtain ⟨hub, rfl, hr, _⟩ := h
  refine ⟨?_, hst, ?_⟩
  · intro name record' hg
    change hub.records.get? (a.cluster, name) = _ at hg
    rw [hr, Table.get?_insert] at hg
    split at hg
    · rename_i hk
      cases hg
      exact (Prod.mk.inj hk).2 ▸ hd
    · exact ht name record' hg
  · intro _ k hk
    change hub.records.get? k = _
    rw [hr, Table.get?_insert, if_neg (Ne.symm (hk i hm))]

end Handled

theorem handled_answered (hs : ∀ kind i, a.registry.intake? kind = some i → s.Shelves kind i)
    (ht : s.Titles a) (hst : s.Concerns key st)
    (h : Answered l a id key st st' a' notes) : s.Handled a a' key st' := by
  cases h with
  | leads h => exact .of_records rfl rfl ht (concerns_leads hs ht hst h)
  | creates o record hw =>
      obtain ⟨ho, htitled⟩ := hst
      rcases hw.creates with ⟨e, rfl, _, hub, rfl, hr, _⟩ | ⟨version, rfl, _, hr⟩
      · exact .of_records hr rfl ht trivial
      · rw [htitled.named] at hr
        have hstored := (htitled.setNs a.cluster).setVersion version
        exact .of_insert hr (Or.inr ⟨o, ho, rfl⟩) hstored ht (concerns_recorded ho hstored.named)
  | patches o record label hw =>
      obtain ⟨ho, hname⟩ := hst
      rcases hw.patches with ⟨e, rfl, _, hub, rfl, hr, _⟩ | ⟨old, version, rfl, hg, hr⟩
      · exact .of_records hr rfl ht trivial
      · have hn : record.name = (o.identity key.kind).record := by
          rw [WorkStatus.name, Metadata.anyName, hname]
          rfl
        rw [hn] at hg hr
        have hstored := ((ht _ old hg).mergeLabels
          (.ofList [(Labels.singletonKey, label)])).setVersion version
        exact .of_insert hr (Or.inr ⟨o, ho, rfl⟩) hstored ht (concerns_labelled ho hstored.named)
  | updates record status hw =>
      obtain ⟨o, ho, hname⟩ := hst
      rcases hw.updates with ⟨e, rfl, _, hub, rfl, hr, _⟩ | ⟨old, version, rfl, hg, hr⟩
      · exact .of_records hr rfl ht trivial
      · have hn : (record.setStatus (some status)).metadata.name.getD "" =
            (o.identity key.kind).record := by
          rw [WorkStatus.setStatus, hname]
          rfl
        rw [hn] at hg hr
        have hstored := ((ht _ old hg).setStatus (some status)).setVersion version
        exact .of_insert hr (Or.inr ⟨o, ho, rfl⟩) hstored ht trivial
  | erases name hw =>
      rcases hw.erases with ⟨e, rfl, _, _, hub, rfl, hr, _⟩ | ⟨_, records, ⟨hub, rfl, hr, _⟩, hg⟩
      · exact .of_records hr rfl ht (of_erased (s.concerns_finished key) _)
      · refine ⟨?_, of_erased (s.concerns_finished key) _, ?_⟩
        · intro name' record hrecord
          change hub.records.get? _ = _ at hrecord
          rw [hr, hg] at hrecord
          split at hrecord
          · cases hrecord
          · exact ht name' record hrecord
        · intro hfaithful k hk
          change hub.records.get? k = _
          rw [hr, hg, if_neg]
          rw [hst hfaithful]
          exact Ne.symm (hk key.identity (Or.inl rfl))
  | replaces | removes | acquires | releases | posts => exact .of_records rfl rfl ht trivial

/-- What holds in every state of a run. -/
structure Orders (s : Stock) (c : Crew) : Prop where
  sound : c.Sound
  shelves : ∀ kind i, c.agent.registry.intake? kind = some i → s.Shelves kind i
  titles : s.Titles c.agent
  concerns : ∀ id key stage, c.Busy id key stage → s.Concerns key stage

variable {c c' : Crew} {m : Move}

/-- A worker with a key in hand leaves the records that the key does not mean alone. -/
theorem Orders.others (h : s.Orders c) {stage : Stage} (hb : c.Busy id key stage)
    (hfaithful : key.Faithful) (st : Crew.Step l c (.turn id) c' notes) (k : RecordKey)
    (hk : ∀ i, s.Means key i → k ≠ (c.agent.cluster, i.record)) :
    c'.agent.hub.records.get? k = c.agent.hub.records.get? k := by
  obtain ⟨p, hp⟩ := hb
  cases st with
  | turn _ hx t =>
      rw [hp] at hx
      cases hx
      rcases t.answered with ⟨_, _, _, rfl⟩ | ⟨_, _, _, _, ⟨⟩, _, ha⟩
      · rfl
      · exact (handled_answered h.shelves h.titles (h.concerns id key stage ⟨p, hp⟩) ha).others
          hfaithful k hk
  | still => rfl

/-- A record stands under the name made from its source. -/
theorem Orders.place (h : s.Orders c) {k : RecordKey}
    (hr : c.agent.hub.records.get? k = some record) (hk : k.1 = c.agent.cluster) :
    k.2 = record.source.identity.record := by
  obtain ⟨ns, name⟩ := k
  subst hk
  exact (h.titles name record hr).made

theorem Orders.turn (h : s.Orders c) {x x' : Hand} (hx : c.hands[id]? = some x)
    (t : Turned l c.agent id x x' a' notes) : s.Orders ⟨a', c.hands.set id x'⟩ := by
  have hans : ∀ {key st st'}, c.Busy id key st → Answered l c.agent id key st st' a' notes →
      s.Handled c.agent a' key st' := fun hb ha =>
    handled_answered h.shelves h.titles (h.concerns id _ _ hb) ha
  refine ⟨h.sound.turn hx t, ?_, ?_, Crew.busy_turn hx t
    (fun key _ => of_first (s.concerns_finished key) trivial key) h.concerns
    fun _ _ _ hb ha => (hans hb ha).concerns⟩
  · intro kind i hi
    rcases t.intake? h.sound.registry hi with hi | ⟨_, rfl⟩
    · exact h.shelves kind i hi
    · exact entries_start _ kind
  · refine t.agent_of (fun _ _ => h.titles) ?_
    rintro key st st' p rfl ha
    exact (hans ⟨p, hx⟩ ha).titles

/-- Events bring objects of the stock. -/
def Allows (s : Stock) (m : Move) : Prop :=
  ∀ kind e, m = .object kind e → ∀ o, e.stored? = some o → o.metadata.name.isSome = true →
    s.has kind o

theorem Orders.step (h : s.Orders c) (hm : s.Allows m) (st : Crew.Step l c m c' notes) :
    s.Orders c' := by
  have hsound := h.sound.step st
  cases st with
  | turn id hx t => exact h.turn hx t
  | object kind e hg hi he =>
      refine ⟨hsound, ?_, h.titles, h.concerns⟩
      intro kind' j hj
      rcases Registry.of_intake?_setIngest h.sound.registry hg hj with ⟨rfl, rfl⟩ | ⟨_, hj⟩
      · refine (h.shelves _ _ hi).handle? ?_ he
        intro o place hstored hplace
        refine ⟨hplace, hm _ e rfl o hstored ?_⟩
        obtain ⟨name, hname, _⟩ := Option.map_eq_some_iff.mp hplace
        rw [hname]
        rfl
      · exact h.shelves kind' j hj
  | work | fire | mood | pass | still => exact ⟨hsound, h.shelves, h.titles, h.concerns⟩

/-- What stands under a name carries the reference that the name is made from. -/
theorem Orders.source_eq (h : s.Orders c) (hhash : HashesApart s.knows) {i : Identity}
    (hi : s.knows i)
    (hr : c.agent.hub.records.get? (c.agent.cluster, i.record) = some record) :
    record.source.identity = i := by
  have htitled := h.titles _ record hr
  by_contra hne
  exact hhash.record_ne hi htitled.known (Ne.symm hne) htitled.made

/-- A turn with a key in hand leaves the record of every identity alone whose name is not one of
those that the key means. -/
theorem Orders.leaves (h : s.Orders c) {stage : Stage} (hb : c.Busy id key stage)
    (hfaithful : key.Faithful) (st : Crew.Step l c (.turn id) c' notes) {i : Identity}
    (hi : ∀ j, s.Means key j → j.record ≠ i.record) :
    c.agent.hub.Spares c'.agent.hub c.agent.cluster i := by
  have hsame : ∀ k : RecordKey, (k.1 = c.agent.cluster → k.2 = i.record) →
      c'.agent.hub.records.get? k = c.agent.hub.records.get? k := by
    intro k hk
    refine h.others hb hfaithful st k ?_
    rintro j hj rfl
    exact hi j hj (hk rfl)
  have h' : s.Orders c' := by
    refine h.step ?_ st
    intro kind e he
    cases he
  refine ⟨hsame _ fun _ => rfl, ?_⟩
  intro k record hsource
  constructor
  · intro hr
    have hk := hsame k fun hk => (h'.place hr (hk.trans st.cluster.symm)).trans
      (congrArg Identity.record hsource)
    rw [← hk]
    exact hr
  · intro hr
    have hk := hsame k fun hk => (h.place hr hk).trans (congrArg Identity.record hsource)
    rw [hk]
    exact hr

end Stock

/-! ## Two objects -/

/-- An event of the run brings the object to the watch of a kind. What has no name is refused. -/
def Delivered (moves : List Move) (kind : ResourceKind) (o : Object) : Prop :=
  o.metadata.name.isSome = true ∧ ∃ e, .object kind e ∈ moves ∧ e.object? = some o

/-- The records of a cluster stand under the names made from their sources. -/
def Hub.Filed (h : Hub) (cluster : String) : Prop :=
  ∀ name record, h.records.get? (cluster, name) = some record →
    record.metadata.name = some name ∧ name = record.source.identity.record

/-- The identities of what is delivered in a run and of the records that it starts with. -/
def Involved (hub : Hub) (cluster : String) (moves : List Move) (i : Identity) : Prop :=
  (∃ kind o, Delivered moves kind o ∧ i = o.identity kind) ∨
    ∃ name record, hub.records.get? (cluster, name) = some record ∧ i = record.source.identity

def Stock.ofRun (hub : Hub) (cluster : String) (moves : List Move) : Stock where
  has := Delivered moves
  knows := Involved hub cluster moves
  knows_of_has := fun kind o h => Or.inl ⟨kind, o, h, rfl⟩

/-- An agent that has done nothing yet, before a hub that may have records of an earlier run. -/
def Agent.before (cluster : String) (timeout : Duration) (limiter : Limiter ObjectKey)
    (hub : Hub) : Agent := { Agent.fresh cluster timeout limiter {} with hub := hub }

theorem Crew.sound_before (cluster : String) (timeout : Duration) (limiter : Limiter ObjectKey)
    (hub : Hub) (workers : Nat) :
    (Crew.start (.before cluster timeout limiter hub) workers).Sound := by
  have h := Crew.sound_start cluster timeout limiter {} workers
  exact ⟨h.queue, h.registry, h.tracker, fun _ _ _ hb => absurd hb Crew.not_busy_start,
    fun _ _ _ _ _ hb => absurd hb Crew.not_busy_start,
    fun _ _ _ hb => absurd hb Crew.not_busy_start⟩

namespace Stock

variable {hub : Hub} {cluster : String} {timeout : Duration} {limiter : Limiter ObjectKey}
  {moves : List Move}

theorem orders_start (hfiled : hub.Filed cluster) (workers : Nat) :
    (ofRun hub cluster moves).Orders
      (.start (.before cluster timeout limiter hub) workers) where
  sound := Crew.sound_before cluster timeout limiter hub workers
  shelves := by
    intro kind i hi
    cases hi
  titles := by
    intro name record hr
    obtain ⟨hnamed, hmade⟩ := hfiled name record hr
    exact ⟨hnamed, hmade, Or.inr ⟨name, record, hr, rfl⟩⟩
  concerns := fun _ _ _ hb => absurd hb Crew.not_busy_start

theorem orders_run (l : Lookups) (timeout : Duration) (limiter : Limiter ObjectKey)
    (workers : Nat) (moves : List Move) (hfiled : hub.Filed cluster) :
    ∃ c, (Floor.start (.before cluster timeout limiter hub) workers).run l moves = c.floor ∧
      c.agent.cluster = cluster ∧ (ofRun hub cluster moves).Orders c := by
  have hallows : Floor.Along (fun _ m => (ofRun hub cluster moves).Allows m) l
      (.start (.before cluster timeout limiter hub) workers) moves := by
    refine Floor.along_of_forall ?_
    rintro m hm _ kind e rfl o hstored hname
    exact ⟨hname, e, hm, WatchEvent.object?_of_stored? hstored⟩
  obtain ⟨c, hrun, hc⟩ := Crew.run_start
    (I := fun c _ => c.agent.cluster = cluster ∧ (ofRun hub cluster moves).Orders c)
    (fun c _ h => ⟨h.2.sound.queue, h.2.sound.registry⟩)
    (fun c _ m c' notes h hm st => ⟨st.cluster.trans h.1, h.2.step hm st⟩) moves
    (.before cluster timeout limiter hub) workers ⟨rfl, orders_start hfiled workers⟩ hallows
  exact ⟨c, hrun, hc⟩

end Stock

/-- The live key of an object and its deletion key. -/
def Object.HasKey (o : Object) (kind : ResourceKind) (key : ObjectKey) : Prop :=
  key = .ofObject kind o ∨ key = (ObjectKey.ofObject kind o).intoDeleted

namespace Object.HasKey

variable {kind : ResourceKind} {o : Object} {key : ObjectKey}

theorem faithful (h : o.HasKey kind key) : key.Faithful := by
  rcases h with rfl | rfl
  · intro s hs
    cases hs
  · intro s hs
    cases hs
    rfl

theorem identity_eq (h : o.HasKey kind key) (hname : o.metadata.name.isSome = true) :
    key.identity = o.identity kind := by
  obtain ⟨name, hn⟩ := Option.isSome_iff_exists.mp hname
  have hlive : (ObjectKey.ofObject kind o).identity = o.identity kind := by
    simp only [ObjectKey.identity, ObjectKey.ofObject, Object.identity, Object.ns, Object.name,
      Metadata.nsOrEmpty, Metadata.anyName, hn, Option.getD_some]
  rcases h with rfl | rfl
  · exact hlive
  · exact hlive

end Object.HasKey

namespace Stock

variable {hub : Hub} {cluster : String} {moves : List Move} {kind kind' : ResourceKind}
  {o o' : Object} {key : ObjectKey}

/-- The keys of an object mean the object, or its namesake without a namespace. -/
theorem record_ne_of_means
    (hhash : HashesApart (Involved hub cluster moves)) (ho : Delivered moves kind o)
    (ho' : Delivered moves kind' o') (hdiffer : o.identity kind ≠ o'.identity kind')
    (hnamesake : o'.identity kind' ≠ { o.identity kind with ns := "" })
    (hkey : o.HasKey kind key) {i : Identity} (hi : (ofRun hub cluster moves).Means key i) :
    i.record ≠ (o'.identity kind').record := by
  have hown := hkey.identity_eq ho.1
  have hother : Involved hub cluster moves (o'.identity kind') := Or.inl ⟨kind', o', ho', rfl⟩
  rcases hi with rfl | ⟨p, hp, rfl⟩
  · rw [hown]
    exact hhash.record_ne (Or.inl ⟨kind, o, ho, rfl⟩) hother hdiffer
  · refine hhash.record_ne (Or.inl ⟨key.kind, p, hp.has, rfl⟩) hother ?_
    -- What the key is taken to differs from the other object whichever of the two it is.
    rcases hp.ns with hns | hns
    · have hsame : p.identity key.kind = o.identity kind := by
        rw [← hown, Object.identity, hns, hp.name]
        rfl
      rw [hsame]
      exact hdiffer
    · have hsame : p.identity key.kind = { o.identity kind with ns := "" } := by
        rw [← hown, Object.identity, hns, hp.name]
        rfl
      rw [hsame]
      exact hnamesake.symm

end Stock
end StatusRelay
