import StatusRelay.Proofs.Deployments

/-!
# Objects and their records

The record of a cached object that is listed has the object's status and its label, or the live key
of the object sees to it. The worker that serves the object asks for its record, makes it if it is
missing, and writes what differs; a request that fails is tried again, as long as the owner is
managed and the kind is known.
-/
namespace StatusRelay

open Stage Ingest

/-- The record has the object's label, if the object has it. -/
def Labelled (o : Object) (record : WorkStatus) : Prop :=
  ∀ label, o.metadata.label? Labels.singletonKey = some label →
    record.metadata.labelSet.get? Labels.singletonKey = some label

/-- The record has the object's label and its status, if the object has them. -/
structure Mirrors (o : Object) (record : WorkStatus) : Prop where
  label : Labelled o record
  status : ∀ status, o.status = some status →
    record.status = some status ∨ Projector.holds record status = true

/-- A worker at this stage is going to bring the record of an object up to date. -/
def Stage.Serves (o : Object) : Stage → Prop
  | fresh => True
  | found o' | reading o' _ | fetching o' _ | resolving o' _ | creating o' _ => o' = o
  | patching o' _ label => o' = o ∧ o.metadata.label? Labels.singletonKey = some label
  | updating record status => o.status = some status ∧ Labelled o record
  | finished result => Agent.retries result = true
  | _ => False

/-- A worker at this stage leaves the record of an object up to date. -/
def Stage.Spares (o : Object) : Stage → Prop
  | fresh | finished _ => True
  | found o' | reading o' _ => o' = o
  | updating record status => o.status = some status ∧ Labelled o record
  | _ => False

def recordCare (record? : Option WorkStatus) (kind : ResourceKind) (p : Coordinates)
    (o : Object) : Care where
  key := liveKey kind p
  mine := Crew.IsKey kind p
  mends := Stage.Serves o
  spares := Stage.Spares o
  right := ∃ record, record? = some record ∧ Mirrors o record

theorem recordCare_lawful (record? : Option WorkStatus) (kind : ResourceKind) {p : Coordinates}
    (hp : p.2 ≠ "") (o : Object) : (recordCare record? kind p o).Lawful where
  begins := by
    have hfirst : first (recordCare record? kind p o).key = fresh := first_isKey hp (Or.inl rfl)
    rw [hfirst]
    trivial
  harmless := by
    intro key hk
    rw [first_isKey hp hk]
    trivial
  retries := by
    intro stage result hm hr
    cases stage with
    | finished r =>
        cases hr
        exact hm
    | changing => cases hm
    | _ => cases hr

variable {l : Lookups} {w : World l} {c c' : Crew} {m : Move} {a a' : Agent} {id : WorkerId}
  {x x' : Hand} {key : ObjectKey} {st st' : Stage} {notes log : List Note} {o : Object}
  {record : WorkStatus} {kind : ResourceKind} {p : Coordinates} {manages : String → Prop}

theorem Stage.serves_of_spares (h : st.Spares o) :
    st.Serves o ∨ ∃ result, st = finished result := by
  cases st with
  | finished result => exact Or.inr ⟨result, rfl⟩
  | fresh | found | reading | updating => exact Or.inl h
  | _ => cases h

/-! ## Writing what differs -/

theorem labelled_cases (h : Labelled o record) :
    (∃ status, o.status = some status ∧ labelled o record = updating record status) ∨
      labelled o record = finished (.ok .settled) ∧ Mirrors o record := by
  unfold labelled
  cases hs : o.status with
  | none => exact Or.inr ⟨rfl, h, fun status he => by cases hs.symm.trans he⟩
  | some status =>
      cases hh : Projector.holds record status with
      | true =>
          refine Or.inr ⟨by simp [hh], h, fun status' he => Or.inr ?_⟩
          cases hs.symm.trans he
          exact hh
      | false => exact Or.inl ⟨status, rfl, by simp [hh]⟩

theorem recorded_cases (o : Object) (record : WorkStatus) :
    (Labelled o record ∧ recorded o record = labelled o record) ∨
      ∃ label, o.metadata.label? Labels.singletonKey = some label ∧
        recorded o record = patching o record label := by
  unfold recorded Labelled
  cases hl : o.metadata.label? Labels.singletonKey with
  | none => exact Or.inl ⟨(fun label he => by cases he), rfl⟩
  | some label =>
      by_cases hg : record.metadata.labelSet.get? Labels.singletonKey = some label
      · refine Or.inl ⟨fun label' he => ?_, by simp [hg]⟩
        cases he
        exact hg
      · exact Or.inr ⟨label, rfl, by simp [hg]⟩

theorem recorded_of_labelled (h : Labelled o record) : recorded o record = labelled o record := by
  rcases recorded_cases o record with ⟨_, he⟩ | ⟨label, hl, _⟩
  · exact he
  · unfold recorded
    rw [hl]
    simp [h label hl]

/-- A worker that goes on with the hub's record serves the object, or all is right. -/
theorem serves_labelled (h : Labelled o record) (hr : a.record? kind p = some record) :
    (labelled o record).Serves o ∨ (recordCare (a.record? kind p) kind p o).right ∧
      (labelled o record).Spares o := by
  rcases labelled_cases h with ⟨status, hs, he⟩ | ⟨he, hm⟩
  · rw [he]
    exact Or.inl ⟨hs, h⟩
  · rw [he]
    exact Or.inr ⟨⟨record, hr, hm⟩, trivial⟩

theorem serves_recorded (hr : a.record? kind p = some record) :
    (recorded o record).Serves o ∨ (recordCare (a.record? kind p) kind p o).right ∧
      (recorded o record).Spares o := by
  rcases recorded_cases o record with ⟨hl, he⟩ | ⟨label, hl, he⟩
  · rw [he]
    exact serves_labelled hl hr
  · rw [he]
    exact Or.inl ⟨rfl, hl⟩

/-- A record that mirrors the object already is not given another label. -/
theorem spares_recorded (h : Labelled o record) : (recorded o record).Spares o := by
  rw [recorded_of_labelled h]
  rcases labelled_cases h with ⟨status, hs, he⟩ | ⟨he, _⟩
  · rw [he]
    exact ⟨hs, h⟩
  · rw [he]
    trivial

theorem labelled_patched {label : String} (version : String)
    (hl : o.metadata.label? Labels.singletonKey = some label) :
    Labelled o ((record.mergeLabels (.ofList [(Labels.singletonKey, label)])).setVersion
      version) := by
  intro label' hl'
  rw [hl] at hl'
  cases hl'
  exact Labels.get?_insert_self record.metadata.labelSet Labels.singletonKey label

theorem mirrors_updated {status : Json} (version : String) (hs : o.status = some status)
    (hl : Labelled o record) :
    Mirrors o ((record.setStatus (some status)).setVersion version) := by
  refine ⟨hl, fun status' hs' => Or.inl ?_⟩
  rw [hs] at hs'
  cases hs'
  rfl

/-- The record of a key after it was written. -/
theorem record?_of_rewrote {name : String}
    (h : a.Rewrote a' (a.hub.records.insert (a.cluster, name) record))
    (hn : name = recordOf kind p) : a'.record? kind p = some record := by
  obtain ⟨hub, rfl, hr, _⟩ := h
  simp [Agent.record?, hr, hn]

theorem record?_of_failsTo {α : Type} {v : Except AgentError α} (h : a.FailsTo a' v) :
    a'.record? kind p = a.record? kind p := by
  obtain ⟨_, _, _, hub, rfl, hr, _⟩ := h
  simp only [Agent.record?, hr]

/-- An update writes to the record that the worker goes by. -/
theorem mirrors_of_updates {status : Json} {v : Except AgentError WorkStatus}
    (hatt : a.record? kind p = some record) (hd : Describes l kind p record)
    (hs : o.status = some status) (hl : Labelled o record)
    (hw : Wrote a (.updateStatus a.cluster (record.setStatus (some status))) v a') :
    (a.FailsTo a' v) ∨ (∃ stored, v = .ok stored) ∧
      (recordCare (a'.record? kind p) kind p o).right := by
  have hname := (hd.setStatus (some status)).names.2
  rcases hw.updates with hf | ⟨old, version, rfl, hg, hr⟩
  · exact Or.inl hf
  · rw [hname] at hg
    have hold : old = record := by
      rw [Agent.record?, hg] at hatt
      cases hatt
      rfl
    subst hold
    exact Or.inr ⟨⟨_, rfl⟩, _, record?_of_rewrote hr hname, mirrors_updated version hs hl⟩

/-! ## Answers -/

/-- What a worker with a key of the object relies on. -/
structure Grounds (w : World l) (c : Crew) (key : ObjectKey) (o : Object) : Prop where
  kind : key.kind ≠ appliedWorkKind
  cached : c.agent.find key.kind key.ns key.name = .present o
  owned : ∃ owner, c.agent.tracker.ownerOf? o.uid = some owner
  managed : ∀ id stage, c.Busy id key stage → ∀ o' owner, stage = fetching o' owner →
    ∃ work, c.agent.hub.getManifestWork c.agent.cluster owner.manifestWork = .ok work ∧
      work.labels.isManaged = true
  resolves : ∃ r, l.ofKind key.kind = .ok r

/-- Where a worker that serves an object is led: to the next thing it needs for the record. -/
inductive Stage.Led (record? : Option WorkStatus) (o : Object) : Stage → Stage → Prop
  | finds : Led record? o fresh (found o)
  | owns (owner : TrackedOwner) : Led record? o (found o) (reading o owner)
  | reads (owner : TrackedOwner) (record : WorkStatus) (h : record? = some record) :
      Led record? o (reading o owner) (recorded o record)
  | misses (owner : TrackedOwner) (h : record? = none) :
      Led record? o (reading o owner) (fetching o owner)
  | fetches (owner : TrackedOwner) (work : ManifestWork) :
      Led record? o (fetching o owner) (resolving o work)
  | resolves (work : ManifestWork) (record : WorkStatus) :
      Led record? o (resolving o work) (creating o record)

theorem Grounds.led (hg : Grounds w c key o) (h : w.Keeps c log) (hb : c.Busy id key st)
    (ha : Leads l c.agent id key st st' notes) (hst : st.Serves o) :
    st.Led (c.agent.record? key.kind (key.ns, key.name)) o st' := by
  have habout := h.about id key st hb
  cases ha with
  | present o' hfind =>
      rw [hg.cached] at hfind
      cases hfind
      exact .finds
  | presentWork _ _ hk | workGone _ _ _ hk => exact absurd hk hg.kind
  | gone _ hnot => exact absurd hg.cached (hnot o)
  | absent hfind | unwatched hfind =>
      rw [hg.cached] at hfind
      cases hfind
  | owned o' owner =>
      obtain rfl : o' = o := hst
      exact .owns owner
  | unowned o' hnone | unownedDeleted o' hnone =>
      obtain ⟨owner, ho⟩ := hg.owned
      obtain rfl : o' = o := hst
      rw [hnone] at ho
      cases ho
  | read o' owner record hr =>
      obtain rfl : o' = o := hst
      rw [recordNameOf_subject habout] at hr
      exact .reads owner record (getRecord_ok hr)
  | missing o' owner hnone =>
      obtain rfl : o' = o := hst
      rw [recordNameOf_subject habout] at hnone
      exact .misses owner hnone
  | fetched o' owner work =>
      obtain rfl : o' = o := hst
      exact .fetches owner work
  | resolved o' work r =>
      obtain rfl : o' = o := hst
      exact .resolves work _
  | unmanaged o' owner work hwork hm =>
      obtain ⟨work', hwork', hm'⟩ := hg.managed id _ hb o' owner rfl
      rw [hwork] at hwork'
      cases hwork'
      rw [hm] at hm'
      cases hm'
  | unfetched o' owner e he =>
      obtain ⟨work, hwork, _⟩ := hg.managed id _ hb o' owner rfl
      rw [he] at hwork
      cases hwork
  | unresolved o' work e he =>
      obtain ⟨r, hr⟩ := hg.resolves
      rw [he] at hr
      cases hr
  | _ => cases hst

/-- A worker that serves the object goes on serving it until its record is right. -/
theorem serves_answered (h : w.Keeps c log) (hf : Files w c) (hb : c.Busy id key st)
    (hg : Grounds w c key o) (ha : Answered l c.agent id key st st' a' notes)
    (hst : st.Serves o) :
    st'.Serves o ∨ (recordCare (a'.record? key.kind (key.ns, key.name)) key.kind
      (key.ns, key.name) o).right ∧ st'.Spares o := by
  have habout := h.about id key st hb
  have hatt := hf.attached id key st hb
  have hsite := World.site_of_known (h.known hb) hg.kind
  have hfails : ∀ {v : Except AgentError WorkStatus} {next : WorkStatus → Stage},
      c.agent.FailsTo a' v → (written next v).Serves o := by
    rintro v next ⟨e, rfl, he, _⟩
    exact he
  cases ha with
  | leads ha =>
      cases hg.led h hb ha hst with
      | finds | owns | misses | fetches | resolves => exact Or.inl rfl
      | reads owner record hr => exact serves_recorded hr
  | creates o' record hw =>
      obtain rfl : o' = o := hst
      rcases hw.creates with hfail | ⟨version, rfl, _, hr⟩
      · exact Or.inl (hfails hfail)
      · exact serves_recorded (record?_of_rewrote hr habout.2.names.2)
  | patches o' record label hw =>
      obtain ⟨rfl, hl⟩ := hst
      rcases hw.patches with hfail | ⟨old, version, rfl, _, hr⟩
      · exact Or.inl (hfails hfail)
      · exact serves_labelled (labelled_patched version hl)
          (record?_of_rewrote hr (hf.own hsite hatt).names.1)
  | updates record status hw =>
      obtain ⟨hs, hl⟩ := hst
      rcases mirrors_of_updates hatt (hf.own hsite hatt) hs hl hw with
        hfail | ⟨⟨stored, rfl⟩, hright⟩
      · exact Or.inl (hfails hfail)
      · exact Or.inr ⟨hright, trivial⟩
  | erases | replaces | removes | acquires | releases | posts => cases hst

/-- A worker that has a key of the object leaves its record right. -/
theorem spares_answered (h : w.Keeps c log) (hf : Files w c) (hb : c.Busy id key st)
    (hg : Grounds w c key o) (ha : Answered l c.agent id key st st' a' notes)
    (hright : (recordCare (c.agent.record? key.kind (key.ns, key.name)) key.kind
      (key.ns, key.name) o).right) (hst : st.Spares o) :
    (recordCare (a'.record? key.kind (key.ns, key.name)) key.kind
      (key.ns, key.name) o).right ∧ st'.Spares o := by
  have habout := h.about id key st hb
  have hatt := hf.attached id key st hb
  have hsite := World.site_of_known (h.known hb) hg.kind
  cases ha with
  | leads ha =>
      have hserves : st.Serves o := by
        rcases Stage.serves_of_spares hst with hserves | ⟨result, rfl⟩
        · exact hserves
        · cases ha
      refine ⟨hright, ?_⟩
      cases hg.led h hb ha hserves with
      | finds | owns => rfl
      | reads owner record hr =>
          obtain ⟨record', hr', hm⟩ := hright
          cases hr.symm.trans hr'
          exact spares_recorded hm.label
      | misses owner hnone =>
          obtain ⟨record', hr', _⟩ := hright
          cases hnone.symm.trans hr'
      | fetches | resolves => cases hst
  | updates record status hw =>
      obtain ⟨hs, hl⟩ := hst
      rcases mirrors_of_updates hatt (hf.own hsite hatt) hs hl hw with
        hfail | ⟨⟨stored, rfl⟩, hright'⟩
      · rw [record?_of_failsTo hfail]
        obtain ⟨e, rfl, _⟩ := hfail
        exact ⟨hright, trivial⟩
      · exact ⟨hright', trivial⟩
  | creates | patches | erases | replaces | removes | acquires | releases | posts => cases hst

/-- With any other key in hand a worker leaves the record alone. -/
theorem record?_answered (h : w.Keeps c log) (hf : Files w c) (hb : c.Busy id key st)
    (hp : w.site kind p) (ha : Answered l c.agent id key st st' a' notes)
    (hother : ¬ Crew.IsKey kind p key) : a'.record? kind p = c.agent.record? kind p := by
  have habout := h.about id key st hb
  rw [Agent.record?, Agent.record?, ha.cluster]
  by_cases hwork : key.kind = appliedWorkKind
  · rw [ha.hub_eq habout hwork]
  · have hsite := World.site_of_known (h.known hb) hwork
    have hminds := ha.minds habout (hf.attached id key st hb) fun record hr => hf.own hsite hr
    refine hminds.others _ fun he => hother ?_
    exact h.isKey hp hb hwork (Prod.mk.inj he).2.symm

/-- What a lone worker relies on when it serves objects: owners are managed, and kinds are known. -/
structure Serviceable (w : World l) (manages : String → Prop) (c : Crew) : Prop where
  managed : Managed manages c
  manages : ∀ name, manages name → ∃ work,
    c.agent.hub.getManifestWork c.agent.cluster name = .ok work ∧ work.labels.isManaged = true
  resolves : ∀ e r, w.has e → l.Serves e r → ∃ r', l.ofKind r.resourceKind = .ok r'

/-- The kind of a cached object that is listed is found. -/
theorem World.Keeps.ofKind_ok (h : w.Keeps c log)
    (hkinds : ∀ e r, w.has e → l.Serves e r → ∃ r', l.ofKind r.resourceKind = .ok r')
    (hp : w.site kind p) (ho : c.agent.Caches kind p o) (hl : c.agent.tracker.Lists o.uid) :
    ∃ r, l.ofKind kind = .ok r := by
  obtain ⟨e, hstored, hu⟩ := (c.agent.tracker.lists_iff o.uid).mp hl
  have hhas := h.binds.admits.stores e hstored
  obtain ⟨r, hr⟩ := w.resolves e hhas
  obtain ⟨rfl, _⟩ := (h.owns hp ho).1.2 e r hhas hu hr
  exact hkinds e r hhas hr

theorem Serviceable.grounds (hs : Serviceable w manages c) (h : w.Keeps c log)
    (hp : w.site key.kind (key.ns, key.name))
    (ho : c.agent.Caches key.kind (key.ns, key.name) o) (hl : c.agent.tracker.Lists o.uid) :
    Grounds w c key o := by
  have hk := w.notWork _ _ hp
  refine ⟨hk, (Agent.find_present_iff hk _ o).mpr ho, ?_, ?_, h.ofKind_ok hs.resolves hp ho hl⟩
  · exact Option.isSome_iff_exists.mp ((h.sound.tracker.isSome_owner_iff o.uid).mpr hl)
  · rintro id stage hb o' owner rfl
    exact hs.manages owner.manifestWork (hs.managed.hands id key _ hb)

theorem recordCare_passes (h : w.Keeps c log) (hf : Files w c) (hs : Serviceable w manages c)
    (hb : c.Busy id key st) (hp : w.site kind p) (ho : c.agent.Caches kind p o)
    (hl : c.agent.tracker.Lists o.uid) (ha : Answered l c.agent id key st st' a' notes) :
    (recordCare (c.agent.record? kind p) kind p o).Passes
      (recordCare (a'.record? kind p) kind p o) key st st' := by
  refine ⟨rfl, ?_, ?_⟩
  all_goals by_cases hkey : Crew.IsKey kind p key
  · obtain ⟨rfl, rfl⟩ := hkey.site
    intro _ hm
    rcases serves_answered h hf hb (hs.grounds h hp ho hl) ha hm with hst | ⟨hr, hst⟩
    · exact Or.inl hst
    · exact Or.inr ⟨hr, fun _ => hst⟩
  · intro he
    subst he
    exact absurd (Or.inl rfl) hkey
  · obtain ⟨rfl, rfl⟩ := hkey.site
    intro hr hspares
    obtain ⟨hr', hst⟩ := spares_answered h hf hb (hs.grounds h hp ho hl) ha hr (hspares hkey)
    exact ⟨hr', fun _ => hst⟩
  · intro hr _
    refine ⟨?_, fun hmine => absurd hmine hkey⟩
    rw [record?_answered h hf hb hp ha hkey]
    exact hr

/-! ## Steps -/

/-- The record of every cached object that is listed is seen to. -/
def ObjectsTended (w : World l) (c : Crew) : Prop :=
  ∀ kind p o, w.site kind p → c.agent.Caches kind p o → c.agent.tracker.Lists o.uid →
    c.Tends l (recordCare (c.agent.record? kind p) kind p o)

theorem objectsTended_start (w : World l) (cluster : String) (timeout : Duration)
    (limiter : Limiter ObjectKey) (manifestWorks : Table RecordKey ManifestWork) (workers : Nat) :
    ObjectsTended w (.start (.fresh cluster timeout limiter manifestWorks) workers) := by
  rintro kind p o _ ⟨i, hi, _⟩
  cases hi

namespace ObjectsTended

theorem turn (h : ObjectsTended w c) (hk : w.Keeps c log) (hf : Files w c)
    (hs : Serviceable w manages c) (hsingle : c.hands.length = 1) (hx : c.hands[id]? = some x)
    (t : Turned l c.agent id x x' a' notes) : ObjectsTended w ⟨a', c.hands.set id x'⟩ := by
  intro kind p o hp ho' hl'
  have ho := t.caches_back hk.sound ho'
  have hname := (w.fits kind p hp).1
  have htend : c.agent.tracker.Lists o.uid →
      (⟨a', c.hands.set id x'⟩ : Crew).Tends l (recordCare (a'.record? kind p) kind p o) := by
    intro hl
    refine (h kind p o hp ho hl).turn hk.sound hk.binds hsingle hx t
      (recordCare_lawful _ kind hname o) (recordCare_lawful _ kind hname o) ?_ ?_
    · rintro queue clock rfl
      rfl
    · rintro key st st' q rfl ha
      exact recordCare_passes hk hf hs ⟨_, hx⟩ hp ho hl ha
  rcases t.tracker hk.sound hx with ht | ⟨_, applied, d, k, hc, rfl⟩
  · exact htend (ht ▸ hl')
  · rcases hc.gains o.uid hl' with hl | ⟨e, he, hu⟩
    · exact htend hl
    · obtain ⟨howns, hcoords⟩ := hk.owns hp ho
      refine Or.inl (Or.inr ?_)
      exact Crew.posts_of_changed hx (hk.binds.turn hk.sound hx t) howns hcoords (e := ⟨true, e⟩)
        (List.mem_append.mpr (Or.inl (List.mem_map_of_mem he))) hu

theorem object (h : ObjectsTended w c) (hk : w.Keeps c log) {watched : ResourceKind}
    {e : WatchEvent} {held : Holding} {i i' : Ingest} {keys : List ObjectKey}
    (hg : c.agent.registry.held.get? watched = some held)
    (hi : c.agent.registry.intake? watched = some i) (he : i.handle? e = some (i', keys))
    (ho : i.Orderly (w.namespaced watched) e) :
    ObjectsTended w ⟨{ c.agent with
      registry := c.agent.registry.setIngest held.watch i'
      queue := c.agent.queue.addAll keys }, c.hands⟩ := by
  intro kind p o hp ho' hl
  rcases hk.caches_object hg hi he ho hp with hsame | ⟨_, hkey⟩ | ⟨hnone, _⟩
  · exact (h kind p o hp ((hsame o).mp ho') hl).still rfl fun hd =>
      (WorkQueue.due_addAll hk.sound.queue keys _).mpr (Or.inl hd)
  · exact Or.inl (Or.inl ((WorkQueue.due_addAll hk.sound.queue keys _).mpr (Or.inr hkey)))
  · exact absurd ho' (hnone o)

theorem step (h : ObjectsTended w c) (hk : w.Keeps c log) (hf : Files w c)
    (hs : Serviceable w manages c) (hsingle : c.hands.length = 1) (hm : w.Allows c.floor m)
    (s : Crew.Step l c m c' notes) : ObjectsTended w c' := by
  cases s with
  | turn id hx t => exact h.turn hk hf hs hsingle hx t
  | object kind e hg hi he => exact h.object hk hg hi he (hm _ hi).1
  | @work e i' keys he =>
      intro kind p o hp ho hl
      exact (h kind p o hp ho hl).still rfl fun hd =>
        (WorkQueue.due_addAll hk.sound.queue keys _).mpr (Or.inl hd)
  | fire d hd =>
      intro kind p o hp ho hl
      exact (h kind p o hp ho hl).still rfl (WorkQueue.due_fire hk.sound.queue hd).mpr
  | mood | pass =>
      intro kind p o hp ho hl
      exact (h kind p o hp ho hl).still rfl fun hd => hd
  | still => exact h

end ObjectsTended
end StatusRelay
