import StatusRelay.Proofs.Care

/-!
# The records on the hub

Every record that the agent makes has the name and the source of its site, and what is written later
leaves them. A worker touches the record of its key only; while it is alone, the record that it
is going to change is the one that the hub has.
-/
namespace StatusRelay

open Stage Ingest

namespace Describes

variable {l : Lookups} {kind : ResourceKind} {p : Coordinates} {record : WorkStatus}

theorem setVersion (h : Describes l kind p record) (version : String) :
    Describes l kind p (record.setVersion version) := ⟨h.name, h.source⟩

theorem setNs (h : Describes l kind p record) (ns : String) :
    Describes l kind p (record.setNs ns) := ⟨h.name, h.source⟩

theorem setStatus (h : Describes l kind p record) (status : Option Json) :
    Describes l kind p (record.setStatus status) := ⟨h.name, h.source⟩

theorem mergeLabels (h : Describes l kind p record) (labels : Labels) :
    Describes l kind p (record.mergeLabels labels) := ⟨h.name, h.source⟩

/-- Both ways of reading a record's name give its site's. -/
theorem names (h : Describes l kind p record) :
    record.name = recordOf kind p ∧ record.metadata.name.getD "" = recordOf kind p := by
  rw [WorkStatus.name, Metadata.anyName, h.name]
  exact ⟨rfl, rfl⟩

end Describes

/-- The hub's record for what is at some coordinates. -/
def Agent.record? (a : Agent) (kind : ResourceKind) (p : Coordinates) : Option WorkStatus :=
  a.hub.records.get? (a.cluster, recordOf kind p)

/-- The record that a worker at this stage is going to change is the hub's. -/
def Stage.Attached (a : Agent) (key : ObjectKey) : Stage → Prop
  | patching _ record _ | updating record _ =>
      a.record? key.kind (key.ns, key.name) = some record
  | _ => True

variable {l : Lookups} {w : World l} {a a' : Agent} {id : WorkerId} {key : ObjectKey}
  {st st' : Stage} {notes log : List Note} {o : Object} {record : WorkStatus}

theorem attached_finished (a : Agent) (key : ObjectKey) (result : Except AgentError Outcome) :
    (finished result).Attached a key := trivial

theorem attached_labelled (h : a.record? key.kind (key.ns, key.name) = some record) :
    (labelled o record).Attached a key :=
  of_labelled (P := Stage.Attached a key) record (attached_finished a key) fun _ _ => h

theorem attached_recorded (h : a.record? key.kind (key.ns, key.name) = some record) :
    (recorded o record).Attached a key :=
  of_recorded (P := Stage.Attached a key) record (attached_finished a key) (fun _ _ => h)
    fun _ _ => h

theorem getRecord_ok {h : Hub} {ns name : String} (hr : h.getRecord ns name = .ok record) :
    h.records.get? (ns, name) = some record := by
  rcases Hand.getRecord_cases h ns name with ⟨record', hr', hg⟩ | ⟨_, hr'⟩
  · rw [hr] at hr'
    cases hr'
    exact hg
  · rw [hr] at hr'
    cases hr'

theorem recordNameOf_subject (h : w.Subject key o) :
    Projector.recordNameOf o key.kind = recordOf key.kind (key.ns, key.name) := by
  obtain ⟨hns, hname⟩ := Prod.mk.inj h.2.1
  rw [Projector.recordNameOf, recordOf, hns, hname]

/-- What a worker does to the hub's records with its key in hand: all but that of its key stay, that
one keeps its name and its source, and what the worker goes on with is what the hub has. -/
structure Agent.Minds (l : Lookups) (a a' : Agent) (key : ObjectKey) (st' : Stage) : Prop where
  others : ∀ k, k ≠ (a.cluster, recordOf key.kind (key.ns, key.name)) →
    a'.hub.records.get? k = a.hub.records.get? k
  own : ∀ record, a'.record? key.kind (key.ns, key.name) = some record →
    Describes l key.kind (key.ns, key.name) record
  attached : st'.Attached a' key

namespace Agent.Minds

theorem of_records (h : a'.hub.records = a.hub.records) (hc : a'.cluster = a.cluster)
    (hown : ∀ record, a.record? key.kind (key.ns, key.name) = some record →
      Describes l key.kind (key.ns, key.name) record)
    (hatt : st'.Attached a' key) : a.Minds l a' key st' where
  others := by
    intro k _
    rw [h]
  own := by
    intro record hr
    rw [record?, h, hc] at hr
    exact hown record hr
  attached := hatt

theorem of_insert
    (h : a.Rewrote a' (a.hub.records.insert
      (a.cluster, recordOf key.kind (key.ns, key.name)) record))
    (hd : Describes l key.kind (key.ns, key.name) record)
    (hatt : a'.record? key.kind (key.ns, key.name) = some record → st'.Attached a' key) :
    a.Minds l a' key st' := by
  obtain ⟨hub, rfl, hr, _⟩ := h
  have hown : ({ a with hub := hub } : Agent).record? key.kind (key.ns, key.name) =
      some record := by
    simp [record?, hr]
  refine ⟨?_, ?_, hatt hown⟩
  · intro k hk
    change hub.records.get? k = _
    rw [hr, Table.get?_insert, if_neg (Ne.symm hk)]
  · intro record' hr'
    rw [hown] at hr'
    cases hr'
    exact hd

end Agent.Minds

theorem Answered.minds (h : Answered l a id key st st' a' notes) (hst : w.About key st)
    (hatt : st.Attached a key)
    (hown : ∀ record, a.record? key.kind (key.ns, key.name) = some record →
      Describes l key.kind (key.ns, key.name) record) : a.Minds l a' key st' := by
  cases h with
  | leads h =>
      refine .of_records rfl rfl hown ?_
      cases h with
      | presentWork o =>
          exact of_opened (P := Stage.Attached a key) (attached_finished a key) fun _ _ => trivial
      | read o owner record hr =>
          rw [recordNameOf_subject hst] at hr
          exact attached_recorded (getRecord_ok hr)
      | _ => trivial
  | creates o record hw =>
      rcases hw.creates with ⟨e, rfl, _, hub, rfl, hr, _⟩ | ⟨version, rfl, _, hr⟩
      · exact .of_records hr rfl hown trivial
      · rw [hst.2.names.2] at hr
        exact .of_insert hr ((hst.2.setNs a.cluster).setVersion version) attached_recorded
  | patches o record label hw =>
      have hd := hown record hatt
      rcases hw.patches with ⟨e, rfl, _, hub, rfl, hr, _⟩ | ⟨old, version, rfl, hg, hr⟩
      · exact .of_records hr rfl hown trivial
      · rw [hd.names.1] at hg hr
        exact .of_insert hr (((hown old hg).mergeLabels _).setVersion version) attached_labelled
  | updates record status hw =>
      have hd := hown record hatt
      have hname := (hd.setStatus (some status)).names.2
      rcases hw.updates with ⟨e, rfl, _, hub, rfl, hr, _⟩ | ⟨old, version, rfl, hg, hr⟩
      · exact .of_records hr rfl hown trivial
      · rw [hname] at hg hr
        exact .of_insert hr (((hown old hg).setStatus _).setVersion version) fun _ => trivial
  | erases name hw =>
      obtain ⟨_, rfl⟩ := hst
      rcases hw.erases with ⟨e, rfl, _, _, hub, rfl, hr, _⟩ | ⟨_, records, ⟨hub, rfl, hr, _⟩, hg⟩
      · exact .of_records hr rfl hown
          (of_erased (P := Stage.Attached _ key) (attached_finished _ key) _)
      · refine ⟨?_, ?_, of_erased (P := Stage.Attached _ key) (attached_finished _ key) _⟩
        · intro k hk
          change hub.records.get? k = _
          rw [hr, hg, if_neg (Ne.symm hk)]
        · intro record hrecord
          simp [Agent.record?, hr, hg] at hrecord
  | replaces | removes | acquires | releases | posts => exact .of_records rfl rfl hown trivial

/-- With the key of a deployment record in hand a worker writes nothing. -/
theorem Answered.hub_eq (h : Answered l a id key st st' a' notes) (hst : w.About key st)
    (hk : key.kind = appliedWorkKind) : a'.hub = a.hub := by
  cases h with
  | leads | replaces | removes | acquires | releases | posts => rfl
  | creates => exact absurd hk hst.1.1
  | patches => exact absurd hk hst.1
  | updates => exact absurd hk hst
  | erases => exact absurd hk hst.1

theorem attached_of_work (hst : w.About key st) (hk : key.kind = appliedWorkKind) (a : Agent) :
    st.Attached a key := by
  cases st with
  | patching => exact absurd hk hst.1
  | updating => exact absurd hk hst
  | _ => trivial

/-- The hub has records of sites only, each with its name and source, and workers go on with what
the hub has. -/
structure Files (w : World l) (c : Crew) : Prop where
  described : ∀ k record, c.agent.hub.records.get? k = some record →
    ∃ kind p, w.site kind p ∧ k = (c.agent.cluster, recordOf kind p) ∧ Describes l kind p record
  attached : ∀ id key stage, c.Busy id key stage → stage.Attached c.agent key

namespace Files

variable {c c' : Crew} {m : Move}

theorem start (w : World l) (cluster : String) (timeout : Duration)
    (limiter : Limiter ObjectKey) (manifestWorks : Table RecordKey ManifestWork) (workers : Nat) :
    Files w (.start (.fresh cluster timeout limiter manifestWorks) workers) where
  described := by
    intro k record hr
    cases hr
  attached := fun _ _ _ hb => absurd hb Crew.not_busy_start

/-- The record of a site has its name and source. -/
theorem own (h : Files w c) {kind : ResourceKind} {p : Coordinates} (hp : w.site kind p)
    (hr : c.agent.record? kind p = some record) : Describes l kind p record := by
  obtain ⟨kind', p', hp', hk, hd⟩ := h.described _ record hr
  obtain ⟨rfl, rfl⟩ := w.apart kind p kind' p' hp hp' (Prod.mk.inj hk).2
  exact hd

/-- An answer changes the record of its key only, which keeps its name and source. -/
theorem answered (h : Files w c) (hk : w.Keeps c log) (hb : c.Busy id key st)
    (ha : Answered l c.agent id key st st' a' notes) :
    (∀ k record, a'.hub.records.get? k = some record →
      ∃ kind p, w.site kind p ∧ k = (a'.cluster, recordOf kind p) ∧ Describes l kind p record) ∧
    st'.Attached a' key := by
  have habout := hk.about id key st hb
  by_cases hwork : key.kind = appliedWorkKind
  · refine ⟨?_, attached_of_work (hk.about_answered (hk.known hb) habout ha) hwork a'⟩
    intro k record hr
    rw [ha.hub_eq habout hwork] at hr
    rw [ha.cluster]
    exact h.described k record hr
  · have hsite := World.site_of_known (hk.known hb) hwork
    have hminds := ha.minds habout (h.attached id key st hb) fun record hr => h.own hsite hr
    refine ⟨fun k record hr => ?_, hminds.attached⟩
    by_cases hown : k = (c.agent.cluster, recordOf key.kind (key.ns, key.name))
    · subst hown
      rw [← ha.cluster] at hr
      exact ⟨key.kind, (key.ns, key.name), hsite, by rw [ha.cluster], hminds.own record hr⟩
    · rw [hminds.others k hown] at hr
      rw [ha.cluster]
      exact h.described k record hr

theorem turn (h : Files w c) (hk : w.Keeps c log) (hsingle : c.hands.length = 1) {x x' : Hand}
    (hx : c.hands[id]? = some x) (t : Turned l c.agent id x x' a' notes) :
    Files w ⟨a', c.hands.set id x'⟩ := by
  constructor
  · refine t.agent_of (P := fun a' => ∀ k record, a'.hub.records.get? k = some record →
      ∃ kind p, w.site kind p ∧ k = (a'.cluster, recordOf kind p) ∧ Describes l kind p record)
      (fun _ _ => h.described) ?_
    rintro key st st' p rfl ha
    exact (h.answered hk ⟨p, hx⟩ ha).1
  · intro j key stage hb
    obtain ⟨_, p, hp⟩ := Crew.busy_set_alone hsingle hx hb
    subst hp
    cases t with
    | takes => exact of_first (P := Stage.Attached _ key) (attached_finished _ key) trivial key
    | begins => exact h.attached id key stage ⟨_, hx⟩
    | answers _ ha => exact (h.answered hk ⟨_, hx⟩ ha).2

theorem step (h : Files w c) (hk : w.Keeps c log) (hsingle : c.hands.length = 1)
    (s : Crew.Step l c m c' notes) : Files w c' := by
  cases s with
  | turn id hx t => exact h.turn hk hsingle hx t
  | work | object | fire | mood | pass | still => exact ⟨h.described, h.attached⟩

end Files
end StatusRelay
