import StatusRelay.Proofs.Upkeep

/-!
# What a sync and a deletion leave alone

However a sync or a deletion ends, only the record of the object may be different afterwards. In a
record that was there only the status, the one label and the version change, and a record that was
not there comes from the deployment record and the object alone. A deletion that succeeds leaves no
record, so after a sync it takes back all that the sync did.
-/
namespace StatusRelay

open Projector WorkStatus

/-- A record as it is made for an object: it has the labels of the deployment record and the label
of the object, the deployment record as its only owner if that has a name and a UID, and it says
where the object is found. -/
structure WorkStatus.MadeFor (o : Object) (kind : ResourceKind) (resource : ApiResource)
    (work : ManifestWork) (r : WorkStatus) : Prop where
  labels : ∃ labels, r.metadata.labels = some labels ∧ ∀ key, labels.get? key =
    if key = Labels.singletonKey then (o.metadata.label? key).or (work.labels.get? key)
    else work.labels.get? key
  owned : ∀ name uid, work.metadata.name = some name → work.metadata.uid = some uid →
    r.metadata.ownerReferences = some [{
      apiVersion := manifestWorkResource.apiVersion
      controller := some true
      kind := manifestWorkResource.kind
      name := name
      uid := uid }]
  ownerless : work.metadata.name = none ∨ work.metadata.uid = none →
    r.metadata.ownerReferences = none
  source : r.source = ⟨kind.group, kind.version, resource.plural, kind.kind, o.name, o.ns⟩
  details : r.details = {}
  status : r.status = none ∨ r.status = o.status

variable {o : Object} {kind : ResourceKind} {resource : ApiResource} {work : ManifestWork}
  {r r' : WorkStatus}

theorem get?_newLabels (o : Object) (work : ManifestWork) (key : String) :
    (newLabels o work).get? key =
      if key = Labels.singletonKey then (o.metadata.label? key).or (work.labels.get? key)
      else work.labels.get? key := by
  unfold newLabels
  by_cases hk : key = Labels.singletonKey
  · subst hk
    rw [if_pos rfl]
    cases o.metadata.label? Labels.singletonKey with
    | none => rfl
    | some value => exact Labels.get?_insert_self ..
  · rw [if_neg hk]
    cases o.metadata.label? Labels.singletonKey with
    | none => rfl
    | some value => rw [Labels.get?_insert, if_neg (Ne.symm hk)]

theorem madeFor_newRecord (cluster : String) (o : Object) (kind : ResourceKind)
    (resource : ApiResource) (work : ManifestWork) :
    (newRecord cluster o kind work resource.plural).MadeFor o kind resource work where
  labels := ⟨newLabels o work, rfl, get?_newLabels o work⟩
  owned := fun name uid hn hu => by
    change work.ownerReference?.map ([·]) = _
    rw [ManifestWork.ownerReference?, hn, hu]
    rfl
  ownerless := fun h => by
    change work.ownerReference?.map ([·]) = _
    rcases h with hn | hu
    · rw [ManifestWork.ownerReference?, hn]
      rfl
    · rw [ManifestWork.ownerReference?, hu]
      cases work.metadata.name <;> rfl
  source := rfl
  details := rfl
  status := Or.inl rfl

/-- A new record has the object's label already. -/
theorem labelled_newRecord (cluster : String) (o : Object) (kind : ResourceKind)
    (work : ManifestWork) (plural : String) :
    Labelled o (newRecord cluster o kind work plural) := by
  intro value hv
  change (newLabels o work).get? Labels.singletonKey = some value
  rw [get?_newLabels, if_pos rfl, hv]
  rfl

theorem WorkStatus.MadeFor.touchStatus (h : r.MadeFor o kind resource work) :
    (touchStatus o r).MadeFor o kind resource work := by
  unfold WorkStatus.touchStatus
  split
  · exact h
  · rename_i status hs
    split
    · exact h
    · exact ⟨h.labels, h.owned, h.ownerless, h.source, h.details, Or.inr hs.symm⟩

theorem WorkStatus.MadeFor.of_unversioned (h : r.MadeFor o kind resource work)
    (he : r'.unversioned = r.unversioned) : r'.MadeFor o kind resource work := by
  have hlabels : r'.metadata.labels = r.metadata.labels := congrArg (·.metadata.labels) he
  have howners : r'.metadata.ownerReferences = r.metadata.ownerReferences :=
    congrArg (·.metadata.ownerReferences) he
  have hsource : r'.source = r.source := congrArg (·.source) he
  have hdetails : r'.details = r.details := congrArg (·.details) he
  have hstatus : r'.status = r.status := congrArg (·.status) he
  exact ⟨hlabels ▸ h.labels, howners ▸ h.owned, howners ▸ h.ownerless, hsource ▸ h.source,
    hdetails ▸ h.details, hstatus ▸ h.status⟩

theorem WorkStatus.Keeps.of_unversioned {kept : WorkStatus} (h : r.Keeps kept)
    (he : r'.unversioned = kept.unversioned) : r.Keeps r' := by
  have hplain : r'.unversioned.plain = kept.unversioned.plain := congrArg WorkStatus.plain he
  have hlabels : r'.metadata.labels = kept.metadata.labels := congrArg (·.metadata.labels) he
  refine ⟨hplain.trans h.plain, fun key hk => ?_⟩
  rw [Metadata.labelSet, hlabels]
  exact h.labels key hk

namespace Hub.Upshot

variable {h h' : Hub} {key : RecordKey} {basis? : Option (Option WorkStatus)} {best : Prop}
  {v : Except AgentError Unit} {record : WorkStatus}

/-- A record that was there is left on its way to what the sync makes of it. -/
theorem leaves_some (hs : h.Upshot key (some (some record)) o best v h')
    (hg : h.records.get? key = some record) :
    ∃ left, (left = record ∨ left = touchLabel o record ∨ left = touched o record) ∧
      h.Leaves key (some left) h' := by
  cases hs with
  | done hb hl =>
      cases hb
      exact ⟨_, Or.inr (Or.inr rfl), hl⟩
  | early _ hl => exact ⟨record, Or.inl rfl, hg ▸ hl⟩
  | late hb _ hl =>
      cases hb
      rcases hl with hl | hl
      · exact ⟨_, Or.inl rfl, hl⟩
      · exact ⟨_, Or.inr (Or.inl rfl), hl⟩

theorem keeps (hs : h.Upshot key (some (some record)) o best v h')
    (hg : h.records.get? key = some record) :
    ∃ record', h'.records.get? key = some record' ∧ record.Keeps record' := by
  obtain ⟨left, hleft, hl⟩ := hs.leaves_some hg
  have hkeeps : record.Keeps left := by
    rcases hleft with rfl | rfl | rfl
    · exact .refl _
    · exact keeps_touchLabel o record
    · exact (keeps_touchLabel o record).trans (keeps_touchStatus o _)
  obtain ⟨stored, hstored, he⟩ := hl.exists_stored
  exact ⟨stored, hstored, hkeeps.of_unversioned he⟩

/-- What is left where no record was comes from the deployment record and the object. -/
theorem madeFor {l : Lookups} {cluster : String} {owner : TrackedOwner}
    (hs : h.Upshot (cluster, recordNameOf o kind) (h.basis? l cluster o kind owner) o best v h')
    (hnone : h.records.get? (cluster, recordNameOf o kind) = none)
    (hg : h'.records.get? (cluster, recordNameOf o kind) = some record) :
    ∃ work resource, h.manifestWorks.get? (cluster, owner.manifestWork) = some work ∧
      l.ofKind kind = .ok resource ∧ record.MadeFor o kind resource work := by
  have hbasis : h.basis? l cluster o kind owner = h.drafts? l cluster o kind owner := by
    rw [Hub.basis?, hnone]
  cases hs with
  | @done record? _ hb hl =>
      cases record? with
      | none =>
          cases hg.symm.trans hl.get?_none
      | some new =>
          obtain ⟨work, resource, hw, hk, rfl⟩ := Hub.drafts?_eq_some (hbasis.symm.trans hb)
          have htouched : touched o (newRecord cluster o kind work resource.plural) =
              touchStatus o (newRecord cluster o kind work resource.plural) := by
            rw [touched, touchLabel_of_labelled (labelled_newRecord _ _ _ _ _)]
          have hmade := (madeFor_newRecord cluster o kind resource work).touchStatus
          exact ⟨work, resource, hw, hk,
            hmade.of_unversioned (htouched ▸ hl.unversioned_eq hg)⟩
  | early _ hl =>
      rw [hnone] at hl
      cases hg.symm.trans hl.get?_none
  | late hb _ hl =>
      obtain ⟨work, resource, hw, hk, rfl⟩ := Hub.drafts?_eq_some (hbasis.symm.trans hb)
      rw [touchLabel_of_labelled (labelled_newRecord _ _ _ _ _), or_self] at hl
      exact ⟨work, resource, hw, hk,
        (madeFor_newRecord ..).of_unversioned (hl.unversioned_eq hg)⟩

end Hub.Upshot

/-- However a sync ends, only the record of the object may be different afterwards. If it was there
before, only its status, its version and the one label may; if not, it is made from the deployment
record and the object. A deletion leaves all other records too, and none by its name if it
succeeds, so if it follows a sync then the records are what they were but for the one. -/
theorem only_its_record_is_touched (l : Lookups) (a : Agent) (history : List Deed)
    (weather : List Weather) (cluster : String) (o : Object) (kind : ResourceKind)
    (owner : TrackedOwner) :
    let start := Scene.start a history (weather.map Weather.gap)
    let synced := start.attempt l (Projector.sync cluster o kind owner)
    let key := (cluster, (o.identity kind).record)
    let cleared := synced.2.attempt l (Projector.delete cluster kind.kind o.ns o.name)
    (synced.2.hub.manifestWorks = start.hub.manifestWorks ∧
      (∀ other, other ≠ key →
        synced.2.hub.records.get? other = start.hub.records.get? other) ∧
      (∀ record, start.hub.records.get? key = some record →
        ∃ record', synced.2.hub.records.get? key = some record' ∧ record.Keeps record') ∧
      (start.hub.records.get? key = none → ∀ record,
        synced.2.hub.records.get? key = some record →
        ∃ work resource,
          start.hub.manifestWorks.get? (cluster, owner.manifestWork) = some work ∧
          l.ofKind kind = .ok resource ∧ record.MadeFor o kind resource work)) ∧
    (∀ kindName ns name,
      let gone := start.attempt l (Projector.delete cluster kindName ns name)
      let key := (cluster, recordName kindName ns name)
      gone.2.hub.manifestWorks = start.hub.manifestWorks ∧
      (∀ other, other ≠ key → gone.2.hub.records.get? other = start.hub.records.get? other) ∧
      (gone.1 = .ok () → gone.2.hub.records.get? key = none) ∧
      (∀ e, gone.1 = .error e → gone.2.hub.records = start.hub.records)) ∧
    (cleared.1 = .ok () → ∀ other, cleared.2.hub.records.get? other =
      if other = key then none else start.hub.records.get? other) := by
  intro start synced key cleared
  have halone : start.Alone False := Scene.alone_start a history weather
  have hsynced : start.Syncs l cluster o kind owner synced.1 synced.2 := Scene.syncs ..
  have hcleared : synced.2.Deletes cluster key.2 cleared.1 cleared.2 := Scene.deletes ..
  obtain ⟨halone', hs⟩ := hsynced.alone halone (Hub.sound_after history)
  clear_value synced cleared
  obtain ⟨left?, hleft⟩ := hs.leaves
  refine ⟨⟨hleft.manifestWorks, hleft.elsewhere, fun record hg => ?_, fun hnone record hg => ?_⟩,
    fun kindName ns name => ?_, fun hok other => ?_⟩
  · have hbasis : start.hub.basis? l cluster o kind owner = some (some record) := by
      rw [Hub.basis?, show start.hub.records.get? (cluster, recordNameOf o kind) = _ from hg]
    rw [hbasis] at hs
    exact hs.keeps hg
  · exact hs.madeFor hnone hg
  · intro gone key
    have hgone : start.Deletes cluster key.2 gone.1 gone.2 := Scene.deletes ..
    clear_value gone
    obtain ⟨_, ⟨hok, hl⟩ | ⟨e, he, hst⟩⟩ := hgone.alone halone
    · refine ⟨hl.manifestWorks, hl.elsewhere, fun _ => ?_, fun e he => ?_⟩
      · exact hl.get?_none
      · cases hok.symm.trans he
    · refine ⟨hst.manifestWorks, fun other _ => by rw [hst.records], fun hok => ?_,
        fun _ _ => hst.records⟩
      cases he.symm.trans hok
  · obtain ⟨_, ⟨_, hl⟩ | ⟨e, he, _⟩⟩ := hcleared.alone halone'
    · split
      · rename_i hk
        subst hk
        exact hl.get?_none
      · rename_i hk
        exact (hl.elsewhere other hk).trans (hleft.elsewhere other hk)
    · cases he.symm.trans hok

end StatusRelay
