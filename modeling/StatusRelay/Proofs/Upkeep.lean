import StatusRelay.Proofs.Chain

/-!
# A sync or a deletion with nobody else about

The hub may refuse writes and may take its time over them, and that may change before every call and
while a call is under way; but nobody else does anything. Then each part of a sync either fails and
leaves the record as it was, or brings it one step further: it creates what is missing, sets the
label, sets the status. Versions apart, where a sync gets to depends only on where it started.
-/
namespace StatusRelay

open Projector

/-- How the hub takes writes when a call begins, and when a call that took time takes effect. -/
structure Weather where
  begins : Mood := {}
  ends : Mood := {}
  deriving DecidableEq, Repr

def Weather.gap (w : Weather) : Gap := ⟨[.mood w.begins], [.mood w.ends]⟩

/-- Nobody else does anything; in the best case the hub takes all writes at once. -/
structure Scene.Alone (s : Scene) (best : Prop) : Prop where
  weather : ∃ weather : List Weather, s.gaps = weather.map Weather.gap
  calm : best → s.Calm

theorem Hub.after_moods {deeds : List Deed} (hd : ∀ d ∈ deeds, ∃ mood, d = .mood mood) (h : Hub) :
    (h.after deeds).records = h.records ∧ (h.after deeds).manifestWorks = h.manifestWorks ∧
      (h.after deeds).version = h.version := by
  induction deeds generalizing h with
  | nil => exact ⟨rfl, rfl, rfl⟩
  | cons d deeds ih =>
      obtain ⟨mood, rfl⟩ := hd d List.mem_cons_self
      exact ih (fun d hd' => hd d (List.mem_cons_of_mem _ hd')) (h.inMood mood)

theorem Scene.Calls.alone {s s' : Scene} {c : HubCall} {v : Except AgentError c.Answer}
    {best : Prop} (hc : s.Calls c v s') (ha : s.Alone best) :
    s.hub.Replies best c v s'.hub ∧ s'.Alone best := by
  obtain ⟨willing, deeds, hc⟩ := hc
  obtain ⟨weather, hw⟩ := ha.weather
  have hmoods : ∀ d ∈ deeds, ∃ mood, d = .mood mood := by
    intro d hd
    have hmem := hc.mem d hd
    rw [hw] at hmem
    cases weather with
    | nil => cases hmem
    | cons w rest =>
        rcases List.mem_append.mp hmem with hmem | hmem
        · exact ⟨_, List.mem_singleton.mp hmem⟩
        · exact ⟨_, List.mem_singleton.mp hmem⟩
  obtain ⟨hrecords, hworks, hversion⟩ := Hub.after_moods hmoods s.hub
  refine ⟨(hc.replies.of_alike hrecords.symm hworks.symm hversion.symm).mono
    fun hb => (hc.calm (ha.calm hb)).1, ⟨weather.tail, ?_⟩, fun hb => (hc.calm (ha.calm hb)).2⟩
  rw [hc.gaps, hw, List.map_tail]

/-! ## Records up to their version -/

namespace WorkStatus

def unversioned (r : WorkStatus) : WorkStatus :=
  { r with metadata := { r.metadata with resourceVersion := none } }

/-- The record with the object's label, if the object has one. -/
def touchLabel (o : Object) (r : WorkStatus) : WorkStatus :=
  match o.metadata.label? Labels.singletonKey with
  | none => r
  | some value =>
      if r.metadata.labelSet.get? Labels.singletonKey = some value then r
      else r.mergeLabels (.ofList [(Labels.singletonKey, value)])

/-- The record with the object's status, if the object has one. -/
def touchStatus (o : Object) (r : WorkStatus) : WorkStatus :=
  match o.status with
  | none => r
  | some status => if holds r status then r else r.setStatus (some status)

/-- What a sync makes of a record. -/
def touched (o : Object) (r : WorkStatus) : WorkStatus := touchStatus o (touchLabel o r)

variable {o : Object} {r r' : WorkStatus}

theorem touchLabel_of_labelled (h : Labelled o r) : touchLabel o r = r := by
  unfold touchLabel
  split
  · rfl
  · rename_i value hv
    rw [if_pos (h value hv)]

theorem touchStatus_of_holds (h : Holds o r) : touchStatus o r = r := by
  unfold touchStatus
  split
  · rfl
  · rename_i status hs
    rw [if_pos (h status hs)]

theorem labelled_touchLabel (o : Object) (r : WorkStatus) : Labelled o (touchLabel o r) := by
  intro value hv
  unfold touchLabel
  rw [hv]
  dsimp only
  split
  · assumption
  · exact Labels.get?_insert_self r.metadata.labelSet Labels.singletonKey value

theorem labelled_touchStatus (h : Labelled o r) : Labelled o (touchStatus o r) := by
  unfold touchStatus
  split
  · exact h
  · split
    · exact h
    · exact h

theorem unversioned_touchLabel (o : Object) (r : WorkStatus) :
    (touchLabel o r).unversioned = touchLabel o r.unversioned := by
  unfold touchLabel
  split
  · rfl
  · split <;> rename_i hg
    · exact (if_pos hg).symm
    · exact (if_neg hg).symm

theorem unversioned_touchStatus (o : Object) (r : WorkStatus) :
    (touchStatus o r).unversioned = touchStatus o r.unversioned := by
  unfold touchStatus
  split
  · rfl
  · split <;> rename_i hs
    · exact (if_pos hs).symm
    · exact (if_neg hs).symm

theorem unversioned_touchStatus_congr (h : r.unversioned = r'.unversioned) :
    (touchStatus o r).unversioned = (touchStatus o r').unversioned := by
  rw [unversioned_touchStatus, h, ← unversioned_touchStatus]

theorem unversioned_touchLabel_congr (h : r.unversioned = r'.unversioned) :
    (touchLabel o r).unversioned = (touchLabel o r').unversioned := by
  rw [unversioned_touchLabel, h, ← unversioned_touchLabel]

theorem keeps_touchLabel (o : Object) (r : WorkStatus) : r.Keeps (touchLabel o r) := by
  unfold touchLabel
  split
  · exact .refl r
  · split
    · exact .refl r
    · exact keeps_mergeLabels (fun e he => by rw [List.mem_singleton.mp he]) r

theorem keeps_touchStatus (o : Object) (r : WorkStatus) : r.Keeps (touchStatus o r) := by
  unfold touchStatus
  split
  · exact .refl r
  · split
    · exact .refl r
    · exact keeps_setStatus r _

end WorkStatus

namespace Hub

open WorkStatus

/-- Versions apart, a record was left under a key, or none; all else stayed as it was. -/
structure Leaves (h : Hub) (key : RecordKey) (record? : Option WorkStatus) (h' : Hub) : Prop where
  record : (h'.records.get? key).map unversioned = record?.map unversioned
  elsewhere : ∀ other, other ≠ key → h'.records.get? other = h.records.get? other
  manifestWorks : h'.manifestWorks = h.manifestWorks

variable {h h' h'' : Hub} {key : RecordKey} {record : WorkStatus}
  {record? next? : Option WorkStatus}

theorem Leaves.trans (h₁ : h.Leaves key record? h') (h₂ : h'.Leaves key next? h'') :
    h.Leaves key next? h'' where
  record := h₂.record
  elsewhere := fun other hk => (h₂.elsewhere other hk).trans (h₁.elsewhere other hk)
  manifestWorks := h₂.manifestWorks.trans h₁.manifestWorks

theorem SameStock.leaves (hs : h.SameStock h') (key : RecordKey) :
    h.Leaves key (h.records.get? key) h' where
  record := by rw [hs.records]
  elsewhere := fun other _ => by rw [hs.records]
  manifestWorks := hs.manifestWorks

theorem Stores.leaves (hs : h.Stores key record h') : h.Leaves key (some record) h' where
  record := by
    rw [hs.records, Table.get?_insert_self]
    rfl
  elsewhere := fun other hk => by rw [hs.records, Table.get?_insert, if_neg hk.symm]
  manifestWorks := hs.manifestWorks

theorem Erases.leaves (hs : h.Erases key h') : h.Leaves key none h' where
  record := by rw [hs.records, Table.get?_erase_self]
  elsewhere := fun other hk => by rw [hs.records, Table.get?_erase, if_neg hk.symm]
  manifestWorks := hs.manifestWorks

theorem Leaves.congr (h₁ : h.Leaves key record? h')
    (he : record?.map unversioned = next?.map unversioned) : h.Leaves key next? h' :=
  ⟨h₁.record.trans he, h₁.elsewhere, h₁.manifestWorks⟩

/-- What is to be made of a missing record: a new one, or nothing; or that cannot be done. -/
def drafts? (l : Lookups) (h : Hub) (cluster : String) (o : Object) (kind : ResourceKind)
    (owner : TrackedOwner) : Option (Option WorkStatus) :=
  match h.manifestWorks.get? (cluster, owner.manifestWork) with
  | none => none
  | some work =>
      if work.labels.isManaged then
        match l.ofKind kind with
        | .ok resource => some (some (newRecord cluster o kind work resource.plural))
        | .error _ => none
      else some none

theorem drafts?_eq_some {l : Lookups} {cluster : String} {o : Object} {kind : ResourceKind}
    {owner : TrackedOwner} {new : WorkStatus}
    (hd : h.drafts? l cluster o kind owner = some (some new)) :
    ∃ work resource, h.manifestWorks.get? (cluster, owner.manifestWork) = some work ∧
      l.ofKind kind = .ok resource ∧ new = newRecord cluster o kind work resource.plural := by
  unfold drafts? at hd
  split at hd
  · cases hd
  · rename_i work hw
    split at hd
    · split at hd
      · rename_i resource hk
        cases hd
        exact ⟨work, resource, hw, hk, rfl⟩
      · cases hd
    · cases hd

/-- The record that a sync goes by, there already or to be made. -/
def basis? (l : Lookups) (h : Hub) (cluster : String) (o : Object) (kind : ResourceKind)
    (owner : TrackedOwner) : Option (Option WorkStatus) :=
  match h.records.get? (cluster, recordNameOf o kind) with
  | some record => some (some record)
  | none => h.drafts? l cluster o kind owner

/-- How it ends to look for a record or to make it. -/
inductive Search (h : Hub) (key : RecordKey) (basis? : Option (Option WorkStatus)) (best : Prop) :
    Except AgentError (Option WorkStatus) → Hub → Prop
  | record {new record : WorkStatus} {h' : Hub} (hb : basis? = some (some new))
      (hl : h.Leaves key (some new) h') (hg : h'.records.get? key = some record) :
      Search h key basis? best (.ok (some record)) h'
  | nothing {h' : Hub} (hb : basis? = some none) (hl : h.Leaves key none h') :
      Search h key basis? best (.ok none) h'
  | fails {e : AgentError} {h' : Hub} (hb : best → basis? = none)
      (hl : h.Leaves key (h.records.get? key) h') :
      Search h key basis? best (.error e) h'

theorem Leaves.unversioned_eq (h₁ : h.Leaves key (some record) h') {stored : WorkStatus}
    (hg : h'.records.get? key = some stored) : stored.unversioned = record.unversioned :=
  Option.some.inj ((congrArg (Option.map unversioned) hg).symm.trans h₁.record)

theorem Leaves.exists_stored (h₁ : h.Leaves key (some record) h') :
    ∃ stored, h'.records.get? key = some stored ∧ stored.unversioned = record.unversioned :=
  Option.map_eq_some_iff.mp h₁.record

theorem Leaves.get?_none (h₁ : h.Leaves key none h') : h'.records.get? key = none :=
  Option.map_eq_none_iff.mp h₁.record

/-- A record that is still there as it was read may be replaced. -/
theorem mayReplace_setStatus_self (record : WorkStatus) (status : Option Json) :
    mayReplace (record.setStatus status) record = true := by
  unfold mayReplace
  change (match record.metadata.resourceVersion with
    | none => true
    | some version => record.metadata.resourceVersion == some version) = true
  cases record.metadata.resourceVersion with
  | none => rfl
  | some version => simp

/-- How a sync ends. The record it goes by is left with the label and the status set, or it fails
before there is a record, or with the record in one of the states on the way. -/
inductive Upshot (h : Hub) (key : RecordKey) (basis? : Option (Option WorkStatus)) (o : Object)
    (best : Prop) : Except AgentError Unit → Hub → Prop
  | done {record? : Option WorkStatus} {h' : Hub} (hb : basis? = some record?)
      (hl : h.Leaves key (record?.map (touched o)) h') : Upshot h key basis? o best (.ok ()) h'
  | early {e : AgentError} {h' : Hub} (hb : best → basis? = none)
      (hl : h.Leaves key (h.records.get? key) h') : Upshot h key basis? o best (.error e) h'
  | late {record : WorkStatus} {e : AgentError} {h' : Hub} (hb : basis? = some (some record))
      (hn : ¬ best)
      (hl : h.Leaves key (some record) h' ∨ h.Leaves key (some (touchLabel o record)) h') :
      Upshot h key basis? o best (.error e) h'

theorem Upshot.leaves {basis? : Option (Option WorkStatus)} {o : Object} {best : Prop}
    {v : Except AgentError Unit} (hs : h.Upshot key basis? o best v h') :
    ∃ record?, h.Leaves key record? h' := by
  cases hs with
  | done _ hl | early _ hl => exact ⟨_, hl⟩
  | late _ _ hl => exact hl.elim (fun hl => ⟨_, hl⟩) fun hl => ⟨_, hl⟩

theorem SameStock.drafts? {l : Lookups} {cluster : String} {o : Object} {kind : ResourceKind}
    {owner : TrackedOwner} (hs : h.SameStock h') :
    h'.drafts? l cluster o kind owner = h.drafts? l cluster o kind owner := by
  rw [Hub.drafts?, Hub.drafts?, hs.manifestWorks]

theorem Search.of_sameStock {basis? : Option (Option WorkStatus)} {best : Prop}
    {v : Except AgentError (Option WorkStatus)} (hf : h'.Search key basis? best v h'')
    (hs : h.SameStock h') : h.Search key basis? best v h'' := by
  have hleaves := hs.leaves key
  cases hf with
  | record hb hl hg => exact .record hb (hleaves.trans hl) hg
  | nothing hb hl => exact .nothing hb (hleaves.trans hl)
  | fails hb hl =>
      rw [hs.records] at hl
      exact .fails hb (hleaves.trans hl)

end Hub

/-! ## Part by part -/

namespace Scene

open WorkStatus

variable {l : Lookups} {cluster : String} {o : Object} {kind : ResourceKind} {owner : TrackedOwner}
  {s s' : Scene} {best : Prop} {key : RecordKey} {record : WorkStatus}

/-- Reading leaves everything as it was. -/
theorem Calls.sameStock {c : HubCall} {v : Except AgentError c.Answer} (hc : s.Calls c v s')
    (ha : s.Alone best) (hw : c.isWrite = false) : s.hub.SameStock s'.hub := by
  have hr := (hc.alone ha).1
  cases hr with
  | foundWork _ hs | found _ hs | absent _ _ _ hs | clashes _ _ _ hs | unwilling _ _ _ _ hs =>
      exact hs
  | created | deleted | patched | updated => cases hw

theorem Calls.getManifestWork_ok {name : String} {work : ManifestWork}
    (hc : s.Calls (.getManifestWork cluster name) (.ok work) s') (ha : s.Alone best) :
    s.hub.manifestWorks.get? (cluster, name) = some work := by
  cases (hc.alone ha).1 with
  | foundWork hg _ => exact hg

theorem Calls.getManifestWork_error {name : String} {e : AgentError}
    (hc : s.Calls (.getManifestWork cluster name) (.error e) s') (ha : s.Alone best) :
    s.hub.manifestWorks.get? (cluster, name) = none := by
  cases (hc.alone ha).1 with
  | absent hl _ _ _ => exact hl
  | clashes hcl _ _ _ => exact hcl.elim
  | unwilling hw _ _ _ _ => cases hw

theorem Calls.getRecord_ok {name : String} (hc : s.Calls (.getRecord cluster name) (.ok record) s')
    (ha : s.Alone best) : s.hub.records.get? (cluster, name) = some record := by
  cases (hc.alone ha).1 with
  | found hg _ => exact hg

theorem Calls.getRecord_error {name : String} {e : AgentError}
    (hc : s.Calls (.getRecord cluster name) (.error e) s') (ha : s.Alone best) :
    s.hub.records.get? (cluster, name) = none ∧ e.isNotFound = true := by
  cases (hc.alone ha).1 with
  | absent hl hn _ _ => exact ⟨hl, hn⟩
  | clashes hcl _ _ _ => exact hcl.elim
  | unwilling hw _ _ _ _ => cases hw

theorem Creates.alone {v : Except AgentError (Option WorkStatus)}
    (h : s.Creates l cluster o kind owner v s') (ha : s.Alone best)
    (hnone : s.hub.records.get? (cluster, recordNameOf o kind) = none) :
    s'.Alone best ∧ s.hub.Search (cluster, recordNameOf o kind)
      (s.hub.drafts? l cluster o kind owner) best v s'.hub := by
  have hread : ∀ {v : Except AgentError ManifestWork} {s₁ : Scene},
      s.Calls (.getManifestWork cluster owner.manifestWork) v s₁ →
      s.hub.Leaves (cluster, recordNameOf o kind) none s₁.hub := fun hw =>
    hnone ▸ (hw.sameStock ha rfl).leaves _
  cases h with
  | unfetched hw =>
      refine ⟨(hw.alone ha).2, .fails (fun _ => ?_) (hnone ▸ hread hw)⟩
      rw [Hub.drafts?, hw.getManifestWork_error ha]
  | unmanaged hw hm =>
      refine ⟨(hw.alone ha).2, .nothing ?_ (hread hw)⟩
      simp [Hub.drafts?, hw.getManifestWork_ok ha, hm]
  | unresolved hw hm hk =>
      refine ⟨(hw.alone ha).2, .fails (fun _ => ?_) (hnone ▸ hread hw)⟩
      simp [Hub.drafts?, hw.getManifestWork_ok ha, hm, hk]
  | @refused work resource e s₁ _ hw hm hk hc =>
      obtain ⟨hr, ha'⟩ := hc.alone (hw.alone ha).2
      have hnone₁ : s₁.hub.records.get? (cluster, recordNameOf o kind) = none := by
        rw [(hw.sameStock ha rfl).records, hnone]
      have hleaves := (hread hw).trans (hr.of_error.1.leaves (cluster, recordNameOf o kind))
      rw [hnone₁, ← hnone] at hleaves
      refine ⟨ha', .fails (fun hb => ?_) hleaves⟩
      cases hr with
      | absent hl _ _ _ => exact hl.elim
      | clashes hcl _ _ _ =>
          have hsome : (s₁.hub.records.get? (cluster, recordNameOf o kind)).isSome = true := hcl
          rw [hnone₁] at hsome
          cases hsome
      | unwilling _ hu _ _ _ => exact absurd hb hu
  | @creates work resource created s₁ _ hw hm hk hc =>
      have hdraft : s.hub.drafts? l cluster o kind owner =
          some (some (newRecord cluster o kind work resource.plural)) := by
        simp [Hub.drafts?, hw.getManifestWork_ok ha, hm, hk]
      obtain ⟨hr, ha'⟩ := hc.alone (hw.alone ha).2
      refine ⟨ha', ?_⟩
      cases hr with
      | created _ hs =>
          refine .record hdraft ((hread hw).trans hs.leaves) ?_
          rw [hs.records]
          exact Table.get?_insert_self ..

theorem Finds.alone {v : Except AgentError (Option WorkStatus)}
    (h : s.Finds l cluster o kind owner v s') (ha : s.Alone best) :
    s'.Alone best ∧ s.hub.Search (cluster, recordNameOf o kind)
      (s.hub.basis? l cluster o kind owner) best v s'.hub := by
  cases h with
  | @reads record _ hr =>
      have hg := hr.getRecord_ok ha
      have hs := hr.sameStock ha rfl
      have hbasis : s.hub.basis? l cluster o kind owner = some (some record) := by
        rw [Hub.basis?, hg]
      exact ⟨(hr.alone ha).2, .record hbasis (hg ▸ hs.leaves _) (by rw [hs.records, hg])⟩
  | fails hr hn =>
      rw [(hr.getRecord_error ha).2] at hn
      cases hn
  | misses hr _ hc =>
      have hnone := (hr.getRecord_error ha).1
      have hs := hr.sameStock ha rfl
      have hbasis : s.hub.basis? l cluster o kind owner = s.hub.drafts? l cluster o kind owner := by
        rw [Hub.basis?, hnone]
      obtain ⟨ha', hsearch⟩ := hc.alone (hr.alone ha).2 (by rw [hs.records, hnone])
      rw [hs.drafts?, ← hbasis] at hsearch
      exact ⟨ha', hsearch.of_sameStock hs⟩

theorem SetsLabel.alone {v : Except AgentError WorkStatus} {name : String}
    (h : s.SetsLabel cluster o record v s') (ha : s.Alone best) (hname : record.name = name)
    (hg : s.hub.records.get? (cluster, name) = some record) :
    s'.Alone best ∧
      ((∃ record', v = .ok record' ∧
          s.hub.Leaves (cluster, name) (some (touchLabel o record)) s'.hub ∧
          s'.hub.records.get? (cluster, name) = some record') ∨
        ∃ e, v = .error e ∧ ¬ best ∧ s.hub.Leaves (cluster, name) (some record) s'.hub) := by
  subst hname
  have hstays : s.hub.Leaves (cluster, record.name) (some record) s.hub :=
    hg ▸ (Hub.SameStock.refl s.hub).leaves _
  cases h with
  | rests hl =>
      exact ⟨ha, Or.inl ⟨record, rfl, (touchLabel_of_labelled hl).symm ▸ hstays, hg⟩⟩
  | @patches value v _ ho hn hp =>
      obtain ⟨hr, ha'⟩ := hp.alone ha
      refine ⟨ha', ?_⟩
      cases hr with
      | patched hold hs =>
          cases hold.symm.trans hg
          have htouch : touchLabel o record =
              record.mergeLabels (.ofList [(Labels.singletonKey, value)]) := by
            simp [touchLabel, ho, hn]
          refine Or.inl ⟨_, rfl, htouch ▸ hs.leaves, ?_⟩
          rw [hs.records]
          exact Table.get?_insert_self ..
      | absent hl _ _ _ => cases Eq.trans (Eq.symm hl) hg
      | clashes hc _ _ _ => exact hc.elim
      | unwilling _ hu _ _ hs => exact Or.inr ⟨_, rfl, hu, hg ▸ hs.leaves _⟩

theorem SetsStatus.alone {v : Except AgentError Unit} {name : String}
    (h : s.SetsStatus cluster o record v s') (ha : s.Alone best)
    (hname : record.metadata.name.getD "" = name)
    (hg : s.hub.records.get? (cluster, name) = some record) :
    s'.Alone best ∧
      (v = .ok () ∧ s.hub.Leaves (cluster, name) (some (touchStatus o record)) s'.hub ∨
        ∃ e, v = .error e ∧ ¬ best ∧ s.hub.Leaves (cluster, name) (some record) s'.hub) := by
  subst hname
  have hstays : s.hub.Leaves (cluster, record.metadata.name.getD "") (some record) s.hub :=
    hg ▸ (Hub.SameStock.refl s.hub).leaves _
  cases h with
  | rests hs => exact ⟨ha, Or.inl ⟨rfl, (touchStatus_of_holds hs).symm ▸ hstays⟩⟩
  | refused ho hn hu =>
      obtain ⟨hr, ha'⟩ := hu.alone ha
      refine ⟨ha', Or.inr ⟨_, rfl, ?_, hg ▸ hr.of_error.1.leaves _⟩⟩
      cases hr with
      | absent hl _ _ _ => cases Eq.trans (Eq.symm hl) hg
      | clashes hc _ _ _ =>
          obtain ⟨stored, hstored, hm⟩ := hc
          cases Eq.trans (Eq.symm hstored) hg
          rw [Hub.mayReplace_setStatus_self] at hm
          cases hm
      | unwilling _ hu _ _ _ => exact hu
  | @updates status _ _ ho hn hu =>
      obtain ⟨hr, ha'⟩ := hu.alone ha
      cases hr with
      | updated hold _ hs =>
          cases Eq.trans (Eq.symm hold) hg
          have htouch : touchStatus o record = record.setStatus (some status) := by
            simp [touchStatus, ho, hn]
          exact ⟨ha', Or.inl ⟨rfl, htouch ▸ hs.leaves⟩⟩

/-! ## A whole sync, a whole deletion -/

theorem Syncs.alone {v : Except AgentError Unit} (h : s.Syncs l cluster o kind owner v s')
    (ha : s.Alone best) (hh : s.hub.Sound) :
    s'.Alone best ∧ s.hub.Upshot (cluster, recordNameOf o kind)
      (s.hub.basis? l cluster o kind owner) o best v s'.hub := by
  have hne : recordNameOf o kind ≠ "" := recordName_ne_empty kind.kind o.ns o.name
  cases h with
  | stuck hf =>
      obtain ⟨ha', hsearch⟩ := hf.alone ha
      cases hsearch with
      | fails hb hl => exact ⟨ha', .early hb hl⟩
  | skips hf =>
      obtain ⟨ha', hsearch⟩ := hf.alone ha
      cases hsearch with
      | nothing hb hl => exact ⟨ha', .done hb hl⟩
  | unlabelled hf hlab =>
      obtain ⟨ha₁, hsearch⟩ := hf.alone ha
      cases hsearch with
      | record hb hl hg =>
          obtain ⟨ha', ⟨_, hv, _⟩ | ⟨_, _, hn, hl'⟩⟩ :=
            hlab.alone ha₁ ((hf.sound hh).name_eq hg hne).2 hg
          · cases hv
          · refine ⟨ha', .late hb hn (Or.inl ((hl.trans hl').congr ?_))⟩
            exact congrArg some (hl.unversioned_eq hg)
  | @reaches found record _ s₁ s₂ _ hf hlab hs =>
      -- `new` is what there is to go by; `found` and `record` are what is stored after the first
      -- and the second part: the same but for versions, and but for the label.
      obtain ⟨ha₁, hsearch⟩ := hf.alone ha
      cases hsearch with
      | @record new _ _ hb hl hg =>
          have hfound := hl.unversioned_eq hg
          obtain ⟨ha₂, ⟨_, hv, hl₂, hg₂⟩ | ⟨_, hv, _⟩⟩ :=
            hlab.alone ha₁ ((hf.sound hh).name_eq hg hne).2 hg
          · cases hv
            have hh₂ : s₂.hub.Sound := hlab.sound (hf.sound hh)
            have hname : record.metadata.name.getD "" = recordNameOf o kind :=
              congrArg Prod.snd (hh₂.placed _ _ hg₂)
            have hrecord := hl₂.unversioned_eq hg₂
            have hlabel : record.unversioned = (touchLabel o new).unversioned :=
              hrecord.trans (unversioned_touchLabel_congr hfound)
            obtain ⟨ha', ⟨rfl, hl'⟩ | ⟨_, rfl, hn, hl'⟩⟩ := hs.alone ha₂ hname hg₂
            · exact ⟨ha', .done hb (((hl.trans hl₂).trans hl').congr
                (congrArg some (unversioned_touchStatus_congr hlabel)))⟩
            · exact ⟨ha', .late hb hn (Or.inr (((hl.trans hl₂).trans hl').congr
                (congrArg some hlabel)))⟩
          · cases hv

/-- Unless it fails and leaves everything as it was, a deletion leaves no record by the name. -/
theorem Deletes.alone {v : Except AgentError Unit} {name : String}
    (h : s.Deletes cluster name v s') (ha : s.Alone best) :
    s'.Alone best ∧ (v = .ok () ∧ s.hub.Leaves (cluster, name) none s'.hub ∨
      ∃ e, v = .error e ∧ s.hub.SameStock s'.hub) := by
  cases h with
  | misses hr _ =>
      have hs := hr.sameStock ha rfl
      exact ⟨(hr.alone ha).2, Or.inl ⟨rfl, (hr.getRecord_error ha).1 ▸ hs.leaves _⟩⟩
  | fails hr _ => exact ⟨(hr.alone ha).2, Or.inr ⟨_, rfl, hr.sameStock ha rfl⟩⟩
  | deletes hr hd =>
      obtain ⟨hreply, ha'⟩ := hd.alone (hr.alone ha).2
      cases hreply with
      | deleted _ hs =>
          exact ⟨ha', Or.inl ⟨rfl, ((hr.sameStock ha rfl).leaves _).trans hs.leaves⟩⟩
  | @gone _ e s₁ _ hr hd hn =>
      obtain ⟨hreply, ha'⟩ := hd.alone (hr.alone ha).2
      have hs := hr.sameStock ha rfl
      cases hreply with
      | absent hl _ _ hs' =>
          have hnone : s₁.hub.records.get? (cluster, name) = none := hl
          exact ⟨ha', Or.inl ⟨rfl, (hs.leaves _).trans (hnone ▸ hs'.leaves (cluster, name))⟩⟩
      | clashes hc _ _ _ => exact hc.elim
      | unwilling _ _ hn' _ _ => cases hn.symm.trans hn'
  | refused hr hd _ =>
      obtain ⟨hreply, ha'⟩ := hd.alone (hr.alone ha).2
      exact ⟨ha', Or.inr ⟨_, rfl, (hr.sameStock ha rfl).trans hreply.of_error.1⟩⟩

/-- A scene that begins among nobody else. -/
theorem alone_start (a : Agent) (history : List Deed) (weather : List Weather) :
    (start a history (weather.map Weather.gap)).Alone False :=
  ⟨⟨weather, rfl⟩, False.elim⟩

end Scene

end StatusRelay
