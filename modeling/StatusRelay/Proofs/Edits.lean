import StatusRelay.Proofs.Chain

/-!
# Edits made while an object is synced

A sync reads the record, sets the label and then the status, and anybody may edit the same record in
between. The update of the status names the version of the record that was answered last. Versions
are not given twice, so an update that comes after an edit is refused and the object is tried again.
What the sync does write leaves alone all that others may have set.
-/
namespace StatusRelay

open Projector

/-- Gentle calls leave alone what no deed writes to. -/
theorem Hub.Linked.keeps {h h' : Hub} {story : List Incident} {key : RecordKey}
    (hl : h.Linked story h') (hgentle : ∀ i ∈ story, i.Of HubCall.IsGentle)
    (hw : ∀ i ∈ story, ¬ i.Writes key) {record : WorkStatus}
    (hg : h.records.get? key = some record) :
    ∃ record', h'.records.get? key = some record' ∧ record.Keeps record' := by
  induction hl generalizing record with
  | nil => exact ⟨record, hg, .refl record⟩
  | deed d _ ih =>
      have hsame := Classical.not_not.mp (hw _ List.mem_cons_self)
      exact ih (fun i hi => hgentle i (List.mem_cons_of_mem _ hi))
        (fun i hi => hw i (List.mem_cons_of_mem _ hi)) (hsame.trans hg)
  | call hr _ ih =>
      obtain ⟨record₁, hg₁, hkeeps⟩ := hr.keeps (hgentle _ List.mem_cons_self) hg
      obtain ⟨record', hg', hkeeps'⟩ := ih (fun i hi => hgentle i (List.mem_cons_of_mem _ hi))
        (fun i hi => hw i (List.mem_cons_of_mem _ hi)) hg₁
      exact ⟨record', hg', hkeeps.trans hkeeps'⟩

/-! ## The record that was answered last -/

/-- A call that answers a record leaves that record there. -/
theorem Hub.Replies.there {h h' : Hub} {willing : Prop} {c : HubCall}
    {v : Except AgentError c.Answer} {key : RecordKey} {record : WorkStatus}
    (hr : h.Replies willing c v h') (hs : (Incident.call c h v h').shows? key = some record) :
    h'.records.get? key = some record := by
  cases hr with
  | found hg hst =>
      obtain ⟨rfl, rfl⟩ : _ = key ∧ _ = record := by simpa [Incident.shows?] using hs
      rw [hst.records, hg]
  | created _ hst | patched _ hst =>
      obtain ⟨rfl, rfl⟩ : _ = key ∧ _ = record := by simpa [Incident.shows?] using hs
      rw [hst.records, Table.get?_insert_self]
  | foundWork | deleted | updated => cases hs
  | absent | clashes | unwilling => cases c <;> cases hs

/-- The last that happened is that the record under a key was answered. -/
structure Scene.Shows (s : Scene) (key : RecordKey) (record : WorkStatus) : Prop where
  read : ∃ first i, s.story = first ++ [i] ∧ i.shows? key = some record
  there : s.hub.records.get? key = some record

namespace Scene

variable {l : Lookups} {cluster : String} {o : Object} {kind : ResourceKind}
  {owner : TrackedOwner} {s s' : Scene} {record : WorkStatus} {key : RecordKey}

theorem Calls.shows {c : HubCall} {v : Except AgentError c.Answer} (hc : s.Calls c v s')
    (hs : ∀ h h', (Incident.call c h v h').shows? key = some record) : s'.Shows key record := by
  obtain ⟨_, _, hc⟩ := hc
  exact ⟨⟨_, _, hc.story.trans (List.append_assoc ..).symm, hs _ _⟩, hc.replies.there (hs _ _)⟩

theorem Finds.shows (h : s.Finds l cluster o kind owner (.ok (some record)) s') :
    s'.Shows (cluster, recordNameOf o kind) record := by
  cases h with
  | reads hr => exact hr.shows fun _ _ => if_pos rfl
  | misses _ _ hc =>
      cases hc with
      | creates _ _ _ hc => exact hc.shows fun _ _ => if_pos rfl

theorem SetsLabel.shows {read : WorkStatus} (h : s.SetsLabel cluster o read (.ok record) s')
    (hread : s.Shows (cluster, read.name) read) : s'.Shows (cluster, read.name) record := by
  cases h with
  | rests _ => exact hread
  | patches _ _ hp => exact hp.shows fun _ _ => if_pos rfl

/-! ## The update of the status -/

/-- An update is refused if the record was written since it was answered. -/
theorem Called.refuses {status : Option Json} {willing : Prop} {deeds : List Deed}
    {v : Except AgentError WorkStatus}
    (hc : s.Called (.updateStatus cluster (record.setStatus status)) willing deeds v s')
    (hh : s.hub.Sound) (hg : s.hub.records.get? key = some record)
    (hkey : (cluster, record.metadata.name.getD "") = key)
    (hw : ∃ i ∈ s.hub.storyOf deeds, i.Writes key) :
    s'.hub.records = (s.hub.after deeds).records ∧
      ∃ e, e.isRetryable = true ∧ v = .error e := by
  subst hkey
  obtain ⟨i, hi, hw⟩ := hw
  have hsince := (s.hub.linked_storyOf deeds).since_of_writes hi hw
  have hr := hc.replies
  cases v with
  | error e => exact ⟨hr.of_error.1.records, e, hr.of_error.2, rfl⟩
  | ok stored =>
      cases hr with
      | @updated _ _ old _ hold hm _ =>
          have hfalse : Hub.mayReplace (record.setStatus status) old = false :=
            hh.mayReplace_eq_false hg (hsince old hold) rfl
          rw [hm] at hfalse
          cases hfalse

end Scene

/-- A call that is not an update of a status. -/
def HubCall.IsOther : HubCall → Prop
  | .updateStatus _ _ => False
  | _ => True

/-- What is found once in a list and stands last in it is found there. -/
theorem eq_last_of_split {α : Type} {p : α → Prop} {before behind xs : List α} {x y : α}
    (h : before ++ x :: behind = xs ++ [y]) (hx : p x) (hxs : ∀ a ∈ xs, ¬ p a) :
    before = xs ∧ x = y ∧ behind = [] := by
  rcases List.eq_nil_or_concat behind with rfl | ⟨rest, z, rfl⟩
  · obtain ⟨rfl, hlast⟩ := List.append_inj' h rfl
    exact ⟨rfl, List.singleton_inj.mp hlast, rfl⟩
  · have hends : (before ++ x :: rest) ++ [z] = xs ++ [y] := by simpa using h
    have hinit : before ++ x :: rest = xs := (List.append_inj' hends rfl).1
    exact absurd hx (hxs x (hinit ▸ by simp))

namespace Scene

variable {l : Lookups} {cluster : String} {o : Object} {kind : ResourceKind}
  {owner : TrackedOwner} {s s' start : Scene} {record : WorkStatus} {key : RecordKey}

theorem SetsStatus.updates? {result : Except AgentError Unit}
    (h : s.SetsStatus cluster o record result s') : s' = s ∨
      ∃ v, s.Calls (.updateStatus cluster (record.setStatus o.status)) v s' ∧
        ∀ e, v = .error e → result = .error e := by
  cases h with
  | rests _ => exact Or.inl rfl
  | @refused _ e _ ho _ hu =>
      rw [← ho] at hu
      exact Or.inr ⟨_, hu, fun e' he => by cases he; rfl⟩
  | updates ho _ hu =>
      rw [← ho] at hu
      exact Or.inr ⟨_, hu, fun e' he => by cases he⟩

/-- The update of the status, if there is one, is the last call of a sync, and the record that it
was made from was answered just before it. -/
theorem Syncs.updates {result : Except AgentError Unit}
    (hs : start.Syncs l cluster o kind owner result s) (hstory : start.story = [])
    (hh : start.hub.Sound) {before behind : List Incident} {ns : String} {update : WorkStatus}
    {h h' : Hub} {v : Except AgentError WorkStatus}
    (hsplit : s.story = before ++ .call (.updateStatus ns update) h v h' :: behind) :
    ∃ (s₂ : Scene) (willing : Prop) (deeds : List Deed) (record : WorkStatus),
      s₂.Shows (cluster, recordNameOf o kind) record ∧ s₂.hub.Sound ∧
      s₂.Called (.updateStatus cluster (record.setStatus o.status)) willing deeds v s ∧
      (∀ e, v = .error e → result = .error e) ∧ ns = cluster ∧
      update = record.setStatus o.status ∧ h = s₂.hub.after deeds ∧
      before = s₂.story ++ s₂.hub.storyOf deeds ∧ behind = [] := by
  have hnone : ∀ {s' : Scene}, start.Goes HubCall.IsOther s' →
      ∀ i ∈ s'.story, i.Of HubCall.IsOther := by
    intro s' hgoes
    obtain ⟨new, hp⟩ := hgoes
    rw [hp.story, hstory]
    exact hp.of
  have hmem : Incident.call (.updateStatus ns update) h v h' ∈ s.story := by
    rw [hsplit]
    simp
  have hfinds : ∀ {v s'}, start.Finds l cluster o kind owner v s' →
      start.Goes HubCall.IsOther s' :=
    fun hf => hf.goes (fun _ => trivial) (fun _ => trivial) fun _ => trivial
  -- Only a sync that reaches its last part makes an update; before it there is none in the story.
  cases hs with
  | stuck hf | skips hf => exact (hnone (hfinds hf) _ hmem).elim
  | unlabelled hf hl =>
      exact (hnone ((hfinds hf).trans (hl.goes fun _ _ => trivial)) _ hmem).elim
  | @reaches found record _ s₁ s₂ _ hf hl hs =>
      have hother : start.Goes HubCall.IsOther s₂ :=
        (hfinds hf).trans (hl.goes fun _ _ => trivial)
      have hfound := hf.shows
      have hname : found.name = recordNameOf o kind :=
        ((hf.sound hh).name_eq hfound.there (recordName_ne_empty _ _ _)).2
      rw [← hname] at hfound
      have hshows := hl.shows hfound
      rw [hname] at hshows
      rcases hs.updates? with rfl | ⟨w, ⟨willing, deeds, hc⟩, hresult⟩
      · exact (hnone hother _ hmem).elim
      · have hlast := hsplit.symm.trans (hc.story.trans (List.append_assoc ..).symm)
        obtain ⟨hbefore, hcall, hbehind⟩ := eq_last_of_split (p := fun i => ¬ i.Of HubCall.IsOther)
          hlast id fun i hi hn => by
            rcases List.mem_append.mp hi with hi | hi
            · exact hn (hnone hother i hi)
            · have hd := Hub.isDeed_of_mem_storyOf hi
              cases i with
              | deed => exact hn trivial
              | call => cases hd
        cases hcall
        exact ⟨s₂, willing, deeds, record, hshows, hother.sound hh, hc, hresult, rfl, rfl, rfl,
          hbefore, hbehind⟩

end Scene

/-- Whatever others do while an object is synced: the update of its status, if there is one, is
made from the record that a read, a creation or a patch answered, with nothing but deeds of others
since. If one of those wrote to the record then the update is not made, all records are left as the
others left them, and the sync ends with an error for which it is tried again. And from any moment
on what others do not write to stays, but for the status, the version and the one label. -/
theorem no_edit_is_overwritten (l : Lookups) (a : Agent) (history : List Deed) (gaps : List Gap)
    (cluster : String) (o : Object) (kind : ResourceKind) (owner : TrackedOwner) :
    let start := Scene.start a history gaps
    let run := start.attempt l (Projector.sync cluster o kind owner)
    let key := (cluster, (o.identity kind).record)
    (∀ before ns update h v h' behind,
      run.2.story = before ++ .call (.updateStatus ns update) h v h' :: behind →
      ∃ first read since record, before = first ++ read :: since ∧
        read.shows? key = some record ∧ (∀ i ∈ since, i.isDeed = true) ∧
        ns = cluster ∧ update = record.setStatus o.status ∧
        ((∃ stored, v = .ok stored) → ∀ i ∈ since, ¬ i.Writes key) ∧
        ((∃ i ∈ since, i.Writes key) → behind = [] ∧
          run.2.hub.records = (start.hub.afterAll before).records ∧
          ∃ e, e.isRetryable = true ∧ v = .error e ∧ run.1 = .error e)) ∧
    ∀ before behind record, run.2.story = before ++ behind →
      (start.hub.afterAll before).records.get? key = some record →
      (∀ i ∈ behind, ¬ i.Writes key) →
      ∃ record', run.2.hub.records.get? key = some record' ∧ record.Keeps record' := by
  intro start run key
  have hs : start.Syncs l cluster o kind owner run.1 run.2 :=
    Scene.syncs l cluster o kind owner start
  obtain ⟨new, hp⟩ := hs.goes_gentle
  have hstory : run.2.story = new := hp.story
  refine ⟨fun before ns update h v h' behind hsplit => ?_,
    fun before behind record hsplit hg hw => ?_⟩
  · -- Between the answer that showed the record and the update there are only deeds of the gap.
    obtain ⟨s₂, willing, deeds, record, hshows, hsound, hc, hresult, rfl, rfl, rfl, hbefore, rfl⟩ :=
      hs.updates rfl (Hub.sound_after history) hsplit
    obtain ⟨first, read, hread, hrecord⟩ := hshows.read
    have hafter : start.hub.afterAll before = s₂.hub.after deeds := by
      have hlinked := hp.linked
      rw [← hstory, hsplit] at hlinked
      exact hlinked.split.2.before_eq
    have hname : record.metadata.name.getD "" = key.2 :=
      congrArg Prod.snd (hsound.placed key record hshows.there)
    have hrefuses := hc.refuses hsound hshows.there (Prod.ext rfl hname)
    refine ⟨first, read, s₂.hub.storyOf deeds, record, ?_, hrecord,
      fun i hi => Hub.isDeed_of_mem_storyOf hi, rfl, rfl, fun hok i hi hw => ?_, fun hw => ?_⟩
    · rw [hbefore, hread]
      simp
    · obtain ⟨stored, rfl⟩ := hok
      obtain ⟨_, e, _, he⟩ := hrefuses ⟨i, hi, hw⟩
      cases he
    · obtain ⟨hrecords, e, hretry, he⟩ := hrefuses hw
      exact ⟨rfl, hafter ▸ hrecords, e, hretry, he, hresult e he⟩
  · have hlinked := hp.linked
    rw [← hstory, hsplit] at hlinked
    refine hlinked.split.2.keeps (fun i hi => hp.of i ?_) hw hg
    rw [← hstory, hsplit]
    exact List.mem_append_right _ hi

namespace Dials

/-- Somebody labels the new record before its status is set: the label stays, the status waits. -/
example :
    let name := recordName "Dial" "n" "d"
    let label : Deed := .call (.patchLabels "c1" name (.ofList [("colour", "red")]))
    let run := (Scene.start agent [.addManifestWork work] [{}, {}, {}, ⟨[label], []⟩]).attempt
      lookups (sync "c1" (dial (some (.int 1))) dials.resourceKind owner)
    run.1.isOk = false ∧ (run.2.hub.records.get? ("c1", name)).any (fun record =>
      record.status.isNone && record.metadata.labelSet.get? "colour" == some "red") = true := by
  decide +kernel

end Dials

end StatusRelay
