import StatusRelay.Proofs.Upkeep

/-!
# Trying until it works

A sync that fails may have created the record, or have set its label, and the next one starts from
there by another path. But what a sync aims at is the same after it has failed as before. So however
often it fails, the first sync that succeeds leaves what one that succeeds at once would have left,
versions apart; and from then on a sync finds nothing to write.
-/
namespace StatusRelay

open Projector WorkStatus

/-! ## Documents that are the same as themselves -/

namespace Json

mutual

/-- No number of a document is undefined; in text none can be. -/
def isDefined : Json → Bool
  | .float x => !x.isNaN
  | .arr items => areDefinedItems items
  | .obj members => areDefinedMembers members
  | .null | .bool _ | .int _ | .str _ | .faulty _ => true

def areDefinedItems : List Json → Bool
  | [] => true
  | item :: rest => isDefined item && areDefinedItems rest

def areDefinedMembers : List (String × Json) → Bool
  | [] => true
  | (_, value) :: rest => isDefined value && areDefinedMembers rest

end

theorem float_same_self {x : Float} (h : x.isNaN = false) : (x == x) = true := by
  have hself : ∀ u : Float.Model.UnpackedFloat, u.isNaN = false → u.beq u = true := by
    intro u hu
    cases u with
    | notANumber => cases hu
    | infinity sign => cases sign <;> rfl
    | zero sign => rfl
    | finite sign mantissa exponent hm =>
        have hsame : (compare exponent exponent).then (compare mantissa mantissa) = .eq := by simp
        cases sign with
        | positive => exact beq_iff_eq.mpr (congrArg some hsame)
        | negative => exact beq_iff_eq.mpr (congrArg (some ∘ Ordering.swap) hsame)
  exact hself _ h

mutual

theorem same_self : ∀ j : Json, j.isDefined = true → same j j = true
  | .float x, h => float_same_self (by simpa [isDefined] using h)
  | .arr items, h => sameItems_self items h
  | .obj members, h => sameMembers_self members h
  | .null, _ => rfl
  | .bool b, _ => by simp [same]
  | .int n, _ => by simp [same]
  | .str s, _ => by simp [same]
  | .faulty f, _ => by simp [same]

theorem sameItems_self : ∀ items : List Json, areDefinedItems items = true →
    sameItems items items = true
  | [], _ => rfl
  | item :: rest, h => by
      rw [areDefinedItems, Bool.and_eq_true] at h
      rw [sameItems, same_self item h.1, sameItems_self rest h.2]
      rfl

theorem sameMembers_self : ∀ members : List (String × Json), areDefinedMembers members = true →
    sameMembers members members = true
  | [], _ => rfl
  | (key, value) :: rest, h => by
      rw [areDefinedMembers, Bool.and_eq_true] at h
      rw [sameMembers, same_self value h.1, sameMembers_self rest h.2]
      simp

end

end Json

/-! ## What a sync aims at -/

namespace WorkStatus

variable {o : Object} {r r' : WorkStatus}

theorem unversioned_touched_congr (h : r.unversioned = r'.unversioned) :
    (touched o r).unversioned = (touched o r').unversioned :=
  unversioned_touchStatus_congr (unversioned_touchLabel_congr h)

theorem touched_touchLabel (o : Object) (r : WorkStatus) :
    touched o (touchLabel o r) = touched o r := by
  rw [touched, touchLabel_of_labelled (labelled_touchLabel o r), touched]

theorem holds_touched (ho : ∀ status, o.status = some status → status.isDefined = true)
    (r : WorkStatus) : Holds o (touched o r) := by
  intro status hs
  unfold touched touchStatus
  rw [hs]
  dsimp only
  split
  · assumption
  · exact Json.same_self status (ho status hs)

/-- Whether a record has what the object asks for does not depend on its version. -/
theorem labelled_of_unversioned (h : r'.unversioned = r.unversioned) (hl : Labelled o r) :
    Labelled o r' := by
  have hlabels : r'.metadata.labels = r.metadata.labels := congrArg (·.metadata.labels) h
  intro value hv
  rw [Metadata.labelSet, hlabels]
  exact hl value hv

theorem holds_of_unversioned (h : r'.unversioned = r.unversioned) (hs : Holds o r) :
    Holds o r' := by
  have hstatus : r'.status = r.status := congrArg (·.status) h
  intro status ho
  rw [holds, hstatus]
  exact hs status ho

end WorkStatus

section

variable (l : Lookups) (cluster : String) (o : Object) (kind : ResourceKind)
  (owner : TrackedOwner)

/-- The record that a sync is to leave, versions apart, or none; if there is anything to be done. -/
def Hub.aim? (h : Hub) : Option (Option WorkStatus) :=
  (h.basis? l cluster o kind owner).map fun record? =>
    record?.map fun record => (touched o record).unversioned

variable {l cluster o kind owner} in
theorem Hub.aim?_of_some {h : Hub} {record : WorkStatus}
    (hg : h.records.get? (cluster, recordNameOf o kind) = some record) :
    h.aim? l cluster o kind owner = some (some (touched o record).unversioned) := by
  rw [aim?, basis?, hg]
  rfl

/-- A sync finds nothing to write. -/
def Hub.Settled (h : Hub) : Prop :=
  (∃ record, h.records.get? (cluster, recordNameOf o kind) = some record ∧
      Labelled o record ∧ Holds o record) ∨
    h.records.get? (cluster, recordNameOf o kind) = none ∧
      h.drafts? l cluster o kind owner = some none

end

variable {l : Lookups} {cluster : String} {o : Object} {kind : ResourceKind} {owner : TrackedOwner}
  {h h' : Hub} {best : Prop} {v : Except AgentError Unit}

namespace Hub.Upshot

theorem aim?_of_ok (hs : h.Upshot (cluster, recordNameOf o kind) (h.basis? l cluster o kind owner)
    o best (.ok ()) h') : h.aim? l cluster o kind owner =
      some ((h'.records.get? (cluster, recordNameOf o kind)).map unversioned) := by
  cases hs with
  | done hb hl =>
      rw [Hub.aim?, hb, hl.record, Option.map_map]
      rfl

/-- A sync that fails leaves another one with the same aim. -/
theorem aim?_of_error {e : AgentError}
    (hs : h.Upshot (cluster, recordNameOf o kind) (h.basis? l cluster o kind owner) o best
      (.error e) h') : h'.aim? l cluster o kind owner = h.aim? l cluster o kind owner := by
  cases hs with
  | early _ hl =>
      cases hg : h.records.get? (cluster, recordNameOf o kind) with
      | none =>
          rw [hg] at hl
          rw [Hub.aim?, Hub.basis?, hl.get?_none, Hub.drafts?, hl.manifestWorks, ← Hub.drafts?,
            Hub.aim?, Hub.basis?, hg]
      | some record =>
          rw [hg] at hl
          obtain ⟨stored, hstored, he⟩ := hl.exists_stored
          rw [Hub.aim?_of_some hstored, Hub.aim?_of_some hg, unversioned_touched_congr he]
  | @late record _ _ hb _ hl =>
      have haim : h.aim? l cluster o kind owner = some (some (touched o record).unversioned) := by
        rw [Hub.aim?, hb]
        rfl
      -- Where the label is set already, setting it once more changes nothing.
      rcases hl with hl | hl
      · obtain ⟨stored, hstored, he⟩ := hl.exists_stored
        rw [haim, Hub.aim?_of_some hstored, unversioned_touched_congr he]
      · obtain ⟨stored, hstored, he⟩ := hl.exists_stored
        rw [haim, Hub.aim?_of_some hstored, unversioned_touched_congr he, touched_touchLabel]

/-- After a sync that succeeds there is nothing more to write. -/
theorem settled_of_ok (hs : h.Upshot (cluster, recordNameOf o kind)
      (h.basis? l cluster o kind owner) o best (.ok ()) h')
    (ho : ∀ status, o.status = some status → status.isDefined = true) :
    h'.Settled l cluster o kind owner := by
  cases hs with
  | @done record? _ hb hl =>
      cases record? with
      | some record =>
          obtain ⟨stored, hstored, he⟩ := hl.exists_stored
          exact Or.inl ⟨stored, hstored,
            labelled_of_unversioned he (labelled_touchStatus (labelled_touchLabel o record)),
            holds_of_unversioned he (holds_touched ho record)⟩
      | none =>
          refine Or.inr ⟨hl.get?_none, ?_⟩
          rw [Hub.drafts?, hl.manifestWorks, ← Hub.drafts?]
          unfold Hub.basis? at hb
          split at hb
          · cases hb
          · exact hb

end Hub.Upshot

/-! ## Nothing more to write -/

def HubCall.IsRead (c : HubCall) : Prop := c.isWrite = false

namespace Scene

variable {s s' : Scene}

theorem Creates.of_settled {v : Except AgentError (Option WorkStatus)}
    (h : s.Creates l cluster o kind owner v s') (ha : s.Alone best)
    (hd : s.hub.drafts? l cluster o kind owner = some none) :
    v = .ok none ∧ s.Goes HubCall.IsRead s' ∧ s.hub.SameStock s'.hub := by
  have hmanaged : ∀ {work : ManifestWork} {s₁ : Scene},
      s.Calls (.getManifestWork cluster owner.manifestWork) (.ok work) s₁ →
      work.labels.isManaged = false := by
    intro work s₁ hw
    cases hm : work.labels.isManaged with
    | false => rfl
    | true =>
        simp only [Hub.drafts?, hw.getManifestWork_ok ha, hm, if_true] at hd
        split at hd <;> cases hd
  cases h with
  | unmanaged hw _ => exact ⟨rfl, hw.goes rfl, hw.sameStock ha rfl⟩
  | unfetched hw =>
      rw [Hub.drafts?, hw.getManifestWork_error ha] at hd
      cases hd
  | unresolved hw hm _ => cases (hmanaged hw).symm.trans hm
  | refused hw hm _ _ => cases (hmanaged hw).symm.trans hm
  | creates hw hm _ _ => cases (hmanaged hw).symm.trans hm

theorem Finds.of_settled {v : Except AgentError (Option WorkStatus)}
    (h : s.Finds l cluster o kind owner v s') (ha : s.Alone best)
    (hset : s.hub.Settled l cluster o kind owner) :
    (v = .ok none ∨ ∃ record, v = .ok (some record) ∧ Labelled o record ∧ Holds o record) ∧
      s.Goes HubCall.IsRead s' ∧ s.hub.SameStock s'.hub := by
  cases h with
  | reads hr =>
      refine ⟨Or.inr ?_, hr.goes rfl, hr.sameStock ha rfl⟩
      rcases hset with ⟨record, hg, hl, hs⟩ | ⟨hg, _⟩
      · cases (hr.getRecord_ok ha).symm.trans hg
        exact ⟨_, rfl, hl, hs⟩
      · cases (hr.getRecord_ok ha).symm.trans hg
  | fails hr hn => cases hn.symm.trans (hr.getRecord_error ha).2
  | misses hr _ hc =>
      have hst := hr.sameStock ha rfl
      rcases hset with ⟨record, hg, _⟩ | ⟨_, hd⟩
      · cases (hr.getRecord_error ha).1.symm.trans hg
      · obtain ⟨rfl, hgoes, hst'⟩ := hc.of_settled (hr.alone ha).2 (hst.drafts?.trans hd)
        exact ⟨Or.inl rfl, (hr.goes (P := HubCall.IsRead) rfl).trans hgoes, hst.trans hst'⟩

/-- A sync that finds nothing to write only reads. -/
theorem Syncs.of_settled (h : s.Syncs l cluster o kind owner v s') (ha : s.Alone best)
    (hset : s.hub.Settled l cluster o kind owner) :
    v = .ok () ∧ s.Goes HubCall.IsRead s' ∧ s.hub.SameStock s'.hub := by
  cases h with
  | stuck hf =>
      obtain ⟨hv | ⟨_, hv, _⟩, _⟩ := hf.of_settled ha hset
      · cases hv
      · cases hv
  | skips hf => exact ⟨rfl, (hf.of_settled ha hset).2⟩
  | unlabelled hf hlab =>
      obtain ⟨hv | ⟨record, hv, hl, _⟩, _⟩ := hf.of_settled ha hset
      · cases hv
      · cases hv
        cases hlab with
        | patches hvalue hn _ => exact absurd (hl _ hvalue) hn
  | reaches hf hlab hs =>
      obtain ⟨hv | ⟨record, hv, hl, hholds⟩, hgoes, hst⟩ := hf.of_settled ha hset
      · cases hv
      · cases hv
        cases hlab with
        | patches hvalue hn _ => exact absurd (hl _ hvalue) hn
        | rests _ =>
            cases hs with
            | rests _ => exact ⟨rfl, hgoes, hst⟩
            | refused hvalue hn _ => cases (hholds _ hvalue).symm.trans hn
            | updates hvalue hn _ => cases (hholds _ hvalue).symm.trans hn

end Scene

/-! ## Attempts -/

namespace Agent

/-- One attempt, with nobody else about. -/
def tries (l : Lookups) (p : Attempt Unit) (a : Agent) (weather : List Weather) :
    Except AgentError Unit × Scene :=
  ({ agent := a, gaps := weather.map Weather.gap } : Scene).attempt l p

/-- The agent after the first attempt that succeeds, if one does. -/
def untilOk (l : Lookups) (p : Attempt Unit) : List (List Weather) → Agent → Option Agent
  | [], _ => none
  | weather :: rest, a =>
      match a.tries l p weather with
      | (.ok _, s) => some s.agent
      | (.error _, s) => untilOk l p rest s.agent

/-- The agent after a number of attempts. -/
def afterTries (l : Lookups) (p : Attempt Unit) (attempts : List (List Weather)) (a : Agent) :
    Agent :=
  attempts.foldl (fun a weather => (a.tries l p weather).2.agent) a

variable {a a' : Agent} {weather : List Weather}

theorem upshot_tries (l : Lookups) (cluster : String) (o : Object) (kind : ResourceKind)
    (owner : TrackedOwner) (weather : List Weather) (hh : a.hub.Sound) :
    a.hub.Upshot (cluster, recordNameOf o kind) (a.hub.basis? l cluster o kind owner) o False
        (a.tries l (Projector.sync cluster o kind owner) weather).1
        (a.tries l (Projector.sync cluster o kind owner) weather).2.hub ∧
      (a.tries l (Projector.sync cluster o kind owner) weather).2.hub.Sound := by
  let s : Scene := { agent := a, gaps := weather.map Weather.gap }
  have halone : s.Alone False := ⟨⟨weather, rfl⟩, False.elim⟩
  have hs := Scene.syncs l cluster o kind owner s
  exact ⟨(hs.alone halone hh).2, hs.goes_gentle.sound hh⟩

theorem tries_of_settled (hset : a.hub.Settled l cluster o kind owner) :
    (a.tries l (Projector.sync cluster o kind owner) weather).1 = .ok () ∧
      (∀ i ∈ (a.tries l (Projector.sync cluster o kind owner) weather).2.story,
        i.isCallThat HubCall.isWrite = false) ∧
      a.hub.SameStock (a.tries l (Projector.sync cluster o kind owner) weather).2.hub := by
  let s : Scene := { agent := a, gaps := weather.map Weather.gap }
  have halone : s.Alone False := ⟨⟨weather, rfl⟩, False.elim⟩
  obtain ⟨hok, ⟨new, hnew⟩, hst⟩ :=
    (Scene.syncs l cluster o kind owner s).of_settled halone hset
  refine ⟨hok, fun i hi => ?_, hst⟩
  have hstory : (a.tries l (Projector.sync cluster o kind owner) weather).2.story = new :=
    hnew.story
  rw [hstory] at hi
  have hread := hnew.of i hi
  cases i with
  | deed => rfl
  | call => exact hread

theorem untilOk_spec {attempts : List (List Weather)} (hh : a.hub.Sound)
    (hu : untilOk l (Projector.sync cluster o kind owner) attempts a = some a') :
    a.hub.aim? l cluster o kind owner =
        some ((a'.hub.records.get? (cluster, recordNameOf o kind)).map unversioned) ∧
      (∀ other, other ≠ (cluster, recordNameOf o kind) →
        a'.hub.records.get? other = a.hub.records.get? other) ∧
      ((∀ status, o.status = some status → status.isDefined = true) →
        a'.hub.Settled l cluster o kind owner) := by
  -- By induction on the attempts: those that fail keep the aim, the one that succeeds reaches it.
  induction attempts generalizing a with
  | nil => cases hu
  | cons weather rest ih =>
      obtain ⟨hs, hh'⟩ := upshot_tries l cluster o kind owner weather hh
      unfold untilOk at hu
      generalize a.tries l (Projector.sync cluster o kind owner) weather = run at hs hh' hu
      obtain ⟨v, s⟩ := run
      obtain ⟨left?, hleft⟩ := hs.leaves
      cases v with
      | ok _ =>
          cases hu
          exact ⟨hs.aim?_of_ok, hleft.elsewhere, hs.settled_of_ok⟩
      | error e =>
          obtain ⟨haim, helse, hset⟩ := ih hh' hu
          exact ⟨hs.aim?_of_error ▸ haim,
            fun other hk => (helse other hk).trans (hleft.elsewhere other hk), hset⟩

/-- With nobody else about, and the hub taking writes at once, what can be done is done. -/
theorem tries_calm_ok (hh : a.hub.Sound)
    (haim : (a.hub.aim? l cluster o kind owner).isSome = true) :
    (a.tries l (Projector.sync cluster o kind owner) [{}]).1 = .ok () := by
  let s : Scene := { agent := a, gaps := [({} : Weather)].map Weather.gap }
  have hcalm : s.Calm := ⟨fun gap hgap => List.mem_singleton.mp hgap, nofun⟩
  have halone : s.Alone True := ⟨⟨[{}], rfl⟩, fun _ => hcalm⟩
  have hs := ((Scene.syncs l cluster o kind owner s).alone halone hh).2
  change (s.attempt l (Projector.sync cluster o kind owner)).1 = .ok ()
  generalize s.attempt l (Projector.sync cluster o kind owner) = run at hs ⊢
  obtain ⟨v, s'⟩ := run
  cases hs with
  | done _ _ => rfl
  | early hb _ =>
      have hbasis : a.hub.basis? l cluster o kind owner = none := hb trivial
      rw [Hub.aim?, hbasis] at haim
      cases haim
  | late _ hn _ => exact absurd trivial hn

/-- Once there is nothing to write, further attempts leave the records as they are. -/
theorem afterTries_of_settled (attempts : List (List Weather))
    (hset : a.hub.Settled l cluster o kind owner) :
    (a.afterTries l (Projector.sync cluster o kind owner) attempts).hub.Settled l cluster o kind
        owner ∧
      (a.afterTries l (Projector.sync cluster o kind owner) attempts).hub.records =
        a.hub.records := by
  induction attempts generalizing a with
  | nil => exact ⟨hset, rfl⟩
  | cons weather rest ih =>
      have hst : a.hub.SameStock
          (a.tries l (Projector.sync cluster o kind owner) weather).2.hub :=
        (tries_of_settled hset).2.2
      have hset' : (a.tries l (Projector.sync cluster o kind owner) weather).2.agent.hub.Settled l
          cluster o kind owner := by
        unfold Hub.Settled
        rw [hst.records, hst.drafts?]
        exact hset
      obtain ⟨hlast, hrecords⟩ := ih hset'
      exact ⟨hlast, hrecords.trans hst.records⟩

end Agent

/-- The same records, versions apart. -/
def Hub.SameRecords (h h' : Hub) : Prop :=
  ∀ key, (h'.records.get? key).map unversioned = (h.records.get? key).map unversioned

/-- However many attempts at a sync fail, with writes refused or overdue in between its calls, the
first that succeeds leaves the records that one would leave that succeeded at once, versions apart;
and one would with a hub that takes writes. Every further sync succeeds and makes no write, no
number in the status being undefined. -/
theorem retries_converge (l : Lookups) (a : Agent) (history : List Deed) (cluster : String)
    (o : Object) (kind : ResourceKind) (owner : TrackedOwner)
    (attempts : List (List Weather)) (a' : Agent)
    (hu : Agent.untilOk l (Projector.sync cluster o kind owner) attempts
      { a with hub := ({} : Hub).after history } = some a') :
    let sync := Projector.sync cluster o kind owner
    let begun := { a with hub := ({} : Hub).after history }
    (∃ weather, (begun.tries l sync weather).1 = .ok ()) ∧
    (∀ weather, (begun.tries l sync weather).1 = .ok () →
      (begun.tries l sync weather).2.hub.SameRecords a'.hub) ∧
    ((∀ status, o.status = some status → status.isDefined = true) → ∀ attempts weather,
      let further := (a'.afterTries l sync attempts).tries l sync weather
      further.1 = .ok () ∧ (∀ i ∈ further.2.story, i.isCallThat HubCall.isWrite = false) ∧
        further.2.hub.records = a'.hub.records) := by
  intro sync begun
  have hh : begun.hub.Sound := Hub.sound_after history
  obtain ⟨haim, helse, hset⟩ := Agent.untilOk_spec hh hu
  refine ⟨⟨[{}], Agent.tries_calm_ok hh (by rw [haim]; rfl)⟩, fun weather hok key => ?_,
    fun ho attempts weather => ?_⟩
  · have hs := (Agent.upshot_tries l cluster o kind owner weather hh).1
    generalize hrun : begun.tries l (Projector.sync cluster o kind owner) weather = run at hs hok ⊢
    obtain ⟨v, s⟩ := run
    cases hok
    by_cases hk : key = (cluster, recordNameOf o kind)
    · rw [hk]
      exact Option.some.inj (haim.symm.trans hs.aim?_of_ok)
    · obtain ⟨left?, hleft⟩ := hs.leaves
      rw [helse key hk, hleft.elsewhere key hk]
  · obtain ⟨hlast, hrecords⟩ := Agent.afterTries_of_settled attempts (hset ho)
    obtain ⟨hok, hreads, hst⟩ := Agent.tries_of_settled hlast
    exact ⟨hok, hreads, hst.records.trans hrecords⟩

namespace Dials

/-- The update of the status is refused once the record is there; then all goes well. -/
def attempts : List (List Weather) := [[{}, {}, {}, { begins := { failWrites := true } }], [{}]]

def retried (attempts : List (List Weather)) : Option Agent :=
  Agent.untilOk lookups
    (Projector.sync "c1" (dial (some (.int 1))) dials.resourceKind Dials.owner) attempts
    { agent with hub := ({} : Hub).after [.addManifestWork work] }

theorem isSome_retried : (retried attempts).isSome = true := by decide +kernel

theorem retried_dial_rests : retried (attempts.take 1) = none ∧
    ∃ a', retried attempts = some a' ∧ ∀ weather,
      let again := a'.tries lookups
        (Projector.sync "c1" (dial (some (.int 1))) dials.resourceKind Dials.owner) weather
      again.1 = .ok () ∧ (∀ i ∈ again.2.story, i.isCallThat HubCall.isWrite = false) ∧
        again.2.hub.records = a'.hub.records := by
  have hfails : (retried (attempts.take 1)).isNone = true := by decide +kernel
  have hu := (Option.some_get isSome_retried).symm
  have hdefined : ∀ status, (dial (some (.int 1))).status = some status →
      status.isDefined = true := by
    intro status hs
    cases hs
    rfl
  have hrests := (retries_converge lookups agent [.addManifestWork work] "c1"
    (dial (some (.int 1))) dials.resourceKind Dials.owner attempts _ hu).2.2 hdefined []
  exact ⟨Option.isNone_iff_eq_none.mp hfails, _, hu, hrests⟩

end Dials

end StatusRelay
