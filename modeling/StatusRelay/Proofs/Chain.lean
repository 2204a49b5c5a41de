import StatusRelay.Proofs.Company
import StatusRelay.Proofs.Mirroring
import StatusRelay.Proofs.RecordNames

/-!
# The calls of a sync

A sync is a chain of calls, and it may end after each of them. For each part of the chain the cases
are listed: which calls are made, what they are answered, and what the part comes to. Whatever
others do in between, and whether or not writes succeed, every sync is one of these cases.
-/
namespace StatusRelay

open Projector

section

variable {l : Lookups} {cluster : String} {o : Object} {kind : ResourceKind} {owner : TrackedOwner}

theorem recordName_ne_empty (kind ns name : String) : recordName kind ns name ≠ "" := by
  intro h
  obtain ⟨before, hchars⟩ := RecordName.exists_chars_eq kind ns name
  have hnil : RecordName.chars kind ns name = [] :=
    String.ofList_injective (h.trans String.ofList_nil.symm)
  have hlength : (before ++ RecordName.hashText kind ns name).length = 0 := by
    rw [← hchars, hnil]
    rfl
  simp [RecordName.hashText, RecordName.hashLength] at hlength

/-- A record goes by the name under which it stands. -/
theorem Hub.Sound.name_eq {h : Hub} (hh : h.Sound) {key : RecordKey} {record : WorkStatus}
    (hg : h.records.get? key = some record) (hne : key.2 ≠ "") :
    record.metadata.name = some key.2 ∧ record.name = key.2 := by
  have hname : record.metadata.name.getD "" = key.2 := congrArg Prod.snd (hh.placed key record hg)
  cases hn : record.metadata.name with
  | none =>
      rw [hn] at hname
      exact absurd hname.symm hne
  | some name =>
      rw [hn] at hname
      exact ⟨congrArg some hname, by simpa [WorkStatus.name, Metadata.anyName, hn] using hname⟩

/-- The record holds the object's status, or the object has none. -/
def Holds (o : Object) (record : WorkStatus) : Prop :=
  ∀ status, o.status = some status → holds record status = true

namespace Scene

/-- How it goes to create a record. -/
inductive Creates (l : Lookups) (cluster : String) (o : Object) (kind : ResourceKind)
    (owner : TrackedOwner) (s : Scene) : Except AgentError (Option WorkStatus) → Scene → Prop
  | unfetched {e : AgentError} {s' : Scene}
      (hw : s.Calls (.getManifestWork cluster owner.manifestWork) (.error e) s') :
      Creates l cluster o kind owner s (.error e) s'
  | unmanaged {work : ManifestWork} {s' : Scene}
      (hw : s.Calls (.getManifestWork cluster owner.manifestWork) (.ok work) s')
      (hm : work.labels.isManaged = false) :
      Creates l cluster o kind owner s (.ok none) s'
  | unresolved {work : ManifestWork} {e : AgentError} {s' : Scene}
      (hw : s.Calls (.getManifestWork cluster owner.manifestWork) (.ok work) s')
      (hm : work.labels.isManaged = true) (hk : l.ofKind kind = .error e) :
      Creates l cluster o kind owner s (.error e) s'
  | refused {work : ManifestWork} {resource : ApiResource} {e : AgentError} {s₁ s' : Scene}
      (hw : s.Calls (.getManifestWork cluster owner.manifestWork) (.ok work) s₁)
      (hm : work.labels.isManaged = true) (hk : l.ofKind kind = .ok resource)
      (hc : s₁.Calls (.create cluster (newRecord cluster o kind work resource.plural))
        (.error e) s') :
      Creates l cluster o kind owner s (.error e) s'
  | creates {work : ManifestWork} {resource : ApiResource} {record : WorkStatus} {s₁ s' : Scene}
      (hw : s.Calls (.getManifestWork cluster owner.manifestWork) (.ok work) s₁)
      (hm : work.labels.isManaged = true) (hk : l.ofKind kind = .ok resource)
      (hc : s₁.Calls (.create cluster (newRecord cluster o kind work resource.plural))
        (.ok record) s') :
      Creates l cluster o kind owner s (.ok (some record)) s'

/-- How it goes to find a record or to create it. -/
inductive Finds (l : Lookups) (cluster : String) (o : Object) (kind : ResourceKind)
    (owner : TrackedOwner) (s : Scene) : Except AgentError (Option WorkStatus) → Scene → Prop
  | reads {record : WorkStatus} {s' : Scene}
      (hr : s.Calls (.getRecord cluster (recordNameOf o kind)) (.ok record) s') :
      Finds l cluster o kind owner s (.ok (some record)) s'
  | fails {e : AgentError} {s' : Scene}
      (hr : s.Calls (.getRecord cluster (recordNameOf o kind)) (.error e) s')
      (hn : e.isNotFound = false) :
      Finds l cluster o kind owner s (.error e) s'
  | misses {e : AgentError} {v : Except AgentError (Option WorkStatus)} {s₁ s' : Scene}
      (hr : s.Calls (.getRecord cluster (recordNameOf o kind)) (.error e) s₁)
      (hn : e.isNotFound = true) (hc : s₁.Creates l cluster o kind owner v s') :
      Finds l cluster o kind owner s v s'

/-- How it goes to set the label. -/
inductive SetsLabel (cluster : String) (o : Object) (record : WorkStatus) (s : Scene) :
    Except AgentError WorkStatus → Scene → Prop
  | rests (hl : Labelled o record) : SetsLabel cluster o record s (.ok record) s
  | patches {value : String} {v : Except AgentError WorkStatus} {s' : Scene}
      (ho : o.metadata.label? Labels.singletonKey = some value)
      (hn : record.metadata.labelSet.get? Labels.singletonKey ≠ some value)
      (hp : s.Calls (.patchLabels cluster record.name (.ofList [(Labels.singletonKey, value)]))
        v s') :
      SetsLabel cluster o record s v s'

/-- How it goes to set the status. -/
inductive SetsStatus (cluster : String) (o : Object) (record : WorkStatus) (s : Scene) :
    Except AgentError Unit → Scene → Prop
  | rests (hs : Holds o record) : SetsStatus cluster o record s (.ok ()) s
  | refused {status : Json} {e : AgentError} {s' : Scene}
      (ho : o.status = some status) (hn : holds record status = false)
      (hu : s.Calls (.updateStatus cluster (record.setStatus (some status))) (.error e) s') :
      SetsStatus cluster o record s (.error e) s'
  | updates {status : Json} {stored : WorkStatus} {s' : Scene}
      (ho : o.status = some status) (hn : holds record status = false)
      (hu : s.Calls (.updateStatus cluster (record.setStatus (some status))) (.ok stored) s') :
      SetsStatus cluster o record s (.ok ()) s'

/-- How it goes to delete a record. -/
inductive Deletes (cluster name : String) (s : Scene) : Except AgentError Unit → Scene → Prop
  | misses {e : AgentError} {s' : Scene} (hr : s.Calls (.getRecord cluster name) (.error e) s')
      (hn : e.isNotFound = true) : Deletes cluster name s (.ok ()) s'
  | fails {e : AgentError} {s' : Scene} (hr : s.Calls (.getRecord cluster name) (.error e) s')
      (hn : e.isNotFound = false) : Deletes cluster name s (.error e) s'
  | deletes {record : WorkStatus} {s₁ s' : Scene}
      (hr : s.Calls (.getRecord cluster name) (.ok record) s₁)
      (hd : s₁.Calls (.delete cluster name) (.ok ()) s') : Deletes cluster name s (.ok ()) s'
  | gone {record : WorkStatus} {e : AgentError} {s₁ s' : Scene}
      (hr : s.Calls (.getRecord cluster name) (.ok record) s₁)
      (hd : s₁.Calls (.delete cluster name) (.error e) s') (hn : e.isNotFound = true) :
      Deletes cluster name s (.ok ()) s'
  | refused {record : WorkStatus} {e : AgentError} {s₁ s' : Scene}
      (hr : s.Calls (.getRecord cluster name) (.ok record) s₁)
      (hd : s₁.Calls (.delete cluster name) (.error e) s') (hn : e.isNotFound = false) :
      Deletes cluster name s (.error e) s'

theorem creates (l : Lookups) (cluster : String) (o : Object) (kind : ResourceKind)
    (owner : TrackedOwner) (s : Scene) :
    s.Creates l cluster o kind owner (s.attempt l (Projector.create cluster o kind owner)).1
      (s.attempt l (Projector.create cluster o kind owner)).2 := by
  unfold Projector.create
  obtain ⟨v, s₁, hw, he⟩ :=
    attempt_hub_bind l s (.getManifestWork cluster owner.manifestWork) _
  rw [he]
  cases v with
  | error e => exact .unfetched hw
  | ok work =>
      cases hm : work.labels.isManaged with
      | false =>
          simp only [hm, Bool.false_eq_true, if_false, attempt_pure]
          exact .unmanaged hw hm
      | true =>
          simp only [hm, if_true, attempt_resourceOfKind_bind]
          cases hk : l.ofKind kind with
          | error e => exact .unresolved hw hm hk
          | ok resource =>
              obtain ⟨v, s', hc, he⟩ := attempt_hub_bind l s₁
                (.create cluster (newRecord cluster o kind work resource.plural))
                fun record => pure (some record)
              simp only [he]
              cases v with
              | error e => exact .refused hw hm hk hc
              | ok record => exact .creates hw hm hk hc

theorem finds (l : Lookups) (cluster : String) (o : Object) (kind : ResourceKind)
    (owner : TrackedOwner) (s : Scene) :
    s.Finds l cluster o kind owner (s.attempt l (recordFor cluster o kind owner)).1
      (s.attempt l (recordFor cluster o kind owner)).2 := by
  unfold recordFor
  obtain ⟨v, s₁, hr, he⟩ := attempt_hub?_bind l s (.getRecord cluster (recordNameOf o kind)) _
  rw [he]
  cases v with
  | ok record => exact .reads hr
  | error e =>
      cases hn : e.isNotFound with
      | false =>
          simp only [hn, Bool.false_eq_true, if_false]
          exact .fails hr hn
      | true =>
          simp only [hn, if_true]
          exact .misses hr hn (creates l cluster o kind owner s₁)

theorem setsLabel (l : Lookups) (cluster : String) (o : Object) (record : WorkStatus) (s : Scene) :
    s.SetsLabel cluster o record (s.attempt l (syncLabel cluster o record)).1
      (s.attempt l (syncLabel cluster o record)).2 := by
  unfold syncLabel
  cases ho : o.metadata.label? Labels.singletonKey with
  | none => exact .rests fun value hv => by rw [ho] at hv; cases hv
  | some value =>
      by_cases hn : record.metadata.labelSet.get? Labels.singletonKey = some value
      · simp only [hn, if_true]
        exact .rests fun value' hv => by
          rw [ho] at hv
          exact hn.trans hv
      · simp only [hn, if_false]
        exact .patches ho hn (s.called _)

theorem setsStatus (l : Lookups) (cluster : String) (o : Object) (record : WorkStatus)
    (s : Scene) :
    s.SetsStatus cluster o record (s.attempt l (syncStatus cluster o record)).1
      (s.attempt l (syncStatus cluster o record)).2 := by
  unfold syncStatus
  cases ho : o.status with
  | none => exact .rests fun status hs => by rw [ho] at hs; cases hs
  | some status =>
      cases hn : holds record status with
      | true =>
          simp only [hn, if_true]
          exact .rests fun status' hs => by
            rw [ho] at hs
            cases hs
            exact hn
      | false =>
          obtain ⟨v, s', hu, he⟩ := attempt_hub_bind l s
            (.updateStatus cluster (record.setStatus (some status)))
            fun _ => (pure () : Attempt Unit)
          simp only [hn, Bool.false_eq_true, if_false, he]
          cases v with
          | error e => exact .refused ho hn hu
          | ok stored => exact .updates ho hn hu

theorem deletes (l : Lookups) (cluster kind ns name : String) (s : Scene) :
    s.Deletes cluster (recordName kind ns name)
      (s.attempt l (Projector.delete cluster kind ns name)).1
      (s.attempt l (Projector.delete cluster kind ns name)).2 := by
  unfold Projector.delete
  dsimp only
  obtain ⟨v, s₁, hr, he⟩ :=
    attempt_hub?_bind l s (.getRecord cluster (recordName kind ns name)) _
  rw [he]
  cases v with
  | error e =>
      cases hn : e.isNotFound with
      | false =>
          simp only [hn, Bool.false_eq_true, if_false]
          exact .fails hr hn
      | true =>
          simp only [hn, if_true]
          exact .misses hr hn
  | ok record =>
      obtain ⟨v, s', hd, he⟩ :=
        attempt_hub?_bind l s₁ (.delete cluster (recordName kind ns name)) fun _ =>
          (pure () : Attempt Unit)
      simp only [he]
      cases v with
      | ok u => exact .deletes hr hd
      | error e =>
          cases hn : e.isNotFound with
          | false =>
              simp only [hn, Bool.false_eq_true, if_false]
              exact .refused hr hd hn
          | true =>
              simp only [hn, if_true]
              exact .gone hr hd hn

/-- A sync that got this far, and how it ended. -/
inductive Syncs (l : Lookups) (cluster : String) (o : Object) (kind : ResourceKind)
    (owner : TrackedOwner) (s : Scene) : Except AgentError Unit → Scene → Prop
  | stuck {e : AgentError} {s' : Scene} (hf : s.Finds l cluster o kind owner (.error e) s') :
      Syncs l cluster o kind owner s (.error e) s'
  | skips {s' : Scene} (hf : s.Finds l cluster o kind owner (.ok none) s') :
      Syncs l cluster o kind owner s (.ok ()) s'
  | unlabelled {record : WorkStatus} {e : AgentError} {s₁ s' : Scene}
      (hf : s.Finds l cluster o kind owner (.ok (some record)) s₁)
      (hl : s₁.SetsLabel cluster o record (.error e) s') :
      Syncs l cluster o kind owner s (.error e) s'
  | reaches {found record : WorkStatus} {v : Except AgentError Unit} {s₁ s₂ s' : Scene}
      (hf : s.Finds l cluster o kind owner (.ok (some found)) s₁)
      (hl : s₁.SetsLabel cluster o found (.ok record) s₂)
      (hs : s₂.SetsStatus cluster o record v s') :
      Syncs l cluster o kind owner s v s'

theorem syncs (l : Lookups) (cluster : String) (o : Object) (kind : ResourceKind)
    (owner : TrackedOwner) (s : Scene) :
    s.Syncs l cluster o kind owner (s.attempt l (Projector.sync cluster o kind owner)).1
      (s.attempt l (Projector.sync cluster o kind owner)).2 := by
  unfold Projector.sync
  have hf := finds l cluster o kind owner s
  rw [attempt_bind]
  generalize s.attempt l (recordFor cluster o kind owner) = found at hf ⊢
  obtain ⟨v, s₁⟩ := found
  match v, hf with
  | .error e, hf => exact .stuck hf
  | .ok none, hf => exact .skips hf
  | .ok (some record), hf =>
      have hl := setsLabel l cluster o record s₁
      simp only [attempt_bind]
      generalize s₁.attempt l (syncLabel cluster o record) = labelled at hl ⊢
      obtain ⟨v, s₂⟩ := labelled
      cases v with
      | error e => exact .unlabelled hf hl
      | ok record => exact .reaches hf hl (setsStatus l cluster o record s₂)

/-! ## The calls that are made -/

section

variable {P : HubCall → Prop} {s s' : Scene} {record : WorkStatus}

theorem Creates.goes {v : Except AgentError (Option WorkStatus)}
    (h : s.Creates l cluster o kind owner v s') (hw : ∀ name, P (.getManifestWork cluster name))
    (hc : ∀ new, P (.create cluster new)) : s.Goes P s' := by
  cases h with
  | unfetched hcall | unmanaged hcall _ | unresolved hcall _ _ => exact hcall.goes (hw _)
  | refused hcall _ _ hcreate => exact (hcall.goes (hw _)).trans (hcreate.goes (hc _))
  | creates hcall _ _ hcreate => exact (hcall.goes (hw _)).trans (hcreate.goes (hc _))

theorem Finds.goes {v : Except AgentError (Option WorkStatus)}
    (h : s.Finds l cluster o kind owner v s') (hr : ∀ name, P (.getRecord cluster name))
    (hw : ∀ name, P (.getManifestWork cluster name)) (hc : ∀ new, P (.create cluster new)) :
    s.Goes P s' := by
  cases h with
  | reads hread | fails hread _ => exact hread.goes (hr _)
  | misses hread _ hcreate => exact (hread.goes (hr _)).trans (hcreate.goes hw hc)

theorem SetsLabel.goes {v : Except AgentError WorkStatus} (h : s.SetsLabel cluster o record v s')
    (hp : ∀ name value,
      P (.patchLabels cluster name (.ofList [(Labels.singletonKey, value)]))) : s.Goes P s' := by
  cases h with
  | rests _ => exact .refl s
  | patches _ _ hcall => exact hcall.goes (hp _ _)

theorem SetsStatus.goes {v : Except AgentError Unit} (h : s.SetsStatus cluster o record v s')
    (hu : ∀ update, P (.updateStatus cluster update)) : s.Goes P s' := by
  cases h with
  | rests _ => exact .refl s
  | refused _ _ hcall | updates _ _ hcall => exact hcall.goes (hu _)

theorem Finds.sound {v : Except AgentError (Option WorkStatus)}
    (h : s.Finds l cluster o kind owner v s') (hh : s.hub.Sound) : s'.hub.Sound :=
  (h.goes (P := fun _ => True) (fun _ => trivial) (fun _ => trivial) fun _ => trivial).sound hh

theorem SetsLabel.sound {v : Except AgentError WorkStatus} (h : s.SetsLabel cluster o record v s')
    (hh : s.hub.Sound) : s'.hub.Sound :=
  (h.goes (P := fun _ => True) fun _ _ => trivial).sound hh

theorem Syncs.goes_gentle {v : Except AgentError Unit} (h : s.Syncs l cluster o kind owner v s') :
    s.Goes HubCall.IsGentle s' := by
  have hlabel : ∀ name value, (HubCall.patchLabels cluster name
      (.ofList [(Labels.singletonKey, value)])).IsGentle := fun name value e he => by
    rw [List.mem_singleton.mp he]
  have hfinds : ∀ {v s'}, s.Finds l cluster o kind owner v s' → s.Goes HubCall.IsGentle s' :=
    fun hf => hf.goes (fun _ => trivial) (fun _ => trivial) fun _ => trivial
  cases h with
  | stuck hf | skips hf => exact hfinds hf
  | unlabelled hf hl => exact (hfinds hf).trans (hl.goes hlabel)
  | reaches hf hl hs =>
      exact ((hfinds hf).trans (hl.goes hlabel)).trans (hs.goes fun _ => trivial)

end

end Scene

end

/-! ## A dial

One object with a deployment record, for the small runs in the modules that follow. -/

namespace Dials

def dials : ApiResource := .of "a.io" "v1" "Dial" "dials"

def lookups : Lookups := ⟨fun _ _ _ => .ok dials, fun _ => .ok dials⟩

def agent : Agent := { cluster := "c1", timeout := .ofSeconds 1 }

def owner : TrackedOwner := ⟨"w1", "mw1"⟩

/-- A deployment record that is managed. -/
def work : ManifestWork where
  metadata := {
    name := some "mw1"
    ns := some "c1"
    labels := some (.ofList [("managed-by.kubestellar.io/x", "1")]) }

def dial (status : Option Json) : Object where
  metadata := { name := some "d", ns := some "n" }
  statusMember := status

end Dials

end StatusRelay
