import StatusRelay.Agent

/-!
# What is done to the hub

Everybody who uses the hub does so by deeds, and every state of the hub comes from the empty one by
deeds. In each of them a record stands under its own namespace and name and has a version that was
given before. What a call is answered and what it leaves is listed case by case; from the list it
follows that a version is never given twice, so that an update which names the version of a record
that was read is refused if the record was written, deleted or made anew since.
-/
namespace StatusRelay

namespace HubCall

/-- The record that a call is about. -/
def target : HubCall → RecordKey
  | .getManifestWork ns name | .getRecord ns name | .delete ns name | .patchLabels ns name _ =>
      (ns, name)
  | .create ns record | .updateStatus ns record => (ns, record.metadata.name.getD "")

end HubCall

namespace Hub

theorem versionText_inj {m n : Nat} : versionText m = versionText n ↔ m = n := by
  refine ⟨fun h => ?_, congrArg versionText⟩
  unfold versionText at h
  rw [Nat.toString_eq_ofList_toDigits, Nat.toString_eq_ofList_toDigits, String.ofList_inj] at h
  calc m = Nat.ofDigitChars 10 (Nat.toDigits 10 m) 0 := Nat.ofDigitChars_ten_toDigits.symm
    _ = n := by rw [h, Nat.ofDigitChars_ten_toDigits]

/-! ## What a call is answered -/

/-- Versions may have been spent, but nothing else happened to what is stored. -/
structure SameStock (h h' : Hub) : Prop where
  records : h'.records = h.records
  manifestWorks : h'.manifestWorks = h.manifestWorks
  version : h.version ≤ h'.version

/-- What a record becomes when it is stored next. -/
def stamp (h : Hub) (record : WorkStatus) : WorkStatus :=
  record.setVersion (versionText (h.version + 1))

/-- A record was stored under a key with a new version. -/
structure Stores (h : Hub) (key : RecordKey) (record : WorkStatus) (h' : Hub) : Prop where
  records : h'.records = h.records.insert key (h.stamp record)
  manifestWorks : h'.manifestWorks = h.manifestWorks
  version : h'.version = h.version + 1

/-- The record under a key is gone. -/
structure Erases (h : Hub) (key : RecordKey) (h' : Hub) : Prop where
  records : h'.records = h.records.erase key
  manifestWorks : h'.manifestWorks = h.manifestWorks
  version : h'.version = h.version

/-- What a call asks for is not there. -/
def Lacks (h : Hub) : HubCall → Prop
  | .getManifestWork ns name => h.manifestWorks.get? (ns, name) = none
  | .create _ _ => False
  | c => h.records.get? c.target = none

/-- What is there does not admit a call. -/
def Clashes (h : Hub) : HubCall → Prop
  | .create ns record => (h.records.get? (ns, record.metadata.name.getD "")).isSome = true
  | .updateStatus ns update => ∃ stored,
      h.records.get? (ns, update.metadata.name.getD "") = some stored ∧
        mayReplace update stored = false
  | _ => False

/-- What a call may be answered, and the hub after it. A hub that is willing takes every write that
its records admit. -/
inductive Replies (h : Hub) (willing : Prop) :
    (c : HubCall) → Except AgentError c.Answer → Hub → Prop
  | foundWork {ns name : String} {work : ManifestWork} {h' : Hub}
      (hg : h.manifestWorks.get? (ns, name) = some work) (hs : h.SameStock h') :
      Replies h willing (.getManifestWork ns name) (.ok work) h'
  | found {ns name : String} {record : WorkStatus} {h' : Hub}
      (hg : h.records.get? (ns, name) = some record) (hs : h.SameStock h') :
      Replies h willing (.getRecord ns name) (.ok record) h'
  | absent {c : HubCall} {e : AgentError} {h' : Hub} (hl : h.Lacks c)
      (hn : e.isNotFound = true) (hr : e.isRetryable = true) (hs : h.SameStock h') :
      Replies h willing c (.error e) h'
  | clashes {c : HubCall} {e : AgentError} {h' : Hub} (hc : h.Clashes c)
      (hn : e.isNotFound = false) (hr : e.isRetryable = true) (hs : h.SameStock h') :
      Replies h willing c (.error e) h'
  | unwilling {c : HubCall} {e : AgentError} {h' : Hub} (hw : c.isWrite = true) (hu : ¬ willing)
      (hn : e.isNotFound = false) (hr : e.isRetryable = true) (hs : h.SameStock h') :
      Replies h willing c (.error e) h'
  | created {ns : String} {record : WorkStatus} {h' : Hub}
      (hg : h.records.get? (ns, record.metadata.name.getD "") = none)
      (hs : h.Stores (ns, record.metadata.name.getD "") (record.setNs ns) h') :
      Replies h willing (.create ns record) (.ok (h.stamp (record.setNs ns))) h'
  | deleted {ns name : String} {record : WorkStatus} {h' : Hub}
      (hg : h.records.get? (ns, name) = some record) (hs : h.Erases (ns, name) h') :
      Replies h willing (.delete ns name) (.ok ()) h'
  | patched {ns name : String} {labels : Labels} {old : WorkStatus} {h' : Hub}
      (hg : h.records.get? (ns, name) = some old)
      (hs : h.Stores (ns, name) (old.mergeLabels labels) h') :
      Replies h willing (.patchLabels ns name labels) (.ok (h.stamp (old.mergeLabels labels))) h'
  | updated {ns : String} {update old : WorkStatus} {h' : Hub}
      (hg : h.records.get? (ns, update.metadata.name.getD "") = some old)
      (hm : mayReplace update old = true)
      (hs : h.Stores (ns, update.metadata.name.getD "") (old.setStatus update.status) h') :
      Replies h willing (.updateStatus ns update) (.ok (h.stamp (old.setStatus update.status))) h'

theorem SameStock.refl (h : Hub) : h.SameStock h := ⟨rfl, rfl, Nat.le_refl _⟩

theorem SameStock.trans {h h' h'' : Hub} (h₁ : h.SameStock h') (h₂ : h'.SameStock h'') :
    h.SameStock h'' :=
  ⟨h₂.records.trans h₁.records, h₂.manifestWorks.trans h₁.manifestWorks,
    Nat.le_trans h₁.version h₂.version⟩

theorem sameStock_bump (h : Hub) : h.SameStock h.bump := ⟨rfl, rfl, Nat.le_succ _⟩

variable {h h' : Hub} {willing willing' : Prop} {c : HubCall} {v : Except AgentError c.Answer}

theorem replies_create (h : Hub) (willing : Prop) (ns : String) (record : WorkStatus) :
    h.Replies willing (.create ns record) (Agent.liftHub (h.create ns record).1)
      (h.create ns record).2 := by
  cases hg : h.records.get? (ns, record.metadata.name.getD "") with
  | some old =>
      have hc : h.create ns record = (.error (.conflict
          (HubCall.recordText ns (record.metadata.name.getD "") ++ " already exists")),
            h.bump) := by
        simp [create, bump, hg]
      rw [hc]
      exact .clashes (by simp [Clashes, hg]) rfl rfl (sameStock_bump h)
  | none =>
      have hc : h.create ns record = (.ok (h.stamp (record.setNs ns)),
          (h.bump.put (ns, record.metadata.name.getD "") (record.setNs ns)).2) := by
        simp [create, bump, hg, put, stamp]
      rw [hc]
      exact .created hg ⟨rfl, rfl, rfl⟩

theorem replies_delete (h : Hub) (willing : Prop) (ns name : String) :
    h.Replies willing (.delete ns name) (Agent.liftHub (h.delete ns name).1)
      (h.delete ns name).2 := by
  cases hg : h.records.get? (ns, name) with
  | some old =>
      have hd : h.delete ns name = (.ok (), { h with records := h.records.erase (ns, name) }) := by
        simp [delete, hg]
      rw [hd]
      exact .deleted hg ⟨rfl, rfl, rfl⟩
  | none =>
      have hd : h.delete ns name = (.error (.notFound (HubCall.recordText ns name)), h) := by
        simp [delete, hg]
      rw [hd]
      exact .absent hg rfl rfl (.refl h)

theorem replies_patchLabels (h : Hub) (willing : Prop) (ns name : String) (labels : Labels) :
    h.Replies willing (.patchLabels ns name labels) (Agent.liftHub (h.patchLabels ns name labels).1)
      (h.patchLabels ns name labels).2 := by
  unfold patchLabels
  dsimp only
  split
  · rename_i hg
    exact .absent hg rfl rfl (sameStock_bump h)
  · rename_i hg
    exact .patched hg ⟨rfl, rfl, rfl⟩

theorem replies_updateStatus (h : Hub) (willing : Prop) (ns : String) (update : WorkStatus) :
    h.Replies willing (.updateStatus ns update) (Agent.liftHub (h.updateStatus ns update).1)
      (h.updateStatus ns update).2 := by
  unfold updateStatus
  dsimp only
  split
  · rename_i hg
    exact .absent hg rfl rfl (sameStock_bump h)
  · rename_i old hg
    split
    · rename_i hm
      exact .updated hg hm ⟨rfl, rfl, rfl⟩
    · rename_i hm
      rw [Bool.not_eq_true] at hm
      exact .clashes ⟨old, hg, hm⟩ rfl rfl (sameStock_bump h)

/-- What a hub that takes writes answers, whoever calls. -/
theorem replies_perform (h : Hub) (c : HubCall) :
    h.Replies (h.failWrites = false) c (Agent.liftHub (h.perform c).1) (h.perform c).2 := by
  unfold perform
  split
  · rename_i hw
    rw [Bool.and_eq_true] at hw
    have hu : ¬ h.failWrites = false := by simp [hw.2]
    cases c <;> exact .unwilling hw.1 hu rfl rfl (.refl h)
  · cases c with
    | getManifestWork ns name =>
        simp only [getManifestWork]
        cases hg : h.manifestWorks.get? (ns, name) with
        | some work => exact .foundWork hg (.refl h)
        | none => exact .absent hg rfl rfl (.refl h)
    | getRecord ns name =>
        simp only [getRecord]
        cases hg : h.records.get? (ns, name) with
        | some record => exact .found hg (.refl h)
        | none => exact .absent hg rfl rfl (.refl h)
    | create ns record => exact replies_create h _ ns record
    | delete ns name => exact replies_delete h _ ns name
    | patchLabels ns name labels => exact replies_patchLabels h _ ns name labels
    | updateStatus ns record => exact replies_updateStatus h _ ns record

variable {h h' h'' : Hub} {willing : Prop} {c : HubCall} {v : Except AgentError c.Answer}

/-- Only what is stored and the last version given decide what a call is answered. -/
theorem Replies.of_alike (hr : h.Replies willing c v h'') (hrecords : h'.records = h.records)
    (hworks : h'.manifestWorks = h.manifestWorks) (hversion : h'.version = h.version) :
    h'.Replies willing c v h'' := by
  cases h
  cases h'
  cases hrecords
  cases hworks
  cases hversion
  cases hr with
  | foundWork hg hs => exact .foundWork hg ⟨hs.records, hs.manifestWorks, hs.version⟩
  | found hg hs => exact .found hg ⟨hs.records, hs.manifestWorks, hs.version⟩
  | absent hl hn hr hs =>
      exact .absent (by cases c <;> exact hl) hn hr ⟨hs.records, hs.manifestWorks, hs.version⟩
  | clashes hc hn hr hs =>
      exact .clashes (by cases c <;> exact hc) hn hr ⟨hs.records, hs.manifestWorks, hs.version⟩
  | unwilling hw hu hn hr hs =>
      exact .unwilling hw hu hn hr ⟨hs.records, hs.manifestWorks, hs.version⟩
  | created hg hs => exact .created hg ⟨hs.records, hs.manifestWorks, hs.version⟩
  | deleted hg hs => exact .deleted hg ⟨hs.records, hs.manifestWorks, hs.version⟩
  | patched hg hs => exact .patched hg ⟨hs.records, hs.manifestWorks, hs.version⟩
  | updated hg hm hs => exact .updated hg hm ⟨hs.records, hs.manifestWorks, hs.version⟩

theorem Replies.mono {willing' : Prop} (hr : h.Replies willing c v h')
    (hw : willing' → willing) : h.Replies willing' c v h' := by
  cases hr with
  | foundWork hg hs => exact .foundWork hg hs
  | found hg hs => exact .found hg hs
  | absent hl hn hr hs => exact .absent hl hn hr hs
  | clashes hc hn hr hs => exact .clashes hc hn hr hs
  | unwilling hc hu hn hr hs => exact .unwilling hc (fun h => hu (hw h)) hn hr hs
  | created hg hs => exact .created hg hs
  | deleted hg hs => exact .deleted hg hs
  | patched hg hs => exact .patched hg hs
  | updated hg hm hs => exact .updated hg hm hs

/-- A call that fails leaves everything as it was, and the same may be tried again. -/
theorem Replies.of_error {e : AgentError} (hr : h.Replies willing c (.error e) h') :
    h.SameStock h' ∧ e.isRetryable = true := by
  cases hr with
  | absent _ _ hr hs | clashes _ _ hr hs | unwilling _ _ _ hr hs => exact ⟨hs, hr⟩

end Hub

/-! ## Versions -/

/-- A record's version was given after the first `n`. -/
def WorkStatus.Since (n : Nat) (record : WorkStatus) : Prop :=
  ∃ m, n < m ∧ record.metadata.resourceVersion = some (Hub.versionText m)

theorem WorkStatus.Since.mono {m n : Nat} {record : WorkStatus} (h : record.Since n)
    (hm : m ≤ n) : record.Since m := by
  obtain ⟨k, hk, hv⟩ := h
  exact ⟨k, Nat.lt_of_le_of_lt hm hk, hv⟩

namespace Hub

variable {h h' h'' : Hub} {willing : Prop} {c : HubCall} {v : Except AgentError c.Answer}
  {key : RecordKey}

/-- Every record stands under its own namespace and name and has a version that was given. -/
structure Sound (h : Hub) : Prop where
  placed : ∀ key record, h.records.get? key = some record →
    (record.metadata.ns.getD "", record.metadata.name.getD "") = key
  versioned : ∀ key record, h.records.get? key = some record →
    ∃ n, n ≤ h.version ∧ record.metadata.resourceVersion = some (versionText n)

/-- One state of the hub and a later one: what has changed of the records is gone or has a version
given in between. -/
structure Later (h h' : Hub) : Prop where
  version : h.version ≤ h'.version
  records : ∀ key, h'.records.get? key = h.records.get? key ∨
    ∀ record, h'.records.get? key = some record → record.Since h.version

/-- What may be done at one go: nothing to the records, or something to the one under a key. -/
inductive Touches (h : Hub) (key : RecordKey) (h' : Hub) : Prop
  | rests (hr : h'.records = h.records) (hv : h.version ≤ h'.version)
  | stores (record : WorkStatus) (hs : h.Stores key record h')
      (hp : h.Sound → (record.metadata.ns.getD "", record.metadata.name.getD "") = key)
  | erases (hs : h.Erases key h')

theorem sound_empty : ({} : Hub).Sound where
  placed := fun _ _ h => by cases h
  versioned := fun _ _ h => by cases h

theorem Later.refl (h : Hub) : h.Later h := ⟨Nat.le_refl _, fun _ => Or.inl rfl⟩

theorem Later.trans (h₁ : h.Later h') (h₂ : h'.Later h'') : h.Later h'' := by
  refine ⟨Nat.le_trans h₁.version h₂.version, fun key => ?_⟩
  rcases h₂.records key with he | hsince
  · rw [he]
    exact h₁.records key
  · exact Or.inr fun record hg => (hsince record hg).mono h₁.version

theorem Touches.elsewhere (ht : h.Touches key h') {other : RecordKey} (hne : other ≠ key) :
    h'.records.get? other = h.records.get? other := by
  cases ht with
  | rests hr _ => rw [hr]
  | stores record hs _ => rw [hs.records, Table.get?_insert, if_neg hne.symm]
  | erases hs => rw [hs.records, Table.get?_erase, if_neg hne.symm]

theorem Touches.later (ht : h.Touches key h') : h.Later h' := by
  refine ⟨?_, fun other => ?_⟩
  · cases ht with
    | rests _ hv => exact hv
    | stores _ hs _ => exact hs.version ▸ Nat.le_succ _
    | erases hs => exact hs.version ▸ Nat.le_refl _
  · by_cases hk : other = key
    · subst hk
      cases ht with
      | rests hr _ => exact Or.inl (by rw [hr])
      | stores record hs _ =>
          refine Or.inr fun stored hg => ⟨h.version + 1, Nat.lt_succ_self _, ?_⟩
          rw [hs.records, Table.get?_insert_self] at hg
          cases hg
          rfl
      | erases hs => exact Or.inr fun stored hg => by simp [hs.records] at hg
    · exact Or.inl (ht.elsewhere hk)

theorem Touches.sound (ht : h.Touches key h') (hh : h.Sound) : h'.Sound := by
  have hold : ∀ other record, h.records.get? other = some record → ∃ n, n ≤ h'.version ∧
      record.metadata.resourceVersion = some (versionText n) := by
    intro other record hg
    obtain ⟨n, hn, hv⟩ := hh.versioned other record hg
    exact ⟨n, Nat.le_trans hn ht.later.version, hv⟩
  -- Only a record that was stored now has a new place and a new version.
  by_cases hstored : ∃ record, h.Stores key record h' ∧
      (record.metadata.ns.getD "", record.metadata.name.getD "") = key
  · obtain ⟨record, hs, hp⟩ := hstored
    have hget : ∀ other stored, h'.records.get? other = some stored →
        (key = other ∧ stored = h.stamp record) ∨ h.records.get? other = some stored := by
      intro other stored hg
      rw [hs.records, Table.get?_insert] at hg
      split at hg
      · rename_i he
        exact Or.inl ⟨he, (Option.some.inj hg).symm⟩
      · exact Or.inr hg
    refine ⟨fun other stored hg => ?_, fun other stored hg => ?_⟩
    · rcases hget other stored hg with ⟨rfl, rfl⟩ | hg
      · exact hp
      · exact hh.placed other stored hg
    · rcases hget other stored hg with ⟨rfl, rfl⟩ | hg
      · exact ⟨h.version + 1, Nat.le_of_eq hs.version.symm, rfl⟩
      · exact hold other stored hg
  · have hget : ∀ other stored, h'.records.get? other = some stored →
        h.records.get? other = some stored := by
      intro other stored hg
      cases ht with
      | rests hr _ => rwa [hr] at hg
      | stores record hs hp => exact absurd ⟨record, hs, hp hh⟩ hstored
      | erases hs =>
          rw [hs.records, Table.get?_erase] at hg
          split at hg
          · cases hg
          · exact hg
    exact ⟨fun other stored hg => hh.placed other stored (hget other stored hg),
      fun other stored hg => hold other stored (hget other stored hg)⟩

theorem Replies.touches (hr : h.Replies willing c v h') : h.Touches c.target h' := by
  cases hr with
  | foundWork _ hs | found _ hs | absent _ _ _ hs | clashes _ _ _ hs | unwilling _ _ _ _ hs =>
      exact .rests hs.records hs.version
  | created _ hs => exact .stores _ hs fun _ => rfl
  | deleted _ hs => exact .erases hs
  | @patched _ _ _ old _ hg hs => exact .stores _ hs fun hh => hh.placed _ old hg
  | @updated _ _ old _ hg _ hs => exact .stores _ hs fun hh => hh.placed _ old hg

/-- A record that was written since it was read is not replaced by an update made from what was
read. -/
theorem Sound.mayReplace_eq_false (hh : h.Sound) {read stored update : WorkStatus}
    (hg : h.records.get? key = some read) (hs : stored.Since h.version)
    (hu : update.metadata.resourceVersion = read.metadata.resourceVersion) :
    mayReplace update stored = false := by
  -- What was read has a version up to `h.version`, what is stored one above it.
  obtain ⟨n, hn, hv⟩ := hh.versioned key read hg
  obtain ⟨m, hm, hw⟩ := hs
  have hne : versionText m ≠ versionText n := fun he => by
    have := versionText_inj.mp he
    omega
  simp [mayReplace, hu, hv, hw, hne]

end Hub

/-! ## What a record keeps -/

/-- All of a record but its status, its labels and its version. -/
def WorkStatus.plain (r : WorkStatus) : WorkStatus :=
  { r with
    status := none
    metadata := { r.metadata with labels := none, resourceVersion := none } }

/-- Nothing changed but the status, the version and the label that asks for a record of its own. -/
structure WorkStatus.Keeps (r r' : WorkStatus) : Prop where
  plain : r'.plain = r.plain
  labels : ∀ key, key ≠ Labels.singletonKey →
    r'.metadata.labelSet.get? key = r.metadata.labelSet.get? key

/-- A call that deletes nothing and sets no other label than the one that asks for a record of its
own. -/
def HubCall.IsGentle : HubCall → Prop
  | .delete _ _ => False
  | .patchLabels _ _ labels => ∀ e ∈ labels.entries, e.1 = Labels.singletonKey
  | _ => True

theorem Labels.get?_merge_of_ne {changes : Labels} {key : String}
    (h : ∀ e ∈ changes.entries, e.1 ≠ key) (l : Labels) :
    (l.merge changes).get? key = l.get? key := by
  obtain ⟨entries⟩ := changes
  unfold merge
  dsimp only at h ⊢
  induction entries generalizing l with
  | nil => rfl
  | cons e rest ih =>
      rw [List.foldl_cons, ih _ (fun e he => h e (List.mem_cons_of_mem _ he)), get?_insert,
        if_neg (h e List.mem_cons_self)]

namespace WorkStatus

variable {r r' r'' : WorkStatus}

theorem Keeps.refl (r : WorkStatus) : r.Keeps r := ⟨rfl, fun _ _ => rfl⟩

theorem Keeps.trans (h₁ : r.Keeps r') (h₂ : r'.Keeps r'') : r.Keeps r'' :=
  ⟨h₂.plain.trans h₁.plain, fun key hk => (h₂.labels key hk).trans (h₁.labels key hk)⟩

theorem keeps_setVersion (r : WorkStatus) (version : String) : r.Keeps (r.setVersion version) :=
  ⟨rfl, fun _ _ => rfl⟩

theorem keeps_setStatus (r : WorkStatus) (status : Option Json) : r.Keeps (r.setStatus status) :=
  ⟨rfl, fun _ _ => rfl⟩

theorem keeps_mergeLabels {labels : Labels} (h : ∀ e ∈ labels.entries, e.1 = Labels.singletonKey)
    (r : WorkStatus) : r.Keeps (r.mergeLabels labels) :=
  ⟨rfl, fun _ hk => Labels.get?_merge_of_ne (fun e he hek => hk (hek.symm.trans (h e he))) _⟩

end WorkStatus

namespace Hub

variable {h h' : Hub} {willing : Prop} {c : HubCall} {v : Except AgentError c.Answer}
  {key : RecordKey}

/-- A gentle call leaves every record there, and all in it that others care for. -/
theorem Replies.keeps (hr : h.Replies willing c v h') (hc : c.IsGentle) {record : WorkStatus}
    (hg : h.records.get? key = some record) :
    ∃ record', h'.records.get? key = some record' ∧ record.Keeps record' := by
  by_cases hk : key = c.target
  · subst hk
    cases hr with
    | foundWork _ hs | found _ hs | absent _ _ _ hs | clashes _ _ _ hs | unwilling _ _ _ _ hs =>
        exact ⟨record, by rw [hs.records, hg], .refl record⟩
    | created hnone _ => exact absurd (hnone.symm.trans hg) (by simp)
    | deleted _ _ => exact hc.elim
    | patched hold hs =>
        cases hold.symm.trans hg
        exact ⟨_, by rw [hs.records]; exact Table.get?_insert_self ..,
          (WorkStatus.keeps_mergeLabels hc record).trans (WorkStatus.keeps_setVersion ..)⟩
    | updated hold _ hs =>
        cases hold.symm.trans hg
        exact ⟨_, by rw [hs.records]; exact Table.get?_insert_self ..,
          (WorkStatus.keeps_setStatus record _).trans (WorkStatus.keeps_setVersion ..)⟩
  · exact ⟨record, by rw [hr.touches.elsewhere hk, hg], .refl record⟩

end Hub

/-! ## Deeds -/

/-- Whether the hub refuses writes, and how long they take in milliseconds. -/
structure Mood where
  failWrites : Bool := false
  writeDelay : Nat := 0
  deriving DecidableEq, Repr

/-- What anybody may do to the hub. -/
inductive Deed where
  | addManifestWork (work : ManifestWork)
  /-- A record is put there, over any other. -/
  | addRecord (record : WorkStatus)
  | mood (mood : Mood)
  | call (c : HubCall)
  deriving Repr

namespace Hub

variable {h : Hub}

def mood (h : Hub) : Mood := ⟨h.failWrites, h.writeDelay⟩

def inMood (h : Hub) (mood : Mood) : Hub :=
  { h with failWrites := mood.failWrites, writeDelay := mood.writeDelay }

def deed (h : Hub) : Deed → Hub
  | .addManifestWork work => h.addManifestWork work
  | .addRecord record => h.addRecord record
  | .mood mood => h.inMood mood
  | .call c => (h.perform c).2

/-- The hub after deeds, the first of them first. -/
def after (h : Hub) (deeds : List Deed) : Hub := deeds.foldl deed h

@[simp] theorem after_nil (h : Hub) : h.after [] = h := rfl

@[simp] theorem after_cons (h : Hub) (d : Deed) (deeds : List Deed) :
    h.after (d :: deeds) = (h.deed d).after deeds := rfl

/-- A call changes nothing in how the hub takes writes. -/
theorem mood_perform (h : Hub) (c : HubCall) : (h.perform c).2.mood = h.mood := by
  unfold perform
  split
  · rfl
  · cases c with
    | getManifestWork | getRecord => rfl
    | create ns record => simp only [create]; split <;> rfl
    | delete ns name => simp only [delete]; split <;> rfl
    | patchLabels ns name labels => simp only [patchLabels]; split <;> rfl
    | updateStatus ns record =>
        simp only [updateStatus]
        split
        · rfl
        · split <;> rfl

theorem after_append (h : Hub) (xs ys : List Deed) : h.after (xs ++ ys) = (h.after xs).after ys :=
  List.foldl_append

theorem touches_deed (h : Hub) (d : Deed) : ∃ key, h.Touches key (h.deed d) := by
  cases d with
  | addManifestWork work => exact ⟨("", ""), .rests rfl (Nat.le_refl _)⟩
  | addRecord record => exact ⟨_, .stores record ⟨rfl, rfl, rfl⟩ fun _ => rfl⟩
  | mood mood => exact ⟨("", ""), .rests rfl (Nat.le_refl _)⟩
  | call c => exact ⟨_, (replies_perform h c).touches⟩

theorem later_deed (h : Hub) (d : Deed) : h.Later (h.deed d) :=
  (touches_deed h d).elim fun _ ht => ht.later

theorem Sound.deed (hh : h.Sound) (d : Deed) : (h.deed d).Sound :=
  (touches_deed h d).elim fun _ ht => ht.sound hh

theorem Sound.after (hh : h.Sound) (deeds : List Deed) : (h.after deeds).Sound := by
  induction deeds generalizing h with
  | nil => exact hh
  | cons d deeds ih => exact ih (hh.deed d)

/-- Whatever was done to it, the hub is sound. -/
theorem sound_after (deeds : List Deed) : (({} : Hub).after deeds).Sound := sound_empty.after deeds

end Hub

end StatusRelay
