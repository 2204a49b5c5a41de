import StatusRelay.Proofs.Records

/-!
# Deployment records and their sets

The set that is stored for a deployment record is what the record says, or its key sees to it. A
record that cannot be read leaves the set as it was, and one that lists nothing yet is tried again
until it lists something or is on its way out. Whoever owns a tracked object is managed, if every
record that lists something names one that is.
-/
namespace StatusRelay

open Stage Ingest

/-- The hub has a deployment record of this name, and it is managed. -/
def Managing (manifestWorks : Table RecordKey ManifestWork) (cluster name : String) : Prop :=
  ∃ work, manifestWorks.get? (cluster, name) = some work ∧ work.labels.isManaged = true

/-- A deployment record that lists something names one of the hub's that is managed. -/
def OwnedBy (manages : String → Prop) (o : Object) : Prop :=
  ∀ work, AppliedWork.ofObject o = .ok work →
    (AppliedSet.ofResources work.resources).isEmpty = false → manages work.manifestWork

/-- Moves that are allowed to a steady world whose owners are managed. -/
def World.AllowsOwned {l : Lookups} (w : World l) (manages : String → Prop) (f : Floor)
    (m : Move) : Prop :=
  w.AllowsSteadily f m ∧ ∀ e, m = .work e → ∀ o, e.stored? = some o → OwnedBy manages o

/-- The owner that a stage goes by, or is going to store, is managed. -/
def Stage.ManagedBy (manages : String → Prop) : Stage → Prop
  | reading _ owner | fetching _ owner => manages owner.manifestWork
  | replacing _ manifestWork applied => applied.isEmpty = false → manages manifestWork
  | _ => True

variable {l : Lookups} {w : World l} {c c' : Crew} {m : Move} {a a' : Agent} {id : WorkerId}
  {x x' : Hand} {key : ObjectKey} {st st' : Stage} {notes log : List Note} {name : String}
  {manages : String → Prop}

/-! ## Owners -/

/-- What a tracker stores for a set. -/
def storedAs (manifestWork : String) (applied : AppliedSet) : Option TrackedWork :=
  if applied.isEmpty then none else some ⟨manifestWork, applied⟩

/-- What an answer does to the set of a deployment record. -/
theorem Answered.set (h : Answered l a id key st st' a' notes) (name : String) :
    (∃ manifestWork applied, st = replacing name manifestWork applied ∧
        a'.tracker.works.get? name = storedAs manifestWork applied) ∨
      (st = removing name ∧ a'.tracker.works.get? name = none) ∨
      a'.tracker.works.get? name = a.tracker.works.get? name ∧
        (∀ manifestWork applied, st ≠ replacing name manifestWork applied) ∧
        st ≠ removing name := by
  rcases h.tracker_cases with ⟨work, manifestWork, applied, rfl, _, rfl⟩ | ⟨work, rfl, _, rfl⟩ |
    ⟨ht, hst⟩
  · have hworks := a.tracker.works_replace work manifestWork applied name
    by_cases hw : work = name
    · subst hw
      rw [if_pos rfl] at hworks
      exact Or.inl ⟨manifestWork, applied, rfl, hworks⟩
    · rw [if_neg hw] at hworks
      refine Or.inr (Or.inr ⟨hworks, ?_, by simp⟩)
      rintro _ _ ⟨⟩
      exact hw rfl
  · have hworks := a.tracker.works_remove work name
    by_cases hw : work = name
    · subst hw
      rw [if_pos rfl] at hworks
      exact Or.inr (Or.inl ⟨rfl, hworks⟩)
    · rw [if_neg hw] at hworks
      refine Or.inr (Or.inr ⟨hworks, by simp, ?_⟩)
      rintro ⟨⟩
      exact hw rfl
  · rw [ht]
    exact Or.inr (Or.inr ⟨rfl, hst name⟩)

theorem managedBy_finished (manages : String → Prop) (result : Except AgentError Outcome) :
    (finished result).ManagedBy manages := trivial

theorem Answered.manifestWorks (h : Answered l a id key st st' a' notes) :
    a'.hub.manifestWorks = a.hub.manifestWorks := by
  cases h with
  | leads | replaces | removes | acquires | releases | posts => rfl
  | creates o record h =>
      rcases h.creates with ⟨_, _, _, hub, rfl, _, hm⟩ | ⟨_, _, _, hub, rfl, _, hm⟩ <;> exact hm
  | patches o record label h =>
      rcases h.patches with ⟨_, _, _, hub, rfl, _, hm⟩ | ⟨_, _, _, _, hub, rfl, _, hm⟩ <;> exact hm
  | updates record status h =>
      rcases h.updates with ⟨_, _, _, hub, rfl, _, hm⟩ | ⟨_, _, _, _, hub, rfl, _, hm⟩ <;> exact hm
  | erases name h =>
      rcases h.erases with ⟨_, _, _, _, hub, rfl, _, hm⟩ | ⟨_, _, ⟨hub, rfl, _, hm⟩, _⟩ <;> exact hm

theorem Turned.manifestWorks (t : Turned l a id x x' a' notes) :
    a'.hub.manifestWorks = a.hub.manifestWorks :=
  t.agent_of (P := fun a' => a'.hub.manifestWorks = a.hub.manifestWorks) (fun _ _ => rfl)
    fun _ _ _ _ _ ha => ha.manifestWorks

/-- Everybody who owns something tracked is managed. -/
structure Managed (manages : String → Prop) (c : Crew) : Prop where
  works : c.agent.works.ingest.All (OwnedBy manages)
  tracked : ∀ name tracked, c.agent.tracker.works.get? name = some tracked →
    manages tracked.manifestWork
  hands : ∀ id key stage, c.Busy id key stage → stage.ManagedBy manages

namespace Managed

theorem start (manages : String → Prop) (cluster : String) (timeout : Duration)
    (limiter : Limiter ObjectKey) (manifestWorks : Table RecordKey ManifestWork) (workers : Nat) :
    Managed manages (.start (.fresh cluster timeout limiter manifestWorks) workers) where
  works := all_start _ _
  tracked := by
    intro name tracked hg
    cases hg
  hands := fun _ _ _ hb => absurd hb Crew.not_busy_start

theorem tracked_answered (h : Managed manages c) (hb : c.Busy id key st)
    (ha : Answered l c.agent id key st st' a' notes) (name : String) (tracked : TrackedWork)
    (hg : a'.tracker.works.get? name = some tracked) : manages tracked.manifestWork := by
  rcases ha.set name with ⟨manifestWork, applied, rfl, hs⟩ | ⟨_, hs⟩ | ⟨hs, _⟩
  · have hm := h.hands id key _ hb
    rw [hs, storedAs] at hg
    split at hg
    · cases hg
    · rename_i he
      cases hg
      exact hm (Bool.eq_false_iff.mpr he)
  · rw [hs] at hg
    cases hg
  · exact h.tracked name tracked (hs.symm.trans hg)

theorem owner (h : Managed manages c) {uid : String} {owner : TrackedOwner}
    (ho : c.agent.tracker.ownerOf? uid = some owner) : manages owner.manifestWork := by
  simp only [Tracker.ownerOf?, Option.bind_eq_bind, Option.bind_eq_some_iff] at ho
  obtain ⟨work, _, tracked, hg, hp⟩ := ho
  cases hp
  exact h.tracked work tracked hg

theorem hands_answered (h : Managed manages c) (hb : c.Busy id key st)
    (ha : Answered l c.agent id key st st' a' notes) : st'.ManagedBy manages := by
  have hst := h.hands id key st hb
  cases ha with
  | leads ha =>
      cases ha with
      | presentWork o hf hk =>
          refine of_opened (managedBy_finished manages) fun work hw => ?_
          rw [hk] at hf
          have hat := (Agent.find_work_iff c.agent (key.ns, key.name) o).mp hf
          exact h.works.of_lookup? hat work hw
      | owned o owner ho => exact h.owner ho
      | missing => exact hst
      | read o owner record =>
          exact of_recorded (P := Stage.ManagedBy manages) record (managedBy_finished manages)
            (fun _ _ => trivial) fun _ _ => trivial
      | _ => trivial
  | creates =>
      exact of_created (managedBy_finished manages) (fun _ _ => trivial) (fun _ _ => trivial) _
  | patches => exact of_patched (managedBy_finished manages) (fun _ _ => trivial) _
  | updates => exact of_updated (managedBy_finished manages) _
  | erases => exact of_erased (managedBy_finished manages) _
  | replaces | removes | acquires | releases | posts => trivial

theorem turn (h : Managed manages c) (hx : c.hands[id]? = some x)
    (t : Turned l c.agent id x x' a' notes) : Managed manages ⟨a', c.hands.set id x'⟩ where
  works := t.works ▸ h.works
  tracked := by
    refine t.agent_of (P := fun a' => ∀ name tracked, a'.tracker.works.get? name = some tracked →
      manages tracked.manifestWork) (fun _ _ => h.tracked) ?_
    rintro key st st' p rfl ha
    exact h.tracked_answered ⟨p, hx⟩ ha
  hands := Crew.busy_turn hx t (fun key _ => of_first (managedBy_finished manages) trivial key)
    h.hands fun _ _ _ hb ha => h.hands_answered hb ha

theorem step (h : Managed manages c) (hm : w.AllowsOwned manages c.floor m)
    (s : Crew.Step l c m c' notes) : Managed manages c' := by
  cases s with
  | turn id hx t => exact h.turn hx t
  | work e he => exact ⟨h.works.handle? (hm.2 e rfl) he, h.tracked, h.hands⟩
  | object | fire | mood | pass | still => exact ⟨h.works, h.tracked, h.hands⟩

end Managed

/-! ## Sets -/

/-- A deployment record that lists something or is on its way out. -/
def Object.Ready (o : Object) (work : AppliedWork) : Prop :=
  ((AppliedSet.ofResources work.resources).isEmpty && !o.isBeingDeleted) = false

/-- The cached deployment record of some name asks for a set to be stored. -/
def Ingest.Asks (i : Ingest) (name manifestWork : String) (applied : AppliedSet) : Prop :=
  ∃ o work, i.at? ("", name) = some o ∧ AppliedWork.ofObject o = .ok work ∧
    o.Ready work ∧ work.manifestWork = manifestWork ∧
    AppliedSet.ofResources work.resources = applied

/-- What is stored for a deployment record is what it lists, if it can be read, and nothing is
stored for one that is not there. -/
structure Tracker.Reads (t : Tracker) (i : Ingest) (name : String) : Prop where
  present : ∀ o work, i.at? ("", name) = some o → AppliedWork.ofObject o = .ok work →
    o.Ready work ∧ t.works.get? name =
      storedAs work.manifestWork (AppliedSet.ofResources work.resources)
  absent : i.at? ("", name) = none → t.works.get? name = none

/-- A worker at this stage stores or forgets what it should, if it does either. -/
def Stage.Heeds (i : Ingest) (name : String) : Stage → Prop
  | replacing _ manifestWork applied => i.Asks name manifestWork applied
  | removing _ => i.at? ("", name) = none
  | _ => True

/-- A worker at this stage is going to do so, or to try again. -/
def Stage.Restores (i : Ingest) (name : String) : Stage → Prop
  | fresh => True
  | replacing _ manifestWork applied => i.Asks name manifestWork applied
  | removing _ => i.at? ("", name) = none
  | finished result => Agent.retries result = true
  | _ => False

def setCare (i : Ingest) (t : Tracker) (name : String) : Care where
  key := i.keyFor (liveKey appliedWorkKind ("", name))
  mine := Crew.IsKey appliedWorkKind ("", name)
  mends := Stage.Restores i name
  spares := Stage.Heeds i name
  right := t.Reads i name

theorem heeds_finished (i : Ingest) (name : String) (result : Except AgentError Outcome) :
    (finished result).Heeds i name := trivial

theorem opened_cases (o : Object) :
    (∃ e cause, AppliedWork.ofObject o = .error e ∧
        opened o = finished (.error (.malformed cause))) ∨
      ∃ work, AppliedWork.ofObject o = .ok work ∧
        ((¬ o.Ready work ∧ opened o = finished (.ok .again)) ∨
          o.Ready work ∧ opened o =
            replacing o.name work.manifestWork (AppliedSet.ofResources work.resources)) := by
  unfold opened Object.Ready
  cases AppliedWork.ofObject o with
  | error e => exact Or.inl ⟨e, _, rfl, rfl⟩
  | ok work =>
      refine Or.inr ⟨work, rfl, ?_⟩
      cases h : (AppliedSet.ofResources work.resources).isEmpty && !o.isBeingDeleted with
      | true => exact Or.inl ⟨by simp, by simp [h]⟩
      | false => exact Or.inr ⟨rfl, by simp [h]⟩

theorem first_isKey {kind : ResourceKind} {p : Coordinates} (hp : p.2 ≠ "")
    (h : Crew.IsKey kind p key) : first key = fresh := by
  rcases h with rfl | rfl <;> exact if_neg hp

theorem isKey_keyFor (i : Ingest) (kind : ResourceKind) (p : Coordinates) :
    Crew.IsKey kind p (i.keyFor (liveKey kind p)) := by
  cases hat : i.at? p with
  | some o => exact Or.inl (keyFor_of_some hat kind)
  | none => exact Or.inr (keyFor_of_none hat kind)

theorem setCare_lawful (i : Ingest) (t : Tracker) (hname : name ≠ "") :
    (setCare i t name).Lawful where
  begins := by
    have hfirst : first (setCare i t name).key = fresh :=
      first_isKey hname (isKey_keyFor i appliedWorkKind ("", name))
    rw [hfirst]
    trivial
  harmless := by
    intro key hk
    rw [first_isKey hname hk]
    trivial
  retries := by
    intro stage result hm hr
    cases stage with
    | finished r =>
        cases hr
        exact hm
    | changing => cases hm
    | _ => cases hr

/-- Only the cached deployment record of that name matters. -/
theorem setCare_congr {i i' : Ingest} (t : Tracker) (h : i'.at? ("", name) = i.at? ("", name)) :
    setCare i' t name = setCare i t name := by
  have hkey : i'.keyFor (liveKey appliedWorkKind ("", name)) =
      i.keyFor (liveKey appliedWorkKind ("", name)) := by
    cases hat : i.at? ("", name) with
    | none => rw [keyFor_of_none hat, keyFor_of_none (h.trans hat)]
    | some o => rw [keyFor_of_some hat, keyFor_of_some (h.trans hat)]
  have hheeds : Stage.Heeds i' name = Stage.Heeds i name := by
    funext st
    cases st <;> simp only [Stage.Heeds, Ingest.Asks, h]
  have hrestores : Stage.Restores i' name = Stage.Restores i name := by
    funext st
    cases st <;> simp only [Stage.Restores, Ingest.Asks, h]
  have hreads : t.Reads i' name = t.Reads i name := by
    refine propext ⟨fun hr => ⟨fun o work hat => ?_, fun hn => ?_⟩,
      fun hr => ⟨fun o work hat => ?_, fun hn => ?_⟩⟩
    · exact hr.present o work (h.trans hat)
    · exact hr.absent (h.trans hn)
    · exact hr.present o work (h.symm.trans hat)
    · exact hr.absent (h.symm.trans hn)
  simp only [setCare, hkey, hheeds, hrestores, hreads]

/-- What an answer does to the set of a deployment record is what the record asks for. -/
theorem reads_answered (h : Answered l a id key st st' a' notes)
    (hheeds : ∀ manifestWork applied, st = replacing name manifestWork applied →
      a.works.ingest.Asks name manifestWork applied)
    (hgone : st = removing name → a.works.ingest.at? ("", name) = none)
    (hright : a.tracker.Reads a.works.ingest name ∨
      (∃ manifestWork applied, st = replacing name manifestWork applied) ∨ st = removing name) :
    a'.tracker.Reads a'.works.ingest name := by
  rcases h.set name with ⟨manifestWork, applied, hst, hs⟩ | ⟨hst, hs⟩ | ⟨hs, hnot, hnot'⟩
  · obtain ⟨o, work, hat, hwork, hready, rfl, rfl⟩ := hheeds manifestWork applied hst
    refine ⟨fun o' work' hat' hwork' => ?_, fun hnone => ?_⟩
    · rw [h.works, hat] at hat'
      cases hat'
      rw [hwork] at hwork'
      cases hwork'
      exact ⟨hready, hs⟩
    · rw [h.works, hat] at hnone
      cases hnone
  · refine ⟨fun o work hat _ => ?_, fun _ => hs⟩
    rw [h.works, hgone hst] at hat
    cases hat
  · rcases hright with hr | ⟨_, _, hst⟩ | hst
    · refine ⟨fun o work hat hwork => ?_, fun hnone => ?_⟩
      · rw [hs]
        exact hr.present o work (h.works ▸ hat) hwork
      · rw [hs]
        exact hr.absent (h.works ▸ hnone)
    · exact absurd hst (hnot _ _)
    · exact absurd hst hnot'

/-- A worker that asks for the deployment record goes on with what it says, or with its absence. -/
theorem restores_of_fresh (hname : Crew.IsKey appliedWorkKind ("", name) key)
    (h : Leads l a id key fresh st' notes) :
    st'.Heeds a.works.ingest name ∧
      (key = a.works.ingest.keyFor (liveKey appliedWorkKind ("", name)) →
        st'.Restores a.works.ingest name ∨ a.tracker.Reads a.works.ingest name) := by
  obtain ⟨hkind, hplace⟩ := hname.site
  obtain ⟨hns, hn⟩ := Prod.mk.inj hplace
  have hnone : (∀ o, a.find key.kind key.ns key.name ≠ .present o) →
      a.works.ingest.at? ("", name) = none := by
    intro hnot
    cases hat : a.works.ingest.at? ("", name) with
    | none => rfl
    | some o =>
        rw [hkind, hns, hn] at hnot
        exact absurd ((Agent.find_work_iff a ("", name) o).mpr hat) (hnot o)
  -- Only a key without a snapshot is dropped for an absent record, and it is not the one to act.
  have hdeleted : (∀ o, a.find key.kind key.ns key.name ≠ .present o) → key.deleted = none →
      key ≠ a.works.ingest.keyFor (liveKey appliedWorkKind ("", name)) := by
    intro hnot hd he
    rw [he, keyFor_of_none (hnone hnot)] at hd
    cases hd
  cases h with
  | present o hf hk => exact absurd hkind hk
  | presentWork o hf hk =>
      rw [hkind, hns, hn] at hf
      have hat := (Agent.find_work_iff a ("", name) o).mp hf
      rcases opened_cases o with
        ⟨e, cause, he, hopened⟩ | ⟨work, hwork, ⟨_, hopened⟩ | ⟨hready, hopened⟩⟩
      · rw [hopened]
        refine ⟨trivial, fun _ => Or.inr ⟨fun o' work hat' hwork => ?_, fun habsent => ?_⟩⟩
        · rw [hat] at hat'
          cases hat'
          rw [he] at hwork
          cases hwork
        · rw [hat] at habsent
          cases habsent
      · rw [hopened]
        exact ⟨trivial, fun _ => Or.inl rfl⟩
      · rw [hopened]
        have hasks : a.works.ingest.Asks name work.manifestWork
            (AppliedSet.ofResources work.resources) :=
          ⟨o, work, hat, hwork, hready, rfl, rfl⟩
        exact ⟨hasks, fun _ => Or.inl hasks⟩
  | gone snapshot hnot hd hk => exact absurd hkind hk
  | workGone snapshot hnot hd hk => exact ⟨hnone hnot, fun _ => Or.inl (hnone hnot)⟩
  | absent hf hd =>
      exact ⟨trivial, fun he => absurd he (hdeleted (by simp [hf]) hd)⟩
  | unwatched hf hd =>
      exact ⟨trivial, fun he => absurd he (hdeleted (by simp [hf]) hd)⟩

/-- What follows on any other request does not touch a set, but for telling of changes. -/
theorem heeds_answered (h : Answered l a id key st st' a' notes) (hst : st ≠ fresh) (i : Ingest) :
    st'.Heeds i name := by
  cases h with
  | leads h =>
      cases h with
      | present | presentWork | gone | workGone | absent | unwatched => exact absurd rfl hst
      | read o owner record =>
          exact of_recorded (P := Stage.Heeds i name) record (heeds_finished i name)
            (fun _ _ => trivial) fun _ _ => trivial
      | _ => trivial
  | creates =>
      exact of_created (P := Stage.Heeds i name) (heeds_finished i name) (fun _ _ => trivial)
        (fun _ _ => trivial) _
  | patches =>
      exact of_patched (P := Stage.Heeds i name) (heeds_finished i name) (fun _ _ => trivial) _
  | updates => exact of_updated (P := Stage.Heeds i name) (heeds_finished i name) _
  | erases => exact of_erased (P := Stage.Heeds i name) (heeds_finished i name) _
  | replaces | removes | acquires | releases | posts => trivial

/-- The stored set that a worker at this stage changes is that of its key. -/
theorem isKey_of_changes (h : w.Keeps c log) (hb : c.Busy id key st)
    (hst : (∃ manifestWork applied, st = replacing name manifestWork applied) ∨
      st = removing name) : Crew.IsKey appliedWorkKind ("", name) key := by
  have habout : key.kind = appliedWorkKind ∧ name = key.name := by
    rcases hst with ⟨manifestWork, applied, rfl⟩ | rfl
    · exact h.about id key _ hb
    · exact h.about id key _ hb
  obtain ⟨hk, rfl⟩ := habout
  have hfits := World.fits_of_known (h.known hb) hk
  have hns : key.ns = "" := by
    by_contra hne
    cases hfits.2.mp hne
  obtain ⟨kind, p, _, rfl | rfl⟩ := h.known hb
  · refine Or.inl ?_
    rw [← hk, ← hns]
    rfl
  · refine Or.inr ?_
    rw [← hk, ← hns]
    rfl

/-- Answers pass the care for a set on. -/
theorem setCare_passes (h : w.Keeps c log) (hb : c.Busy id key st)
    (ha : Answered l c.agent id key st st' a' notes) :
    (setCare c.agent.works.ingest c.agent.tracker name).Passes
      (setCare a'.works.ingest a'.tracker name) key st st' := by
  have hnext : Crew.IsKey appliedWorkKind ("", name) key → st'.Heeds a'.works.ingest name := by
    intro hkey
    rw [ha.works]
    by_cases hfresh : st = fresh
    · subst hfresh
      cases ha with
      | leads ha => exact (restores_of_fresh hkey ha).1
    · exact heeds_answered ha hfresh _
  refine ⟨?_, ?_, ?_⟩
  · rw [ha.works]
    rfl
  · intro hkey hm
    have hmine : Crew.IsKey appliedWorkKind ("", name) key := by
      rw [hkey]
      exact isKey_keyFor _ _ _
    cases st with
    | fresh =>
        cases ha with
        | leads ha =>
            rcases (restores_of_fresh hmine ha).2 hkey with hr | hr
            · exact Or.inl hr
            · exact Or.inr ⟨hr, hnext⟩
    | replacing work manifestWork applied =>
        obtain ⟨_, rfl⟩ := h.about id key _ hb
        obtain rfl : key.name = name := congrArg Prod.snd hmine.site.2
        refine Or.inr ⟨reads_answered ha ?_ (by simp) (Or.inr (Or.inl ⟨_, _, rfl⟩)), hnext⟩
        intro _ _ he
        cases he
        exact hm
    | removing work =>
        obtain ⟨_, rfl⟩ := h.about id key _ hb
        obtain rfl : key.name = name := congrArg Prod.snd hmine.site.2
        exact Or.inr ⟨reads_answered ha (by simp) (fun _ => hm) (Or.inr (Or.inr rfl)), hnext⟩
    | finished result =>
        cases ha with
        | leads ha => cases ha
    | _ => cases hm
  · intro hr hspares
    refine ⟨reads_answered ha ?_ ?_ (Or.inl hr), hnext⟩
    · rintro manifestWork applied rfl
      exact hspares (isKey_of_changes h hb (Or.inl ⟨_, _, rfl⟩))
    · intro he
      subst he
      exact hspares (isKey_of_changes h hb (Or.inr rfl))

/-- The set of every deployment record is seen to. -/
def SetsTended (l : Lookups) (c : Crew) : Prop :=
  ∀ name, name ≠ "" → c.Tends l (setCare c.agent.works.ingest c.agent.tracker name)

theorem setsTended_start (l : Lookups) (cluster : String) (timeout : Duration)
    (limiter : Limiter ObjectKey) (manifestWorks : Table RecordKey ManifestWork) (workers : Nat) :
    SetsTended l (.start (.fresh cluster timeout limiter manifestWorks) workers) := by
  intro name _
  refine Or.inr (Or.inr ⟨⟨?_, fun _ => rfl⟩, fun _ _ _ hb => absurd hb Crew.not_busy_start⟩)
  intro o work hat
  rw [Ingest.at?] at hat
  change Cache.lookup? {} "" name = some o at hat
  rw [Cache.lookup?_empty] at hat
  cases hat

theorem SetsTended.step (h : SetsTended l c) (hk : w.Keeps c log) (hsingle : c.hands.length = 1)
    (hm : w.Allows c.floor m) (s : Crew.Step l c m c' notes) : SetsTended l c' := by
  intro name hname
  have ht := h name hname
  cases s with
  | turn id hx t =>
      refine ht.turn hk.sound hk.binds hsingle hx t (setCare_lawful _ _ hname)
        (setCare_lawful _ _ hname) ?_ ?_
      · rintro queue clock rfl
        rfl
      · rintro key st st' p rfl ha
        exact setCare_passes hk ⟨_, hx⟩ ha
  | @work e i' keys he =>
      rcases Ingest.reports_handle? hk.works hm.1.expected hm.1.versioned hm.1.scope he ("", name)
        ⟨hname, by simp⟩ with hsame | hkey
      · rw [setCare_congr _ hsame]
        exact ht.still rfl fun hd => (WorkQueue.due_addAll hk.sound.queue keys _).mpr (Or.inl hd)
      · rw [hk.worksKind] at hkey
        exact Or.inl (Or.inl ((WorkQueue.due_addAll hk.sound.queue keys _).mpr (Or.inr hkey)))
  | @object watched e held i i' keys =>
      exact ht.still rfl fun hd => (WorkQueue.due_addAll hk.sound.queue keys _).mpr (Or.inl hd)
  | fire d hd => exact ht.still rfl (WorkQueue.due_fire hk.sound.queue hd).mpr
  | mood | pass => exact ht.still rfl fun hd => hd
  | still => exact ht

end StatusRelay
