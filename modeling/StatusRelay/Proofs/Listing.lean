import StatusRelay.Proofs.Crew

/-!
# What deployment records list

A `Listing` says which entries deployment records may list, for lookups that are settled: every
entry's resource is found, and entries of one UID name one resource, so every UID belongs to one
kind. Records whose readable contents stay within the listing keep everything within it: the
caches, the stored sets and the changes that a worker has yet to announce.
-/
namespace StatusRelay

open Stage

/-- The lookups find the resource of an entry. -/
def Lookups.Serves (l : Lookups) (e : AppliedResource) (r : ApiResource) : Prop :=
  l.named e.group e.version e.resource = .ok r

structure Listing (l : Lookups) where
  has : AppliedResource → Prop
  resolves : ∀ e, has e → ∃ r, l.Serves e r
  alike : ∀ e e', has e → has e' → e.uid = e'.uid →
    e.group = e'.group ∧ e.version = e'.version ∧ e.resource = e'.resource

/-- A tracked UID whose coordinates resolve to a kind. -/
def Tracker.Tracks (t : Tracker) (l : Lookups) (kind : ResourceKind) (uid : String) : Prop :=
  ∃ e r, t.Stores e ∧ e.uid = uid ∧ l.Serves e r ∧ r.resourceKind = kind

namespace Stage

/-- The changes that the registry has not been told of. -/
def owed : Stage → List Change
  | changing changes => changes
  | telling c _ changes => c :: changes
  | posting _ _ changes => changes
  | _ => []

theorem owed_finished (result : Except AgentError Outcome) : (finished result).owed = [] := rfl

theorem owed_first (key : ObjectKey) : (first key).owed = [] :=
  of_first (P := fun st => st.owed = []) owed_finished rfl key

theorem owed_opened (o : Object) : (opened o).owed = [] :=
  of_opened (P := fun st => st.owed = []) owed_finished fun _ _ => rfl

theorem owed_recorded (o : Object) (record : WorkStatus) : (recorded o record).owed = [] :=
  of_recorded (P := fun st => st.owed = []) record owed_finished (fun _ _ => rfl) fun _ _ => rfl

theorem owed_created (o : Object) (v : Except AgentError WorkStatus) :
    (written (recorded o) v).owed = [] :=
  of_created (P := fun st => st.owed = []) owed_finished (fun _ _ => rfl) (fun _ _ => rfl) v

theorem owed_patched (o : Object) (v : Except AgentError WorkStatus) :
    (written (labelled o) v).owed = [] :=
  of_patched (P := fun st => st.owed = []) owed_finished (fun _ _ => rfl) v

theorem owed_updated (v : Except AgentError WorkStatus) :
    (written (fun _ => finished (.ok .settled)) v).owed = [] :=
  of_updated (P := fun st => st.owed = []) owed_finished v

theorem owed_erased (v : Except AgentError Unit) : (erased v).owed = [] :=
  of_erased (P := fun st => st.owed = []) owed_finished v

theorem owed_of_result? {st : Stage} {result : Except AgentError Outcome}
    (h : st.result? = some result) : st.owed = [] := by
  unfold result? at h
  split at h
  · rfl
  · rfl
  · cases h

end Stage

namespace Listing

variable {l : Lookups} {w : Listing l} {a a' : Agent} {id : WorkerId} {key : ObjectKey}
  {st st' : Stage} {notes : List Note} {e e' : AppliedResource} {r r' : ApiResource}

/-- Entries of one UID are served as one resource. -/
theorem serves_alike (w : Listing l) (he : w.has e) (he' : w.has e') (hu : e.uid = e'.uid)
    (hr : l.Serves e r) (hr' : l.Serves e' r') : r = r' := by
  obtain ⟨hg, hv, hp⟩ := w.alike e e' he he' hu
  unfold Lookups.Serves at hr hr'
  rw [hg, hv, hp, hr'] at hr
  cases hr
  rfl

/-- A deployment record that can be read lists nothing else. -/
def Accepts (w : Listing l) (o : Object) : Prop :=
  ∀ work, AppliedWork.ofObject o = .ok work → ∀ e ∈ work.resources, e.uid ≠ "" → w.has e

/-- Events bring only deployment records that the listing accepts. -/
def Permits (w : Listing l) : Move → Prop
  | .work e => ∀ o, e.stored? = some o → w.Accepts o
  | .turn _ | .object _ _ | .fire _ | .mood _ _ | .pass _ => True

/-- The data of a stage stays within the listing. -/
def Fits (w : Listing l) : Stage → Prop
  | replacing _ _ applied => applied.Clean ∧ ∀ e ∈ applied.entries, w.has e
  | changing changes => ∀ c ∈ changes, w.has c.entry
  | telling c r changes | posting c r changes =>
      w.has c.entry ∧ l.Serves c.entry r ∧ ∀ d ∈ changes, w.has d.entry
  | _ => True

/-- What the agent has seen and stored stays within the listing. -/
structure Admits (w : Listing l) (a : Agent) : Prop where
  works : a.works.ingest.All w.Accepts
  stores : ∀ e, a.tracker.Stores e → w.has e

theorem admits_fresh (w : Listing l) (cluster : String) (timeout : Duration)
    (limiter : Limiter ObjectKey) (manifestWorks : Table RecordKey ManifestWork) :
    w.Admits (.fresh cluster timeout limiter manifestWorks) where
  works := Ingest.all_start w.Accepts _
  stores := by
    rintro e ⟨work, tracked, hg, _⟩
    cases hg

theorem fits_finished (w : Listing l) (result : Except AgentError Outcome) :
    w.Fits (finished result) := trivial

theorem fits_opened {o : Object} (h : w.Accepts o) : w.Fits (opened o) := by
  refine of_opened w.fits_finished fun work hw => ⟨AppliedSet.clean_ofResources _, ?_⟩
  intro e he
  obtain ⟨hm, hu⟩ := AppliedSet.mem_ofResources he
  exact h work hw e hm hu

theorem fits_recorded (w : Listing l) (o : Object) (record : WorkStatus) :
    w.Fits (recorded o record) :=
  of_recorded record w.fits_finished (fun _ _ => trivial) fun _ _ => trivial

theorem fits_first (w : Listing l) (key : ObjectKey) : w.Fits (first key) :=
  of_first w.fits_finished trivial key

theorem clean_of_fits (w : Listing l) (h : w.Fits st) : st.Clean := by
  cases st with
  | replacing work manifestWork applied => exact h.1
  | _ => trivial

theorem accepts_of_find (h : w.Admits a) {kind : ResourceKind} (hk : kind = appliedWorkKind)
    {ns name : String} {o : Object} (hf : a.find kind ns name = .present o) : w.Accepts o := by
  simp only [Agent.find, Agent.cacheOf?, if_pos hk] at hf
  split at hf
  · rename_i o' ho
    cases hf
    exact h.works.of_lookup? ho
  · cases hf

theorem fits_leads (h : w.Admits a) (hf : w.Fits st) (ha : Leads l a id key st st' notes) :
    w.Fits st' := by
  cases ha with
  | presentWork o hfind hk => exact fits_opened (accepts_of_find h hk hfind)
  | read o owner record => exact fits_recorded w o record
  | served c changes r hr =>
      exact ⟨hf c List.mem_cons_self, hr, fun d hd => hf d (List.mem_cons_of_mem _ hd)⟩
  | unserved c changes e he => exact fun d hd => hf d (List.mem_cons_of_mem _ hd)
  | _ => trivial

/-- The changes between two sets are of entries that were stored or are stored now. -/
theorem has_ofDifference (w : Listing l) {t t' : Tracker} {applied : AppliedSet}
    {d : AppliedSet.Difference} (hc : t.Changed t' applied d) (ht : ∀ e, t.Stores e → w.has e)
    (ha : ∀ e ∈ applied.entries, w.has e) : ∀ c ∈ Change.ofDifference d, w.has c.entry := by
  intro c hm
  rcases List.mem_append.mp hm with hm | hm
  · obtain ⟨e, he, rfl⟩ := List.mem_map.mp hm
    exact ha e (hc.added e he).1
  · obtain ⟨e, he, rfl⟩ := List.mem_map.mp hm
    exact ht e (hc.removed e he).1

theorem stores_changed (w : Listing l) {t t' : Tracker} {applied : AppliedSet}
    {d : AppliedSet.Difference} (hc : t.Changed t' applied d) (ht : ∀ e, t.Stores e → w.has e)
    (ha : ∀ e ∈ applied.entries, w.has e) : ∀ e, t'.Stores e → w.has e :=
  fun e he => (hc.stores e he).elim (ht e) (ha e)

/-- What a tracker reports when it forgets a record, known to it or not. -/
theorem changed_remove_getD {t : Tracker} (h : t.Sound) (work : String) :
    t.Changed (t.remove work).2 {} { removed := (t.remove work).1.getD {} } := by
  cases hr : (t.remove work).1 with
  | some released => exact Tracker.changed_remove h hr
  | none =>
      have hg : t.works.get? work = none := by
        cases hg : t.works.get? work with
        | none => rfl
        | some tracked =>
            rw [Tracker.remove_eq_replace hg ""] at hr
            cases hr
      rw [Tracker.remove_of_get?_eq_none hg]
      exact ⟨fun _ he => Or.inl he, fun _ he => absurd he List.not_mem_nil,
        fun _ he => absurd he List.not_mem_nil, fun _ hu => Or.inl hu, fun _ hu => Or.inl hu⟩

theorem Admits.answered (h : w.Admits a) (ht : a.tracker.Sound) (hf : w.Fits st)
    (ha : Answered l a id key st st' a' notes) : w.Admits a' ∧ w.Fits st' := by
  cases ha with
  | leads ha => exact ⟨h, fits_leads h hf ha⟩
  | creates o record hw =>
      obtain ⟨hub, rfl⟩ := hw.frame
      exact ⟨⟨h.works, h.stores⟩, of_created w.fits_finished (fun _ _ => trivial)
        (fun _ _ => trivial) _⟩
  | patches o record label hw =>
      obtain ⟨hub, rfl⟩ := hw.frame
      exact ⟨⟨h.works, h.stores⟩, of_patched w.fits_finished (fun _ _ => trivial) _⟩
  | updates record status hw =>
      obtain ⟨hub, rfl⟩ := hw.frame
      exact ⟨⟨h.works, h.stores⟩, of_updated w.fits_finished _⟩
  | erases name hw =>
      obtain ⟨hub, rfl⟩ := hw.frame
      exact ⟨⟨h.works, h.stores⟩, of_erased w.fits_finished _⟩
  | replaces work manifestWork applied =>
      have hc : a.tracker.Changed (a.tracker.replace work manifestWork applied).2 applied
          (a.tracker.replace work manifestWork applied).1 := Tracker.changed_replace ht hf.1
      exact ⟨⟨h.works, stores_changed w hc h.stores hf.2⟩,
        has_ofDifference w hc h.stores hf.2⟩
  | removes work =>
      have hc := changed_remove_getD ht work
      have hnone : ∀ e ∈ ({} : AppliedSet).entries, w.has e :=
        fun e he => absurd he List.not_mem_nil
      exact ⟨⟨h.works, stores_changed w hc h.stores hnone⟩,
        has_ofDifference w hc h.stores hnone⟩
  | acquires c r changes hc => exact ⟨⟨h.works, h.stores⟩, hf⟩
  | releases c r changes hc => exact ⟨⟨h.works, h.stores⟩, hf⟩
  | posts c r changes => exact ⟨⟨h.works, h.stores⟩, hf.2.2⟩

/-- How an answer moves the changes that are owed to the registry: not at all, by a new difference,
or by telling the registry of the first of them. -/
inductive Announces (w : Listing l) (a a' : Agent) :
    List Change → List Change → List Note → Prop
  | nothing {owed : List Change} {notes : List Note} (ht : a'.tracker = a.tracker)
      (hr : a'.registry.held = a.registry.held) (hn : ∀ n ∈ notes, n.isNews = false) :
      Announces w a a' owed owed notes
  | difference {applied : AppliedSet} {d : AppliedSet.Difference}
      (hc : a.tracker.Changed a'.tracker applied d)
      (hr : a'.registry.held = a.registry.held) :
      Announces w a a' [] (Change.ofDifference d) (Note.ofChanges d)
  | acquired {c : Change} {r : ApiResource} {owed : List Change} (he : w.has c.entry)
      (hs : l.Serves c.entry r) (hg : c.gained = true) (ht : a'.tracker = a.tracker)
      (hr : a'.registry = (a.registry.acquire r c.uid).2) :
      Announces w a a' (c :: owed) owed [.acquired c.uid]
  | released {c : Change} {r : ApiResource} {owed : List Change} (he : w.has c.entry)
      (hs : l.Serves c.entry r) (hg : c.gained = false) (ht : a'.tracker = a.tracker)
      (hr : a'.registry = (a.registry.release r.resourceKind c.uid).2) :
      Announces w a a' (c :: owed) owed [.released c.uid]

theorem owed_leads (hf : w.Fits st) (ha : Leads l a id key st st' notes) :
    st'.owed = st.owed ∧ ∀ n ∈ notes, n.isNews = false := by
  cases ha with
  | presentWork o => exact ⟨owed_opened o, by simp [Note.isNews]⟩
  | read o owner record => exact ⟨owed_recorded o record, by simp⟩
  | unserved c changes e he =>
      obtain ⟨r, hr⟩ := w.resolves c.entry (hf c List.mem_cons_self)
      rw [Lookups.Serves, he] at hr
      cases hr
  | _ => exact ⟨rfl, by simp [Note.isNews]⟩

theorem announces (ht : a.tracker.Sound) (hf : w.Fits st)
    (ha : Answered l a id key st st' a' notes) : Announces w a a' st.owed st'.owed notes := by
  cases ha with
  | leads ha =>
      obtain ⟨howed, hnews⟩ := owed_leads hf ha
      rw [howed]
      exact .nothing rfl rfl hnews
  | creates o record hw =>
      obtain ⟨hub, rfl⟩ := hw.frame
      rw [owed_created]
      exact .nothing rfl rfl fun n hn => Note.eq_of_mem_ofAnswer_create hn ▸ rfl
  | patches o record label hw =>
      obtain ⟨hub, rfl⟩ := hw.frame
      rw [owed_patched]
      exact .nothing rfl rfl (by simp)
  | updates record status hw =>
      obtain ⟨hub, rfl⟩ := hw.frame
      rw [owed_updated]
      exact .nothing rfl rfl (by simp)
  | erases name hw =>
      obtain ⟨hub, rfl⟩ := hw.frame
      rw [owed_erased]
      exact .nothing rfl rfl fun n hn => Note.eq_of_mem_ofAnswer_delete hn ▸ rfl
  | replaces work manifestWork applied => exact .difference (Tracker.changed_replace ht hf.1) rfl
  | removes work => exact .difference (changed_remove_getD ht work) rfl
  | acquires c r changes hg => exact .acquired hf.1 hf.2.1 hg rfl rfl
  | releases c r changes hg => exact .released hf.1 hf.2.1 hg rfl rfl
  | posts c r changes => exact .nothing rfl rfl (by simp [Note.isNews])

/-- A crew whose agent and whose hands stay within the listing. -/
structure Binds (w : Listing l) (c : Crew) : Prop where
  admits : w.Admits c.agent
  fits : ∀ id key stage, c.Busy id key stage → w.Fits stage

theorem binds_start (w : Listing l) (cluster : String) (timeout : Duration)
    (limiter : Limiter ObjectKey) (manifestWorks : Table RecordKey ManifestWork) (workers : Nat) :
    w.Binds (.start (.fresh cluster timeout limiter manifestWorks) workers) where
  admits := w.admits_fresh cluster timeout limiter manifestWorks
  fits := fun _ _ _ hb => absurd hb Crew.not_busy_start

theorem Binds.turn {c : Crew} (h : w.Binds c) (hs : c.Sound) {x x' : Hand}
    (hx : c.hands[id]? = some x) (t : Turned l c.agent id x x' a' notes) :
    w.Binds ⟨a', c.hands.set id x'⟩ := by
  refine ⟨t.agent_of (fun _ _ => ⟨h.admits.works, h.admits.stores⟩) ?_,
    Crew.busy_turn hx t (fun key _ => w.fits_first key) h.fits ?_⟩
  · rintro key st st' p rfl ha
    exact (h.admits.answered hs.tracker (h.fits id key st ⟨p, hx⟩) ha).1
  · intro key st st' hb ha
    exact (h.admits.answered hs.tracker (h.fits id key st hb) ha).2

theorem Binds.step {c c' : Crew} {m : Move} (h : w.Binds c) (hs : c.Sound) (hm : w.Permits m)
    (s : Crew.Step l c m c' notes) : w.Binds c' := by
  cases s with
  | turn id hx t => exact h.turn hs hx t
  | work e he => exact ⟨⟨h.admits.works.handle? hm he, h.admits.stores⟩, h.fits⟩
  | object | fire | mood | pass => exact ⟨⟨h.admits.works, h.admits.stores⟩, h.fits⟩
  | still => exact h

end Listing

/-! ## A listing of widgets -/

namespace Widgets

def resource : ApiResource := .of "example.com" "v1" "Widget" "widgets"

/-- Every lookup finds widgets. -/
def lookups : Lookups := ⟨fun _ _ _ => .ok resource, fun _ => .ok resource⟩

def entry : AppliedResource := ⟨"example.com", "v1", "widgets", "default", "w", "u"⟩

/-- The deployment record of some name that lists one widget. -/
def work (name : String) : Object where
  metadata := { name := some name, resourceVersion := some "1" }
  spec := some (.obj [("manifestWorkName", .str name)])
  statusMember := some (.obj [("appliedResources", .arr [entry.toJson])])

def listing : Listing lookups where
  has e := e = entry
  resolves := fun _ _ => ⟨resource, rfl⟩
  alike := by
    rintro e e' rfl rfl _
    exact ⟨rfl, rfl, rfl⟩

theorem accepts_work (name : String) : listing.Accepts (work name) := by
  intro work hw e he _
  cases hw
  exact List.mem_singleton.mp he

def agent : Agent :=
  .fresh "cluster1" (.ofSeconds 5) (.exponential (.ofMillis 5) (.ofSeconds 1000) {}) {}

end Widgets
end StatusRelay
