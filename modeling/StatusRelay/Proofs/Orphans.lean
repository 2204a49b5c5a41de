import StatusRelay.Proofs.Traces

/-!
# Records without an object

Something is at stake at a site while its record exists or a worker is about to make it. A stake is
accounted for as long as the object is tracked, or the deletion key of the site is on its way, or a
worker has that key in hand and is going to clear the record. What is at stake stays accounted for
from step to step, but for three things that can go wrong: a worker was overtaken before it made the
record, an object took the place of another one, or the registry dropped a watch that was needed.
-/
namespace StatusRelay

open Stage Ingest Note

/-- The changes whose objects' keys are still to be queued. -/
def Stage.toPost : Stage → List Change
  | changing changes => changes
  | telling c _ changes | posting c _ changes => c :: changes
  | _ => []

/-- A worker at this stage is going to make the record, if it is missing. -/
def Stage.Making (t : Tracker) : Stage → Prop
  | found o => t.Lists o.uid
  | reading _ _ | fetching _ _ | resolving _ _ | creating _ _ => True
  | _ => False

/-- A worker at this stage is going to clear the record, or to try again. -/
def Stage.Clearing (t : Tracker) : Stage → Prop
  | fresh | looking _ | erasing _ => True
  | found o => ¬ t.Lists o.uid
  | finished result => Agent.retries result = true
  | _ => False

namespace Crew

/-- A worker is going to queue a key. -/
def Posts (l : Lookups) (c : Crew) (key : ObjectKey) : Prop :=
  ∃ id k stage d r, c.Busy id k stage ∧ d ∈ stage.toPost ∧ l.Serves d.entry r ∧ d.key r = key

/-- A key is due or is going to be queued. -/
def Coming (l : Lookups) (c : Crew) (key : ObjectKey) : Prop :=
  c.agent.queue.Due key ∨ c.Posts l key

/-- The live key or the deletion key of a site. -/
def IsKey (kind : ResourceKind) (p : Coordinates) (key : ObjectKey) : Prop :=
  key = liveKey kind p ∨ key = (liveKey kind p).intoDeleted

/-- The object at a site is cached and listed. -/
def Tracked (c : Crew) (kind : ResourceKind) (p : Coordinates) : Prop :=
  ∃ o, c.agent.Caches kind p o ∧ c.agent.tracker.Lists o.uid

/-- There is a record that is not late, or a worker that was not overtaken is going to make one. -/
def Stakes (c : Crew) (log : List Note) (kind : ResourceKind) (p : Coordinates) : Prop :=
  (c.agent.Records (recordOf kind p) ∧ ¬ Late (recordOf kind p) log) ∨
    ∃ id key stage, c.Busy id key stage ∧ IsKey kind p key ∧ stage.Making c.agent.tracker ∧
      ¬ Overtaken id (recordOf kind p) log

/-- There should be a record, or the deletion key will see to it. -/
def Accounted (l : Lookups) (c : Crew) (kind : ResourceKind) (p : Coordinates) : Prop :=
  c.Tracked kind p ∨ c.Coming l (liveKey kind p).intoDeleted ∨
    ∃ id stage, c.Busy id (liveKey kind p).intoDeleted stage ∧ stage.Clearing c.agent.tracker

/-- Two workers have keys in hand. -/
def Crowded (c : Crew) : Prop :=
  ∃ id id' key key' stage stage', id ≠ id' ∧ c.Busy id key stage ∧ c.Busy id' key' stage'

/-- The registry drops the last holder of a kind, while the object at a site is listed. -/
def Drops (c : Crew) (notes : List Note) (kind : ResourceKind) (p : Coordinates) : Prop :=
  ∃ uid o, notes = [.released uid] ∧ c.agent.Caches kind p o ∧ c.agent.tracker.Lists o.uid ∧
    ∀ v, c.agent.registry.Holds kind v → v = uid

end Crew

variable {l : Lookups} {w : World l} {c c' : Crew} {m : Move} {a' : Agent} {id j : WorkerId}
  {x x' : Hand} {key k : ObjectKey} {stage : Stage} {notes log : List Note}
  {kind : ResourceKind} {p : Coordinates}

/-! ## Keys on their way -/

theorem toPost_of_result? {result : Except AgentError Outcome} (h : stage.result? = some result) :
    stage.toPost = [] := by
  unfold result? at h
  split at h
  · rfl
  · rfl
  · cases h

/-- What is to be queued stays to be queued until it is. -/
theorem Answered.toPost {st st' : Stage} (h : Answered l c.agent id key st st' a' notes)
    (hf : w.Fits st) {d : Change} (hd : d ∈ st.toPost) :
    d ∈ st'.toPost ∨ ∃ r, Note.posted (d.key r) ∈ notes ∧ l.Serves d.entry r := by
  cases h with
  | leads h =>
      cases h with
      | served => exact Or.inl hd
      | unserved e changes err he =>
          obtain ⟨r, hr⟩ := w.resolves e.entry (hf e List.mem_cons_self)
          rw [Lookups.Serves, he] at hr
          cases hr
      | _ => cases hd
  | acquires | releases => exact Or.inl hd
  | posts e r changes =>
      rcases List.mem_cons.mp hd with rfl | hd
      · exact Or.inr ⟨r, List.mem_singleton.mpr rfl, hf.2.1⟩
      · exact Or.inl hd
  | creates | patches | updates | erases | replaces | removes => cases hd

theorem Crew.Posts.turn (h : c.Posts l k) (hb : w.Binds c) (hx : c.hands[id]? = some x)
    (t : Turned l c.agent id x x' a' notes) :
    (⟨a', c.hands.set id x'⟩ : Crew).Posts l k ∨ Note.posted k ∈ notes := by
  obtain ⟨j, key, stage, d, r, hbusy, hd, hr, rfl⟩ := h
  by_cases hj : id = j
  · subst hj
    obtain ⟨q, hq⟩ := hbusy
    rw [hx] at hq
    cases hq
    cases t with
    | waits hh | takes _ hh => rcases hh with hh | hh <;> cases hh
    | begins _ _ pending =>
        exact Or.inl ⟨id, key, stage, d, r, Crew.busy_set_self hx, hd, hr, rfl⟩
    | answers _ ha =>
        rcases ha.toPost (hb.fits id key stage ⟨_, hx⟩) hd with hd | ⟨r', hp, hr'⟩
        · exact Or.inl ⟨id, key, _, d, r, Crew.busy_set_self hx, hd, hr, rfl⟩
        · rw [Lookups.Serves, hr'] at hr
          cases hr
          exact Or.inr hp
    | settles _ hres =>
        rw [toPost_of_result? hres] at hd
        cases hd
  · have hbusy' : (⟨a', c.hands.set id x'⟩ : Crew).Busy j key stage := hbusy.set_ne hx hj
    exact Or.inl ⟨j, key, stage, d, r, hbusy', hd, hr, rfl⟩

theorem Turned.due_of_posted (t : Turned l c.agent id x x' a' notes) (hs : c.Sound)
    (hk : Note.posted k ∈ notes) : a'.queue.Due k := by
  rcases t.answered with ⟨rfl, _⟩ | ⟨_, _, _, _, _, _, ha⟩
  · cases hk
  · exact (ha.due_iff hs.queue k).mpr (Or.inr hk)

theorem Turned.due_or_taken (t : Turned l c.agent id x x' a' notes) (hs : c.Sound)
    (hk : c.agent.queue.Due k) : a'.queue.Due k ∨ x' = .busy k (first k) none := by
  cases t with
  | waits hh hq => exact Or.inl ((hq.due_iff k).mpr hk)
  | takes key hh hq =>
      by_cases he : k = key
      · exact Or.inr (he ▸ rfl)
      · exact Or.inl ((hq.rest k he).mpr hk)
  | begins | gone => exact Or.inl hk
  | answers key ha => exact Or.inl ((ha.due_iff hs.queue k).mpr (Or.inl hk))
  | settles key => exact Or.inl ((Agent.due_settle hs.queue).mpr (Or.inl hk))

/-- A key that is coming comes, or is in somebody's hand now. -/
theorem Crew.Coming.turn (h : c.Coming l k) (hs : c.Sound) (hb : w.Binds c)
    (hx : c.hands[id]? = some x) (t : Turned l c.agent id x x' a' notes) :
    (⟨a', c.hands.set id x'⟩ : Crew).Coming l k ∨
      (⟨a', c.hands.set id x'⟩ : Crew).Busy id k (first k) := by
  rcases h with hd | hp
  · rcases t.due_or_taken hs hd with hd | rfl
    · exact Or.inl (Or.inl hd)
    · exact Or.inr (Crew.busy_set_self hx)
  · rcases hp.turn hb hx t with hp | hn
    · exact Or.inl (Or.inr hp)
    · exact Or.inl (Or.inl (t.due_of_posted hs hn))

/-- How a turn changes the tracker: not at all, or by changes that are to be told and posted. -/
theorem Turned.tracker (t : Turned l c.agent id x x' a' notes) (hs : c.Sound)
    (hx : c.hands[id]? = some x) :
    a'.tracker = c.agent.tracker ∨ (∃ key stage, c.Busy id key stage) ∧
      ∃ applied d k, c.agent.tracker.Changed a'.tracker applied d ∧
        x' = .busy k (changing (Change.ofDifference d)) none := by
  rcases t.answered with ⟨_, _, _, rfl⟩ | ⟨key, st, st', p, rfl, rfl, ha⟩
  · exact Or.inl rfl
  · have hbusy : c.Busy id key st := ⟨p, hx⟩
    rcases ha.tracker_cases with ⟨work, manifestWork, applied, rfl, rfl, rfl⟩ |
      ⟨work, rfl, rfl, rfl⟩ | ⟨ht, _⟩
    · exact Or.inr ⟨⟨key, _, hbusy⟩, _, _, key,
        Tracker.changed_replace hs.tracker (hs.clean id key _ hbusy), rfl⟩
    · exact Or.inr ⟨⟨key, _, hbusy⟩, _, _, key,
        Listing.changed_remove_getD hs.tracker work, rfl⟩
    · exact Or.inl ht

/-- An entry that is stored and has the UID of an object of the world names the object. -/
theorem World.Owns.key_eq {o : Object} (ho : w.Owns kind o) (hp : o.coordinates = p)
    {d : Change} (hd : w.has d.entry) (hu : d.uid = o.uid) :
    ∃ r, l.Serves d.entry r ∧
      d.key r = if d.gained then liveKey kind p else (liveKey kind p).intoDeleted := by
  obtain ⟨r, hr⟩ := w.resolves d.entry hd
  obtain ⟨rfl, hc⟩ := ho.2 d.entry r hd hu hr
  refine ⟨r, hr, ?_⟩
  rw [← hp, ← hc]
  rfl

/-- An object whose UID comes to be listed, or ceases to be, is going to have its key queued. -/
theorem Crew.posts_of_changed {d : AppliedSet.Difference} (hx : c.hands[id]? = some x)
    (hb : w.Binds ⟨a', c.hands.set id (.busy k (changing (Change.ofDifference d)) none)⟩)
    {o : Object} (ho : w.Owns kind o) (hp : o.coordinates = p) {e : Change}
    (he : e ∈ Change.ofDifference d) (hu : e.uid = o.uid) :
    (⟨a', c.hands.set id (.busy k (changing (Change.ofDifference d)) none)⟩ : Crew).Posts l
      (if e.gained then liveKey kind p else (liveKey kind p).intoDeleted) := by
  have hbusy : (⟨a', c.hands.set id (.busy k (changing (Change.ofDifference d)) none)⟩ :
      Crew).Busy id k (changing (Change.ofDifference d)) :=
    Crew.busy_set_self hx
  obtain ⟨r, hr, hkey⟩ := ho.key_eq hp (hb.fits id k _ hbusy e he) hu
  exact ⟨id, k, _, e, r, hbusy, he, hr, hkey⟩

/-! ## Objects in the caches -/

theorem Registry.Sound.intake?_release {r : Registry} (h : r.Sound) {i : Ingest}
    (other : ResourceKind) (uid : String) (hi : r.intake? kind = some i) :
    (r.release other uid).2.intake? kind = some i ∨ ∀ v, r.Holds kind v → v = uid := by
  by_cases hk : ∃ v, (r.release other uid).2.Holds kind v
  · rw [Registry.intake?_release h hk, hi]
    exact Or.inl rfl
  · refine Or.inr fun v hv => ?_
    by_contra hne
    exact hk ⟨v, (Registry.holds_release h other uid kind v).mpr ⟨hv, fun hc => hne hc.2⟩⟩

/-- A turn takes no object out of a cache, unless it drops the watch. -/
theorem Turned.caches (t : Turned l c.agent id x x' a' notes) (hs : c.Sound) {o : Object}
    (ho : c.agent.Caches kind p o) :
    a'.Caches kind p o ∨
      ∃ uid, notes = [.released uid] ∧ ∀ v, c.agent.registry.Holds kind v → v = uid := by
  obtain ⟨i, hi, hat⟩ := ho
  rcases t.answered with ⟨_, _, _, rfl⟩ | ⟨key, st, st', p, _, _, ha⟩
  · exact Or.inl ⟨i, hi, hat⟩
  · cases ha with
    | leads | replaces | removes | posts => exact Or.inl ⟨i, hi, hat⟩
    | creates o record h | patches o record label h | updates record status h | erases name h =>
        obtain ⟨hub, rfl⟩ := h.frame
        exact Or.inl ⟨i, hi, hat⟩
    | acquires d r =>
        refine Or.inl ⟨i, ?_, hat⟩
        exact (Registry.intake?_acquire hs.registry (by rw [hi]; rfl)).trans hi
    | releases d r =>
        rcases hs.registry.intake?_release r.resourceKind d.uid hi with hi | hlast
        · exact Or.inl ⟨i, hi, hat⟩
        · exact Or.inr ⟨d.uid, rfl, hlast⟩

/-- A turn brings no object into a cache. -/
theorem Turned.caches_back (t : Turned l c.agent id x x' a' notes) (hs : c.Sound) {o : Object}
    (ho : a'.Caches kind p o) : c.agent.Caches kind p o := by
  obtain ⟨i, hi, hat⟩ := ho
  rcases t.intake? hs.registry hi with hi | ⟨_, rfl⟩
  · exact ⟨i, hi, hat⟩
  · rw [Ingest.at?, Cache.lookup?_empty] at hat
    cases hat

/-! ## Turns -/

theorem Crew.IsKey.of_known (h : w.Known key) (hk : key.kind ≠ appliedWorkKind) :
    Crew.IsKey key.kind (key.ns, key.name) key := by
  obtain ⟨kind, c, _, rfl | rfl⟩ := h
  · exact Or.inl rfl
  · exact Or.inr rfl

theorem Crew.IsKey.site (h : Crew.IsKey kind p key) : key.kind = kind ∧ (key.ns, key.name) = p := by
  rcases h with rfl | rfl
  · exact ⟨rfl, rfl⟩
  · exact ⟨rfl, rfl⟩

/-- The key of a record is the key of its site. -/
theorem World.Keeps.isKey (h : w.Keeps c log) (hp : w.site kind p) (hb : c.Busy id key stage)
    (hk : key.kind ≠ appliedWorkKind)
    (hr : recordOf key.kind (key.ns, key.name) = recordOf kind p) : Crew.IsKey kind p key := by
  have hknown := h.known hb
  obtain ⟨rfl, rfl⟩ := w.apart _ _ _ _ (World.site_of_known hknown hk) hp hr
  exact .of_known hknown hk

/-- Only the worker that finds an object is no longer overtaken. -/
theorem Turned.found_id (t : Turned l c.agent id x x' a' notes) {k : ObjectKey}
    (hk : Note.found j k ∈ notes) : j = id := by
  rcases t.answered with ⟨rfl, _⟩ | ⟨_, _, _, _, _, _, ha⟩
  · cases hk
  · cases ha with
    | leads ha =>
        cases ha with
        | present | presentWork =>
            cases List.mem_singleton.mp hk
            rfl
        | clear => cases List.mem_singleton.mp hk
        | _ => cases hk
    | creates => cases Note.eq_of_mem_ofAnswer_create hk
    | erases => cases Note.eq_of_mem_ofAnswer_delete hk
    | patches | updates => cases hk
    | replaces | removes =>
        obtain ⟨uid, h | h⟩ := Note.mem_ofChanges hk <;> cases h
    | acquires | releases | posts => cases List.mem_singleton.mp hk

/-- A UID comes to be listed while another worker has its object in hand. -/
theorem World.Keeps.gained_turn (h : w.Keeps c log) (hx : c.hands[id]? = some x)
    (t : Turned l c.agent id x x' a' notes) (hj : id ≠ j) {o : Object}
    (hbusy : c.Busy j key (found o)) (hkey : Crew.IsKey kind p key)
    (hl : a'.tracker.Lists o.uid) :
    c.agent.tracker.Lists o.uid ∨
      (⟨a', c.hands.set id x'⟩ : Crew).Posts l (liveKey kind p) ∧ c.Crowded := by
  have hb := h.binds.turn h.sound hx t
  rcases t.tracker h.sound hx with ht | ⟨⟨key', stage', hb'⟩, applied, d, k, hc, rfl⟩
  · exact Or.inl (ht ▸ hl)
  · rcases hc.gains o.uid hl with hl | ⟨e, he, hu⟩
    · exact Or.inl hl
    · obtain ⟨_, hcoords, howns⟩ := h.about j key _ hbusy
      obtain ⟨rfl, rfl⟩ := hkey.site
      refine Or.inr ⟨?_, id, j, key', key, stage', _, hj, hb', hbusy⟩
      exact Crew.posts_of_changed hx hb howns hcoords (e := ⟨true, e⟩)
        (List.mem_append.mpr (Or.inl (List.mem_map_of_mem he))) hu

theorem World.Keeps.owns (h : w.Keeps c log) (hp : w.site kind p) {o : Object}
    (ho : c.agent.Caches kind p o) : w.Owns kind o ∧ o.coordinates = p := by
  obtain ⟨i, hi, hat⟩ := ho
  have hsees := h.sees kind i hi
  exact ⟨hsees.owns.of_lookup? hat, (hsees.sound.of_at? (w.fits kind p hp) hat).2⟩

theorem Crew.Tracked.turn (ht : c.Tracked kind p) (h : w.Keeps c log) (hp : w.site kind p)
    (hx : c.hands[id]? = some x) (t : Turned l c.agent id x x' a' notes) :
    (⟨a', c.hands.set id x'⟩ : Crew).Tracked kind p ∨
      (⟨a', c.hands.set id x'⟩ : Crew).Posts l (liveKey kind p).intoDeleted ∨
      c.Drops notes kind p := by
  obtain ⟨o, ho, hl⟩ := ht
  have hb := h.binds.turn h.sound hx t
  rcases t.caches h.sound ho with ho' | ⟨uid, hn, hlast⟩
  · rcases t.tracker h.sound hx with htr | ⟨_, applied, d, k, hc, rfl⟩
    · exact Or.inl ⟨o, ho', htr ▸ hl⟩
    · rcases hc.losses o.uid hl with hl' | ⟨e, he, hu⟩
      · exact Or.inl ⟨o, ho', hl'⟩
      · obtain ⟨howns, hcoords⟩ := h.owns hp ho
        refine Or.inr (Or.inl ?_)
        exact Crew.posts_of_changed hx hb howns hcoords (e := ⟨false, e⟩)
          (List.mem_append.mpr (Or.inr (List.mem_map_of_mem he))) hu
  · exact Or.inr (Or.inr ⟨uid, o, hn, ho, hl, hlast⟩)

theorem not_making_finished (t : Tracker) (result : Except AgentError Outcome) :
    ¬ (finished result).Making t := id

theorem not_making_first (t : Tracker) (key : ObjectKey) : ¬ (first key).Making t :=
  of_first (P := fun st => ¬ st.Making t) (not_making_finished t) id key

theorem not_making_recorded (t : Tracker) (o : Object) (record : WorkStatus) :
    ¬ (recorded o record).Making t :=
  of_recorded (P := fun st => ¬ st.Making t) record (not_making_finished t) (fun _ _ => id)
    fun _ _ => id

/-- A worker is going to make a record because it has just found the object, or it was going to
before. -/
theorem Answered.making {st st' : Stage} {a : Agent} (h : Answered l a id key st st' a' notes)
    (ht : a.tracker.Sound) (hm : st'.Making a'.tracker) :
    (∃ o, st = fresh ∧ st' = Stage.found o ∧ a' = a ∧ a.find key.kind key.ns key.name = .present o ∧
      key.kind ≠ appliedWorkKind ∧ notes = [.found id { key with deleted := none }]) ∨
      st.Making a.tracker ∧ notes = [] := by
  cases h with
  | leads h =>
      cases h with
      | present o hf hk => exact Or.inl ⟨o, rfl, rfl, rfl, hf, hk, rfl⟩
      | owned o owner ho =>
          refine Or.inr ⟨(ht.isSome_owner_iff o.uid).mp ?_, rfl⟩
          rw [ho]
          rfl
      | missing | fetched | resolved => exact Or.inr ⟨trivial, rfl⟩
      | presentWork o =>
          exact absurd hm (of_opened (P := fun st => ¬ st.Making _) (not_making_finished _)
            fun _ _ hm => hm)
      | read o owner record => exact absurd hm (not_making_recorded _ o record)
      | _ => cases hm
  | creates =>
      exact absurd hm (of_created (P := fun st => ¬ st.Making _) (not_making_finished _)
        (fun _ _ hm => hm) (fun _ _ hm => hm) _)
  | patches =>
      exact absurd hm (of_patched (P := fun st => ¬ st.Making _) (not_making_finished _)
        (fun _ _ hm => hm) _)
  | updates =>
      exact absurd hm (of_updated (P := fun st => ¬ st.Making _) (not_making_finished _) _)
  | erases =>
      exact absurd hm (of_erased (P := fun st => ¬ st.Making _) (not_making_finished _) _)
  | replaces | removes | acquires | releases | posts => cases hm

/-- A record that is there and not late was there before, or its worker was going to make it. -/
theorem World.Keeps.record_turn_back (h : w.Keeps c log) (hp : w.site kind p)
    (hx : c.hands[id]? = some x) (t : Turned l c.agent id x x' a' notes)
    (hr : a'.Records (recordOf kind p)) (hlate : ¬ Late (recordOf kind p) (log ++ notes)) :
    c.Stakes log kind p := by
  rcases t.handles hx (recordOf kind p) with ⟨hn, hr'⟩ | ⟨key, stage, hbusy, hhandles⟩
  · exact Or.inl ⟨hr'.mp hr, fun hl => hlate (hl.append hn)⟩
  · cases hhandles with
    | keeps hn hr' => exact Or.inl ⟨hr'.mp hr, fun hl => hlate (hl.append hn)⟩
    | clears _ hr' => exact absurd hr hr'
    | makes hst hname =>
        subst hst
        obtain ⟨hsubject, hrecord⟩ := h.about id key _ hbusy
        rw [hrecord.name] at hname
        have hkey := h.isKey hp hbusy hsubject.1 hname
        exact Or.inr ⟨id, key, _, hbusy, hkey, trivial, fun ho => hlate (late_created ho)⟩

/-- A worker that is going to make a record was going to before, or the object is tracked. -/
theorem World.Keeps.making_turn_back (h : w.Keeps c log) (hx : c.hands[id]? = some x)
    {q : Option PendingCall} (t : Turned l c.agent id x (.busy key stage q) a' notes)
    (hkey : Crew.IsKey kind p key) (hm : stage.Making a'.tracker)
    (hover : ¬ Overtaken id (recordOf kind p) (log ++ notes)) :
    c.Stakes log kind p ∨
      (⟨a', c.hands.set id (.busy key stage q)⟩ : Crew).Tracked kind p := by
  cases t with
  | takes =>
      exact absurd hm (not_making_first _ _)
  | begins =>
      rw [List.append_nil] at hover
      exact Or.inl (Or.inr ⟨id, key, stage, ⟨_, hx⟩, hkey, hm, hover⟩)
  | answers _ ha =>
      rcases ha.making h.sound.tracker hm with ⟨o, rfl, rfl, rfl, hf, hk, _⟩ | ⟨hm, rfl⟩
      · obtain ⟨rfl, rfl⟩ := hkey.site
        exact Or.inr ⟨o, (Agent.find_present_iff hk _ o).mp hf, hm⟩
      · rw [List.append_nil] at hover
        exact Or.inl (Or.inr ⟨id, key, _, ⟨_, hx⟩, hkey, hm, hover⟩)

/-- What is at stake after a turn was at stake before, or there should be a record now. -/
theorem Crew.Stakes.turn_back (h : w.Keeps c log) (hp : w.site kind p)
    (hx : c.hands[id]? = some x) (t : Turned l c.agent id x x' a' notes)
    (hs : (⟨a', c.hands.set id x'⟩ : Crew).Stakes (log ++ notes) kind p) :
    c.Stakes log kind p ∨ (⟨a', c.hands.set id x'⟩ : Crew).Tracked kind p ∨
      (⟨a', c.hands.set id x'⟩ : Crew).Posts l (liveKey kind p) ∧ c.Crowded := by
  rcases hs with ⟨hr, hlate⟩ | ⟨j, key, stage, hbusy, hkey, hmaking, hover⟩
  · exact Or.inl (h.record_turn_back hp hx t hr hlate)
  · rcases (Crew.busy_set hx j key stage).mp hbusy with ⟨rfl, q, rfl⟩ | ⟨hj, hbusy⟩
    · exact (h.making_turn_back hx t hkey hmaking hover).imp_right Or.inl
    · have hover' : ¬ Overtaken j (recordOf kind p) log :=
        fun ho => hover (ho.append fun k hk => hj (t.found_id hk).symm)
      cases stage with
      | found o =>
          -- The worker whose turn it is may have listed the object; it owes the live key then.
          rcases h.gained_turn hx t hj hbusy hkey hmaking with hl | hposts
          · exact Or.inl (Or.inr ⟨j, key, _, hbusy, hkey, hl, hover'⟩)
          · exact Or.inr (Or.inr hposts)
      | reading | fetching | resolving | creating =>
          exact Or.inl (Or.inr ⟨j, key, _, hbusy, hkey, trivial, hover'⟩)
      | _ => cases hmaking

/-- Nothing is at stake once the record was cleared: there is none, and everybody is overtaken. -/
theorem Crew.not_stakes_of_cleared {hands : List Hand} (hr : ¬ a'.Records (recordOf kind p)) :
    ¬ (⟨a', hands⟩ : Crew).Stakes (log ++ [.cleared id (recordOf kind p)]) kind p := by
  rintro (⟨hr', _⟩ | ⟨j, key, stage, _, _, _, hover⟩)
  · exact hr hr'
  · exact hover (overtaken_cleared id)

/-- A worker that is to clear a record does so, or goes on, or tries again, unless it finds that
the record should be there. -/
theorem World.Keeps.clearing_turn (h : w.Keeps c log) (hp : w.site kind p) {stage : Stage}
    {q : Option PendingCall}
    (hx : c.hands[id]? = some (.busy (liveKey kind p).intoDeleted stage q))
    (hclear : stage.Clearing c.agent.tracker)
    (t : Turned l c.agent id (.busy (liveKey kind p).intoDeleted stage q) x' a' notes) :
    (⟨a', c.hands.set id x'⟩ : Crew).Accounted l kind p ∨
      ¬ (⟨a', c.hands.set id x'⟩ : Crew).Stakes (log ++ notes) kind p := by
  have habout := h.about id _ stage ⟨_, hx⟩
  have hstill : ∀ {st : Stage} {q' : Option PendingCall},
      x' = .busy (liveKey kind p).intoDeleted st q' → st.Clearing a'.tracker →
      (⟨a', c.hands.set id x'⟩ : Crew).Accounted l kind p := by
    rintro st q' rfl hst
    exact Or.inr (Or.inr ⟨id, st, Crew.busy_set_self hx, hst⟩)
  cases t with
  | waits hh | takes _ hh => rcases hh with hh | hh <;> cases hh
  | begins => exact Or.inl (hstill rfl hclear)
  | settles _ hres =>
      cases stage with
      | finished result =>
          cases hres
          exact Or.inl (Or.inr (Or.inl (Or.inl
            ((Agent.due_settle h.sound.queue).mpr (Or.inr ⟨hclear, rfl⟩)))))
      | changing changes => cases hclear
      | _ => cases hres
  | answers _ ha =>
      cases ha with
      | leads ha =>
          cases ha with
          | present o hf hk =>
              -- A deletion key may find the object alive, and then acts as a live key does.
              by_cases hl : c.agent.tracker.Lists o.uid
              · exact Or.inl (Or.inl ⟨o, (Agent.find_present_iff hk p o).mp hf, hl⟩)
              · exact Or.inl (hstill rfl hl)
          | presentWork _ _ hk | workGone _ _ _ hk => exact absurd hk (w.notWork kind p hp)
          | gone | unownedDeleted | looked => exact Or.inl (hstill rfl trivial)
          | absent _ hd | unwatched _ hd | unowned _ _ hd => cases hd
          | owned o owner ho =>
              exact absurd ((h.sound.tracker.isSome_owner_iff o.uid).mp (by rw [ho]; rfl)) hclear
          | clear name hnone =>
              obtain ⟨_, rfl⟩ := habout
              refine Or.inr (Crew.not_stakes_of_cleared ?_)
              rw [Agent.Records, hnone]
              exact Bool.false_ne_true
          | _ => cases hclear
      | erases name hw =>
          obtain ⟨_, rfl⟩ := habout
          rcases hw.erases with ⟨e, rfl, hretry, hnot, _⟩ | ⟨hv, records, ⟨hub, rfl, hr, _⟩, hg⟩
          · have he : erased (.error e) = finished (.error e) := by
              rw [erased, hnot]
              rfl
            refine Or.inl (hstill rfl ?_)
            rw [he]
            exact hretry
          · rw [ofAnswer_delete hv]
            refine Or.inr (Crew.not_stakes_of_cleared ?_)
            simp [Agent.Records, hr, hg]
      | _ => cases hclear

/-- What is accounted for before a turn is so after it, unless nothing is at stake any more or one
of the things happens that can go wrong. -/
theorem Crew.Accounted.turn (ha : c.Accounted l kind p) (h : w.Keeps c log) (hp : w.site kind p)
    (hx : c.hands[id]? = some x) (t : Turned l c.agent id x x' a' notes) :
    (⟨a', c.hands.set id x'⟩ : Crew).Accounted l kind p ∨
      ¬ (⟨a', c.hands.set id x'⟩ : Crew).Stakes (log ++ notes) kind p ∨
      ((⟨a', c.hands.set id x'⟩ : Crew).Posts l (liveKey kind p) ∧ c.Crowded) ∨
      c.Drops notes kind p := by
  rcases ha with htracked | hcoming | ⟨j, stage, hbusy, hclear⟩
  · rcases htracked.turn h hp hx t with ht | hposts | hdrops
    · exact Or.inl (Or.inl ht)
    · exact Or.inl (Or.inr (Or.inl (Or.inr hposts)))
    · exact Or.inr (Or.inr (Or.inr hdrops))
  · refine Or.inl (Or.inr ((hcoming.turn h.sound h.binds hx t).imp_right fun hb => ⟨id, _, hb, ?_⟩))
    have hname : p.2 ≠ "" := (w.fits kind p hp).1
    have hfirst : first (liveKey kind p).intoDeleted = fresh := if_neg hname
    rw [hfirst]
    trivial
  · by_cases hj : id = j
    · subst hj
      obtain ⟨q, hq⟩ := hbusy
      rw [hx] at hq
      cases hq
      exact (h.clearing_turn hp hx hclear t).imp_right Or.inl
    · have hb : (⟨a', c.hands.set id x'⟩ : Crew).Busy j (liveKey kind p).intoDeleted stage :=
        hbusy.set_ne hx hj
      cases stage with
      | found o =>
          by_cases hl : a'.tracker.Lists o.uid
          · rcases h.gained_turn hx t hj hbusy (Or.inr rfl) hl with hl' | hposts
            · exact absurd hl' hclear
            · exact Or.inr (Or.inr (Or.inl hposts))
          · exact Or.inl (Or.inr (Or.inr ⟨j, _, hb, hl⟩))
      | fresh | looking | erasing | finished =>
          exact Or.inl (Or.inr (Or.inr ⟨j, _, hb, hclear⟩))
      | _ => cases hclear

/-! ## Events and timers -/

namespace Crew

/-- An object that was tracked is replaced by another one, which is reported. -/
def Replaced (c c' : Crew) (notes : List Note) (kind : ResourceKind) (p : Coordinates) : Prop :=
  .posted (liveKey kind p) ∈ notes ∧ c'.agent.tracker = c.agent.tracker ∧
    ∃ o o', c.agent.Caches kind p o ∧ c.agent.tracker.Lists o.uid ∧ c'.agent.Caches kind p o'

/-- Moves other than turns concern the caches, the queue, the clock and the hub's moods. -/
structure Undisturbed (c c' : Crew) (notes : List Note) : Prop where
  hands : c'.hands = c.hands
  tracker : c'.agent.tracker = c.agent.tracker
  records : ∀ name, c'.agent.Records name ↔ c.agent.Records name
  notes : ∀ n ∈ notes, ∃ key, n = .posted key

theorem Undisturbed.busy_iff (u : c.Undisturbed c' notes) (j : WorkerId) (key : ObjectKey)
    (stage : Stage) : c'.Busy j key stage ↔ c.Busy j key stage := by
  rw [Busy, Busy, u.hands]

theorem Stakes.undisturbed_back (u : c.Undisturbed c' notes)
    (hs : c'.Stakes (log ++ notes) kind p) : c.Stakes log kind p := by
  have hnone : ∀ q : Note → Option Bool, (∀ key, q (.posted key) = none) →
      latest q notes = none := by
    intro q hq
    refine latest_eq_none fun n hn => ?_
    obtain ⟨key, rfl⟩ := u.notes n hn
    exact hq key
  rcases hs with ⟨hr, hlate⟩ | ⟨j, key, stage, hbusy, hkey, hmaking, hover⟩
  · exact Or.inl ⟨(u.records _).mp hr, fun hl => hlate (hl.append (hnone _ fun _ => rfl))⟩
  · refine Or.inr ⟨j, key, stage, (u.busy_iff j key stage).mp hbusy, hkey, u.tracker ▸ hmaking, ?_⟩
    intro ho
    rw [Overtaken, latest_append, hnone _ fun _ => rfl, Option.none_or] at hover
    exact hover ho

theorem Accounted.undisturbed (ha : c.Accounted l kind p) (u : c.Undisturbed c' notes)
    (hdue : c.agent.queue.Due (liveKey kind p).intoDeleted →
      c'.agent.queue.Due (liveKey kind p).intoDeleted)
    (htracked : c.Tracked kind p → c'.Accounted l kind p ∨ c.Replaced c' notes kind p) :
    c'.Accounted l kind p ∨ c.Replaced c' notes kind p := by
  rcases ha with ht | (hd | ⟨j, k, stage, d, r, hbusy, hd⟩) | ⟨j, stage, hbusy, hclear⟩
  · exact htracked ht
  · exact Or.inl (Or.inr (Or.inl (Or.inl (hdue hd))))
  · exact Or.inl (Or.inr (Or.inl (Or.inr
      ⟨j, k, stage, d, r, (u.busy_iff j k stage).mpr hbusy, hd⟩)))
  · exact Or.inl (Or.inr (Or.inr
      ⟨j, stage, (u.busy_iff j _ stage).mpr hbusy, u.tracker.symm ▸ hclear⟩))

end Crew

theorem posted_map (keys : List ObjectKey) :
    ∀ n ∈ keys.map Note.posted, ∃ key, n = .posted key := by
  intro n hn
  obtain ⟨key, _, rfl⟩ := List.mem_map.mp hn
  exact ⟨key, rfl⟩

/-- What an event for the watch of a kind does to an object that was tracked. -/
theorem World.Keeps.tracked_object (h : w.Keeps c log) (hp : w.site kind p) {e : WatchEvent}
    {watched : ResourceKind} {held : Holding} {i i' : Ingest} {keys : List ObjectKey}
    (hg : c.agent.registry.held.get? watched = some held)
    (hi : c.agent.registry.intake? watched = some i) (he : i.handle? e = some (i', keys))
    (ho : i.Orderly (w.namespaced watched) e)
    (ht : c.Tracked kind p) {c' : Crew} (hc : c' = ⟨{ c.agent with
      registry := c.agent.registry.setIngest held.watch i'
      queue := c.agent.queue.addAll keys }, c.hands⟩) :
    c'.Accounted l kind p ∨ c.Replaced c' (keys.map Note.posted) kind p := by
  subst hc
  obtain ⟨o, hcaches, hl⟩ := ht
  rcases h.caches_object hg hi he ho hp with hsame | ⟨⟨o', ho'⟩, hkey⟩ | ⟨_, hkey⟩
  · exact Or.inl (Or.inl ⟨o, (hsame o).mpr hcaches, hl⟩)
  · exact Or.inr ⟨List.mem_map_of_mem hkey, rfl, o, o', hcaches, hl, ho'⟩
  · exact Or.inl (Or.inr (Or.inl (Or.inl
      ((WorkQueue.due_addAll h.sound.queue keys _).mpr (Or.inr hkey)))))

theorem Crew.Accounted.step (ha : c.Accounted l kind p) (h : w.Keeps c log)
    (hm : w.Allows c.floor m) (hp : w.site kind p) (s : Crew.Step l c m c' notes) :
    c'.Accounted l kind p ∨ ¬ c'.Stakes (log ++ notes) kind p ∨
      (c'.Posts l (liveKey kind p) ∧ c.Crowded) ∨ c.Drops notes kind p ∨
      c.Replaced c' notes kind p := by
  have hquiet : ∀ {c' : Crew} {notes : List Note},
      c'.Accounted l kind p ∨ c.Replaced c' notes kind p →
      c'.Accounted l kind p ∨ ¬ c'.Stakes (log ++ notes) kind p ∨
        (c'.Posts l (liveKey kind p) ∧ c.Crowded) ∨ c.Drops notes kind p ∨
        c.Replaced c' notes kind p :=
    fun hout => hout.imp_right fun hr => Or.inr (Or.inr (Or.inr hr))
  cases s with
  | turn id hx t =>
      rcases ha.turn h hp hx t with h1 | h2 | h3 | h4
      · exact Or.inl h1
      · exact Or.inr (Or.inl h2)
      · exact Or.inr (Or.inr (Or.inl h3))
      · exact Or.inr (Or.inr (Or.inr (Or.inl h4)))
  | @work e i' keys he =>
      refine hquiet (ha.undisturbed ⟨rfl, rfl, fun _ => Iff.rfl, posted_map keys⟩ ?_
        fun ht => Or.inl (Or.inl ht))
      exact fun hd => (WorkQueue.due_addAll h.sound.queue keys _).mpr (Or.inl hd)
  | @object watched e held i i' keys hg hi he =>
      refine hquiet (ha.undisturbed ⟨rfl, rfl, fun _ => Iff.rfl, posted_map keys⟩ ?_
        fun ht => h.tracked_object hp hg hi he (hm i hi).1 ht rfl)
      exact fun hd => (WorkQueue.due_addAll h.sound.queue keys _).mpr (Or.inl hd)
  | fire d hd =>
      refine hquiet (ha.undisturbed ⟨rfl, rfl, fun _ => Iff.rfl, posted_map []⟩ ?_
        fun ht => Or.inl (Or.inl ht))
      exact (WorkQueue.due_fire h.sound.queue hd).mpr
  | mood | pass | still =>
      exact hquiet (ha.undisturbed ⟨rfl, rfl, fun _ => Iff.rfl, posted_map []⟩
        (fun hd => hd) fun ht => Or.inl (Or.inl ht))

theorem Crew.Stakes.step_back (h : w.Keeps c log) (hp : w.site kind p)
    (s : Crew.Step l c m c' notes) (hs : c'.Stakes (log ++ notes) kind p) :
    c.Stakes log kind p ∨ c'.Tracked kind p ∨ c'.Posts l (liveKey kind p) ∧ c.Crowded := by
  cases s with
  | turn id hx t => exact hs.turn_back h hp hx t
  | @work e i' keys he =>
      exact Or.inl (hs.undisturbed_back
        ⟨rfl, rfl, fun _ => Iff.rfl, posted_map keys⟩)
  | @object watched e held i i' keys hg hi he =>
      exact Or.inl (hs.undisturbed_back
        ⟨rfl, rfl, fun _ => Iff.rfl, posted_map keys⟩)
  | fire | mood | pass | still =>
      exact Or.inl (hs.undisturbed_back
        ⟨rfl, rfl, fun _ => Iff.rfl, posted_map []⟩)

end StatusRelay
