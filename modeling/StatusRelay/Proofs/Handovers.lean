import StatusRelay.Proofs.Mirroring

/-!
# Objects that change owners

The record of an object is made when one of its keys is processed and its owner is managed. A UID
may pass from one deployment record to another without a word to the object's keys: the tracker
reports only UIDs that come to be listed or cease to be. So if the first owner was not managed and
the next one is, an object that nobody is about to look at stays without a record. With one worker
nothing but this keeps an object whose owner is managed from having one.
-/
namespace StatusRelay

open Stage Ingest Note

/-- The record of a site is missing, and none of its keys is due or in hand. -/
structure Floor.Unattended (f : Floor) (kind : ResourceKind) (p : Coordinates) : Prop where
  missing : ¬ f.agent.Records (recordOf kind p)
  undue : ∀ key, Crew.IsKey kind p key → ¬ f.agent.queue.Due key
  unheld : ∀ key, Crew.IsKey kind p key → ∀ w ∈ f.workers, w.key? ≠ some key

/-- The move passes a UID from an owner that is not managed to one that is. -/
def Floor.Promotes (l : Lookups) (f : Floor) (m : Move) (manages : String → Prop)
    (uid : String) : Prop :=
  (∃ owner, f.agent.tracker.ownerOf? uid = some owner ∧ ¬ manages owner.manifestWork) ∧
    ∃ owner, (f.move l m).agent.tracker.ownerOf? uid = some owner ∧ manages owner.manifestWork

/-- In the course of the moves a cached object came to be managed while it was unattended, and none
of its keys was queued since. -/
def Floor.Overlooked (l : Lookups) (f : Floor) (moves : List Move) (manages : String → Prop)
    (kind : ResourceKind) (o : Object) : Prop :=
  Since (fun f m => f.Unattended kind o.coordinates ∧
      f.agent.find kind o.ns o.name = .present o ∧ f.Promotes l m manages o.uid)
    (fun n => ∀ key, Crew.IsKey kind o.coordinates key → n ≠ posted key) l f moves

variable {l : Lookups} {w : World l} {c c' : Crew} {m : Move} {f : Floor} {moves : List Move}
  {a a' : Agent} {id : WorkerId} {x x' : Hand} {key k : ObjectKey} {st st' : Stage}
  {notes log : List Note} {kind : ResourceKind} {p : Coordinates} {o : Object}
  {owner : TrackedOwner} {manages : String → Prop}

/-! ## Sites that nobody attends to -/

theorem Crew.unattended_iff : c.floor.Unattended kind p ↔
    ¬ c.agent.Records (recordOf kind p) ∧
      ∀ key, Crew.IsKey kind p key →
        ¬ c.agent.queue.Due key ∧ ∀ id stage, ¬ c.Busy id key stage := by
  constructor
  · intro u
    exact ⟨u.missing, fun key hk => ⟨u.undue key hk, unheld_iff.mp (u.unheld key hk)⟩⟩
  · rintro ⟨hmissing, hkeys⟩
    exact ⟨hmissing, fun key hk => (hkeys key hk).1,
      fun key hk => unheld_iff.mpr (hkeys key hk).2⟩

theorem Crew.unattended_turn (h : w.Keeps c log) (hp : w.site kind p)
    (u : c.floor.Unattended kind p) (hx : c.hands[id]? = some x)
    (t : Turned l c.agent id x x' a' notes)
    (hn : ∀ key, Crew.IsKey kind p key → .posted key ∉ notes) :
    (⟨a', c.hands.set id x'⟩ : Crew).floor.Unattended kind p := by
  obtain ⟨hmissing, hkeys⟩ := unattended_iff.mp u
  refine unattended_iff.mpr ⟨?_, fun key hk => ⟨fun hdue => ?_, fun j stage hb => ?_⟩⟩
  · -- Only a worker with one of the site's keys could have made the record.
    rcases t.handles hx (recordOf kind p) with ⟨_, hr⟩ | ⟨key, stage, hb, hhandles⟩
    · exact fun hr' => hmissing (hr.mp hr')
    · cases hhandles with
      | keeps _ hr => exact fun hr' => hmissing (hr.mp hr')
      | clears _ hr => exact hr
      | makes hst hname =>
          subst hst
          obtain ⟨hsubject, hrecord⟩ := h.about id key _ hb
          rw [hrecord.names.2] at hname
          exact absurd hb ((hkeys key (h.isKey hp hb hsubject.1 hname)).2 id _)
  · rcases t.due h.sound.queue hdue with hdue | hposted | ⟨stage, q, rfl⟩
    · exact (hkeys key hk).1 hdue
    · exact hn key hk hposted
    · exact (hkeys key hk).2 id stage ⟨q, hx⟩
  · rcases (busy_set hx j key stage).mp hb with ⟨rfl, q, rfl⟩ | ⟨_, hb⟩
    · cases t with
      | takes _ _ hout => exact (hkeys key hk).1 hout.due
      | begins | answers => exact (hkeys key hk).2 id _ ⟨_, hx⟩
    · exact (hkeys key hk).2 j stage hb

theorem Crew.unattended_step (h : w.Keeps c log) (hp : w.site kind p)
    (u : c.floor.Unattended kind p) (s : Crew.Step l c m c' notes)
    (hn : ∀ key, Crew.IsKey kind p key → .posted key ∉ notes) :
    c'.floor.Unattended kind p := by
  cases s with
  | turn id hx t => exact unattended_turn h hp u hx t hn
  | @work e i' keys | @object watched e held i i' keys =>
      obtain ⟨hmissing, hkeys⟩ := unattended_iff.mp u
      refine unattended_iff.mpr ⟨hmissing, fun key hk => ⟨fun hdue => ?_, (hkeys key hk).2⟩⟩
      rcases (WorkQueue.due_addAll h.sound.queue keys key).mp hdue with hdue | hm
      · exact (hkeys key hk).1 hdue
      · exact hn key hk (mem_posted_map.mpr hm)
  | fire d hd =>
      obtain ⟨hmissing, hkeys⟩ := unattended_iff.mp u
      refine unattended_iff.mpr ⟨hmissing, fun key hk => ⟨fun hdue => ?_, (hkeys key hk).2⟩⟩
      exact (hkeys key hk).1 ((WorkQueue.due_fire h.sound.queue hd).mp hdue)
  | mood | pass | still => exact ⟨u.missing, u.undue, u.unheld⟩

/-- A site that nobody attends to stays so as long as none of its keys is queued. -/
theorem Crew.unattended_run (hp : w.site kind p) (moves : List Move) (c : Crew) (log : List Note)
    (h : w.Keeps c log) (u : c.floor.Unattended kind p)
    (ha : Floor.Along w.Allows l c.floor moves)
    (hn : ∀ key, Crew.IsKey kind p key → .posted key ∉ c.floor.log l moves) :
    (c.floor.run l moves).Unattended kind p := by
  induction moves generalizing c log with
  | nil => exact u
  | cons m rest ih =>
      obtain ⟨hm, hrest⟩ := ha
      obtain ⟨c', hmove, s⟩ := step_move (l := l) h.sound.queue h.sound.registry m
      simp only [Floor.log, List.mem_append, not_or] at hn
      rw [Floor.run_cons, hmove]
      rw [hmove] at hrest hn
      exact ih c' _ (h.step hm s) (unattended_step h hp u s fun key hk => (hn key hk).1) hrest
        fun key hk => (hn key hk).2

/-! ## Seeing to it that there is a record -/

/-- A worker at this stage is not about to clear the record of the object. -/
def Stage.Leaves (o : Object) : Stage → Prop
  | found o' => o' = o
  | looking _ | erasing _ => False
  | _ => True

/-- The owner that a worker goes by is the owner of the object that it has in hand. -/
def Stage.OwnedIn (t : Tracker) : Stage → Prop
  | reading o owner | fetching o owner => t.ownerOf? o.uid = some owner
  | _ => True

/-- Any of the site's keys sees to it that there is a record. -/
def presenceCare (present : Prop) (kind : ResourceKind) (p : Coordinates) (o : Object)
    (key : ObjectKey) : Care where
  key := key
  mine := Crew.IsKey kind p
  mends := Stage.Serves o
  spares := Stage.Leaves o
  right := present

theorem presenceCare_lawful (present : Prop) (hp : p.2 ≠ "") (o : Object)
    (hk : Crew.IsKey kind p key) : (presenceCare present kind p o key).Lawful where
  begins := by
    have hfirst : first (presenceCare present kind p o key).key = fresh := first_isKey hp hk
    rw [hfirst]
    trivial
  harmless := by
    intro key hk
    rw [first_isKey hp hk]
    trivial
  retries := (recordCare_lawful none kind hp o).retries

theorem Stage.leaves_of_spares (h : st.Spares o) : st.Leaves o := by
  cases st with
  | found => exact h
  | looking | erasing => cases h
  | _ => trivial

theorem leaves_finished (o : Object) (result : Except AgentError Outcome) :
    (finished result).Leaves o := trivial

/-- With the object cached and owned nobody comes to clear its record. -/
theorem leaves_answered (h : Answered l a id key st st' a' notes)
    (hfind : a.find key.kind key.ns key.name = .present o)
    (howner : a.tracker.ownerOf? o.uid = some owner) (hst : st.Leaves o) : st'.Leaves o := by
  cases h with
  | leads h =>
      cases h with
      | present o' hf =>
          rw [hfind] at hf
          cases hf
          rfl
      | presentWork o' =>
          exact of_opened (P := Stage.Leaves o) (leaves_finished o) fun _ _ => trivial
      | gone _ hnot => exact absurd hfind (hnot o)
      | unownedDeleted o' hnone =>
          obtain rfl : o' = o := hst
          rw [hnone] at howner
          cases howner
      | read o' owner record =>
          exact of_recorded (P := Stage.Leaves o) record (leaves_finished o) (fun _ _ => trivial)
            fun _ _ => trivial
      | looked => cases hst
      | _ => trivial
  | creates =>
      exact of_created (P := Stage.Leaves o) (leaves_finished o) (fun _ _ => trivial)
        (fun _ _ => trivial) _
  | patches => exact of_patched (P := Stage.Leaves o) (leaves_finished o) (fun _ _ => trivial) _
  | updates => exact of_updated (P := Stage.Leaves o) (leaves_finished o) _
  | erases => cases hst
  | replaces | removes | acquires | releases | posts => trivial

theorem ownedIn_finished (t : Tracker) (result : Except AgentError Outcome) :
    (finished result).OwnedIn t := trivial

theorem ownedIn_answered (h : Answered l a id key st st' a' notes) (hst : st.OwnedIn a.tracker) :
    st'.OwnedIn a'.tracker := by
  cases h with
  | leads h =>
      cases h with
      | presentWork o =>
          exact of_opened (P := Stage.OwnedIn _) (ownedIn_finished _) fun _ _ => trivial
      | owned o owner ho => exact ho
      | missing => exact hst
      | read o owner record =>
          exact of_recorded (P := Stage.OwnedIn _) record (ownedIn_finished _) (fun _ _ => trivial)
            fun _ _ => trivial
      | _ => trivial
  | creates =>
      exact of_created (P := Stage.OwnedIn _) (ownedIn_finished _) (fun _ _ => trivial)
        (fun _ _ => trivial) _
  | patches => exact of_patched (P := Stage.OwnedIn _) (ownedIn_finished _) (fun _ _ => trivial) _
  | updates => exact of_updated (P := Stage.OwnedIn _) (ownedIn_finished _) _
  | erases => exact of_erased (P := Stage.OwnedIn _) (ownedIn_finished _) _
  | replaces | removes | acquires | releases | posts => trivial

/-- A worker that goes by the object's owner, who is managed, has grounds to make the record. -/
theorem grounds_of_owner (h : w.Keeps c log)
    (hkinds : ∀ e r, w.has e → l.Serves e r → ∃ r', l.ofKind r.resourceKind = .ok r')
    (hp : w.site key.kind (key.ns, key.name))
    (ho : c.agent.Caches key.kind (key.ns, key.name) o)
    (howner : c.agent.tracker.ownerOf? o.uid = some owner)
    (hmanaged : Managing c.agent.hub.manifestWorks c.agent.cluster owner.manifestWork)
    (hin : ∀ id st, c.Busy id key st → st.OwnedIn c.agent.tracker)
    (hserves : ∀ id st, c.Busy id key st → st.Serves o) : Grounds w c key o := by
  have hk := w.notWork _ _ hp
  have hl := (h.sound.tracker.isSome_owner_iff o.uid).mp (by rw [howner]; rfl)
  refine ⟨hk, (Agent.find_present_iff hk _ o).mpr ho, ⟨owner, howner⟩, ?_,
    h.ofKind_ok hkinds hp ho hl⟩
  rintro id _ hb o' owner' rfl
  obtain rfl : o' = o := hserves id _ hb
  obtain rfl : owner = owner' := Option.some.inj (howner.symm.trans (hin id _ hb))
  obtain ⟨work, hg, hm⟩ := hmanaged
  refine ⟨work, ?_, hm⟩
  rw [Hub.getManifestWork, hg]

theorem presenceCare_passes (h : w.Keeps c log) (hf : Files w c) (hsingle : c.hands.length = 1)
    (hkinds : ∀ e r, w.has e → l.Serves e r → ∃ r', l.ofKind r.resourceKind = .ok r')
    (hb : c.Busy id key st) (hin : st.OwnedIn c.agent.tracker) (hp : w.site kind p)
    (ho : c.agent.Caches kind p o) (howner : c.agent.tracker.ownerOf? o.uid = some owner)
    (hmanaged : Managing c.agent.hub.manifestWorks c.agent.cluster owner.manifestWork)
    (ha : Answered l c.agent id key st st' a' notes) (hk : Crew.IsKey kind p k) :
    (presenceCare (c.agent.Records (recordOf kind p)) kind p o k).Passes
      (presenceCare (a'.Records (recordOf kind p)) kind p o k) key st st' := by
  have hfind : Crew.IsKey kind p key → c.agent.find key.kind key.ns key.name = .present o := by
    intro hkey
    obtain ⟨rfl, rfl⟩ := hkey.site
    exact (Agent.find_present_iff (w.notWork _ _ hp) _ o).mpr ho
  refine ⟨rfl, ?_, ?_⟩
  · intro he hm
    change key = k at he
    subst he
    obtain ⟨rfl, rfl⟩ := hk.site
    have hg : Grounds w c key o := by
      refine grounds_of_owner h hkinds hp ho howner hmanaged ?_ ?_
      all_goals
        intro j st' hb'
        obtain ⟨q, hq⟩ := hb
        obtain ⟨q', hq'⟩ := hb'
        obtain ⟨rfl, he⟩ := Alone.eq_hand hsingle hq hq'
        cases he
      · exact hin
      · exact hm
    rcases serves_answered h hf hb hg ha hm with hst | ⟨⟨record, hr, _⟩, hst⟩
    · exact Or.inl hst
    · refine Or.inr ⟨?_, fun _ => Stage.leaves_of_spares hst⟩
      change (a'.record? key.kind (key.ns, key.name)).isSome = true
      rw [hr]
      rfl
  · intro hr hspares
    refine ⟨?_, fun hmine => leaves_answered ha (hfind hmine) howner (hspares hmine)⟩
    change (a'.record? kind p).isSome = true
    by_cases hmine : Crew.IsKey kind p key
    · cases ha.handles (recordOf kind p) with
      | keeps _ hr' => exact hr'.mpr hr
      | makes _ _ _ hr' => exact hr'
      | clears hst =>
          have hleaves := hspares hmine
          rcases hst with rfl | rfl <;> cases hleaves
    · rw [record?_answered h hf hb hp ha hmine]
      exact hr

/-! ## Runs of one worker -/

/-- Some key of the object sees to it that there is a record. -/
def Crew.Attends (l : Lookups) (c : Crew) (kind : ResourceKind) (o : Object) : Prop :=
  ∃ key, IsKey kind o.coordinates key ∧ c.Tends l
    (presenceCare (c.agent.Records (recordOf kind o.coordinates)) kind o.coordinates o key)

theorem Crew.Attends.of_due (hk : Crew.IsKey kind o.coordinates key)
    (hd : c.agent.queue.Due key) : c.Attends l kind o :=
  ⟨key, hk, Or.inl (Or.inl hd)⟩

/-- Moves other than turns leave it seen to. -/
theorem Crew.Attends.undisturbed (h : c.Attends l kind o) (u : c.Undisturbed c' notes)
    (hdue : ∀ key, c.agent.queue.Due key → c'.agent.queue.Due key) : c'.Attends l kind o := by
  obtain ⟨key, hk, ht⟩ := h
  refine ⟨key, hk, ?_⟩
  rw [propext (u.records _)]
  exact ht.still u.hands (hdue key)

/-- What holds in every state of a run of one worker: cached objects whose owners are managed have
their records, or are seen to, or were overlooked. -/
structure Surveyed (w : World l) (manifestWorks : Table RecordKey ManifestWork) (cluster : String)
    (start : Floor) (c : Crew) (past : List Move) : Prop where
  keeps : w.Keeps c (start.log l past)
  single : c.hands.length = 1
  files : Files w c
  steady : c.agent.hub.manifestWorks = manifestWorks ∧ c.agent.cluster = cluster
  owners : ∀ id key st, c.Busy id key st → st.OwnedIn c.agent.tracker
  seen : ∀ kind o owner, w.site kind o.coordinates → c.agent.Caches kind o.coordinates o →
    c.agent.tracker.ownerOf? o.uid = some owner →
    Managing manifestWorks cluster owner.manifestWork →
    c.Attends l kind o ∨ start.Overlooked l past (Managing manifestWorks cluster) kind o

/-- The tracker changes only in the hands of a worker with the key of a deployment record, and
nothing else does then. -/
theorem World.Keeps.tracker_turn (h : w.Keeps c log) (hx : c.hands[id]? = some x)
    (t : Turned l c.agent id x x' a' notes) :
    a'.tracker = c.agent.tracker ∨ a'.hub = c.agent.hub ∧ a'.cluster = c.agent.cluster ∧
      ∃ key st st' p, x = .busy key st p ∧ x' = .busy key st' none ∧
        key.kind = appliedWorkKind := by
  rcases t.answered with ⟨_, _, _, rfl⟩ | ⟨key, st, st', p, rfl, rfl, ha⟩
  · exact Or.inl rfl
  · have habout := h.about id key st ⟨p, hx⟩
    rcases ha.tracker_cases with ⟨_, _, _, rfl, _, rfl⟩ | ⟨_, rfl, _, rfl⟩ | ⟨ht, _⟩
    · exact Or.inr ⟨rfl, rfl, key, _, _, _, rfl, rfl, habout.1⟩
    · exact Or.inr ⟨rfl, rfl, key, _, _, _, rfl, rfl, habout.1⟩
    · exact Or.inl ht

/-- A turn that posts no key of a site leaves what is due for it, or takes it up. -/
theorem Crew.Attends.turn_of_due (hs : c.Sound) (hx : c.hands[id]? = some x)
    (t : Turned l c.agent id x x' a' notes) (hname : o.coordinates.2 ≠ "")
    (hk : Crew.IsKey kind o.coordinates key) (hd : c.agent.queue.Due key) :
    (⟨a', c.hands.set id x'⟩ : Crew).Attends l kind o := by
  rcases t.due_or_taken hs hd with hd | rfl
  · exact .of_due hk hd
  · refine ⟨key, hk, Or.inr (Or.inl ⟨id, _, busy_set_self hx, ?_⟩)⟩
    exact (presenceCare_lawful _ hname o hk).begins

namespace Surveyed

variable {manifestWorks : Table RecordKey ManifestWork} {cluster : String} {start : Floor}
  {past : List Move}

/-- A UID that passes to an owner who is managed is attended to, or its object is overlooked. -/
theorem promoted (h : Surveyed w manifestWorks cluster start c past)
    (hfloor : start.run l past = c.floor) (hx : c.hands[id]? = some x)
    (t : Turned l c.agent id x x' a' notes)
    (hmove : c.floor.move l m = (⟨a', c.hands.set id x'⟩ : Crew).floor)
    (hn : ∀ n ∈ (start.run l past).notes l m, ∀ key, Crew.IsKey kind o.coordinates key →
      n ≠ posted key)
    (hp : w.site kind o.coordinates) (ho : c.agent.Caches kind o.coordinates o)
    {owner owner' : TrackedOwner} (howner : c.agent.tracker.ownerOf? o.uid = some owner)
    (hnot : ¬ Managing manifestWorks cluster owner.manifestWork)
    (howner' : a'.tracker.ownerOf? o.uid = some owner')
    (hmanaged : Managing manifestWorks cluster owner'.manifestWork) :
    (⟨a', c.hands.set id x'⟩ : Crew).Attends l kind o ∨
      start.Overlooked l (past ++ [m]) (Managing manifestWorks cluster) kind o := by
  have hk := w.notWork _ _ hp
  rcases h.keeps.tracker_turn hx t with ht | ⟨hhub, hcluster, key, st, st', q, rfl, rfl, hwork⟩
  · rw [ht, howner] at howner'
    cases howner'
    exact absurd hmanaged hnot
  · by_cases hun : c.floor.Unattended kind o.coordinates
    · refine Or.inr (Floor.Since.now ⟨?_, ?_, ⟨owner, ?_, hnot⟩, owner', ?_, hmanaged⟩ hn)
      · rw [hfloor]
        exact hun
      · rw [hfloor]
        exact (Agent.find_present_iff hk _ o).mpr ho
      · rw [hfloor]
        exact howner
      · rw [hfloor, hmove]
        exact howner'
    · rw [Crew.unattended_iff] at hun
      by_cases hr : c.agent.Records (recordOf kind o.coordinates)
      · -- The record is there, and the worker has another key in hand.
        refine Or.inl ⟨liveKey kind o.coordinates, Or.inl rfl, .right h.single hx ?_ ?_⟩
        · change a'.Records _
          rw [Agent.Records, hhub, hcluster]
          exact hr
        · rintro _ _ _ ⟨⟩ hmine
          exact absurd (hmine.site.1 ▸ hwork) hk
      · obtain ⟨key', hkey', hseen⟩ : ∃ key', Crew.IsKey kind o.coordinates key' ∧
            ¬ (¬ c.agent.queue.Due key' ∧ ∀ id stage, ¬ c.Busy id key' stage) := by
          by_contra hall
          refine hun ⟨hr, fun key' hkey' => ?_⟩
          by_contra hseen
          exact hall ⟨key', hkey', hseen⟩
        by_cases hd : c.agent.queue.Due key'
        · exact Or.inl (.turn_of_due h.keeps.sound hx t (w.fits _ _ hp).1 hkey' hd)
        · refine absurd ⟨hd, fun j stage hb => ?_⟩ hseen
          obtain ⟨q', hq'⟩ := hb
          cases (Alone.eq_hand h.single hx hq').2
          exact hk (hkey'.site.1 ▸ hwork)

theorem seen_turn (h : Surveyed w manifestWorks cluster start c past)
    (hkinds : ∀ e r, w.has e → l.Serves e r → ∃ r', l.ofKind r.resourceKind = .ok r')
    (hfloor : start.run l past = c.floor) (hx : c.hands[id]? = some x)
    (t : Turned l c.agent id x x' a' notes)
    (hmove : c.floor.move l m = (⟨a', c.hands.set id x'⟩ : Crew).floor)
    (hn : ∀ n ∈ (start.run l past).notes l m, ∀ key, Crew.IsKey kind o.coordinates key →
      n ≠ posted key)
    (hp : w.site kind o.coordinates) (ho' : a'.Caches kind o.coordinates o)
    (howner' : a'.tracker.ownerOf? o.uid = some owner)
    (hmanaged : Managing manifestWorks cluster owner.manifestWork) :
    (⟨a', c.hands.set id x'⟩ : Crew).Attends l kind o ∨
      start.Overlooked l (past ++ [m]) (Managing manifestWorks cluster) kind o := by
  have ho := t.caches_back h.keeps.sound ho'
  have hsound' := h.keeps.sound.turn hx t
  have hl' : a'.tracker.Lists o.uid := (hsound'.tracker.isSome_owner_iff o.uid).mp (by
    rw [howner']
    rfl)
  have hlists : c.agent.tracker.Lists o.uid ∨
      (⟨a', c.hands.set id x'⟩ : Crew).Posts l (liveKey kind o.coordinates) := by
    rcases t.tracker h.keeps.sound hx with ht | ⟨_, applied, d, k, hc, rfl⟩
    · exact Or.inl (ht ▸ hl')
    · refine (hc.gains o.uid hl').imp_right ?_
      rintro ⟨e, he, hu⟩
      exact Crew.posts_of_changed hx (h.keeps.binds.turn h.keeps.sound hx t) (h.keeps.owns hp ho).1
        rfl (e := ⟨true, e⟩) (List.mem_append.mpr (Or.inl (List.mem_map_of_mem he))) hu
  rcases hlists with hl | hposts
  · obtain ⟨owner₀, howner⟩ :=
      Option.isSome_iff_exists.mp ((h.keeps.sound.tracker.isSome_owner_iff o.uid).mpr hl)
    by_cases hm₀ : Managing manifestWorks cluster owner₀.manifestWork
    · rcases h.seen kind o owner₀ hp ho howner hm₀ with ⟨key, hk, ht⟩ | hover
      · refine Or.inl ⟨key, hk, ht.turn h.keeps.sound h.keeps.binds h.single hx t
          (presenceCare_lawful _ (w.fits _ _ hp).1 o hk)
          (presenceCare_lawful _ (w.fits _ _ hp).1 o hk) ?_ ?_⟩
        · rintro queue clock rfl
          rfl
        · rintro key' st st' q rfl ha
          have hm₁ : Managing c.agent.hub.manifestWorks c.agent.cluster owner₀.manifestWork := by
            rw [h.steady.1, h.steady.2]
            exact hm₀
          exact presenceCare_passes h.keeps h.files h.single hkinds ⟨_, hx⟩
            (h.owners id key' st ⟨_, hx⟩) hp ho howner hm₁ ha hk
      · exact Or.inr (Floor.Since.concat hover hn)
    · exact h.promoted hfloor hx t hmove hn hp ho howner hm₀ howner' hmanaged
  · exact Or.inl ⟨_, Or.inl rfl, Or.inl (Or.inr hposts)⟩

/-- An event brings an object into a cache and posts its key, or the object was there before. -/
theorem caches_back (h : w.Keeps c log) (hm : w.Allows c.floor m) (s : Crew.Step l c m c' notes)
    (hp : w.site kind p) (ho : c'.agent.Caches kind p o) :
    c.agent.Caches kind p o ∨ ∃ key, Crew.IsKey kind p key ∧ posted key ∈ notes := by
  cases s with
  | turn id hx t => exact Or.inl (t.caches_back h.sound ho)
  | work | fire | mood | pass | still => exact Or.inl ho
  | @object watched e held i i' keys hg hi he =>
      rcases h.caches_object hg hi he (hm i hi).1 hp with hsame | ⟨_, hkey⟩ | ⟨hnone, _⟩
      · exact Or.inl ((hsame o).mp ho)
      · exact Or.inr ⟨_, Or.inl rfl, mem_posted_map.mpr hkey⟩
      · exact absurd ho (hnone o)

theorem seen_step (h : Surveyed w manifestWorks cluster start c past)
    (hkinds : ∀ e r, w.has e → l.Serves e r → ∃ r', l.ofKind r.resourceKind = .ok r')
    (hfloor : start.run l past = c.floor) (hm : w.Allows c.floor m)
    (s : Crew.Step l c m c' (c.floor.notes l m)) (hmove : c.floor.move l m = c'.floor)
    (hp : w.site kind o.coordinates) (ho' : c'.agent.Caches kind o.coordinates o)
    (howner : c'.agent.tracker.ownerOf? o.uid = some owner)
    (hmanaged : Managing manifestWorks cluster owner.manifestWork) :
    c'.Attends l kind o ∨
      start.Overlooked l (past ++ [m]) (Managing manifestWorks cluster) kind o := by
  by_cases hposted : ∃ key, Crew.IsKey kind o.coordinates key ∧ posted key ∈ c.floor.notes l m
  · obtain ⟨key, hk, hn⟩ := hposted
    exact Or.inl (.of_due hk ((h.keeps.posts_step hm s kind o.coordinates).1 key hn))
  · have hn : ∀ n ∈ (start.run l past).notes l m, ∀ key, Crew.IsKey kind o.coordinates key →
        n ≠ posted key := by
      rw [hfloor]
      rintro _ hn key hk rfl
      exact hposted ⟨key, hk, hn⟩
    have ho := (caches_back h.keeps hm s hp ho').resolve_right hposted
    have hstill : ∀ {notes}, c.Undisturbed c' notes →
        (∀ key, c.agent.queue.Due key → c'.agent.queue.Due key) → c'.Attends l kind o ∨
          start.Overlooked l (past ++ [m]) (Managing manifestWorks cluster) kind o := by
      intro notes u hdue
      rcases h.seen kind o owner hp ho (u.tracker ▸ howner) hmanaged with ha | hover
      · exact Or.inl (ha.undisturbed u hdue)
      · exact Or.inr (Floor.Since.concat hover hn)
    generalize c.floor.notes l m = notes at s
    cases s with
    | turn id hx t => exact h.seen_turn hkinds hfloor hx t hmove hn hp ho' howner hmanaged
    | @work e i' keys | @object watched e held i i' keys =>
        exact hstill ⟨rfl, rfl, fun _ => Iff.rfl, posted_map keys⟩
          fun _ hd => (WorkQueue.due_addAll h.keeps.sound.queue keys _).mpr (Or.inl hd)
    | fire d hd =>
        exact hstill ⟨rfl, rfl, fun _ => Iff.rfl, posted_map []⟩
          fun _ => (WorkQueue.due_fire h.keeps.sound.queue hd).mpr
    | mood | pass | still =>
        exact hstill ⟨rfl, rfl, fun _ => Iff.rfl, posted_map []⟩ fun _ hd => hd

theorem owners_step (h : Surveyed w manifestWorks cluster start c past)
    (s : Crew.Step l c m c' notes) (id : WorkerId) (key : ObjectKey) (st : Stage)
    (hb : c'.Busy id key st) : st.OwnedIn c'.agent.tracker := by
  cases s with
  | @turn j x x' a' _ hx t =>
      obtain ⟨rfl, q, rfl⟩ := Crew.busy_set_alone h.single hx hb
      cases t with
      | takes => exact of_first (P := Stage.OwnedIn _) (ownedIn_finished _) trivial key
      | begins => exact h.owners j key st ⟨_, hx⟩
      | answers _ ha => exact ownedIn_answered ha (h.owners j key _ ⟨_, hx⟩)
  | work | object | fire | mood | pass | still => exact h.owners id key st hb

theorem steady_step (h : Surveyed w manifestWorks cluster start c past)
    (s : Crew.Step l c m c' notes) :
    c'.agent.hub.manifestWorks = manifestWorks ∧ c'.agent.cluster = cluster := by
  cases s with
  | turn id hx t => exact ⟨t.manifestWorks.trans h.steady.1, t.cluster.trans h.steady.2⟩
  | work | object | fire | mood | pass | still => exact h.steady

theorem step (h : Surveyed w manifestWorks cluster start c past)
    (hkinds : ∀ e r, w.has e → l.Serves e r → ∃ r', l.ofKind r.resourceKind = .ok r')
    (hfloor : start.run l past = c.floor) (hm : w.Allows c.floor m)
    (s : Crew.Step l c m c' (c.floor.notes l m)) (hmove : c.floor.move l m = c'.floor) :
    Surveyed w manifestWorks cluster start c' (past ++ [m]) where
  keeps := by
    rw [Floor.log_concat, hfloor]
    exact h.keeps.step hm s
  single := Lone.length_step h.single s
  files := h.files.step h.keeps h.single s
  steady := h.steady_step s
  owners := h.owners_step s
  seen := fun _ _ _ hp ho howner hmanaged =>
    h.seen_step hkinds hfloor hm s hmove hp ho howner hmanaged

theorem of_run (w : World l) (cluster : String) (timeout : Duration)
    (limiter : Limiter ObjectKey) (manifestWorks : Table RecordKey ManifestWork)
    (moves : List Move)
    (hkinds : ∀ e r, w.has e → l.Serves e r → ∃ r', l.ofKind r.resourceKind = .ok r')
    (hm : Floor.Along w.Allows l
      (.start (.fresh cluster timeout limiter manifestWorks) 1) moves) :
    ∃ c, (Floor.start (.fresh cluster timeout limiter manifestWorks) 1).run l moves = c.floor ∧
      Surveyed w manifestWorks cluster
        (.start (.fresh cluster timeout limiter manifestWorks) 1) c moves := by
  refine Crew.run_past (fun c past h => ⟨h.keeps.sound.queue, h.keeps.sound.registry⟩)
    (fun past m c c' hfloor h hm s hmove => h.step hkinds hfloor hm s hmove) moves ?_ hm
  refine ⟨w.keeps_start .., rfl, Files.start .., ⟨rfl, rfl⟩,
    fun _ _ _ hb => absurd hb Crew.not_busy_start, fun kind o owner _ ho => ?_⟩
  obtain ⟨i, hi, _⟩ := ho
  cases hi

end Surveyed

/-- With one worker and any events and failures: when no key waits or is being processed, a cached
object whose owner is managed, and none of whose keys is to be tried again, has a record exactly if
it was not overlooked when it came to be managed. -/
theorem record_made_iff_not_overlooked (w : World l) (cluster : String) (timeout : Duration)
    (limiter : Limiter ObjectKey) (manifestWorks : Table RecordKey ManifestWork)
    (moves : List Move) (kind : ResourceKind) (o : Object) (owner : TrackedOwner)
    (hkinds : ∀ e r, w.has e → l.Serves e r → ∃ r', l.ofKind r.resourceKind = .ok r')
    (hm : Floor.Along w.Allows l
      (.start (.fresh cluster timeout limiter manifestWorks) 1) moves)
    (hk : kind ≠ appliedWorkKind) :
    let start := Floor.start (.fresh cluster timeout limiter manifestWorks) 1
    let a := (start.run l moves).agent
    a.queue.Idle → (∀ key, Crew.IsKey kind o.coordinates key → ¬ a.queue.Scheduled key) →
    a.find kind o.ns o.name = .present o → a.tracker.ownerOf? o.uid = some owner →
    Managing manifestWorks cluster owner.manifestWork →
    (a.Records (recordOf kind o.coordinates) ↔
      ¬ start.Overlooked l moves (Managing manifestWorks cluster) kind o) := by
  intro start a hidle hlater hfind howner hmanaged
  obtain ⟨c, hrun, h⟩ := Surveyed.of_run w cluster timeout limiter manifestWorks moves hkinds hm
  have ha : a = c.agent := congrArg Floor.agent hrun
  rw [ha] at hidle hlater hfind howner ⊢
  have ho := (Agent.find_present_iff hk o.coordinates o).mp hfind
  have hp : w.site kind o.coordinates := by
    obtain ⟨i, hi, hat⟩ := ho
    exact ((h.keeps.sees kind i hi).owns.of_lookup? hat).1
  constructor
  · rintro hr ⟨before, m, after, rfl, ⟨hun, _⟩, hafter⟩
    rw [Floor.along_append] at hm
    obtain ⟨c₀, hrun₀, h₀⟩ :=
      Surveyed.of_run w cluster timeout limiter manifestWorks before hkinds hm.1
    rw [hrun₀] at hun hafter hm
    have hend : (c₀.floor.run l (m :: after)).Unattended kind o.coordinates :=
      Crew.unattended_run hp _ c₀ _ h₀.keeps hun hm.2 fun key hkey hn => hafter _ hn key hkey rfl
    rw [← hrun₀, ← Floor.run_append, hrun] at hend
    exact hend.missing hr
  · intro hno
    obtain ⟨key, hkey, ht⟩ := (h.seen kind o owner hp ho howner hmanaged).resolve_right hno
    exact ht.right_of_idle h.keeps.sound hidle (hlater key hkey)

namespace Widgets

/-- The hub has another deployment record, which does not manage what it lists. -/
def bothWorks : Table RecordKey ManifestWork := managedWorks.insert ("cluster1", "b") {}

/-- The agent that talks to that hub. -/
def both : Agent :=
  .fresh "cluster1" (.ofSeconds 5) (.exponential (.ofMillis 5) (.ofSeconds 1000) {}) bothWorks

/-- Both list the widget, and the second one gives it up before it comes. -/
def settled : List Move :=
  [.work (.apply (work "a"))] ++ turns 0 10 ++ [.work (.apply (work "b"))] ++ turns 0 10 ++
  [.work (.delete (work "b"))] ++ turns 0 10 ++ [.object resource.resourceKind (.apply widget)] ++
  turns 0 10

/-- Both list the widget, and the second one gives it up after it came. -/
def inherited : List Move :=
  [.work (.apply (work "a"))] ++ turns 0 10 ++ [.work (.apply (work "b"))] ++ turns 0 10 ++
  [.object resource.resourceKind (.apply widget)] ++ turns 0 10 ++ [.work (.delete (work "b"))] ++
  turns 0 10

theorem brings_widget : world.Brings (.object resource.resourceKind (.apply widget)) := by
  rintro _ ⟨⟩
  exact ⟨scoped_widget, owns_widget⟩

theorem allows_settled : Floor.Along world.Allows lookups (.start both 1) settled := by
  refine World.along_of_inPlace ?_ (by decide +kernel)
  simp only [settled, List.forall_mem_append, List.forall_mem_singleton]
  exact ⟨⟨⟨⟨⟨⟨⟨brings_work (by decide) rfl, brings_turns 0 10⟩, brings_work (by decide) rfl⟩,
    brings_turns 0 10⟩, brings_work (by decide) rfl⟩, brings_turns 0 10⟩, brings_widget⟩,
    brings_turns 0 10⟩

theorem allows_inherited : Floor.Along world.Allows lookups (.start both 1) inherited := by
  refine World.along_of_inPlace ?_ (by decide +kernel)
  simp only [inherited, List.forall_mem_append, List.forall_mem_singleton]
  exact ⟨⟨⟨⟨⟨⟨⟨brings_work (by decide) rfl, brings_turns 0 10⟩, brings_work (by decide) rfl⟩,
    brings_turns 0 10⟩, brings_widget⟩, brings_turns 0 10⟩, brings_work (by decide) rfl⟩,
    brings_turns 0 10⟩

theorem managing_both : Managing bothWorks "cluster1" "a" :=
  ⟨_, rfl, by decide⟩

/-- What is seen of a widget's owner. -/
theorem ownerOf?_of_shown {t : Tracker} (uid name : String)
    (h : (t.ownerOf? uid).map (·.manifestWork) = some name) :
    ∃ owner, t.ownerOf? uid = some owner ∧ owner.manifestWork = name :=
  Option.map_eq_some_iff.mp h

/-- The widget that came when all was settled has its record. -/
theorem record_made_settled :
    Floor.Along world.Allows lookups (.start both 1) settled ∧
      ((Floor.start both 1).run lookups settled).agent.queue.Quiet ∧
      ∃ o, ((Floor.start both 1).run lookups settled).agent.find resource.resourceKind o.ns o.name =
          .present o ∧
        ((Floor.start both 1).run lookups settled).agent.Records
          (recordOf resource.resourceKind o.coordinates) ∧
        ¬ (Floor.start both 1).Overlooked lookups settled (Managing bothWorks "cluster1")
          resource.resourceKind o := by
  have hallowed := allows_settled
  have hquiet : ((Floor.start both 1).run lookups settled).agent.queue.Quiet := by
    unfold WorkQueue.Quiet
    decide +kernel
  obtain ⟨o, hfind, hcoords, huid⟩ := find_of_shown "u"
    (a := ((Floor.start both 1).run lookups settled).agent) (by decide +kernel)
  obtain ⟨owner, howner, hname⟩ := ownerOf?_of_shown "u" "a"
    (t := ((Floor.start both 1).run lookups settled).agent.tracker) (by decide +kernel)
  have hrecords : ((Floor.start both 1).run lookups settled).agent.Records
      (recordOf resource.resourceKind o.coordinates) := by
    rw [hcoords]
    unfold Agent.Records
    decide +kernel
  refine ⟨hallowed, hquiet, o, hfind, hrecords, ?_⟩
  rw [← huid] at howner
  rw [both] at hallowed hquiet hfind howner hrecords ⊢
  refine (record_made_iff_not_overlooked world "cluster1" (.ofSeconds 5)
    (.exponential (.ofMillis 5) (.ofSeconds 1000) {}) bothWorks settled resource.resourceKind o
    owner ?_ hallowed (by decide) hquiet.idle (fun key _ => hquiet.not_scheduled key) hfind howner
    (hname ▸ managing_both)).mp hrecords
  rintro _ _ rfl he
  cases he
  exact ⟨resource, rfl⟩

/-- The widget that was inherited has no record, though its owner is managed. -/
theorem record_missing_inherited :
    Floor.Along world.Allows lookups (.start both 1) inherited ∧
      ((Floor.start both 1).run lookups inherited).agent.queue.Quiet ∧
      ∃ o owner, ((Floor.start both 1).run lookups inherited).agent.find resource.resourceKind o.ns
          o.name = .present o ∧
        ((Floor.start both 1).run lookups inherited).agent.tracker.ownerOf? o.uid = some owner ∧
        Managing bothWorks "cluster1" owner.manifestWork ∧
        ¬ ((Floor.start both 1).run lookups inherited).agent.Records
          (recordOf resource.resourceKind o.coordinates) := by
  obtain ⟨o, hfind, hcoords, huid⟩ := find_of_shown "u"
    (a := ((Floor.start both 1).run lookups inherited).agent) (by decide +kernel)
  obtain ⟨owner, howner, hname⟩ := ownerOf?_of_shown "u" "a"
    (t := ((Floor.start both 1).run lookups inherited).agent.tracker) (by decide +kernel)
  refine ⟨allows_inherited, ?_, o, owner, hfind, ?_, hname ▸ managing_both, ?_⟩
  · unfold WorkQueue.Quiet
    decide +kernel
  · rw [huid]
    exact howner
  · rw [hcoords]
    unfold Agent.Records
    decide +kernel

end Widgets
end StatusRelay
