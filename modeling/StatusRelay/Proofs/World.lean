import StatusRelay.Proofs.Announcements

/-!
# Objects and their places

What a cluster promises about its objects: they have names, an object has its UID to itself, equal
versions are equal objects, and a watch delivers its events in order. A listing that keeps to the
objects of such a cluster names them by their own coordinates. Then every key stands for one site,
a site has one record on the hub, and a worker handles no other record than that of its key.
-/
namespace StatusRelay

open Stage Ingest

/-- The name of the record for what is at some coordinates. -/
def recordOf (kind : ResourceKind) (c : Coordinates) : String := recordName kind.kind c.1 c.2

/-- The record has the name and the source of what is at some coordinates. -/
structure Describes (l : Lookups) (kind : ResourceKind) (c : Coordinates) (record : WorkStatus) :
    Prop where
  name : record.metadata.name = some (recordOf kind c)
  source : ∃ r, l.ofKind kind = .ok r ∧
    record.source = ⟨kind.group, kind.version, r.plural, kind.kind, c.2, c.1⟩

/-- A listing together with the places of the objects that it may name. -/
structure World (l : Lookups) extends Listing l where
  namespaced : ResourceKind → Bool
  site : ResourceKind → Coordinates → Prop
  fits : ∀ kind c, site kind c → c.Fits (namespaced kind)
  notWork : ∀ kind c, site kind c → kind ≠ appliedWorkKind
  apart : ∀ kind c kind' c', site kind c → site kind' c' →
    recordOf kind c = recordOf kind' c' → kind = kind' ∧ c = c'
  listed : ∀ e r, has e → l.Serves e r → site r.resourceKind (e.ns, e.name)

namespace Ingest

/-- An event that comes in its place and is of the right scope. -/
structure Orderly (i : Ingest) (namespaced : Bool) (e : WatchEvent) : Prop where
  expected : i.Expects e
  versioned : i.Versioned e
  scope : ∀ o, e.object? = some o → o.Scoped namespaced

/-- An event that changes the UID at no coordinates, unless nothing was there. -/
def Steady (i : Ingest) (e : WatchEvent) : Prop :=
  ∀ i' keys, i.handle? e = some (i', keys) → ∀ c o o', i.at? c = some o → i'.at? c = some o' →
    o'.uid = o.uid

end Ingest

namespace Agent

/-- The running watch of a kind has an object at some coordinates. -/
def Caches (a : Agent) (kind : ResourceKind) (c : Coordinates) (o : Object) : Prop :=
  ∃ i, a.registry.intake? kind = some i ∧ i.at? c = some o

theorem find_present_iff {a : Agent} {kind : ResourceKind} (hk : kind ≠ appliedWorkKind)
    (c : Coordinates) (o : Object) : a.find kind c.1 c.2 = .present o ↔ a.Caches kind c o := by
  simp only [find, cacheOf?, if_neg hk, Registry.lister?_eq, Caches, Ingest.at?]
  cases a.registry.intake? kind with
  | none => simp
  | some i =>
      cases hl : i.cache.lookup? c.1 c.2 <;> simp [hl]

theorem find_work_iff (a : Agent) (c : Coordinates) (o : Object) :
    a.find appliedWorkKind c.1 c.2 = .present o ↔ a.works.ingest.at? c = some o := by
  simp only [find, cacheOf?, if_true, Ingest.at?]
  cases hl : a.works.ingest.cache.lookup? c.1 c.2 <;> simp

theorem not_present_of_none {a : Agent} {kind : ResourceKind} (hk : kind ≠ appliedWorkKind)
    {c : Coordinates} (h : (a.registry.intake? kind).bind (·.at? c) = none) (o : Object) :
    a.find kind c.1 c.2 ≠ .present o := by
  intro ho
  obtain ⟨i, hi, hat⟩ := (find_present_iff hk c o).mp ho
  rw [hi, Option.bind_some, hat] at h
  cases h

theorem Caches.unique {a : Agent} {kind : ResourceKind} {c : Coordinates} {o o' : Object}
    (h : a.Caches kind c o) (h' : a.Caches kind c o') : o = o' := by
  obtain ⟨i, hi, ho⟩ := h
  obtain ⟨i', hi', ho'⟩ := h'
  rw [hi] at hi'
  cases hi'
  rw [ho] at ho'
  cases ho'
  rfl

end Agent

namespace World

variable {l : Lookups} {w : World l} {a a' : Agent} {id : WorkerId} {key : ObjectKey}
  {st st' : Stage} {notes log : List Note} {c c' : Crew} {m : Move} {kind : ResourceKind}
  {i i' : Ingest} {e : WatchEvent} {keys : List ObjectKey}

/-- An object of a kind at one of the sites; entries with its UID name it. -/
def Owns (w : World l) (kind : ResourceKind) (o : Object) : Prop :=
  w.site kind o.coordinates ∧ ∀ e r, w.has e → e.uid = o.uid → l.Serves e r →
    r.resourceKind = kind ∧ (e.ns, e.name) = o.coordinates

/-- Events are orderly, of objects of the world, and of deployment records that the listing
accepts. -/
def Allows (w : World l) (f : Floor) : Move → Prop
  | .work e => f.agent.works.ingest.Orderly false e ∧ ∀ o, e.stored? = some o → w.Accepts o
  | .object kind e => ∀ i, f.agent.registry.intake? kind = some i →
      i.Orderly (w.namespaced kind) e ∧ ∀ o, e.object? = some o → w.Owns kind o
  | .turn _ | .fire _ | .mood _ _ | .pass _ => True

/-- A key of a site, or of a deployment record. -/
def Known (w : World l) (key : ObjectKey) : Prop :=
  ∃ kind c, (w.site kind c ∨ kind = appliedWorkKind ∧ c.Fits false) ∧
    (key = liveKey kind c ∨ key = (liveKey kind c).intoDeleted)

/-- The object that a key is about. -/
def Subject (w : World l) (key : ObjectKey) (o : Object) : Prop :=
  key.kind ≠ appliedWorkKind ∧ o.coordinates = (key.ns, key.name) ∧ w.Owns key.kind o

/-- A stage concerns the object, the record or the deployment record of its key. -/
def About (w : World l) (key : ObjectKey) : Stage → Prop
  | fresh | finished _ => True
  | found o | reading o _ | fetching o _ | resolving o _ | patching o _ _ => w.Subject key o
  | creating o record => w.Subject key o ∧ Describes l key.kind (key.ns, key.name) record
  | updating _ _ => key.kind ≠ appliedWorkKind
  | looking name | erasing name => key.kind ≠ appliedWorkKind ∧
      name = recordOf key.kind (key.ns, key.name)
  | replacing work _ _ | removing work => key.kind = appliedWorkKind ∧ work = key.name
  | changing _ | telling _ _ _ | posting _ _ _ => key.kind = appliedWorkKind

theorem site_of_known (h : w.Known key) (hk : key.kind ≠ appliedWorkKind) :
    w.site key.kind (key.ns, key.name) := by
  obtain ⟨kind, c, hc | ⟨hwork, _⟩, rfl | rfl⟩ := h
  · exact hc
  · exact hc
  · exact absurd hwork hk
  · exact absurd hwork hk

theorem fits_of_known (h : w.Known key) (hk : key.kind = appliedWorkKind) :
    Coordinates.Fits false (key.ns, key.name) := by
  obtain ⟨kind, c, hc | ⟨_, hfits⟩, rfl | rfl⟩ := h
  · exact absurd hk (w.notWork kind c hc)
  · exact absurd hk (w.notWork kind c hc)
  · exact hfits
  · exact hfits

theorem snapshot_of_known (h : w.Known key) {snapshot : DeletedSnapshot}
    (hd : key.deleted = some snapshot) :
    recordName snapshot.kind snapshot.ns snapshot.name =
      recordOf key.kind (key.ns, key.name) ∧ snapshot.name = key.name := by
  obtain ⟨kind, c, _, rfl | rfl⟩ := h
  · cases hd
  · cases hd
    exact ⟨rfl, rfl⟩

/-- The key of a listed object is known. -/
theorem known_key (w : World l) {d : Change} {r : ApiResource} (hd : w.has d.entry)
    (hr : l.Serves d.entry r) : w.Known (d.key r) := by
  refine ⟨r.resourceKind, (d.entry.ns, d.entry.name), Or.inl (w.listed d.entry r hd hr), ?_⟩
  unfold Change.key
  cases d.gained with
  | true => exact Or.inl rfl
  | false => exact Or.inr rfl

theorem about_finished (w : World l) (key : ObjectKey) (result : Except AgentError Outcome) :
    w.About key (finished result) := trivial

theorem about_recorded {o : Object} (h : w.Subject key o) (record : WorkStatus) :
    w.About key (recorded o record) :=
  of_recorded record (w.about_finished key) (fun _ _ => h.1) fun _ _ => h

/-- Watches have objects of the world only, each at its place. -/
structure Sees (w : World l) (kind : ResourceKind) (i : Ingest) : Prop where
  sound : i.Sound (w.namespaced kind)
  owns : i.All (w.Owns kind)
  names : i.Names (w.site kind)

theorem sees_start (w : World l) (kind : ResourceKind) : w.Sees kind { kind := kind } :=
  ⟨sound_start _ kind, all_start _ kind, names_start _ kind⟩

theorem Sees.named (h : w.Sees kind i) : i.All fun o => w.site kind o.coordinates :=
  ⟨fun e he => (h.owns.1 e he).1, fun e he => (h.owns.2 e he).1⟩

theorem Sees.handle? (h : w.Sees kind i) (ho : i.Orderly (w.namespaced kind) e)
    (howns : ∀ o, e.object? = some o → w.Owns kind o) (he : i.handle? e = some (i', keys)) :
    w.Sees kind i' ∧ ∀ k ∈ keys, ∃ c, w.site kind c ∧ k = i'.keyFor (liveKey i.kind c) := by
  obtain ⟨hnames, hkeys⟩ := h.names.handle? h.named ho.expected
    (fun o hs => ⟨ho.scope o hs, (howns o hs).1⟩) he
  refine ⟨⟨h.sound.handle? ho.expected ho.versioned ho.scope he, ?_, hnames⟩, hkeys⟩
  exact h.owns.handle? (fun o hs => howns o (WatchEvent.object?_of_stored? hs)) he

/-- What holds in every state of a run. -/
structure Keeps (w : World l) (c : Crew) (log : List Note) : Prop where
  sound : c.Sound
  binds : w.Binds c
  heard : Heard w.toListing c log
  works : c.agent.works.ingest.Sound false
  worksNames : c.agent.works.ingest.Names (Coordinates.Fits false)
  worksKind : c.agent.works.ingest.kind = appliedWorkKind
  sees : ∀ kind i, c.agent.registry.intake? kind = some i → w.Sees kind i
  posted : ∀ key, .posted key ∈ log → w.Known key
  due : ∀ key, c.agent.queue.Due key → .posted key ∈ log
  taken : ∀ id key stage, c.Busy id key stage → .posted key ∈ log
  about : ∀ id key stage, c.Busy id key stage → w.About key stage

theorem Keeps.known (h : w.Keeps c log) {stage : Stage} (hb : c.Busy id key stage) :
    w.Known key := h.posted key (h.taken id key stage hb)

/-! ## Steps keep it -/

theorem keeps_start (w : World l) (cluster : String) (timeout : Duration)
    (limiter : Limiter ObjectKey) (manifestWorks : Table RecordKey ManifestWork) (workers : Nat) :
    w.Keeps (.start (.fresh cluster timeout limiter manifestWorks) workers) [] where
  sound := Crew.sound_start ..
  binds := w.binds_start ..
  heard := Heard.start ..
  works := sound_start false _
  worksNames := names_start _ _
  worksKind := rfl
  sees := by
    intro kind i hi
    cases hi
  posted := fun _ hp => absurd hp List.not_mem_nil
  due := by
    rintro key (hd | ⟨d, hd, _⟩)
    · cases hd
    · cases hd
  taken := fun _ _ _ hb => absurd hb Crew.not_busy_start
  about := fun _ _ _ hb => absurd hb Crew.not_busy_start

/-- An object that a worker finds is the subject of its key. -/
theorem Keeps.subject (h : w.Keeps c log) (hknown : w.Known key)
    (hk : key.kind ≠ appliedWorkKind) {o : Object}
    (hf : c.agent.find key.kind key.ns key.name = .present o) : w.Subject key o := by
  obtain ⟨i, hi, ho⟩ := (Agent.find_present_iff hk (key.ns, key.name) o).mp hf
  have hsees := h.sees key.kind i hi
  have hfits := w.fits _ _ (site_of_known hknown hk)
  exact ⟨hk, (hsees.sound.of_at? hfits ho).2, hsees.owns.of_lookup? ho⟩

theorem Keeps.about_leads (h : w.Keeps c log) (hknown : w.Known key) (hst : w.About key st)
    (ha : Leads l c.agent id key st st' notes) : w.About key st' := by
  cases ha with
  | present o hf hk => exact h.subject hknown hk hf
  | presentWork o hf hk =>
      refine of_opened (w.about_finished key) fun _ _ => ⟨hk, ?_⟩
      rw [hk] at hf
      have hat := (Agent.find_work_iff c.agent (key.ns, key.name) o).mp hf
      exact congrArg Prod.snd (h.works.of_at? (fits_of_known hknown hk) hat).2
  | gone snapshot _ hd hk => exact ⟨hk, (snapshot_of_known hknown hd).1⟩
  | workGone snapshot _ hd hk => exact ⟨hk, (snapshot_of_known hknown hd).2⟩
  | unownedDeleted o _ _ => exact ⟨hst.1, rfl⟩
  | owned | missing | fetched => exact hst
  | resolved o work r hr =>
      have hc : (o.ns, o.name) = (key.ns, key.name) := hst.2.1
      obtain ⟨hns, hname⟩ := Prod.mk.inj hc
      refine ⟨hst, ?_, r, hr, ?_⟩
      · simp only [Projector.newRecord, WorkStatus.empty, Projector.recordNameOf, hns, hname,
          recordOf]
      · simp only [Projector.newRecord, hns, hname]
  | read o owner record => exact about_recorded hst record
  | looked => exact hst
  | served | unserved => exact hst
  | absent | unwatched | unowned | unmanaged | unfetched | unresolved | clear => trivial

theorem Keeps.about_answered (h : w.Keeps c log) (hknown : w.Known key) (hst : w.About key st)
    (ha : Answered l c.agent id key st st' a' notes) : w.About key st' := by
  cases ha with
  | leads ha => exact h.about_leads hknown hst ha
  | creates =>
      exact of_created (w.about_finished key) (fun _ _ => hst.1.1) (fun _ _ => hst.1) _
  | patches => exact of_patched (w.about_finished key) (fun _ _ => hst.1) _
  | updates => exact of_updated (w.about_finished key) _
  | erases => exact of_erased (w.about_finished key) _
  | replaces | removes => exact hst.1
  | acquires | releases | posts => exact hst

end World

/-! ## What a step does to watches and keys -/

section

variable {l : Lookups} {a a' : Agent} {id : WorkerId} {key : ObjectKey} {st st' : Stage}
  {notes : List Note}

/-- A watch after an answer is one from before, or fresh. -/
theorem Answered.intake? (h : Answered l a id key st st' a' notes) (hr : a.registry.Sound)
    {kind : ResourceKind} {i : Ingest} (hi : a'.registry.intake? kind = some i) :
    a.registry.intake? kind = some i ∨
      a.registry.intake? kind = none ∧ i = { kind := kind } := by
  cases h with
  | leads | replaces | removes | posts => exact Or.inl hi
  | creates o record h | patches o record label h | updates record status h | erases name h =>
      obtain ⟨hub, rfl⟩ := h.frame
      exact Or.inl hi
  | acquires c resource =>
      cases hold : a.registry.intake? kind with
      | none => exact Or.inr ⟨rfl, Registry.intake?_acquire_of_none hold hr hi⟩
      | some i' =>
          rw [Registry.intake?_acquire hr (by rw [hold]; rfl), hold] at hi
          exact Or.inl hi
  | releases c resource =>
      have hs := hr.release resource.resourceKind c.uid
      have hholds := (hs.isSome_intake?_iff kind).mp (by rw [hi]; rfl)
      rw [Registry.intake?_release hr hholds] at hi
      exact Or.inl hi

theorem Turned.intake? {h h' : Hand} (t : Turned l a id h h' a' notes) (hr : a.registry.Sound)
    {kind : ResourceKind} {i : Ingest} (hi : a'.registry.intake? kind = some i) :
    a.registry.intake? kind = some i ∨
      a.registry.intake? kind = none ∧ i = { kind := kind } := by
  revert hi
  exact t.agent_of (P := fun a' => a'.registry.intake? kind = some i → _) (fun _ _ => Or.inl)
    fun _ _ _ _ _ ha hi => ha.intake? hr hi

theorem Note.mem_ofChanges {n : Note} {d : AppliedSet.Difference} (h : n ∈ Note.ofChanges d) :
    ∃ uid, n = .listed uid ∨ n = .dropped uid := by
  rcases List.mem_append.mp h with h | h
  · obtain ⟨e, _, rfl⟩ := List.mem_map.mp h
    exact ⟨e.uid, Or.inl rfl⟩
  · obtain ⟨e, _, rfl⟩ := List.mem_map.mp h
    exact ⟨e.uid, Or.inr rfl⟩

theorem Note.not_posted_ofChanges (key : ObjectKey) (d : AppliedSet.Difference) :
    Note.posted key ∉ Note.ofChanges d := by
  intro h
  obtain ⟨uid, h | h⟩ := Note.mem_ofChanges h <;> cases h

/-- A key is posted by the stage that has it. -/
theorem Answered.posting (h : Answered l a id key st st' a' notes) {b : ObjectKey}
    (hb : Note.posted b ∈ notes) : ∃ c r changes, st = .posting c r changes ∧ b = c.key r := by
  cases h with
  | posts c resource changes =>
      refine ⟨c, resource, changes, rfl, ?_⟩
      simpa using hb
  | leads h => cases h <;> simp at hb
  | creates => cases Note.eq_of_mem_ofAnswer_create hb
  | patches | updates => cases hb
  | erases => cases Note.eq_of_mem_ofAnswer_delete hb
  | replaces | removes => exact absurd hb (Note.not_posted_ofChanges _ _)
  | acquires | releases => simp at hb

/-- An answer queues the key that it posts. -/
theorem Answered.due_iff (h : Answered l a id key st st' a' notes) (hq : a.queue.Sound a.clock)
    (b : ObjectKey) : a'.queue.Due b ↔ a.queue.Due b ∨ Note.posted b ∈ notes := by
  have hnot : (∀ c r changes, st ≠ .posting c r changes) → a'.queue = a.queue →
      (a'.queue.Due b ↔ a.queue.Due b ∨ Note.posted b ∈ notes) := by
    intro hst hqueue
    rw [hqueue]
    refine ⟨Or.inl, fun hd => hd.resolve_right fun hb => ?_⟩
    obtain ⟨c, r, changes, he, _⟩ := h.posting hb
    exact hst c r changes he
  cases h with
  | posts c resource =>
      rw [WorkQueue.due_add hq.isOpen]
      simp
  | leads h => cases h <;> exact hnot nofun rfl
  | creates o record h | patches o record label h | updates record status h | erases name h =>
      obtain ⟨hub, rfl⟩ := h.frame
      exact hnot nofun rfl
  | replaces | removes | acquires | releases => exact hnot nofun rfl

theorem Turned.posting {h h' : Hand} (t : Turned l a id h h' a' notes) {b : ObjectKey}
    (hb : Note.posted b ∈ notes) :
    ∃ key c r changes p, h = .busy key (.posting c r changes) p ∧ b = c.key r := by
  rcases t.answered with ⟨rfl, _⟩ | ⟨key, st, st', p, rfl, _, ha⟩
  · cases hb
  · obtain ⟨c, r, changes, rfl, rfl⟩ := ha.posting hb
    exact ⟨key, c, r, changes, p, rfl, rfl⟩

/-- What a turn puts in the queue: what it posts, or the key that is tried again. -/
theorem Turned.due {h h' : Hand} (t : Turned l a id h h' a' notes) (hq : a.queue.Sound a.clock)
    {b : ObjectKey} (hb : a'.queue.Due b) :
    a.queue.Due b ∨ Note.posted b ∈ notes ∨ ∃ stage p, h = .busy b stage p := by
  cases t with
  | waits hh hs => exact Or.inl ((hs.due_iff b).mp hb)
  | takes key hh hout => exact Or.inl (hout.left b hb)
  | begins | gone => exact Or.inl hb
  | answers key ha => exact ((ha.due_iff hq b).mp hb).imp_right Or.inl
  | settles key hr =>
      rcases (Agent.due_settle hq).mp hb with hb | ⟨_, rfl⟩
      · exact Or.inl hb
      · exact Or.inr (Or.inr ⟨_, _, rfl⟩)

end

namespace World

variable {l : Lookups} {w : World l} {c c' : Crew} {m : Move} {notes log : List Note}

/-- A turn posts the keys of the world's objects. -/
theorem Keeps.posted_turn (h : w.Keeps c log) {id : WorkerId} {x x' : Hand} {a' : Agent}
    (hx : c.hands[id]? = some x) (t : Turned l c.agent id x x' a' notes) {key : ObjectKey}
    (hp : Note.posted key ∈ log ++ notes) : w.Known key := by
  rcases List.mem_append.mp hp with hp | hp
  · exact h.posted key hp
  · obtain ⟨key', d, r, changes, p, rfl, rfl⟩ := t.posting hp
    have hf := h.binds.fits id key' _ ⟨_, hx⟩
    exact w.known_key hf.1 hf.2.1

theorem Keeps.turn (h : w.Keeps c log) {id : WorkerId} {x x' : Hand} {a' : Agent}
    (hx : c.hands[id]? = some x) (t : Turned l c.agent id x x' a' notes) :
    w.Keeps ⟨a', c.hands.set id x'⟩ (log ++ notes) := by
  have hall := Crew.busy_turn (P := fun key stage => .posted key ∈ log ∧ w.About key stage) hx t
    (fun key hd => ⟨h.due key hd, of_first (w.about_finished key) trivial key⟩)
    (fun j key stage hb => ⟨h.taken j key stage hb, h.about j key stage hb⟩)
    fun key stage _ hb ha =>
      ⟨h.taken id key stage hb, h.about_answered (h.known hb) (h.about id key stage hb) ha⟩
  exact {
    sound := h.sound.turn hx t
    binds := h.binds.turn h.sound hx t
    heard := h.heard.turn h.sound h.binds hx t
    works := t.works ▸ h.works
    worksNames := t.works ▸ h.worksNames
    worksKind := t.works ▸ h.worksKind
    sees := by
      intro kind i hi
      rcases t.intake? h.sound.registry hi with hi | ⟨_, rfl⟩
      · exact h.sees kind i hi
      · exact w.sees_start kind
    posted := fun key hp => h.posted_turn hx t hp
    due := by
      intro key hd
      rcases t.due h.sound.queue hd with hd | hp | ⟨stage, p, rfl⟩
      · exact List.mem_append.mpr (Or.inl (h.due key hd))
      · exact List.mem_append.mpr (Or.inr hp)
      · exact List.mem_append.mpr (Or.inl (h.taken id key stage ⟨p, hx⟩))
    taken := fun j key stage hb => List.mem_append.mpr (Or.inl (hall j key stage hb).1)
    about := fun j key stage hb => (hall j key stage hb).2 }

/-- The keys of an event are queued and posted. -/
theorem Keeps.due_addAll (h : w.Keeps c log) (keys : List ObjectKey) {key : ObjectKey}
    (hd : (c.agent.queue.addAll keys).Due key) : .posted key ∈ log ++ keys.map Note.posted := by
  rcases (WorkQueue.due_addAll h.sound.queue keys key).mp hd with hd | hd
  · exact List.mem_append.mpr (Or.inl (h.due key hd))
  · exact List.mem_append.mpr (Or.inr (List.mem_map_of_mem hd))

theorem Keeps.posted_addAll (h : w.Keeps c log) {keys : List ObjectKey}
    (hkeys : ∀ k ∈ keys, w.Known k) {key : ObjectKey}
    (hp : .posted key ∈ log ++ keys.map Note.posted) : w.Known key := by
  rcases List.mem_append.mp hp with hp | hp
  · exact h.posted key hp
  · obtain ⟨k, hk, he⟩ := List.mem_map.mp hp
    cases he
    exact hkeys key hk

theorem known_keyFor {kind : ResourceKind} {i : Ingest} {p : Coordinates}
    (hp : w.site kind p ∨ kind = appliedWorkKind ∧ p.Fits false) :
    w.Known (i.keyFor (liveKey kind p)) := by
  refine ⟨kind, p, hp, ?_⟩
  cases hat : i.at? p with
  | some o => exact Or.inl (keyFor_of_some hat kind)
  | none => exact Or.inr (keyFor_of_none hat kind)

theorem Keeps.object (h : w.Keeps c log) {kind : ResourceKind} {e : WatchEvent} {held : Holding}
    {i i' : Ingest} {keys : List ObjectKey}
    (hg : c.agent.registry.held.get? kind = some held)
    (hi : c.agent.registry.intake? kind = some i) (he : i.handle? e = some (i', keys))
    (ho : i.Orderly (w.namespaced kind) e) (howns : ∀ o, e.object? = some o → w.Owns kind o)
    (s : Crew.Step l c (.object kind e) ⟨{ c.agent with
      registry := c.agent.registry.setIngest held.watch i'
      queue := c.agent.queue.addAll keys }, c.hands⟩ (keys.map Note.posted)) :
    w.Keeps ⟨{ c.agent with
      registry := c.agent.registry.setIngest held.watch i'
      queue := c.agent.queue.addAll keys }, c.hands⟩ (log ++ keys.map Note.posted) where
  sound := h.sound.step s
  binds := h.binds.step h.sound (m := .object kind e) trivial s
  heard := h.heard.step h.sound h.binds s
  works := h.works
  worksNames := h.worksNames
  worksKind := h.worksKind
  sees := by
    intro kind' j hj
    rcases Registry.of_intake?_setIngest h.sound.registry hg hj with ⟨rfl, rfl⟩ | ⟨_, hj⟩
    · exact ((h.sees _ i hi).handle? ho howns he).1
    · exact h.sees kind' j hj
  posted := by
    intro key hp
    refine h.posted_addAll (fun k hk => ?_) hp
    obtain ⟨p, hp, rfl⟩ := ((h.sees kind i hi).handle? ho howns he).2 k hk
    rw [h.sound.registry.kind_of_intake? hi]
    exact known_keyFor (Or.inl hp)
  due := fun key hd => h.due_addAll keys hd
  taken := fun id key stage hb => List.mem_append.mpr (Or.inl (h.taken id key stage hb))
  about := h.about

theorem Keeps.work (h : w.Keeps c log) {e : WatchEvent} {i' : Ingest} {keys : List ObjectKey}
    (he : c.agent.works.ingest.handle? e = some (i', keys))
    (ho : c.agent.works.ingest.Orderly false e) (ha : ∀ o, e.stored? = some o → w.Accepts o)
    (s : Crew.Step l c (.work e) ⟨{ c.agent with
      works := { c.agent.works with ingest := i' }
      queue := c.agent.queue.addAll keys }, c.hands⟩ (keys.map Note.posted)) :
    w.Keeps ⟨{ c.agent with
      works := { c.agent.works with ingest := i' }
      queue := c.agent.queue.addAll keys }, c.hands⟩ (log ++ keys.map Note.posted) := by
  obtain ⟨hnames, hkeys⟩ := h.worksNames.handle? h.works.fits ho.expected
    (fun o hs => ⟨ho.scope o hs, (ho.scope o hs).fits⟩) he
  exact {
    sound := h.sound.step s
    binds := h.binds.step h.sound (m := .work e) ha s
    heard := h.heard.step h.sound h.binds s
    works := h.works.handle? ho.expected ho.versioned ho.scope he
    worksNames := hnames
    worksKind := (kind_handle? he).trans h.worksKind
    sees := h.sees
    posted := by
      intro key hp
      refine h.posted_addAll (fun k hk => ?_) hp
      obtain ⟨p, hp, rfl⟩ := hkeys k hk
      rw [h.worksKind]
      exact known_keyFor (Or.inr ⟨rfl, hp⟩)
    due := fun key hd => h.due_addAll keys hd
    taken := fun id key stage hb => List.mem_append.mpr (Or.inl (h.taken id key stage hb))
    about := h.about }

/-- What is found at a site after an event is what was found there before, or the site's key is
posted, live or as deleted as the site is then. -/
theorem Keeps.caches_object (h : w.Keeps c log) {watched : ResourceKind} {e : WatchEvent}
    {held : Holding} {i i' : Ingest} {keys : List ObjectKey}
    (hg : c.agent.registry.held.get? watched = some held)
    (hi : c.agent.registry.intake? watched = some i) (he : i.handle? e = some (i', keys))
    (ho : i.Orderly (w.namespaced watched) e) {kind : ResourceKind} {p : Coordinates}
    (hp : w.site kind p) :
    let a' : Agent := { c.agent with
      registry := c.agent.registry.setIngest held.watch i'
      queue := c.agent.queue.addAll keys }
    (∀ o, a'.Caches kind p o ↔ c.agent.Caches kind p o) ∨
      (∃ o, a'.Caches kind p o) ∧ liveKey kind p ∈ keys ∨
      (∀ o, ¬ a'.Caches kind p o) ∧ (liveKey kind p).intoDeleted ∈ keys := by
  intro a'
  have hset : a'.registry.intake? kind = _ :=
    Registry.intake?_setIngest h.sound.registry hg i' kind
  by_cases hk : kind = watched
  · subst hk
    rw [if_pos rfl] at hset
    have hafter : ∀ o, a'.Caches kind p o ↔ i'.at? p = some o := by
      simp [Agent.Caches, hset]
    have hbefore : ∀ o, c.agent.Caches kind p o ↔ i.at? p = some o := by
      simp [Agent.Caches, hi]
    rcases reports_handle? (h.sees kind i hi).sound ho.expected ho.versioned ho.scope he p
      (w.fits kind p hp) with hsame | hkey
    · refine Or.inl fun o => ?_
      rw [hafter, hbefore, hsame]
    · rw [h.sound.registry.kind_of_intake? hi] at hkey
      simp only [hafter]
      cases hnow : i'.at? p with
      | some o =>
          rw [keyFor_of_some hnow] at hkey
          exact Or.inr (Or.inl ⟨⟨o, rfl⟩, hkey⟩)
      | none =>
          rw [keyFor_of_none hnow] at hkey
          exact Or.inr (Or.inr ⟨by simp, hkey⟩)
  · refine Or.inl fun o => ?_
    rw [if_neg hk] at hset
    rw [Agent.Caches, hset, Agent.Caches]

theorem Keeps.step (h : w.Keeps c log) (hm : w.Allows c.floor m) (s : Crew.Step l c m c' notes) :
    w.Keeps c' (log ++ notes) := by
  cases s with
  | turn id hx t => exact h.turn hx t
  | work e he => exact h.work he hm.1 hm.2 (.work e he)
  | object kind e hg hi he =>
      obtain ⟨ho, howns⟩ := hm _ hi
      exact h.object hg hi he ho howns (.object kind e hg hi he)
  | fire d hd =>
      exact { h with
        sound := h.sound.step (.fire (l := l) d hd)
        binds := h.binds.step h.sound (m := .fire d) trivial (.fire d hd)
        heard := h.heard.step h.sound h.binds (.fire (l := l) d hd)
        posted := by simpa using h.posted
        due := by simpa [WorkQueue.due_fire h.sound.queue hd] using h.due
        taken := by
          rw [List.append_nil]
          exact h.taken }
  | mood failWrites writeDelay =>
      exact { h with
        sound := h.sound.step (.mood (l := l) failWrites writeDelay)
        binds := h.binds.step h.sound (m := .mood failWrites writeDelay) trivial
          (.mood failWrites writeDelay)
        heard := h.heard.step h.sound h.binds (.mood (l := l) failWrites writeDelay)
        posted := by simpa using h.posted
        due := by simpa using h.due
        taken := by
          rw [List.append_nil]
          exact h.taken }
  | pass time =>
      exact { h with
        sound := h.sound.step (.pass (l := l) time)
        binds := h.binds.step h.sound (m := .pass time) trivial (.pass time)
        heard := h.heard.step h.sound h.binds (.pass (l := l) time)
        posted := by simpa using h.posted
        due := by simpa using h.due
        taken := by
          rw [List.append_nil]
          exact h.taken }
  | still =>
      rw [List.append_nil]
      exact h

end World

/-! ## Checking what is allowed -/

namespace Ingest

/-- The object does not come under the version of the cached one. -/
def isNews (i : Ingest) (o : Object) : Bool :=
  (i.at? o.coordinates).all fun cached => cached.resourceVersion != o.resourceVersion

/-- The event comes in its place and brings news. -/
def inPlace (i : Ingest) : WatchEvent → Bool
  | .apply o => i.relist.isNone && i.isNews o
  | .delete _ => i.relist.isNone
  | .init => true
  | .initApply o => i.relist.isSome && i.isNews o
  | .initDone => i.relist.isSome

theorem inPlace_iff (i : Ingest) (e : WatchEvent) :
    i.inPlace e = true ↔ i.Expects e ∧ ∀ o, e.stored? = some o → i.isNews o = true := by
  cases e <;> simp [inPlace, Expects, WatchEvent.stored?]

theorem orderly_of_inPlace {i : Ingest} {e : WatchEvent} {namespaced : Bool}
    (h : i.inPlace e = true) (hs : ∀ o, e.object? = some o → o.Scoped namespaced) :
    i.Orderly namespaced e := by
  obtain ⟨hexpects, hnews⟩ := (i.inPlace_iff e).mp h
  refine ⟨hexpects, fun o ho cached hat hsame => ?_, hs⟩
  have hnew := hnews o ho
  rw [isNews, hat] at hnew
  simp [hsame] at hnew

end Ingest

namespace Floor

def inPlace (f : Floor) : Move → Bool
  | .work e => f.agent.works.ingest.inPlace e
  | .object kind e => (f.agent.registry.intake? kind).all (·.inPlace e)
  | .turn _ | .fire _ | .mood _ _ | .pass _ => true

/-- Whether all events of a run come in their places. -/
def allInPlace (l : Lookups) : Floor → List Move → Bool
  | _, [] => true
  | f, m :: rest => f.inPlace m && allInPlace l (f.move l m) rest

end Floor

namespace World

variable {l : Lookups} {w : World l} {m : Move} {f : Floor} {moves : List Move}

/-- What a move brings belongs to the world. -/
def Brings (w : World l) : Move → Prop
  | .work e => ∀ o, e.object? = some o → o.Scoped false ∧ w.Accepts o
  | .object kind e => ∀ o, e.object? = some o → o.Scoped (w.namespaced kind) ∧ w.Owns kind o
  | .turn _ | .fire _ | .mood _ _ | .pass _ => True

theorem allows_of_inPlace (hm : w.Brings m) (h : f.inPlace m = true) : w.Allows f m := by
  cases m with
  | work e =>
      refine ⟨orderly_of_inPlace h fun o ho => (hm o ho).1, fun o ho => ?_⟩
      exact (hm o (WatchEvent.object?_of_stored? ho)).2
  | object kind e =>
      intro i hi
      have hin : i.inPlace e = true := by
        rw [Floor.inPlace, hi] at h
        exact h
      exact ⟨orderly_of_inPlace hin fun o ho => (hm o ho).1, fun o ho => (hm o ho).2⟩
  | turn | fire | mood | pass => trivial

theorem along_of_inPlace (hm : ∀ m ∈ moves, w.Brings m) (h : f.allInPlace l moves = true) :
    Floor.Along w.Allows l f moves := by
  induction moves generalizing f with
  | nil => trivial
  | cons m rest ih =>
      obtain ⟨hin, hrest⟩ := Bool.and_eq_true_iff.mp h
      exact ⟨allows_of_inPlace (hm m List.mem_cons_self) hin,
        ih (fun n hn => hm n (List.mem_cons_of_mem _ hn)) hrest⟩

end World

/-! ## A world with one widget -/

namespace Widgets

/-- The widget that the entry names. -/
def widget : Object where
  metadata :=
    { name := some "w", ns := some "default", uid := some "u", resourceVersion := some "1" }

def world : World lookups where
  toListing := listing
  namespaced _ := true
  site kind p := kind = resource.resourceKind ∧ p = ("default", "w")
  fits := by
    rintro _ _ ⟨_, rfl⟩
    exact ⟨by decide, by decide⟩
  notWork := by
    rintro _ _ ⟨rfl, _⟩
    decide
  apart := by
    rintro _ _ _ _ ⟨rfl, rfl⟩ ⟨rfl, rfl⟩ _
    exact ⟨rfl, rfl⟩
  listed := by
    intro _ r rfl he
    cases he
    exact ⟨rfl, rfl⟩

theorem owns_widget : world.Owns resource.resourceKind widget := by
  refine ⟨⟨rfl, rfl⟩, ?_⟩
  intro _ r rfl _ he
  cases he
  exact ⟨rfl, rfl⟩

theorem scoped_widget : widget.Scoped true :=
  ⟨⟨"w", by decide, rfl⟩, "default", by decide, rfl⟩

/-- An event about the widget is allowed between two lists, and a change only of what is new or
another version. -/
theorem allows_widget {f : Floor} {e : WatchEvent} (he : e.object? = some widget)
    (hcalm : ∀ i, f.agent.registry.intake? resource.resourceKind = some i →
      i.Expects e ∧ (e.stored? = none ∨ i.at? ("default", "w") = none)) :
    world.Allows f (.object resource.resourceKind e) := by
  intro i hi
  obtain ⟨hx, hnew⟩ := hcalm i hi
  refine ⟨⟨hx, ?_, ?_⟩, ?_⟩
  · intro o ho cached hc _
    rcases hnew with hnone | hat
    · rw [hnone] at ho
      cases ho
    · have howned := WatchEvent.object?_of_stored? ho
      rw [he] at howned
      cases howned
      rw [show i.at? widget.coordinates = none from hat] at hc
      cases hc
  · intro o ho
    rw [he] at ho
    cases ho
    exact scoped_widget
  · intro o ho
    rw [he] at ho
    cases ho
    exact owns_widget

/-- A deployment record that is new is allowed between two lists. -/
theorem allows_work {f : Floor} {name : String} (hname : name ≠ "")
    (hx : f.agent.works.ingest.relist = none)
    (hnew : f.agent.works.ingest.at? ("", name) = none) :
    world.Allows f (.work (.apply (work name))) := by
  refine ⟨⟨hx, ?_, ?_⟩, ?_⟩
  · rintro o ⟨⟩ cached hc _
    rw [show f.agent.works.ingest.at? (work name).coordinates = none from hnew] at hc
    cases hc
  · intro o he
    cases he
    exact ⟨⟨name, hname, rfl⟩, rfl⟩
  · intro o he
    cases he
    exact accepts_work name

theorem brings_turns (id : WorkerId) (count : Nat) : ∀ m ∈ turns id count, world.Brings m := by
  intro m hm
  rw [(List.mem_replicate.mp hm).2]
  trivial

theorem brings_work {e : WatchEvent} {name : String} (hname : name ≠ "")
    (he : e.object? = some (work name)) : world.Brings (.work e) := by
  intro o ho
  rw [he] at ho
  cases ho
  exact ⟨⟨⟨name, hname, rfl⟩, rfl⟩, accepts_work name⟩

/-- What is seen of the object that a watch has under the widgets' name. -/
theorem find_of_shown {a : Agent} (uid : String)
    (h : ((a.registry.intake? resource.resourceKind).bind (·.at? ("default", "w"))).map
      (fun o => (o.coordinates, o.uid)) = some (("default", "w"), uid)) :
    ∃ o, a.find resource.resourceKind o.ns o.name = .present o ∧
      o.coordinates = ("default", "w") ∧ o.uid = uid := by
  obtain ⟨o, ho, hshown⟩ := Option.map_eq_some_iff.mp h
  obtain ⟨hcoords, huid⟩ := Prod.mk.inj hshown
  refine ⟨o, (Agent.find_present_iff (by decide) o.coordinates o).mpr ?_, hcoords, huid⟩
  obtain ⟨i, hi, hat⟩ := Option.bind_eq_some_iff.mp ho
  exact ⟨i, hi, hcoords ▸ hat⟩

/-- The hub has the deployment record that manages the widget. -/
def managed : Agent :=
  .fresh "cluster1" (.ofSeconds 5) (.exponential (.ofMillis 5) (.ofSeconds 1000) {})
    (Table.insert {} ("cluster1", "a")
      { metadata := { labels := some (.ofList [("managed-by.kubestellar.io", "x")]) } })

def managedWorks : Table RecordKey ManifestWork := managed.hub.manifestWorks

theorem managed_eq : managed = .fresh "cluster1" (.ofSeconds 5)
    (.exponential (.ofMillis 5) (.ofSeconds 1000) {}) managedWorks := rfl

end Widgets
end StatusRelay
