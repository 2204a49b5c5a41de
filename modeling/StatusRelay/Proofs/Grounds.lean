import StatusRelay.Proofs.Alone
import StatusRelay.Proofs.Occasions

/-!
# Grounds of a deletion

A deletion key is queued when the last record that listed an object's UID drops it, or when a watch
reports that there is no object. It is processed later, and what a look-up finds then decides: with
an object in the cache whose UID is tracked nothing is deleted. But a watch that was started
meanwhile has an empty cache until its first list is complete, and nobody asks whether it is, so an
object that is tracked again may lose its record. With one worker, this and no more can go wrong:
every deletion had its grounds when its key was queued, and nothing spoke against it when the key
was looked up.
-/
namespace StatusRelay

open Stage Ingest Note

namespace Ingest

variable {i i' : Ingest} {e : WatchEvent} {keys : List ObjectKey}

/-- The keys held back during a list are live keys of the watch's kind. -/
def Plain (i : Ingest) : Prop :=
  ∀ r, i.relist = some r → ∀ k ∈ r.pending, k.kind = i.kind ∧ k.deleted = none

theorem plain_start (kind : ResourceKind) : Plain { kind := kind } := by
  intro r hr
  cases hr

/-- A key is of some kind; if it is a deletion key, nothing is cached at its coordinates. -/
def Tells (i : Ingest) (kind : ResourceKind) (k : ObjectKey) : Prop :=
  k.kind = kind ∧ (k.deleted = none ∨ k = k.intoDeleted ∧ i.at? (k.ns, k.name) = none)

theorem tells_keyFor (i : Ingest) {k : ObjectKey} (hk : k.deleted = none) :
    i.Tells k.kind (i.keyFor k) := by
  unfold keyFor
  cases hl : i.cache.lookup? k.ns k.name with
  | some o => exact ⟨rfl, Or.inl hk⟩
  | none => exact ⟨rfl, Or.inr ⟨rfl, hl⟩⟩

theorem Plain.listed (h : i.Plain) (o : Object) (place : String × Option String) :
    (i.listed o place).1.Plain ∧
      ∀ k ∈ (i.listed o place).2, (i.listed o place).1.Tells i.kind k := by
  unfold Ingest.listed
  cases hr : i.relist with
  | none =>
      refine ⟨?_, fun k hk => ?_⟩
      · rintro r ⟨⟩
      · simp only at hk
        split at hk
        · rw [List.mem_singleton.mp hk]
          exact tells_keyFor i rfl
        · cases hk
  | some r =>
      refine ⟨?_, fun k hk => absurd hk List.not_mem_nil⟩
      rintro _ ⟨⟩ k hk
      simp only at hk
      split at hk
      · rcases List.mem_append.mp hk with hk | hk
        · exact h r hr k hk
        · rw [List.mem_singleton.mp hk]
          exact ⟨rfl, rfl⟩
      · exact h r hr k hk

theorem Plain.listCompleted (h : i.Plain) :
    i.listCompleted.1.Plain ∧ ∀ k ∈ i.listCompleted.2, i.listCompleted.1.Tells i.kind k := by
  unfold Ingest.listCompleted
  cases hr : i.relist with
  | none =>
      refine ⟨?_, fun k hk => absurd hk List.not_mem_nil⟩
      rintro r ⟨⟩
  | some r =>
      refine ⟨?_, fun k hk => ?_⟩
      · rintro r ⟨⟩
      · obtain ⟨k', hk', rfl⟩ := List.mem_map.mp hk
        have hplain : k'.kind = i.kind ∧ k'.deleted = none := by
          rcases List.mem_append.mp hk' with hk' | hk'
          · exact h r hr k' hk'
          · obtain ⟨c, _, rfl⟩ := List.mem_map.mp hk'
            exact ⟨rfl, rfl⟩
        rw [← hplain.1]
        exact tells_keyFor _ hplain.2

theorem Plain.handle? (h : i.Plain) (he : i.handle? e = some (i', keys)) :
    i'.Plain ∧ ∀ k ∈ keys, i'.Tells i.kind k := by
  cases e with
  | apply o =>
      obtain ⟨place, _, hp⟩ := Option.map_eq_some_iff.mp he
      cases hp
      refine ⟨h, fun k hk => ?_⟩
      split at hk
      · rw [List.mem_singleton.mp hk]
        exact tells_keyFor _ rfl
      · cases hk
  | delete o =>
      obtain ⟨place, _, hp⟩ := Option.map_eq_some_iff.mp he
      cases hp
      refine ⟨h, fun k hk => ?_⟩
      rw [List.mem_singleton.mp hk]
      exact tells_keyFor _ rfl
  | init =>
      cases he
      refine ⟨?_, fun k hk => absurd hk List.not_mem_nil⟩
      rintro _ ⟨⟩ k hk
      cases hk
  | initApply o =>
      obtain ⟨place, _, hp⟩ := Option.map_eq_some_iff.mp he
      have hlisted := h.listed o place
      rw [hp] at hlisted
      exact hlisted
  | initDone =>
      have hcompleted := h.listCompleted
      rw [Option.some.inj he] at hcompleted
      exact hcompleted

end Ingest

/-! ## What a history says about a key -/

namespace Floor

variable {f : Floor} {past rest : List Occasion} {key : ObjectKey} {e : AppliedResource}
  {t : Tracker} {p q : Agent → Prop}

/-- Lookups have found an entry to stand for the object at a key's coordinates. -/
def Sites (past : List Occasion) (key : ObjectKey) (e : AppliedResource) : Prop :=
  e.ns = key.ns ∧ e.name = key.name ∧
    ∃ o ∈ past, ∃ r, o.lookups.Serves e r ∧ r.resourceKind = key.kind

/-- An entry was stored, and then the last record that listed its UID dropped it. -/
def Drops (f : Floor) (past : List Occasion) (e : AppliedResource) : Prop :=
  ∃ earlier o later, past = earlier ++ o :: later ∧
    (f.follow earlier).agent.tracker.Stores e ∧
    ¬ (f.follow (earlier ++ [o])).agent.tracker.Lists e.uid

/-- Why a deletion key was queued: an entry at its coordinates had been dropped by the last record
that listed its UID and was not listed again, or an event left nothing in the cache there. -/
inductive Grounds (f : Floor) (past : List Occasion) (key : ObjectKey) : Prop
  | dropped {earlier later : List Occasion} {o : Occasion} {e : AppliedResource}
      (hpast : past = earlier ++ o :: later)
      (hposted : .posted key ∈ (f.follow earlier).notes o.lookups o.move)
      (hsites : Sites earlier key e) (hdrops : f.Drops earlier e)
      (hunlisted : ¬ (f.follow earlier).agent.tracker.Lists e.uid)
  | reported {earlier later : List Occasion} {l : Lookups} {e : WatchEvent} {i : Ingest}
      (hpast : past = earlier ++ ⟨l, .object key.kind e⟩ :: later)
      (hposted : .posted key ∈ (f.follow earlier).notes l (.object key.kind e))
      (hintake : (f.follow (earlier ++ [⟨l, .object key.kind e⟩])).agent.registry.intake? key.kind =
        some i)
      (hgone : i.at? (key.ns, key.name) = none)

/-- A deletion key of a watched object carries the snapshot of its own coordinates and has its
grounds. -/
def Justifies (f : Floor) (past : List Occasion) (key : ObjectKey) : Prop :=
  key.kind ≠ appliedWorkKind → key.isDeleted = true →
    key = key.intoDeleted ∧ f.Grounds past key

/-- The only worker has a key in hand. -/
def Holds (f : Floor) (key : ObjectKey) : Prop := ∃ w, f.workers = [w] ∧ w.key? = some key

/-- The worker looked its key up in the turn after `before`, and has had it in hand since. -/
structure LooksUp (f : Floor) (past : List Occasion) (key : ObjectKey)
    (before : List Occasion) : Prop where
  begun : (f.follow before).workers =
    [.working key (Reconciler.reconcile f.agent.cluster key).run]
  since : ∃ o after, past = before ++ o :: after ∧ o.move = .turn 0 ∧
    ∀ between rest, after = between ++ rest → (f.follow (before ++ o :: between)).Holds key

/-- The worker looked its key up in a state of which something holds. The tracker was as it is
now. -/
def LookedUp (f : Floor) (past : List Occasion) (key : ObjectKey) (t : Tracker)
    (p : Agent → Prop) : Prop :=
  ∃ before, f.LooksUp past key before ∧ (f.follow before).agent.tracker = t ∧
    f.Justifies before key ∧ p (f.follow before).agent

theorem Drops.later (h : f.Drops past e) (rest : List Occasion) : f.Drops (past ++ rest) e := by
  obtain ⟨earlier, o, later, rfl, hs, hl⟩ := h
  exact ⟨earlier, o, later ++ rest, by simp, hs, hl⟩

theorem Grounds.later (h : f.Grounds past key) (rest : List Occasion) :
    f.Grounds (past ++ rest) key := by
  cases h with
  | @dropped earlier later o e hpast hposted hsites hdrops hunlisted =>
      have hlonger : past ++ rest = earlier ++ o :: (later ++ rest) := by simp [hpast]
      exact .dropped hlonger hposted hsites hdrops hunlisted
  | @reported earlier later l e i hpast hposted hintake hgone =>
      have hlonger : past ++ rest = earlier ++ ⟨l, .object key.kind e⟩ :: (later ++ rest) := by
        simp [hpast]
      exact .reported hlonger hposted hintake hgone

theorem Justifies.later (h : f.Justifies past key) (rest : List Occasion) :
    f.Justifies (past ++ rest) key := by
  intro hk hd
  obtain ⟨hkey, hg⟩ := h hk hd
  exact ⟨hkey, hg.later rest⟩

theorem LooksUp.later {before : List Occasion} (h : f.LooksUp past key before) {o : Occasion}
    (hheld : (f.follow (past ++ [o])).Holds key) : f.LooksUp (past ++ [o]) key before where
  begun := h.begun
  since := by
    obtain ⟨first, after, rfl, hfirst, hsince⟩ := h.since
    refine ⟨first, after ++ [o], by simp, hfirst, fun between rest hsplit => ?_⟩
    rcases List.eq_nil_or_concat rest with rfl | ⟨rest, last, rfl⟩
    · rw [List.append_nil] at hsplit
      rw [← hsplit]
      simpa using hheld
    · rw [List.concat_eq_append, ← List.append_assoc] at hsplit
      exact hsince between rest (List.append_inj_left' hsplit rfl)

theorem LookedUp.later (h : f.LookedUp past key t p) {o : Occasion}
    (hheld : (f.follow (past ++ [o])).Holds key) : f.LookedUp (past ++ [o]) key t p := by
  obtain ⟨before, hlooks, hp⟩ := h
  exact ⟨before, hlooks.later hheld, hp⟩

theorem LookedUp.imp (h : f.LookedUp past key t p) (hpq : ∀ a : Agent, a.tracker = t → p a → q a) :
    f.LookedUp past key t q := by
  obtain ⟨before, hlooks, ht, hj, hp⟩ := h
  exact ⟨before, hlooks, ht, hj, hpq _ ht hp⟩

end Floor

/-- What a stage knows about the history of its key. -/
def Stage.Recalls (f : Floor) (past : List Occasion) (key : ObjectKey) (t : Tracker) :
    Stage → Prop
  | fresh => key.name ≠ ""
  | found o => key.kind ≠ appliedWorkKind ∧ f.LookedUp past key t fun a =>
      a.find key.kind key.ns key.name = .present o
  | looking record => record = recordName key.kind.kind key.ns key.name ∧
      key.kind ≠ appliedWorkKind ∧ key.isDeleted = true ∧ f.LookedUp past key t fun a =>
        ∀ o, a.find key.kind key.ns key.name = .present o → a.tracker.ownerOf? o.uid = none
  | changing changes => ∀ c ∈ changes, c.gained = false → f.Drops past c.entry ∧ ¬ t.Lists c.uid
  | telling c r changes | posting c r changes =>
      (∃ o ∈ past, o.lookups.Serves c.entry r) ∧
        ∀ d ∈ c :: changes, d.gained = false → f.Drops past d.entry ∧ ¬ t.Lists d.uid
  | _ => True

namespace Stage

variable {f : Floor} {past : List Occasion} {key : ObjectKey} {t : Tracker} {st : Stage}

theorem recalls_finished (result : Except AgentError Outcome) :
    (finished result).Recalls f past key t := trivial

theorem Recalls.later (h : st.Recalls f past key t) {o : Occasion}
    (hheld : (f.follow (past ++ [o])).Holds key) : st.Recalls f (past ++ [o]) key t := by
  cases st with
  | found o => exact ⟨h.1, h.2.later hheld⟩
  | looking record => exact ⟨h.1, h.2.1, h.2.2.1, h.2.2.2.later hheld⟩
  | changing changes =>
      intro c hc hg
      exact (h c hc hg).imp_left fun hd => hd.later _
  | telling c r changes | posting c r changes =>
      obtain ⟨⟨o, ho, hs⟩, hlost⟩ := h
      refine ⟨⟨o, List.mem_append.mpr (Or.inl ho), hs⟩, fun d hd hg => ?_⟩
      exact (hlost d hd hg).imp_left fun hd => hd.later _
  | _ => exact h

end Stage

/-! ## What a lone worker knows -/

variable {l : Lookups} {c c' : Crew} {a' : Agent} {x x' : Hand} {id : WorkerId}
  {key : ObjectKey} {st st' : Stage} {notes : List Note} {f : Floor} {past : List Occasion}

/-- What holds of a lone worker and its agent after some history. -/
structure Informed (f : Floor) (c : Crew) (past : List Occasion) : Prop where
  sound : c.Sound
  single : c.hands.length = 1
  floor : c.floor = f.follow past
  cluster : c.agent.cluster = f.agent.cluster
  worksKind : c.agent.works.ingest.kind = appliedWorkKind
  works : c.agent.works.ingest.Plain
  plain : ∀ kind i, c.agent.registry.intake? kind = some i → i.Plain
  due : ∀ key, c.agent.queue.Due key → f.Justifies past key
  held : ∀ id key stage, c.Busy id key stage → f.Justifies past key
  recalls : ∀ id key stage, c.Busy id key stage → stage.Recalls f past key c.agent.tracker

namespace Informed

theorem start (cluster : String) (timeout : Duration) (limiter : Limiter ObjectKey) (hub : Hub) :
    Informed (.start (.before cluster timeout limiter hub) 1)
      (.start (.before cluster timeout limiter hub) 1) [] where
  sound := Crew.sound_before cluster timeout limiter hub 1
  single := rfl
  floor := Crew.floor_start _ 1
  cluster := rfl
  worksKind := rfl
  works := plain_start _
  plain := by
    intro kind i hi
    cases hi
  due := by
    intro key hd
    rcases hd with hd | ⟨_, hd, _⟩ <;> cases hd
  held := fun _ _ _ hb => absurd hb Crew.not_busy_start
  recalls := fun _ _ _ hb => absurd hb Crew.not_busy_start

/-- The only worker. -/
theorem hands_eq (h : Informed f c past) (hx : c.hands[id]? = some x) :
    id = 0 ∧ c.hands = [x] := by
  have hid := Alone.id_eq_zero h.single hx
  obtain ⟨y, hy⟩ := List.length_eq_one_iff.mp h.single
  subst hid
  rw [hy] at hx
  cases hx
  exact ⟨rfl, hy⟩

theorem workers_eq (h : Informed f c past) (hx : c.hands[id]? = some x) :
    (f.follow past).workers = [x.worker f.agent.cluster] := by
  rw [← h.floor, Crew.floor, (h.hands_eq hx).2, h.cluster]
  rfl

/-- A worker that has just looked its key up. -/
theorem lookedUp (h : Informed f c past) {p : Option PendingCall}
    (hx : c.hands[id]? = some (.busy key fresh p)) {q : Agent → Prop} (hq : q c.agent)
    (hheld : (f.follow (past ++ [⟨l, .turn 0⟩])).Holds key) :
    f.LookedUp (past ++ [⟨l, .turn 0⟩]) key c.agent.tracker q := by
  have hb : c.Busy id key fresh := ⟨p, hx⟩
  have hagent : (f.follow past).agent = c.agent := by rw [← h.floor]; rfl
  refine ⟨past, ⟨?_, ⟨l, .turn 0⟩, [], rfl, rfl, ?_⟩, by rw [hagent], h.held id key fresh hb,
    by rw [hagent]; exact hq⟩
  · have hname : key.name ≠ "" := h.recalls id key fresh hb
    have hfirst : first key = fresh := if_neg hname
    rw [h.workers_eq hx, Hand.worker_busy _ rfl, ← rest_first, hfirst]
  · intro between rest hsplit
    rw [(List.append_eq_nil_iff.mp hsplit.symm).1]
    exact hheld

/-- What a set loses was stored before and is not listed after. -/
theorem recalls_changing (h : Informed f c past)
    (hfloor : (f.follow (past ++ [⟨l, .turn 0⟩])).agent = a') {applied : AppliedSet}
    {d : AppliedSet.Difference} (hc : c.agent.tracker.Changed a'.tracker applied d) :
    (changing (Change.ofDifference d)).Recalls f (past ++ [⟨l, .turn 0⟩]) key a'.tracker := by
  have hagent : (f.follow past).agent = c.agent := by rw [← h.floor]; rfl
  intro change hm hg
  rcases List.mem_append.mp hm with hm | hm
  · obtain ⟨e, _, rfl⟩ := List.mem_map.mp hm
    cases hg
  · obtain ⟨e, he, rfl⟩ := List.mem_map.mp hm
    obtain ⟨hstored, hunlisted⟩ := hc.removed e he
    refine ⟨⟨past, ⟨l, .turn 0⟩, [], rfl, ?_, ?_⟩, hunlisted⟩
    · rw [hagent]
      exact hstored
    · rw [hfloor]
      exact hunlisted

theorem recalls_leads (h : Informed f c past) {p : Option PendingCall}
    (hx : c.hands[id]? = some (.busy key st p)) (hl : Leads l c.agent id key st st' notes)
    (hheld : (f.follow (past ++ [⟨l, .turn 0⟩])).Holds key) :
    st'.Recalls f (past ++ [⟨l, .turn 0⟩]) key c.agent.tracker := by
  have hb : c.Busy id key st := ⟨p, hx⟩
  have hst := h.recalls id key st hb
  cases hl with
  | present o hfind hk => exact ⟨hk, h.lookedUp hx hfind hheld⟩
  | presentWork o => exact of_opened recalls_finished fun _ _ => trivial
  | gone snapshot hnot hd hk =>
      have hdeleted : key.isDeleted = true := by rw [ObjectKey.isDeleted, hd]; rfl
      have hown := (h.held id key fresh hb hk hdeleted).1
      have hsnapshot : key.deleted = key.intoDeleted.deleted := congrArg _ hown
      rw [hd] at hsnapshot
      cases hsnapshot
      exact ⟨rfl, hk, hdeleted, h.lookedUp hx (fun o ho => absurd ho (hnot o)) hheld⟩
  | unownedDeleted o ho hd =>
      obtain ⟨hk, hlooked⟩ := hst
      refine ⟨rfl, hk, hd, (hlooked.later hheld).imp ?_⟩
      intro a ht hfind o' ho'
      rw [hfind] at ho'
      cases ho'
      rw [ht]
      exact ho
  | served change changes r hr =>
      refine ⟨⟨⟨l, .turn 0⟩, List.mem_append.mpr (Or.inr List.mem_cons_self), hr⟩, ?_⟩
      exact Recalls.later hst hheld
  | unserved change changes =>
      intro d hd hg
      exact Recalls.later hst hheld d (List.mem_cons_of_mem _ hd) hg
  | read o owner record =>
      exact of_recorded record recalls_finished (fun _ _ => trivial) fun _ _ => trivial
  | _ => trivial

theorem recalls_answered (h : Informed f c past) {p : Option PendingCall}
    (hx : c.hands[id]? = some (.busy key st p))
    (ha : Answered l c.agent id key st st' a' notes)
    (hfloor : (f.follow (past ++ [⟨l, .turn 0⟩])).agent = a')
    (hheld : (f.follow (past ++ [⟨l, .turn 0⟩])).Holds key) :
    st'.Recalls f (past ++ [⟨l, .turn 0⟩]) key a'.tracker := by
  have hb : c.Busy id key st := ⟨p, hx⟩
  have hst := h.recalls id key st hb
  cases ha with
  | leads hl => exact h.recalls_leads hx hl hheld
  | creates => exact of_created recalls_finished (fun _ _ => trivial) (fun _ _ => trivial) _
  | patches => exact of_patched recalls_finished (fun _ _ => trivial) _
  | updates => exact of_updated recalls_finished _
  | erases => exact of_erased recalls_finished _
  | replaces work manifestWork applied =>
      exact h.recalls_changing hfloor
        (Tracker.changed_replace h.sound.tracker (h.sound.clean id key _ hb))
  | removes work =>
      exact h.recalls_changing hfloor (Listing.changed_remove_getD h.sound.tracker work)
  | acquires change r changes | releases change r changes => exact Recalls.later hst hheld
  | posts change r changes =>
      intro d hd hg
      exact (Recalls.later hst hheld).2 d (List.mem_cons_of_mem _ hd) hg

/-- The key that a worker posts has its grounds, if it is a deletion key. -/
theorem justifies_posted (h : Informed f c past) (hx : c.hands[id]? = some x)
    (t : Turned l c.agent id x x' a' notes) (hposted : .posted key ∈ notes)
    (hnotes : c.floor.notes l (.turn id) = notes) :
    f.Justifies (past ++ [⟨l, .turn 0⟩]) key := by
  obtain ⟨hid, _⟩ := h.hands_eq hx
  subst hid
  obtain ⟨held, d, r, changes, p, rfl, rfl⟩ := t.posting hposted
  obtain ⟨⟨o, ho, hs⟩, hlost⟩ := h.recalls 0 held _ ⟨p, hx⟩
  intro _ hdeleted
  cases hg : d.gained with
  | true => simp [Change.key, hg, ObjectKey.isDeleted] at hdeleted
  | false =>
      obtain ⟨hdrops, hunlisted⟩ := hlost d List.mem_cons_self hg
      have hkey : d.key r = (⟨r.resourceKind, d.entry.ns, d.entry.name, none⟩ :
          ObjectKey).intoDeleted := by simp [Change.key, hg]
      refine ⟨by rw [hkey]; rfl, ?_⟩
      have hagent : (f.follow past).agent = c.agent := by rw [← h.floor]; rfl
      have hsites : Floor.Sites past (d.key r) d.entry := by
        rw [hkey]
        exact ⟨rfl, rfl, o, ho, r, hs, rfl⟩
      refine .dropped rfl ?_ hsites hdrops ?_
      · rw [← h.floor, hnotes]
        exact hposted
      · rw [hagent]
        exact hunlisted

/-- What is recalled with a key in hand after a turn of the only worker. -/
theorem recalls_turn (h : Informed f c past) {p : Option PendingCall} (hx : c.hands[0]? = some x)
    (t : Turned l c.agent 0 x (.busy key st p) a' notes)
    (hfloor : (⟨a', c.hands.set 0 (.busy key st p)⟩ : Crew).floor =
      f.follow (past ++ [⟨l, .turn 0⟩])) :
    st.Recalls f (past ++ [⟨l, .turn 0⟩]) key a'.tracker := by
  have hagent : (f.follow (past ++ [⟨l, .turn 0⟩])).agent = a' := by rw [← hfloor]; rfl
  have hheld : (f.follow (past ++ [⟨l, .turn 0⟩])).Holds key := by
    rw [← hfloor, Crew.floor, (h.hands_eq hx).2]
    exact ⟨_, rfl, Hand.key?_worker_busy _⟩
  cases t with
  | takes =>
      unfold first
      split
      · trivial
      · rename_i hname
        exact hname
  | begins => exact (h.recalls 0 key st ⟨_, hx⟩).later hheld
  | answers _ ha => exact h.recalls_answered hx ha hagent hheld

theorem turn (h : Informed f c past) (hx : c.hands[id]? = some x)
    (t : Turned l c.agent id x x' a' notes) (hnotes : c.floor.notes l (.turn id) = notes)
    (hfloor : (⟨a', c.hands.set id x'⟩ : Crew).floor = f.follow (past ++ [⟨l, .turn id⟩])) :
    Informed f ⟨a', c.hands.set id x'⟩ (past ++ [⟨l, .turn id⟩]) := by
  obtain ⟨hid, _⟩ := h.hands_eq hx
  subst hid
  exact {
    sound := h.sound.turn hx t
    single := by rw [List.length_set]; exact h.single
    floor := hfloor
    cluster := t.cluster.trans h.cluster
    worksKind := t.works ▸ h.worksKind
    works := t.works ▸ h.works
    plain := by
      intro kind i hi
      rcases t.intake? h.sound.registry hi with hi | ⟨_, rfl⟩
      · exact h.plain kind i hi
      · exact plain_start kind
    due := by
      intro key hd
      rcases t.due h.sound.queue hd with hd | hp | ⟨stage, p, rfl⟩
      · exact (h.due key hd).later _
      · exact h.justifies_posted hx t hp hnotes
      · exact (h.held 0 key stage ⟨p, hx⟩).later _
    held := Crew.busy_turn hx t (fun _ hd => (h.due _ hd).later _)
      (fun j key stage hb => (h.held j key stage hb).later _)
      fun key stage _ hb _ => (h.held 0 key stage hb).later _
    recalls := by
      intro j key stage hb
      obtain ⟨_, p, rfl⟩ := Crew.busy_set_alone h.single hx hb
      exact h.recalls_turn hx t hfloor }

/-- A move that leaves the worker, the tracker and what is cached alone. -/
theorem later (h : Informed f c past) (o : Occasion) (hsound : c'.Sound)
    (hfloor : c'.floor = f.follow (past ++ [o])) (hhands : c'.hands = c.hands)
    (hcluster : c'.agent.cluster = c.agent.cluster) (ht : c'.agent.tracker = c.agent.tracker)
    (hworks : c'.agent.works.ingest.kind = c.agent.works.ingest.kind ∧
      c'.agent.works.ingest.Plain)
    (hplain : ∀ kind i, c'.agent.registry.intake? kind = some i → i.Plain)
    (hdue : ∀ key, c'.agent.queue.Due key → c.agent.queue.Due key ∨
      f.Justifies (past ++ [o]) key) : Informed f c' (past ++ [o]) where
  sound := hsound
  single := by rw [hhands]; exact h.single
  floor := hfloor
  cluster := hcluster.trans h.cluster
  worksKind := hworks.1.trans h.worksKind
  works := hworks.2
  plain := hplain
  due := by
    intro key hd
    rcases hdue key hd with hd | hj
    · exact (h.due key hd).later _
    · exact hj
  held := by
    rintro id key stage ⟨p, hp⟩
    rw [hhands] at hp
    exact (h.held id key stage ⟨p, hp⟩).later _
  recalls := by
    rintro id key stage ⟨p, hp⟩
    have hheld : (f.follow (past ++ [o])).Holds key := by
      rw [hhands] at hp
      rw [← hfloor, Crew.floor, hhands, (h.hands_eq hp).2]
      exact ⟨_, rfl, Hand.key?_worker_busy _⟩
    rw [hhands] at hp
    rw [ht]
    exact (h.recalls id key stage ⟨p, hp⟩).later hheld

/-- An event for the watch of a kind gives grounds to the deletion keys that it queues. -/
theorem justifies_reported (h : Informed f c past) {kind : ResourceKind} {e : WatchEvent}
    {i i' : Ingest} {keys : List ObjectKey} (hi : c.agent.registry.intake? kind = some i)
    (he : i.handle? e = some (i', keys))
    (hintake : (f.follow (past ++ [⟨l, .object kind e⟩])).agent.registry.intake? kind = some i')
    (hnotes : c.floor.notes l (.object kind e) = keys.map Note.posted) (hk : key ∈ keys) :
    f.Justifies (past ++ [⟨l, .object kind e⟩]) key := by
  intro _ hdeleted
  obtain ⟨hkind, htells⟩ := ((h.plain kind i hi).handle? he).2 key hk
  rw [h.sound.registry.kind_of_intake? hi] at hkind
  subst hkind
  rcases htells with hnone | ⟨hown, hgone⟩
  · rw [ObjectKey.isDeleted, hnone] at hdeleted
    cases hdeleted
  · refine ⟨hown, .reported rfl ?_ hintake hgone⟩
    rw [← h.floor, hnotes]
    exact List.mem_map_of_mem hk

theorem step (h : Informed f c past) (o : Occasion)
    (s : Crew.Step o.lookups c o.move c' (c.floor.notes o.lookups o.move))
    (hfloor : c'.floor = f.follow (past ++ [o])) : Informed f c' (past ++ [o]) := by
  have hsound := h.sound.step s
  obtain ⟨l, m⟩ := o
  simp only at s
  generalize hnotes : c.floor.notes l m = notes at s
  cases s with
  | turn id hx t => exact h.turn hx t hnotes hfloor
  | work e he =>
      obtain ⟨hplain, htells⟩ := h.works.handle? he
      refine h.later _ hsound hfloor rfl rfl rfl ⟨kind_handle? he, hplain⟩ h.plain ?_
      intro key hd
      rcases (WorkQueue.due_addAll h.sound.queue _ key).mp hd with hd | hk
      · exact Or.inl hd
      · refine Or.inr fun hne => absurd ?_ hne
        exact (htells key hk).1.trans h.worksKind
  | @object kind e held i i' keys hg hi he =>
      refine h.later _ hsound hfloor rfl rfl rfl ⟨rfl, h.works⟩ ?_ ?_
      · intro other j hj
        rcases Registry.of_intake?_setIngest h.sound.registry hg hj with ⟨_, rfl⟩ | ⟨_, hj⟩
        · exact ((h.plain kind i hi).handle? he).1
        · exact h.plain other j hj
      · intro key hd
        rcases (WorkQueue.due_addAll h.sound.queue _ key).mp hd with hd | hk
        · exact Or.inl hd
        · refine Or.inr (h.justifies_reported hi he ?_ hnotes hk)
          rw [← hfloor]
          exact (Registry.intake?_setIngest h.sound.registry hg i' kind).trans (if_pos rfl)
  | fire d hd =>
      refine h.later _ hsound hfloor rfl rfl rfl ⟨rfl, h.works⟩ h.plain ?_
      intro key hdue
      exact Or.inl ((WorkQueue.due_fire h.sound.queue hd).mp hdue)
  | mood | pass | still =>
      exact h.later _ hsound hfloor rfl rfl rfl ⟨rfl, h.works⟩ h.plain fun _ hd => Or.inl hd

end Informed

/-! ## Who is about to delete -/

/-- The only worker, with a key in hand, is about to have the record of some coordinates deleted and
to do nothing more. -/
def Floor.Deletes (f : Floor) (key : ObjectKey) (kind ns name : String) : Prop :=
  f.workers = [.working key (do
    Projector.delete f.agent.cluster kind ns name
    pure .settled : Attempt Outcome).run]

namespace Informed

variable {kind ns name : String}

end Informed

/-- A lone worker is informed, whatever came before. -/
theorem Informed.follow (cluster : String) (timeout : Duration) (limiter : Limiter ObjectKey)
    (hub : Hub) (history : List Occasion) :
    ∃ c, (Floor.start (.before cluster timeout limiter hub) 1).follow history = c.floor ∧
      Informed (.start (.before cluster timeout limiter hub) 1) c history :=
  Crew.follow (Informed.start cluster timeout limiter hub)
    (fun _ _ h => ⟨h.sound.queue, h.sound.registry⟩)
    (fun _ o _ _ _ _ h s hfloor => h.step o s hfloor)

namespace Widgets

end Widgets
end StatusRelay
