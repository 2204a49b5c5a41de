import StatusRelay.Proofs.Leftovers

/-!
# One worker

A worker that is alone is never overtaken, tells the registry what the tracker said before it goes
on, and so drops no watch that is needed. What went wrong with several workers cannot go wrong here:
every record that exists is accounted for, as long as an object's UID changes only by its absence.
-/
namespace StatusRelay

open Stage Ingest Note

/-- Moves that the world allows and by which no object takes the place of another one. -/
def World.AllowsSteadily {l : Lookups} (w : World l) (f : Floor) (m : Move) : Prop :=
  w.Allows f m ∧ ∀ kind e, m = .object kind e →
    ∀ i, f.agent.registry.intake? kind = some i → i.Steady e

variable {l : Lookups} {w : World l} {c c' : Crew} {m : Move} {a' : Agent} {id : WorkerId}
  {x x' : Hand} {key : ObjectKey} {stage : Stage} {notes log : List Note} {kind : ResourceKind}
  {p : Coordinates} {record : String}

/-! ## Late records -/

namespace Note

theorem Late.of_append (h : Late record (log ++ notes))
    (hn : latest (Note.made record) notes = none) :
    Late record log := by
  obtain ⟨before, id, after, he, hover, hafter⟩ := h
  rcases List.append_eq_append_iff.mp he with ⟨rest, rfl, hrest⟩ | ⟨rest, rfl, hrest⟩
  · have hm : created id record ∈ notes := hrest ▸ List.mem_append.mpr (Or.inr List.mem_cons_self)
    have hnone := eq_none_of_latest hn hm
    simp [Note.made] at hnone
  · rcases List.cons_eq_append_iff.mp hrest with ⟨rfl, hnotes⟩ | ⟨after', rfl, rfl⟩
    · have hm : created id record ∈ notes := hnotes ▸ List.mem_cons_self
      have hnone := eq_none_of_latest hn hm
      simp [Note.made] at hnone
    · refine ⟨before, id, after', rfl, hover, ?_⟩
      rw [latest_append, hn, Option.none_or] at hafter
      exact hafter

/-- What was made just now is late only if its worker was overtaken. -/
theorem Late.of_created (h : Late record (log ++ [created id record])) :
    Overtaken id record log := by
  obtain ⟨before, j, after, he, hover, hafter⟩ := h
  rcases List.append_eq_append_iff.mp he with ⟨rest, rfl, hrest⟩ | ⟨rest, rfl, hrest⟩
  · rcases List.cons_eq_append_iff.mp hrest with ⟨rfl, hone⟩ | ⟨_, _, hnil⟩
    · cases hone
      rwa [List.append_nil] at hover
    · cases (List.append_eq_nil_iff.mp hnil.symm).2
  · rcases List.cons_eq_append_iff.mp hrest with ⟨rfl, hone⟩ | ⟨after', rfl, rfl⟩
    · cases hone
      rwa [List.append_nil]
    · rw [latest_append] at hafter
      simp [latest, Note.made] at hafter

end Note

/-! ## The changes in hand -/

/-- What is counted in comes before what is counted out. -/
def Ordered (owed : List Change) : Prop :=
  owed.Pairwise fun d e => d.gained = false → e.gained = false

theorem ordered_ofDifference (d : AppliedSet.Difference) : Ordered (Change.ofDifference d) := by
  refine List.pairwise_append.mpr ⟨?_, ?_, ?_⟩
  · refine List.pairwise_map.mpr (List.pairwise_of_forall fun _ _ h => ?_)
    cases h
  · exact List.pairwise_map.mpr (List.pairwise_of_forall fun _ _ _ => rfl)
  · intro e he e' he' hlost
    obtain ⟨_, _, rfl⟩ := List.mem_map.mp he
    cases hlost

theorem Ordered.announced {w : Listing l} {a : Agent} {owed owed' : List Change}
    (h : Ordered owed) (ha : w.Announces a a' owed owed' notes) : Ordered owed' := by
  cases ha with
  | nothing => exact h
  | difference => exact ordered_ofDifference _
  | acquired | released => exact (List.pairwise_cons.mp h).2

/-- Who counts a UID out says so because it is the next change in hand. -/
theorem Listing.Announces.of_released {w : Listing l} {a : Agent} {owed owed' : List Change}
    {uid : String} (ha : w.Announces a a' owed owed' [.released uid]) :
    ∃ d, owed = d :: owed' ∧ d.gained = false ∧ d.uid = uid := by
  generalize hn : [Note.released uid] = notes at ha
  cases ha with
  | nothing _ _ hnews => cases hnews _ (hn ▸ List.mem_singleton.mpr rfl)
  | @difference applied d =>
      have hm : Note.released uid ∈ Note.ofChanges d := hn ▸ List.mem_singleton.mpr rfl
      obtain ⟨_, h | h⟩ := mem_ofChanges hm <;> cases h
  | acquired => cases hn
  | released _ _ hg =>
      cases hn
      exact ⟨_, rfl, hg, rfl⟩

/-- With the books in order nothing is dropped that is listed. -/
theorem Crew.not_drops (h : w.Keeps c log) (hx : c.hands[id]? = some x)
    (ho : Owes w.toListing c.agent x.owed) (hord : Ordered x.owed) (hp : w.site kind p)
    (t : Turned l c.agent id x x' a' notes) : ¬ c.Drops notes kind p := by
  rintro ⟨uid, o, rfl, hcaches, hl, hlast⟩
  obtain ⟨⟨_, howns⟩, _⟩ := h.owns hp hcaches
  obtain ⟨d, howed, hg, rfl⟩ := (h.binds.announces h.sound hx t).of_released
  rw [howed] at ho hord
  obtain ⟨e, hstores, hu⟩ := (Tracker.lists_iff c.agent.tracker o.uid).mp hl
  have he := h.binds.admits.stores e hstores
  obtain ⟨r, hr⟩ := w.resolves e he
  obtain ⟨rfl, _⟩ := howns e r he hu hr
  obtain ⟨i, hi, _⟩ := hcaches
  obtain ⟨v, hv⟩ := (h.sound.registry.isSome_intake?_iff r.resourceKind).mp (by rw [hi]; rfl)
  -- The listed UID holds the kind itself, or is to be counted in, which comes before `d`.
  rcases ho.watched e r he (hu ▸ hl) hr (ho.held _ v hv).1 with hh | ⟨g, hm, hgain, _⟩
  · refine ho.losses d List.mem_cons_self hg ?_
    rw [← hlast e.uid hh, hu]
    exact hl
  · rcases List.mem_cons.mp hm with rfl | hm
    · rw [hg] at hgain
      cases hgain
    · rw [(List.pairwise_cons.mp hord).1 g hm hg] at hgain
      cases hgain

/-! ## What a lone worker keeps -/

/-- What holds in every state of a run of one worker, whatever the events are. -/
structure Lone (w : World l) (c : Crew) (log : List Note) : Prop where
  keeps : w.Keeps c log
  single : c.hands.length = 1
  owes : ∀ (id : WorkerId) (x : Hand), c.hands[id]? = some x →
    Owes w.toListing c.agent x.owed ∧ Ordered x.owed
  timely : ∀ record, ¬ Late record log
  ahead : ∀ id key stage kind p, c.Busy id key stage → Crew.IsKey kind p key →
    stage.Making c.agent.tracker → ¬ Overtaken id (recordOf kind p) log

/-- What holds besides if no object takes the place of another one. -/
structure Alone (w : World l) (c : Crew) (log : List Note) : Prop extends Lone w c log where
  accounted : ∀ kind p, w.site kind p → c.Stakes log kind p → c.Accounted l kind p

namespace Alone

theorem id_eq_zero (h : c.hands.length = 1) (hx : c.hands[id]? = some x) : id = 0 := by
  obtain ⟨hlt, _⟩ := List.getElem?_eq_some_iff.mp hx
  exact Nat.lt_one_iff.mp (h ▸ hlt)

theorem eq_hand (h : c.hands.length = 1) {j : WorkerId} {y : Hand} (hx : c.hands[id]? = some x)
    (hy : c.hands[j]? = some y) : id = j ∧ x = y := by
  obtain rfl := id_eq_zero h hx
  obtain rfl := id_eq_zero h hy
  rw [hx] at hy
  cases hy
  exact ⟨rfl, rfl⟩

theorem not_crowded (h : c.hands.length = 1) : ¬ c.Crowded := by
  rintro ⟨id, id', key, key', stage, stage', hne, ⟨q, hq⟩, q', hq'⟩
  exact hne (eq_hand h hq hq').1

end Alone

theorem Crew.busy_set_alone (hsingle : c.hands.length = 1) (hx : c.hands[id]? = some x)
    {j : WorkerId} (hb : (⟨a', c.hands.set id x'⟩ : Crew).Busy j key stage) :
    id = j ∧ ∃ p, x' = .busy key stage p := by
  rcases (busy_set hx j key stage).mp hb with ⟨rfl, hp⟩ | ⟨hj, p, hp⟩
  · exact ⟨rfl, hp⟩
  · exact absurd (Alone.eq_hand hsingle hx hp).1 hj

namespace Lone

theorem start (w : World l) (cluster : String) (timeout : Duration)
    (limiter : Limiter ObjectKey) (manifestWorks : Table RecordKey ManifestWork) :
    Lone w (.start (.fresh cluster timeout limiter manifestWorks) 1) [] where
  keeps := w.keeps_start ..
  single := rfl
  owes := by
    intro id x hx
    obtain rfl := Alone.id_eq_zero (c := .start _ 1) rfl hx
    cases hx
    exact ⟨Owes.fresh .., List.Pairwise.nil⟩
  timely := by
    rintro record ⟨before, id, after, he, _⟩
    cases (List.append_eq_nil_iff.mp he.symm).2
  ahead := fun _ _ _ _ _ hb => absurd hb Crew.not_busy_start

theorem length_step (h : c.hands.length = 1) (s : Crew.Step l c m c' notes) :
    c'.hands.length = 1 := by
  cases s with
  | turn => rw [List.length_set, h]
  | work | object | fire | mood | pass | still => exact h

theorem owes_step (h : Lone w c log) (s : Crew.Step l c m c' notes) (id : WorkerId) (x : Hand)
    (hx : c'.hands[id]? = some x) : Owes w.toListing c'.agent x.owed ∧ Ordered x.owed := by
  cases s with
  | @turn j y y' a' _ hy t =>
      rw [Crew.getElem?_set hy] at hx
      by_cases hj : j = id
      · rw [if_pos hj] at hx
        cases hx
        obtain ⟨ho, hord⟩ := h.owes j y hy
        have ha := h.keeps.binds.announces h.keeps.sound hy t
        exact ⟨ho.announced h.keeps.sound.registry ha, hord.announced ha⟩
      · rw [if_neg hj] at hx
        exact absurd (Alone.eq_hand h.single hy hx).1 hj
  | work | object | fire | mood | pass =>
      obtain ⟨ho, hord⟩ := h.owes id x hx
      exact ⟨ho.congr rfl rfl, hord⟩
  | still => exact h.owes id x hx

theorem timely_step (h : Lone w c log) (s : Crew.Step l c m c' notes) (record : String) :
    ¬ Late record (log ++ notes) := by
  intro hlate
  cases s with
  | @turn j y y' a' _ hy t =>
      rcases t.handles hy record with ⟨hn, _⟩ | ⟨key, stage, hb, hhandles⟩
      · exact h.timely record (hlate.of_append hn)
      · cases hhandles with
        | keeps hn => exact h.timely record (hlate.of_append hn)
        | makes hst hname =>
            subst hst
            obtain ⟨hsubject, hrecord⟩ := h.keeps.about j key _ hb
            rw [hrecord.name] at hname
            refine h.ahead j key _ key.kind (key.ns, key.name) hb
              (.of_known (h.keeps.known hb) hsubject.1) trivial ?_
            rw [show recordOf key.kind (key.ns, key.name) = record from hname]
            exact hlate.of_created
        | clears =>
            have hmade := hlate.made
            simp [latest, made] at hmade
  | work | object => exact h.timely record (hlate.of_append (made_map_posted record _))
  | fire | mood | pass | still => exact h.timely record (hlate.of_append rfl)

/-- A worker that has just found the object is not overtaken, and nobody overtakes it. -/
theorem ahead_turn (h : Lone w c log) (hx : c.hands[id]? = some x) {q : Option PendingCall}
    (t : Turned l c.agent id x (.busy key stage q) a' notes) (hkey : Crew.IsKey kind p key)
    (hm : stage.Making a'.tracker) : ¬ Overtaken id (recordOf kind p) (log ++ notes) := by
  cases t with
  | takes =>
      exact absurd hm (not_making_first _ _)
  | begins =>
      rw [List.append_nil]
      exact h.ahead id key stage kind p ⟨_, hx⟩ hkey hm
  | answers _ ha =>
      rcases ha.making h.keeps.sound.tracker hm with ⟨o, rfl, rfl, rfl, _, _, rfl⟩ | ⟨hm, rfl⟩
      · rw [Overtaken, latest_append]
        simp [latest, sighted]
      · rw [List.append_nil]
        exact h.ahead id key _ kind p ⟨_, hx⟩ hkey hm

theorem ahead_step (h : Lone w c log) (s : Crew.Step l c m c' notes) (id : WorkerId)
    (key : ObjectKey) (stage : Stage) (kind : ResourceKind) (p : Coordinates)
    (hb : c'.Busy id key stage) (hkey : Crew.IsKey kind p key)
    (hm : stage.Making c'.agent.tracker) : ¬ Overtaken id (recordOf kind p) (log ++ notes) := by
  cases s with
  | @turn j y y' a' _ hy t =>
      obtain ⟨rfl, q, rfl⟩ := Crew.busy_set_alone h.single hy hb
      exact h.ahead_turn hy t hkey hm
  | @work e i' keys | @object watched e held i i' keys =>
      have hnone : latest (sighted id (recordOf kind p)) (keys.map Note.posted) = none := by
        refine latest_eq_none fun n hn => ?_
        obtain ⟨k, rfl⟩ := posted_map keys n hn
        rfl
      rw [Overtaken, latest_append, hnone, Option.none_or]
      exact h.ahead id key stage kind p hb hkey hm
  | fire | mood | pass | still =>
      rw [List.append_nil]
      exact h.ahead id key stage kind p hb hkey hm

/-- A lone worker counts in before it counts out, so it drops no watch that is needed. -/
theorem not_drops (h : Lone w c log) (hp : w.site kind p) (s : Crew.Step l c m c' notes) :
    ¬ c.Drops notes kind p := by
  intro hdrops
  cases s with
  | turn id hx t =>
      obtain ⟨ho, hord⟩ := h.owes id _ hx
      exact Crew.not_drops h.keeps hx ho hord hp t hdrops
  | @work e i' keys | @object watched e held i i' keys =>
      obtain ⟨uid, _, hn, _⟩ := hdrops
      obtain ⟨key, he⟩ := posted_map keys (.released uid) (hn ▸ List.mem_singleton.mpr rfl)
      cases he
  | fire | mood | pass | still =>
      obtain ⟨_, _, hn, _⟩ := hdrops
      cases hn

theorem step (h : Lone w c log) (hm : w.Allows c.floor m) (s : Crew.Step l c m c' notes) :
    Lone w c' (log ++ notes) where
  keeps := h.keeps.step hm s
  single := length_step h.single s
  owes := h.owes_step s
  timely := h.timely_step s
  ahead := h.ahead_step s

/-- What was at stake and accounted for is so after a step, unless an object was replaced; and what
comes to be at stake is accounted for. -/
theorem accounted_step (h : Lone w c log) (hm : w.Allows c.floor m)
    (s : Crew.Step l c m c' notes) (hp : w.site kind p)
    (hs : c'.Stakes (log ++ notes) kind p) :
    c'.Accounted l kind p ∨ c.Stakes log kind p ∧
      (c.Accounted l kind p → c'.Accounted l kind p ∨ c.Replaced c' notes kind p) := by
  rcases hs.step_back h.keeps hp s with hs' | htracked | ⟨_, hcrowded⟩
  · refine Or.inr ⟨hs', fun ha => ?_⟩
    rcases ha.step h.keeps hm hp s with ha | hno | ⟨_, hcrowded⟩ | hdrops | hreplaced
    · exact Or.inl ha
    · exact absurd hs hno
    · exact absurd hcrowded (Alone.not_crowded h.single)
    · exact absurd hdrops (h.not_drops hp s)
    · exact Or.inr hreplaced
  · exact Or.inl (Or.inl htracked)
  · exact absurd hcrowded (Alone.not_crowded h.single)

end Lone

namespace Alone

theorem start (w : World l) (cluster : String) (timeout : Duration)
    (limiter : Limiter ObjectKey) (manifestWorks : Table RecordKey ManifestWork) :
    Alone w (.start (.fresh cluster timeout limiter manifestWorks) 1) [] where
  toLone := Lone.start ..
  accounted := by
    rintro kind p _ (⟨hr, _⟩ | ⟨id, key, stage, hb, _⟩)
    · cases hr
    · exact absurd hb Crew.not_busy_start

/-- What replaces a tracked object steadily is tracked. -/
theorem tracked_of_replaced (hm : w.AllowsSteadily c.floor m) (h : w.Keeps c log)
    (s : Crew.Step l c m c' notes) (hr : c.Replaced c' notes kind p) : c'.Tracked kind p := by
  obtain ⟨_, ht, o, o', ho, hl, ho'⟩ := hr
  refine ⟨o', ho', ?_⟩
  have hsame : c.agent.Caches kind p o' → c'.agent.tracker.Lists o'.uid := by
    intro hback
    rw [ht, ← ho.unique hback]
    exact hl
  cases s with
  | turn id hx t => exact hsame (t.caches_back h.sound ho')
  | @object watched e held i i' keys hg hi he =>
      obtain ⟨j, hj, hat⟩ := ho
      obtain ⟨j', hj', hat'⟩ := ho'
      rcases Registry.of_intake?_setIngest h.sound.registry hg hj' with ⟨rfl, rfl⟩ | ⟨_, hj'⟩
      · rw [hi] at hj
        cases hj
        rw [hm.2 kind e rfl i hi j' keys he p o o' hat hat']
        exact hl
      · exact hsame ⟨j', hj', hat'⟩
  | work | fire | mood | pass | still => exact hsame ho'

theorem step (h : Alone w c log) (hm : w.AllowsSteadily c.floor m)
    (s : Crew.Step l c m c' notes) : Alone w c' (log ++ notes) where
  toLone := h.toLone.step hm.1 s
  accounted := by
    intro kind p hp hs
    rcases h.accounted_step hm.1 s hp hs with ha | ⟨hs', hstill⟩
    · exact ha
    · rcases hstill (h.accounted kind p hp hs') with ha | hreplaced
      · exact ha
      · exact Or.inl (tracked_of_replaced hm h.keeps s hreplaced)

/-- When all is quiet, what the hub has a record of is cached and listed. -/
theorem tracked_of_records (h : Alone w c log) (hq : c.agent.queue.Quiet) (hp : w.site kind p)
    (hr : c.agent.Records (recordOf kind p)) : c.Tracked kind p := by
  rcases h.accounted kind p hp (Or.inl ⟨hr, h.timely _⟩) with
    ht | (hd | hposts) | ⟨id, stage, hb, _⟩
  · exact ht
  · exact absurd hd (h.keeps.sound.queue.not_due_of_quiet hq _)
  · exact absurd hposts (Crew.not_posts_of_quiet h.keeps.sound hq _)
  · exact absurd hb (h.keeps.sound.not_busy_of_quiet hq id _ stage)

end Alone

end StatusRelay
