import StatusRelay.Proofs.Orphans

/-!
# Records that stay behind

When all is quiet and the key queued last for a site was its deletion key, no record should be left
there. Two things can leave one: a worker that had been overtaken made it late, or the watch of the
kind was dropped while the object was listed and nothing has cleared the record since. The second is
the registry's count being wrong. Nothing else can.
-/
namespace StatusRelay

open Stage Ingest Note

/-- The watch of a kind was dropped while the object at a site was listed, and the record of the
site was not cleared since. -/
def World.Forsaken {l : Lookups} (w : World l) (kind : ResourceKind) (p : Coordinates)
    (log : List Note) : Prop :=
  ∃ before uid after, log = before ++ released uid :: after ∧
    (∃ e r, w.has e ∧ l.Serves e r ∧ r.resourceKind = kind ∧ (e.ns, e.name) = p ∧
      latest (said e.uid) before = some true) ∧
    (∀ v, w.OfKind kind v → latest (told v) (before ++ [released uid]) ≠ some true) ∧
    ∀ id, cleared id (recordOf kind p) ∉ after

variable {l : Lookups} {w : World l} {c c' : Crew} {m : Move} {a' : Agent} {id : WorkerId}
  {x x' : Hand} {notes log : List Note} {kind : ResourceKind} {p : Coordinates}

namespace World

theorem Forsaken.append (h : w.Forsaken kind p log)
    (hn : ∀ id, cleared id (recordOf kind p) ∉ notes) : w.Forsaken kind p (log ++ notes) := by
  obtain ⟨before, uid, after, rfl, hlisted, hlast, hafter⟩ := h
  refine ⟨before, uid, after ++ notes, by simp, hlisted, hlast, fun id hm => ?_⟩
  rcases List.mem_append.mp hm with hm | hm
  · exact hafter id hm
  · exact hn id hm

/-- A record that is cleared is at stake no more. -/
theorem Keeps.cleared_step (s : Crew.Step l c m c' notes)
    (hm : cleared id (recordOf kind p) ∈ notes) : ¬ c'.Stakes (log ++ notes) kind p := by
  cases s with
  | @turn j x x' a' _ hx t =>
      rcases t.handles hx (recordOf kind p) with ⟨hn, _⟩ | ⟨key, stage, _, hhandles⟩
      · have hnone := eq_none_of_latest hn hm
        simp [made] at hnone
      · cases hhandles with
        | keeps hn =>
            have hnone := eq_none_of_latest hn hm
            simp [made] at hnone
        | makes => cases List.mem_singleton.mp hm
        | clears _ hr => exact Crew.not_stakes_of_cleared hr
  | @work e i' keys =>
      obtain ⟨key, he⟩ := posted_map keys _ hm
      cases he
  | @object watched e held i i' keys =>
      obtain ⟨key, he⟩ := posted_map keys _ hm
      cases he
  | fire | mood | pass | still => cases hm

/-- What the registry drops while the object is listed is forsaken. -/
theorem Keeps.forsaken_of_drops (h : w.Keeps c log) (hp : w.site kind p)
    (hd : c.Drops notes kind p) : w.Forsaken kind p (log ++ notes) := by
  obtain ⟨uid, o, rfl, ho, hl, hlast⟩ := hd
  obtain ⟨⟨hsite, howns⟩, hcoords⟩ := h.owns hp ho
  obtain ⟨e, hstores, hu⟩ := (Tracker.lists_iff c.agent.tracker o.uid).mp hl
  have he := h.binds.admits.stores e hstores
  obtain ⟨r, hr⟩ := w.resolves e he
  obtain ⟨rfl, hc⟩ := howns e r he hu hr
  have hsaid : latest (said e.uid) log = some true := (h.heard.lists e.uid).mp (hu ▸ hl)
  refine ⟨log, uid, [], rfl, ⟨e, r, he, hr, rfl, hc.trans hcoords, hsaid⟩, ?_, by simp⟩
  intro v hv ht
  rw [latest_append] at ht
  by_cases huv : uid = v
  · subst huv
    simp [latest, told] at ht
  · simp only [latest, told, List.filterMap_cons, if_neg huv, List.filterMap_nil,
      List.getLast?_nil, Option.none_or] at ht
    obtain ⟨i, hi, _⟩ := ho
    have hheld := (h.sound.registry.isSome_intake?_iff r.resourceKind).mp (by rw [hi]; rfl)
    obtain ⟨v', hv'⟩ := hheld
    have hx := ((h.heard.holds _ _).mp hv').1
    exact huv (hlast v ((h.heard.holds _ _).mpr ⟨hx, ht, hv⟩)).symm

end World

/-! ## What is queued for a site -/

theorem keyFor_coordinates (i : Ingest) (kind : ResourceKind) (p : Coordinates) :
    (i.keyFor (liveKey kind p)).kind = kind ∧
      ((i.keyFor (liveKey kind p)).ns, (i.keyFor (liveKey kind p)).name) = p := by
  cases hat : i.at? p with
  | some o =>
      rw [keyFor_of_some hat]
      exact ⟨rfl, rfl⟩
  | none =>
      rw [keyFor_of_none hat]
      exact ⟨rfl, rfl⟩

/-- An event says of each place either that something is there or that nothing is. -/
theorem not_both_keys {i : Ingest} {watched : ResourceKind} {keys : List ObjectKey}
    {q : Coordinates → Prop}
    (hkeys : ∀ k ∈ keys, ∃ c, q c ∧ k = i.keyFor (liveKey watched c))
    (hlive : liveKey kind p ∈ keys) : (liveKey kind p).intoDeleted ∉ keys := by
  intro hdead
  obtain ⟨b, _, hb⟩ := hkeys _ hlive
  obtain ⟨d, _, hd⟩ := hkeys _ hdead
  have hbp := (keyFor_coordinates i watched b).2
  have hdp := (keyFor_coordinates i watched d).2
  rw [← hb] at hbp
  rw [← hd] at hdp
  have hbd : b = d := hbp.symm.trans hdp
  rw [← hbd, ← hb] at hd
  exact intoDeleted_ne _ hd.symm

theorem Turned.not_both_keys (t : Turned l c.agent id x x' a' notes)
    (hlive : posted (liveKey kind p) ∈ notes) :
    posted (liveKey kind p).intoDeleted ∉ notes := by
  intro hdead
  obtain ⟨key, d, r, changes, q, rfl, hd⟩ := t.posting hlive
  obtain ⟨_, _, _, _, _, he, hd'⟩ := t.posting hdead
  cases he
  exact intoDeleted_ne _ (hd.trans hd'.symm)

theorem mem_posted_map {keys : List ObjectKey} {key : ObjectKey} :
    posted key ∈ keys.map Note.posted ↔ key ∈ keys := by
  constructor
  · intro h
    obtain ⟨k, hk, he⟩ := List.mem_map.mp h
    cases he
    exact hk
  · exact List.mem_map_of_mem

/-- What a step queues is due, and it does not queue both keys of a site. -/
theorem World.Keeps.posts_step (h : w.Keeps c log) (hm : w.Allows c.floor m)
    (s : Crew.Step l c m c' notes) (kind : ResourceKind) (p : Coordinates) :
    (∀ key, .posted key ∈ notes → c'.agent.queue.Due key) ∧
      (.posted (liveKey kind p) ∈ notes → .posted (liveKey kind p).intoDeleted ∉ notes) := by
  cases s with
  | turn id hx t => exact ⟨fun key hk => t.due_of_posted h.sound hk, t.not_both_keys⟩
  | @work e i' keys he =>
      simp only [mem_posted_map]
      refine ⟨fun key hk => (WorkQueue.due_addAll h.sound.queue keys key).mpr (Or.inr hk), ?_⟩
      obtain ⟨_, hkeys⟩ := h.worksNames.handle? h.works.fits hm.1.expected
        (fun o hs => ⟨hm.1.scope o hs, (hm.1.scope o hs).fits⟩) he
      exact not_both_keys hkeys
  | @object watched e held i i' keys hg hi he =>
      obtain ⟨ho, howns⟩ := hm _ hi
      simp only [mem_posted_map]
      exact ⟨fun key hk => (WorkQueue.due_addAll h.sound.queue keys key).mpr (Or.inr hk),
        not_both_keys ((h.sees watched i hi).handle? ho howns he).2⟩
  | fire | mood | pass | still => exact ⟨fun _ hk => absurd hk List.not_mem_nil,
      fun hk => absurd hk List.not_mem_nil⟩

/-- What a step says last of a site. -/
theorem World.Keeps.wanted_step (h : w.Keeps c log) (hm : w.Allows c.floor m)
    (s : Crew.Step l c m c' notes) (kind : ResourceKind) (p : Coordinates) :
    latest (wanted kind p) notes = some true ∨
      c'.agent.queue.Due (liveKey kind p).intoDeleted ∨
      ∀ key, Crew.IsKey kind p key → .posted key ∉ notes := by
  obtain ⟨hdue, hboth⟩ := h.posts_step hm s kind p
  by_cases hdead : .posted (liveKey kind p).intoDeleted ∈ notes
  · exact Or.inr (Or.inl (hdue _ hdead))
  · by_cases hlive : .posted (liveKey kind p) ∈ notes
    · refine Or.inl (latest_eq_some (fun n hn => ?_) ⟨_, hlive, if_pos rfl⟩)
      cases n with
      | posted key =>
          by_cases hk : key = liveKey kind p
          · exact Or.inr (if_pos hk)
          · refine Or.inl ((if_neg hk).trans (if_neg ?_))
            intro he
            subst he
            exact hdead hn
      | _ => exact Or.inl rfl
    · refine Or.inr (Or.inr ?_)
      rintro key (rfl | rfl)
      · exact hlive
      · exact hdead

theorem latest_wanted_eq_none (h : ∀ key, Crew.IsKey kind p key → posted key ∉ notes) :
    latest (wanted kind p) notes = none := by
  refine latest_eq_none fun n hn => ?_
  cases n with
  | posted key =>
      refine (if_neg ?_).trans (if_neg ?_)
      · intro he
        subst he
        exact h _ (Or.inl rfl) hn
      · intro he
        subst he
        exact h _ (Or.inr rfl) hn
  | _ => rfl

/-! ## The invariant -/

/-- If the deletion key was queued last, then what is at stake is accounted for, the live key is
going to be queued, or the watch was dropped too early. -/
def World.Settles (w : World l) (c : Crew) (log : List Note) (kind : ResourceKind)
    (p : Coordinates) : Prop :=
  latest (wanted kind p) log = some false → c.Stakes log kind p →
    c.Accounted l kind p ∨ c.Posts l (liveKey kind p) ∨ w.Forsaken kind p log

theorem Crew.Posts.step {key : ObjectKey} (hp : c.Posts l key) (h : w.Keeps c log)
    (s : Crew.Step l c m c' notes) : c'.Posts l key ∨ posted key ∈ notes := by
  cases s with
  | turn id hx t => exact hp.turn h.binds hx t
  | work | object | fire | mood | pass | still => exact Or.inl hp

theorem World.Settles.step (hs : w.Settles c log kind p) (h : w.Keeps c log)
    (hp : w.site kind p) (hm : w.Allows c.floor m) (s : Crew.Step l c m c' notes) :
    w.Settles c' (log ++ notes) kind p := by
  intro hwanted hstakes
  rcases h.wanted_step hm s kind p with hlive | hdue | hneither
  · rw [latest_append, hlive] at hwanted
    cases hwanted
  · exact Or.inl (Or.inr (Or.inl (Or.inl hdue)))
  · -- Neither key was queued, so the site was wanted as little before, and what is at stake was.
    rw [latest_append, latest_wanted_eq_none hneither, Option.none_or] at hwanted
    rcases hstakes.step_back h hp s with hstakes' | htracked | ⟨hposts, _⟩
    · rcases hs hwanted hstakes' with haccounted | hposts | hforsaken
      · rcases haccounted.step h hm hp s with ha | hno | ⟨hposts, _⟩ | hdrops | ⟨hlive, _⟩
        · exact Or.inl ha
        · exact absurd hstakes hno
        · exact Or.inr (Or.inl hposts)
        · exact Or.inr (Or.inr (h.forsaken_of_drops hp hdrops))
        · exact absurd hlive (hneither _ (Or.inl rfl))
      · rcases hposts.step h s with hposts | hlive
        · exact Or.inr (Or.inl hposts)
        · exact absurd hlive (hneither _ (Or.inl rfl))
      · refine Or.inr (Or.inr (hforsaken.append fun id hcleared => ?_))
        exact World.Keeps.cleared_step s hcleared hstakes
    · exact Or.inl (Or.inl htracked)
    · exact Or.inr (Or.inl hposts)

/-! ## When all is quiet -/

theorem Crew.not_posts_of_quiet (h : c.Sound) (hq : c.agent.queue.Quiet) (key : ObjectKey) :
    ¬ c.Posts l key := by
  rintro ⟨id, k, stage, d, r, hb, _⟩
  exact h.not_busy_of_quiet hq id k stage hb

theorem Crew.not_accounted_of_quiet (h : c.Sound) (hq : c.agent.queue.Quiet)
    (hk : kind ≠ appliedWorkKind) (hf : ∀ o, c.agent.find kind p.1 p.2 ≠ .present o) :
    ¬ c.Accounted l kind p := by
  rintro (⟨o, ho, _⟩ | (hd | hposts) | ⟨id, stage, hb, _⟩)
  · exact hf o ((Agent.find_present_iff hk p o).mpr ho)
  · exact h.queue.not_due_of_quiet hq _ hd
  · exact not_posts_of_quiet h hq _ hposts
  · exact h.not_busy_of_quiet hq id _ stage hb

theorem posted_of_wanted (h : latest (wanted kind p) log = some false) :
    posted (liveKey kind p).intoDeleted ∈ log := by
  by_contra hno
  obtain ⟨n, hn, hw⟩ := List.mem_filterMap.mp (List.mem_of_getLast? h)
  cases n with
  | posted key =>
      by_cases hl : key = liveKey kind p
      · simp [wanted, hl] at hw
      · by_cases hd : key = (liveKey kind p).intoDeleted
        · exact hno (hd ▸ hn)
        · simp [wanted, hl, hd] at hw
  | _ => cases hw

/-- A record that is there is late, or its object was forsaken, or it is accounted for. -/
theorem World.Settles.of_records (hs : w.Settles c log kind p)
    (hwanted : latest (wanted kind p) log = some false) (hr : c.agent.Records (recordOf kind p)) :
    Late (recordOf kind p) log ∨ w.Forsaken kind p log ∨ c.Accounted l kind p ∨
      c.Posts l (liveKey kind p) := by
  by_cases hlate : Late (recordOf kind p) log
  · exact Or.inl hlate
  · rcases hs hwanted (Or.inl ⟨hr, hlate⟩) with ha | hposts | hf
    · exact Or.inr (Or.inr (Or.inl ha))
    · exact Or.inr (Or.inr (Or.inr hposts))
    · exact Or.inr (Or.inl hf)

/-- With any number of workers in any order of steps: when all is quiet, and the key queued last
for a site was its deletion key, and nothing is cached there, then a record is left exactly if it
was made late, or if the watch was dropped while the object was listed and the record is still
there. -/
theorem record_left_iff (w : World l) (cluster : String) (timeout : Duration)
    (limiter : Limiter ObjectKey) (manifestWorks : Table RecordKey ManifestWork) (workers : Nat)
    (moves : List Move) (kind : ResourceKind) (p : Coordinates)
    (hm : Floor.Along w.Allows l
      (.start (.fresh cluster timeout limiter manifestWorks) workers) moves)
    (hk : kind ≠ appliedWorkKind) :
    let start := Floor.start (.fresh cluster timeout limiter manifestWorks) workers
    let log := start.log l moves
    let a := (start.run l moves).agent
    a.queue.Quiet → latest (wanted kind p) log = some false →
    (∀ o, a.find kind p.1 p.2 ≠ .present o) →
    (a.Records (recordOf kind p) ↔ Late (recordOf kind p) log ∨
      latest (made (recordOf kind p)) log = some true ∧ w.Forsaken kind p log) := by
  intro start log a hquiet hwanted hfind
  obtain ⟨c, hrun, hkeeps, hrecorded, hsettles⟩ :=
    Crew.run_start (I := fun c log => w.Keeps c log ∧ Recorded c log ∧
        ∀ kind p, w.site kind p → w.Settles c log kind p)
      (fun c log h => ⟨h.1.sound.queue, h.1.sound.registry⟩)
      (fun c log m c' notes h hm s => ⟨h.1.step hm s, h.2.1.step s,
        fun kind p hp => (h.2.2 kind p hp).step h.1 hp hm s⟩)
      moves (.fresh cluster timeout limiter manifestWorks) workers
      ⟨w.keeps_start .., recorded_start _ _ _ _ _, fun _ _ _ hw => by cases hw⟩ hm
  have ha : a = c.agent := congrArg Floor.agent hrun
  rw [ha] at hquiet hfind ⊢
  have hp : w.site kind p := World.site_of_known (hkeeps.posted _ (posted_of_wanted hwanted)) hk
  constructor
  · intro hr
    rcases (hsettles kind p hp).of_records hwanted hr with hlate | hf | haccounted | hposts
    · exact Or.inl hlate
    · exact Or.inr ⟨(hrecorded _).mp hr, hf⟩
    · exact absurd haccounted (Crew.not_accounted_of_quiet hkeeps.sound hquiet hk hfind)
    · exact absurd hposts (Crew.not_posts_of_quiet hkeeps.sound hquiet _)
  · rintro (hlate | ⟨hmade, _⟩)
    · exact (hrecorded _).mpr hlate.made
    · exact (hrecorded _).mpr hmade

namespace Widgets

/-- The widget comes and goes. The second worker takes this many turns with its deletion key before
the first one, which was about to make the record, makes it. -/
def crossing (early : Nat) : List Move :=
  [.work (.apply (work "a"))] ++ turns 0 10 ++ [.object resource.resourceKind (.apply widget)] ++
  turns 0 6 ++ [.object resource.resourceKind (.delete widget)] ++ turns 1 early ++ turns 0 2 ++
  turns 1 5

theorem allows_turns (f : Floor) (id : WorkerId) (count : Nat) :
    Floor.Along world.Allows lookups f (turns id count) := by
  refine Floor.along_of_forall fun m hm f => ?_
  rw [(List.mem_replicate.mp hm).2]
  trivial

theorem allows_crossing (early : Nat) :
    Floor.Along world.Allows lookups (.start managed 2) (crossing early) := by
  have hwork : world.Allows (.start managed 2) (.work (.apply (work "a"))) :=
    allows_work (by decide) rfl rfl
  have hcomes : world.Allows ((Floor.start managed 2).run lookups
      ([.work (.apply (work "a"))] ++ turns 0 10))
      (.object resource.resourceKind (.apply widget)) := by
    refine allows_widget rfl fun i hi => ?_
    have hnew : ((((Floor.start managed 2).run lookups
        ([.work (.apply (work "a"))] ++ turns 0 10)).agent.registry.intake?
        resource.resourceKind).all fun i => i.relist.isNone && (i.at? ("default", "w")).isNone) =
        true := by
      decide +kernel
    rw [hi] at hnew
    simp only [Option.all_some, Bool.and_eq_true, Option.isNone_iff_eq_none] at hnew
    exact ⟨hnew.1, Or.inr hnew.2⟩
  have hgoes : world.Allows ((Floor.start managed 2).run lookups
      ([.work (.apply (work "a"))] ++ turns 0 10 ++
        [.object resource.resourceKind (.apply widget)] ++ turns 0 6))
      (.object resource.resourceKind (.delete widget)) := by
    refine allows_widget rfl fun i hi => ?_
    have hcalm : ((((Floor.start managed 2).run lookups ([.work (.apply (work "a"))] ++
        turns 0 10 ++ [.object resource.resourceKind (.apply widget)] ++
        turns 0 6)).agent.registry.intake? resource.resourceKind).all fun i =>
        i.relist.isNone) = true := by
      decide +kernel
    rw [hi] at hcalm
    exact ⟨Option.isNone_iff_eq_none.mp hcalm, Or.inl rfl⟩
  simp only [crossing, Floor.along_append]
  exact ⟨⟨⟨⟨⟨⟨⟨⟨hwork, trivial⟩, allows_turns _ _ _⟩, hcomes, trivial⟩, allows_turns _ _ _⟩,
    hgoes, trivial⟩, allows_turns _ _ _⟩, allows_turns _ _ _⟩, allows_turns _ _ _⟩

theorem absent_crossing (early : Nat)
    (h : ((((Floor.start managed 2).run lookups (crossing early)).agent.registry.intake?
      resource.resourceKind).bind (·.at? ("default", "w"))).isNone = true) (o : Object) :
    ((Floor.start managed 2).run lookups (crossing early)).agent.find resource.resourceKind
      "default" "w" ≠ .present o :=
  Agent.not_present_of_none (c := ("default", "w")) (by decide)
    (Option.isNone_iff_eq_none.mp h) o

/-- A record made before the deletion key is handled does not stay. -/
theorem record_gone_crossing_nothing :
    Floor.Along world.Allows lookups (.start managed 2) (crossing 0) ∧
      ((Floor.start managed 2).run lookups (crossing 0)).agent.queue.Quiet ∧
      ¬ ((Floor.start managed 2).run lookups (crossing 0)).agent.Records
        (recordOf resource.resourceKind ("default", "w")) := by
  have hquiet : ((Floor.start managed 2).run lookups (crossing 0)).agent.queue.Quiet := by
    unfold WorkQueue.Quiet
    decide +kernel
  refine ⟨allows_crossing 0, hquiet, ?_⟩
  have hmade : latest (made (recordOf resource.resourceKind ("default", "w")))
      ((Floor.start managed 2).log lookups (crossing 0)) = some false := by
    decide +kernel
  refine (record_left_iff world "cluster1" (.ofSeconds 5)
    (.exponential (.ofMillis 5) (.ofSeconds 1000) {}) managed.hub.manifestWorks 2 (crossing 0)
    resource.resourceKind ("default", "w") (allows_crossing 0) (by decide) hquiet
    (by decide +kernel) (absent_crossing 0 ?_)).not.mpr ?_
  · decide +kernel
  · rintro (hlate | ⟨htrue, _⟩)
    · cases hmade.symm.trans hlate.made
    · cases hmade.symm.trans htrue

/-- Four turns are enough to settle the deletion key, and then the record is made: it stays, though
the widget is gone and nothing is left to do. -/
theorem record_left_crossing :
    Floor.Along world.Allows lookups (.start managed 2) (crossing 4) ∧
      ((Floor.start managed 2).run lookups (crossing 4)).agent.queue.Quiet ∧
      latest (wanted resource.resourceKind ("default", "w"))
        ((Floor.start managed 2).log lookups (crossing 4)) = some false ∧
      (∀ o, ((Floor.start managed 2).run lookups (crossing 4)).agent.find resource.resourceKind
        "default" "w" ≠ .present o) ∧
      ((Floor.start managed 2).run lookups (crossing 4)).agent.Records
        (recordOf resource.resourceKind ("default", "w")) := by
  refine ⟨allows_crossing 4, ?_, by decide +kernel, absent_crossing 4 ?_, ?_⟩
  · unfold WorkQueue.Quiet
    decide +kernel
  · decide +kernel
  · unfold Agent.Records
    decide +kernel

end Widgets
end StatusRelay
