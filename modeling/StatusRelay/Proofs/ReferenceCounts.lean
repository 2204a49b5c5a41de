import StatusRelay.Proofs.Listing

/-!
# Reference counts of one reconciler

With one reconcile at a time the registry and the tracker differ only by the changes that the
reconcile in hand has not announced: what it still has to count in is listed, what it still has to
count out is not, and otherwise a UID holds its kind exactly while it is listed. At the end of every
reconcile nothing is left to announce.
-/
namespace StatusRelay

open Stage

variable {l : Lookups} {w : Listing l} {a a' : Agent} {id : WorkerId} {key : ObjectKey}
  {st st' : Stage} {notes : List Note}

/-- The registry is right but for the changes that are owed to it. -/
structure Owes (w : Listing l) (a : Agent) (owed : List Change) : Prop where
  gains : ∀ c ∈ owed, c.gained = true → a.tracker.Lists c.uid
  losses : ∀ c ∈ owed, c.gained = false → ¬ a.tracker.Lists c.uid
  held : ∀ kind uid, a.registry.Holds kind uid → kind.excluded = false ∧
    (a.tracker.Lists uid ∨ ∃ c ∈ owed, c.gained = false ∧ c.uid = uid) ∧
    ∃ e r, w.has e ∧ e.uid = uid ∧ l.Serves e r ∧ r.resourceKind = kind
  watched : ∀ e r, w.has e → a.tracker.Lists e.uid → l.Serves e r →
    r.resourceKind.excluded = false → a.registry.Holds r.resourceKind e.uid ∨
      ∃ c ∈ owed, c.gained = true ∧ c.uid = e.uid

namespace Owes

theorem fresh (w : Listing l) (cluster : String) (timeout : Duration)
    (limiter : Limiter ObjectKey) (manifestWorks : Table RecordKey ManifestWork) :
    Owes w (.fresh cluster timeout limiter manifestWorks) [] where
  gains := fun _ hc => absurd hc List.not_mem_nil
  losses := fun _ hc => absurd hc List.not_mem_nil
  held := fun kind uid hh => absurd hh (Registry.not_holds_empty kind uid)
  watched := by
    rintro e r _ ⟨work, tracked, hg, _⟩
    cases hg

/-- A new set of a record: the difference is owed. -/
theorem changed (h : Owes w a []) {t' : Tracker} {applied : AppliedSet}
    {d : AppliedSet.Difference} (hc : a.tracker.Changed t' applied d) :
    Owes w { a with tracker := t' } (Change.ofDifference d) where
  gains := by
    intro c hm hg
    rcases List.mem_append.mp hm with hm | hm
    · obtain ⟨e, he, rfl⟩ := List.mem_map.mp hm
      exact (hc.added e he).2
    · obtain ⟨e, _, rfl⟩ := List.mem_map.mp hm
      cases hg
  losses := by
    intro c hm hg
    rcases List.mem_append.mp hm with hm | hm
    · obtain ⟨e, _, rfl⟩ := List.mem_map.mp hm
      cases hg
    · obtain ⟨e, he, rfl⟩ := List.mem_map.mp hm
      exact (hc.removed e he).2
  held := by
    intro kind uid hh
    obtain ⟨hx, hl, hentry⟩ := h.held kind uid hh
    refine ⟨hx, ?_, hentry⟩
    rcases hl with hl | ⟨c, hm, _⟩
    · rcases hc.losses uid hl with hl | ⟨e, he, hu⟩
      · exact Or.inl hl
      · exact Or.inr ⟨⟨false, e⟩, List.mem_append.mpr (Or.inr (List.mem_map_of_mem he)), rfl, hu⟩
    · exact absurd hm List.not_mem_nil
  watched := by
    intro e r he hl hr hx
    rcases hc.gains e.uid hl with hl | ⟨e', he', hu⟩
    · rcases h.watched e r he hl hr hx with hh | ⟨c, hm, _⟩
      · exact Or.inl hh
      · exact absurd hm List.not_mem_nil
    · exact Or.inr ⟨⟨true, e'⟩, List.mem_append.mpr (Or.inl (List.mem_map_of_mem he')), rfl, hu⟩

variable {c : Change} {r : ApiResource} {changes : List Change}

/-- A UID is counted in. -/
theorem acquired (h : Owes w a (c :: changes)) (hc : w.has c.entry) (hr : l.Serves c.entry r)
    (hg : c.gained = true) :
    Owes w { a with registry := (a.registry.acquire r c.uid).2 } changes where
  gains := fun d hd => h.gains d (List.mem_cons_of_mem _ hd)
  losses := fun d hd => h.losses d (List.mem_cons_of_mem _ hd)
  held := by
    intro kind uid hh
    rcases (Registry.holds_acquire a.registry r c.uid kind uid).mp hh with
      hh | ⟨rfl, rfl, hx⟩
    · obtain ⟨hx, hl, hentry⟩ := h.held kind uid hh
      refine ⟨hx, hl.imp_right ?_, hentry⟩
      rintro ⟨d, hd, hlost, hu⟩
      rcases List.mem_cons.mp hd with rfl | hd
      · rw [hg] at hlost
        cases hlost
      · exact ⟨d, hd, hlost, hu⟩
    · exact ⟨hx, Or.inl (h.gains c List.mem_cons_self hg), c.entry, r, hc, rfl, hr, rfl⟩
  watched := by
    intro e r' he hl hr' hx
    rcases h.watched e r' he hl hr' hx with hh | ⟨d, hd, hgain, hu⟩
    · exact Or.inl ((Registry.holds_acquire ..).mpr (Or.inl hh))
    · rcases List.mem_cons.mp hd with rfl | hd
      · have heq : r' = r := w.serves_alike he hc hu.symm hr' hr
        subst heq
        exact Or.inl ((Registry.holds_acquire ..).mpr (Or.inr ⟨rfl, hu.symm, hx⟩))
      · exact Or.inr ⟨d, hd, hgain, hu⟩

/-- A UID is counted out. -/
theorem released (h : Owes w a (c :: changes)) (hs : a.registry.Sound) (hc : w.has c.entry)
    (hr : l.Serves c.entry r) (hg : c.gained = false) :
    Owes w { a with registry := (a.registry.release r.resourceKind c.uid).2 } changes where
  gains := fun d hd => h.gains d (List.mem_cons_of_mem _ hd)
  losses := fun d hd => h.losses d (List.mem_cons_of_mem _ hd)
  held := by
    intro kind uid hh
    obtain ⟨hh, hne⟩ := (Registry.holds_release hs r.resourceKind c.uid kind uid).mp hh
    obtain ⟨hx, hl, e, r', he, hu, hr', hk⟩ := h.held kind uid hh
    refine ⟨hx, hl.imp_right ?_, e, r', he, hu, hr', hk⟩
    rintro ⟨d, hd, hlost, hu'⟩
    rcases List.mem_cons.mp hd with rfl | hd
    · have heq : r' = r := w.serves_alike he hc (hu.trans hu'.symm) hr' hr
      subst heq
      exact absurd ⟨hk.symm, hu'.symm⟩ hne
    · exact ⟨d, hd, hlost, hu'⟩
  watched := by
    intro e r' he hl hr' hx
    rcases h.watched e r' he hl hr' hx with hh | ⟨d, hd, hgain, hu⟩
    · refine Or.inl ((Registry.holds_release hs ..).mpr ⟨hh, ?_⟩)
      rintro ⟨_, hu⟩
      exact h.losses c List.mem_cons_self hg (hu ▸ hl)
    · rcases List.mem_cons.mp hd with rfl | hd
      · rw [hg] at hgain
        cases hgain
      · exact Or.inr ⟨d, hd, hgain, hu⟩

/-- The hub, the caches and the queue do not matter. -/
theorem congr (h : Owes w a changes) (ht : a'.tracker = a.tracker)
    (hr : a'.registry.held = a.registry.held) : Owes w a' changes where
  gains := ht ▸ h.gains
  losses := ht ▸ h.losses
  held := by
    intro kind uid hh
    rw [ht]
    exact h.held kind uid (by simpa only [Registry.Holds, hr] using hh)
  watched := by
    intro e r he hl hs hx
    rw [ht] at hl
    simpa only [Registry.Holds, hr] using h.watched e r he hl hs hx

/-- Every answer keeps the books. -/
theorem announced {owed owed' : List Change} (h : Owes w a owed) (hs : a.registry.Sound)
    (ha : w.Announces a a' owed owed' notes) : Owes w a' owed' := by
  cases ha with
  | nothing ht hr => exact h.congr ht hr
  | difference hc hr => exact (h.changed hc).congr rfl hr
  | acquired he hserves hg ht hr =>
      exact (h.acquired he hserves hg).congr ht (congrArg Registry.held hr)
  | released he hserves hg ht hr =>
      exact (h.released hs he hserves hg).congr ht (congrArg Registry.held hr)

/-- With nothing owed the registry holds what the tracker tracks. -/
theorem holds_iff (h : Owes w a []) (hw : w.Admits a) (kind : ResourceKind) (uid : String) :
    a.registry.Holds kind uid ↔ kind.excluded = false ∧ a.tracker.Tracks l kind uid := by
  constructor
  · intro hh
    obtain ⟨hx, hl, e, r, he, rfl, hr, rfl⟩ := h.held kind uid hh
    refine ⟨hx, ?_⟩
    rcases hl with hl | ⟨c, hm, _⟩
    · obtain ⟨e', hs', hu⟩ := (Tracker.lists_iff a.tracker e.uid).mp hl
      obtain ⟨r', hr'⟩ := w.resolves e' (hw.stores e' hs')
      have heq : r' = r := w.serves_alike (hw.stores e' hs') he hu hr' hr
      subst heq
      exact ⟨e', r', hs', hu, hr', rfl⟩
    · exact absurd hm List.not_mem_nil
  · rintro ⟨hx, e, r, hs, rfl, hr, rfl⟩
    rcases h.watched e r (hw.stores e hs) hs.lists hr hx with hh | ⟨c, hm, _⟩
    · exact hh
    · exact absurd hm List.not_mem_nil

end Owes

/-! ## One reconcile after the other -/

/-- What happens to an agent whose reconciles do not overlap. -/
inductive Chore where
  | reconcile (key : ObjectKey)
  /-- An event for the watch of the deployment records. -/
  | work (e : WatchEvent)
  /-- An event for the watch of a kind. -/
  | object (kind : ResourceKind) (e : WatchEvent)
  /-- The hub becomes another. -/
  | hub (hub : Hub)

namespace Agent

def chore (l : Lookups) (a : Agent) : Chore → Agent
  | .reconcile key => ((Reconciler.reconcile a.cluster key).run.run (answerFrom l) a).2
  | .work e => (a.deliverWork e).2
  | .object kind e => (a.deliver kind e).2
  | .hub hub => { a with hub := hub }

def chores (l : Lookups) : Agent → List Chore → Agent := List.foldl (chore l)

end Agent

/-- A chore may bring any deployment record whose entries are in the listing. -/
def Listing.Allows (w : Listing l) : Chore → Prop
  | .work e => w.Permits (.work e)
  | .reconcile _ | .object _ _ | .hub _ => True

theorem Wrote.of_perform {c : HubCall} {v : Except AgentError c.Answer}
    (h : a.perform c = (v, a')) : Wrote a c v a' := by
  have heffect : Wrote a c (a.perform c).1 (a.perform c).2 := .effect
  rw [h] at heffect
  exact heffect

/-- What every answer keeps, a program keeps that is run without a break. The answers are an
agent's, with lookups that may depend on how far the run has come. -/
theorem run_answers {σ : Type} {answer : (r : Request) → σ → r.Answer × σ} (view : σ → Agent)
    (look : σ → Lookups)
    (hanswer : ∀ r s, ((answer r s).1, view (answer r s).2) = Agent.answerFrom (look s) r (view s))
    {I : σ → Stage → Prop}
    (hstep : ∀ s st st' r last, I s st → Answered (look s) (view s) id key st st'
      (view (answer r s).2) (Note.ofAnswer id key last r (answer r s).1) → I (answer r s).2 st')
    (p : Reconcile) (s : σ) (st : Stage) (hp : st.rest (view s).cluster key = p) (h : I s st) :
    ∃ st' result, st'.result? = some result ∧ I (p.run answer s).2 st' := by
  induction p generalizing s st with
  | done result =>
      have hst : Hand.Continues (look s) (view s) id key st := Hand.continues st
      cases hst with
      | ends hr => exact ⟨st, _, hr, h⟩
      | writes _ _ hr | asks _ hr =>
          rw [hr] at hp
          cases hp
  | ask request next ih =>
      have hst : Hand.Continues (look s) (view s) id key st := Hand.continues st
      cases hst with
      | ends _ _ hr =>
          rw [hr] at hp
          cases hp
      | @writes c f _ _ hr ha =>
          rw [hr] at hp
          cases hp
          have hans := ha _ _ (Wrote.of_perform (hanswer (.hub c) s).symm)
          exact ih _ (answer (.hub c) s).2 (f (answer (.hub c) s).1)
            (congrArg (fun cluster => rest cluster key _) hans.cluster) (hstep _ _ _ _ _ h hans)
      | @asks _ f _ hr _ ha =>
          rw [hr] at hp
          cases hp
          have hans := ha _ _ (hanswer request s).symm
          exact ih _ (answer request s).2 (f (answer request s).1)
            (congrArg (fun cluster => rest cluster key _) hans.cluster) (hstep _ _ _ _ _ h hans)

/-- The same for lookups that do not change. -/
theorem run_rest {I : Agent → Stage → Prop}
    (hstep : ∀ a st st' a' notes, I a st → Answered l a id key st st' a' notes → I a' st')
    (p : Reconcile) (a : Agent) (st : Stage) (hp : st.rest a.cluster key = p) (h : I a st) :
    ∃ st' result, st'.result? = some result ∧ I (p.run (Agent.answerFrom l) a).2 st' :=
  run_answers (fun a => a) (fun _ => l) (fun _ _ => rfl)
    (fun a st st' r _ => hstep a st st' (Agent.answerFrom l r a).2 _) p a st hp h

/-- What holds of an agent between two reconciles, while no worker has anything in hand. -/
structure Settled (w : Listing l) (a : Agent) : Prop where
  sound : (⟨a, []⟩ : Crew).Sound
  binds : w.Binds ⟨a, []⟩
  owes : Owes w a []

theorem Crew.not_busy_nil : ¬ (⟨a, []⟩ : Crew).Busy id key st := by
  rintro ⟨p, hp⟩
  cases hp

theorem Crew.sound_nil (hq : a.queue.Sound a.clock) (hr : a.registry.Sound)
    (ht : a.tracker.Sound) : (⟨a, []⟩ : Crew).Sound :=
  ⟨hq, hr, ht, fun _ _ _ hb => absurd hb not_busy_nil,
    fun _ _ _ _ _ hb => absurd hb not_busy_nil, fun _ _ _ hb => absurd hb not_busy_nil⟩

theorem Listing.binds_nil (hw : w.Admits a) : w.Binds ⟨a, []⟩ :=
  ⟨hw, fun _ _ _ hb => absurd hb Crew.not_busy_nil⟩

/-- An event is a move of a crew without workers. -/
theorem chore_event (hr : a.registry.Sound) {c : Chore} (hnot : ∀ key, c ≠ .reconcile key) :
    (∃ m c' notes, Crew.Step l ⟨a, []⟩ m c' notes ∧ a.chore l c = c'.agent ∧
        ∀ w : Listing l, w.Allows c → w.Permits m) ∨
      ∃ hub, a.chore l c = { a with hub := hub } := by
  cases c with
  | reconcile key => exact absurd rfl (hnot key)
  | work e =>
      obtain ⟨c', hmove, hs⟩ := Crew.step_work (l := l) (c := ⟨a, []⟩) e
      exact Or.inl ⟨.work e, c', _, hs, congrArg Floor.agent hmove, fun _ hc => hc⟩
  | object kind e =>
      obtain ⟨c', hmove, hs⟩ := Crew.step_object (l := l) (c := ⟨a, []⟩) hr kind e
      exact Or.inl ⟨.object kind e, c', _, hs, congrArg Floor.agent hmove, fun _ _ => trivial⟩
  | hub hub => exact Or.inr ⟨hub, rfl⟩

namespace Settled

theorem of_agent (hq : a.queue.Sound a.clock) (hr : a.registry.Sound) (ht : a.tracker.Sound)
    (hw : w.Admits a) (ho : Owes w a []) : Settled w a where
  sound := Crew.sound_nil hq hr ht
  binds := Listing.binds_nil hw
  owes := ho

theorem reconcile (h : Settled w a) (key : ObjectKey) :
    Settled w (a.chore l (.reconcile key)) := by
  let I : Agent → Stage → Prop := fun a st =>
    (a.queue.Sound a.clock ∧ a.registry.Sound ∧ a.tracker.Sound) ∧ w.Admits a ∧
      w.Fits st ∧ Owes w a st.owed
  have hstart : I a (first key) :=
    ⟨⟨h.sound.queue, h.sound.registry, h.sound.tracker⟩, h.binds.admits, w.fits_first key,
      (owed_first key).symm ▸ h.owes⟩
  have hstep : ∀ a st st' a' notes, I a st → Answered l a 0 key st st' a' notes → I a' st' := by
    rintro a st st' a' notes ⟨⟨hq, hr, ht⟩, hw, hf, ho⟩ ha
    obtain ⟨hw', hf'⟩ := hw.answered ht hf ha
    exact ⟨ha.sound hq hr ht (w.clean_of_fits hf), hw', hf',
      ho.announced hr (Listing.announces ht hf ha)⟩
  obtain ⟨st', result, hresult, ⟨hq, hr, ht⟩, hw, _, ho⟩ :=
    run_rest hstep (Reconciler.reconcile a.cluster key).run a (first key) rest_first hstart
  rw [owed_of_result? hresult] at ho
  exact of_agent hq hr ht hw ho

theorem event (h : Settled w a) {m : Move} (hm : w.Permits m) {c' : Crew}
    (s : Crew.Step l ⟨a, []⟩ m c' notes) : Settled w c'.agent := by
  have hsound := h.sound.step s
  have hbinds := h.binds.step h.sound hm s
  refine of_agent hsound.queue hsound.registry hsound.tracker hbinds.admits ?_
  cases s with
  | turn id hh => cases hh
  | work | object | fire | mood | pass => exact h.owes.congr rfl rfl
  | still => exact h.owes

theorem chore (h : Settled w a) {c : Chore} (hc : w.Allows c) : Settled w (a.chore l c) := by
  by_cases hnot : ∀ key, c ≠ .reconcile key
  · rcases chore_event (l := l) h.sound.registry hnot with ⟨m, c', notes, hs, he, hm⟩ | ⟨hub, he⟩
    · rw [he]
      exact h.event (hm w hc) hs
    · rw [he]
      exact of_agent h.sound.queue h.sound.registry h.sound.tracker
        ⟨h.binds.admits.works, h.binds.admits.stores⟩ (h.owes.congr rfl rfl)
  · obtain ⟨key, rfl⟩ := not_forall_not.mp hnot
    exact h.reconcile key

theorem chores (h : Settled w a) (chores : List Chore) (hc : ∀ c ∈ chores, w.Allows c) :
    Settled w (a.chores l chores) := by
  induction chores generalizing a with
  | nil => exact h
  | cons c rest ih =>
      exact ih (h.chore (hc c List.mem_cons_self)) fun d hd => hc d (List.mem_cons_of_mem _ hd)

end Settled

/-- Some watch of a kind is running. -/
def Registry.Runs (r : Registry) (kind : ResourceKind) : Prop :=
  ∃ n w, r.watch? n = some w ∧ w.kind = kind ∧ w.stopped = false

theorem Registry.Sound.runs_iff {r : Registry} (h : r.Sound) (kind : ResourceKind) :
    r.Runs kind ↔ ∃ uid, r.Holds kind uid := by
  constructor
  · rintro ⟨n, w, hw, rfl, hs⟩
    obtain ⟨held, hg, _⟩ := h.running n w hw hs
    obtain ⟨uid, hu⟩ := List.exists_mem_of_ne_nil _ (h.held w.kind held hg).2
    exact ⟨uid, held, hg, hu⟩
  · rintro ⟨_, held, hg, _⟩
    obtain ⟨w, hw, hk, hs⟩ := h.watched kind held hg
    exact ⟨held.watch, w, hw, hk, hs⟩

/-- After any reconciles one after the other, of live and of deletion keys and whatever the
deployment records hold, the holders of a kind are the tracked UIDs that resolve to it, or nobody if
it is excluded, and its watch runs exactly while there are any. -/
theorem holders_match_tracker (w : Listing l) (cluster : String) (timeout : Duration)
    (limiter : Limiter ObjectKey) (manifestWorks : Table RecordKey ManifestWork)
    (chores : List Chore) (h : ∀ c ∈ chores, w.Allows c) (kind : ResourceKind) :
    let a := (Agent.fresh cluster timeout limiter manifestWorks).chores l chores
    (∀ uid, a.registry.Holds kind uid ↔
      kind.excluded = false ∧ a.tracker.Tracks l kind uid) ∧
    (a.registry.isActive kind = true ↔ ∃ uid, a.registry.Holds kind uid) ∧
    (a.registry.Runs kind ↔ ∃ uid, a.registry.Holds kind uid) := by
  intro a
  have hstart : Settled w (.fresh cluster timeout limiter manifestWorks) :=
    Settled.of_agent (WorkQueue.sound_start limiter {}) Registry.sound_empty Tracker.sound_empty
      (w.admits_fresh cluster timeout limiter manifestWorks)
      (Owes.fresh w cluster timeout limiter manifestWorks)
  have hend : Settled w a := hstart.chores chores h
  exact ⟨fun uid => hend.owes.holds_iff hend.binds.admits kind uid,
    hend.sound.registry.isActive_iff kind, hend.sound.registry.runs_iff kind⟩

namespace Widgets

/-- A record comes, and another that lists the same widget; then the first one goes. -/
def handover : List Chore :=
  [.work (.apply (work "a")), .reconcile ⟨appliedWorkKind, "", "a", none⟩,
    .work (.apply (work "b")), .reconcile ⟨appliedWorkKind, "", "b", none⟩,
    .work (.delete (work "a")),
    .reconcile (ObjectKey.intoDeleted ⟨appliedWorkKind, "", "a", none⟩)]

theorem holders_match_tracker_handover :
    (∀ c ∈ handover, listing.Allows c) ∧
      (agent.chores lookups handover).registry.isActive resource.resourceKind = true := by
  have hallows : ∀ c ∈ handover, listing.Allows c := by
    intro c hc
    simp only [handover, List.mem_cons, List.not_mem_nil, or_false] at hc
    rcases hc with rfl | rfl | rfl | rfl | rfl | rfl
    · intro o he
      cases he
      exact accepts_work "a"
    · trivial
    · intro o he
      cases he
      exact accepts_work "b"
    · trivial
    · intro o he
      cases he
    · trivial
  refine ⟨hallows, ?_⟩
  have hmatch := holders_match_tracker listing "cluster1" (.ofSeconds 5)
    (.exponential (.ofMillis 5) (.ofSeconds 1000) {}) {} handover hallows resource.resourceKind
  have hstores : (agent.chores lookups handover).tracker.Stores entry :=
    ⟨"b", ⟨"b", ⟨[entry]⟩⟩, by decide +kernel, List.mem_singleton.mpr rfl⟩
  exact hmatch.2.1.mpr
    ⟨"u", (hmatch.1 "u").mpr ⟨by decide +kernel, entry, resource, hstores, rfl, rfl, rfl⟩⟩

end Widgets
end StatusRelay
