import StatusRelay.Proofs.Ownership
import StatusRelay.Proofs.ReferenceCounts
import StatusRelay.Proofs.WatchHistory

/-!
# Watches that stay

Records may list one UID under any coordinates, and the coordinates may change from one version of
a record to the next. A record's sets are compared by UID, so a UID that a record goes on listing
under other coordinates is no change, and a UID that is dropped is given up under the coordinates of
the record that dropped it last. With one reconcile at a time a UID holds a kind exactly if it came
under the kind and has not gone under the same kind since. So once nothing is tracked, the watches
that still run are those of kinds under which some UID came and did not go.
-/
namespace StatusRelay

open Stage

variable {l : Lookups} {a a₀ a' : Agent} {id : WorkerId} {key : ObjectKey} {st st' : Stage}
  {notes : List Note} {kind : ResourceKind} {uid : String}

/-! ## What a reconcile tells the registry -/

namespace Change

/-- What the registry is told once the resource of the entry is found. -/
def callFor (c : Change) (r : ApiResource) : RegistryCall :=
  if c.gained then .acquire r c.uid else .release r.resourceKind c.uid

/-- What the registry is told of a change; nothing if the resource is not found. -/
def call? (l : Lookups) (c : Change) : Option RegistryCall :=
  match l.named c.entry.group c.entry.version c.entry.resource with
  | .ok r => some (c.callFor r)
  | .error _ => none

def calls (l : Lookups) (changes : List Change) : List RegistryCall := changes.filterMap (call? l)

theorem calls_cons_of_serves {c : Change} {r : ApiResource} (h : l.Serves c.entry r)
    (changes : List Change) : calls l (c :: changes) = c.callFor r :: calls l changes := by
  rw [Lookups.Serves] at h
  exact List.filterMap_cons_some (by rw [call?, h])

theorem mem_calls_iff (l : Lookups) (changes : List Change) (call : RegistryCall) :
    call ∈ calls l changes ↔ ∃ c ∈ changes, ∃ r, l.Serves c.entry r ∧ c.callFor r = call := by
  simp only [calls, List.mem_filterMap, call?, Lookups.Serves]
  refine exists_congr fun c => and_congr_right fun _ => ?_
  cases l.named c.entry.group c.entry.version c.entry.resource with
  | ok r => simp
  | error e => simp

end Change

namespace Stage

/-- A difference was found and is being announced. -/
def announces : Stage → Bool
  | changing _ | telling _ _ _ | posting _ _ _ => true
  | _ => false

/-- What the registry still has to be told. -/
def dues (l : Lookups) : Stage → List RegistryCall
  | changing changes | posting _ _ changes => Change.calls l changes
  | telling c r changes => c.callFor r :: Change.calls l changes
  | _ => []

theorem announces_finished (result : Except AgentError Outcome) :
    (finished result).announces = false := rfl

theorem announces_recorded (o : Object) (record : WorkStatus) :
    (recorded o record).announces = false :=
  of_recorded (P := fun st => st.announces = false) record announces_finished (fun _ _ => rfl)
    fun _ _ => rfl

theorem announces_opened (o : Object) : (opened o).announces = false :=
  of_opened (P := fun st => st.announces = false) announces_finished fun _ _ => rfl

theorem announces_first (key : ObjectKey) : (first key).announces = false :=
  of_first (P := fun st => st.announces = false) announces_finished rfl key

theorem dues_of_result? {result : Except AgentError Outcome} (h : st.result? = some result) :
    st.dues l = [] := by
  unfold result? at h
  split at h
  · rfl
  · rfl
  · cases h

end Stage

/-- The tracker and the registry in the middle of a reconcile, against those before it. -/
inductive Accounts (l : Lookups) (a₀ a : Agent) (st : Stage) : Prop
  | before (hs : st.announces = false) (ht : a.tracker = a₀.tracker) (hr : a.registry = a₀.registry)
  | after (hs : st.announces = true) (work : String) (applied : AppliedSet)
      (d : AppliedSet.Difference) (ht : a₀.tracker.Reported a.tracker work applied d)
      (hr : a.registry.run (st.dues l) =
        a₀.registry.run (Change.calls l (Change.ofDifference d)))

namespace Accounts

/-- Neither the tracker nor the registry was told anything, and the dues are the same. -/
theorem congr (h : Accounts l a₀ a st) (ht : a'.tracker = a.tracker)
    (hr : a'.registry = a.registry) (hs : st'.announces = st.announces)
    (hd : st'.dues l = st.dues l) : Accounts l a₀ a' st' := by
  cases h with
  | before hn ht₀ hr₀ => exact .before (hs.trans hn) (ht.trans ht₀) (hr.trans hr₀)
  | after hy work applied d ht₀ hr₀ =>
      refine .after (hs.trans hy) work applied d (ht ▸ ht₀) ?_
      rw [hd, hr]
      exact hr₀

/-- While nothing is announced the tracker and the registry are as they were. -/
theorem unchanged (h : Accounts l a₀ a st) (hs : st.announces = false) :
    a.tracker = a₀.tracker ∧ a.registry = a₀.registry := by
  cases h with
  | before _ ht hr => exact ⟨ht, hr⟩
  | after hy =>
      rw [hs] at hy
      cases hy

theorem of_quiet (h : Accounts l a₀ a st) (hs : st.announces = false)
    (hs' : st'.announces = false) (ht : a'.tracker = a.tracker)
    (hr : a'.registry = a.registry) : Accounts l a₀ a' st' := by
  obtain ⟨ht₀, hr₀⟩ := h.unchanged hs
  exact .before hs' (ht.trans ht₀) (hr.trans hr₀)

theorem leads (h : Accounts l a₀ a st) (hl : Leads l a id key st st' notes) :
    Accounts l a₀ a st' := by
  cases hl with
  | presentWork o => exact h.of_quiet rfl (announces_opened o) rfl rfl
  | read o owner record => exact h.of_quiet rfl (announces_recorded o record) rfl rfl
  | served c changes r hr =>
      exact h.congr rfl rfl rfl (Change.calls_cons_of_serves hr changes).symm
  | unserved c changes e he =>
      refine h.congr rfl rfl rfl ?_
      exact (List.filterMap_cons_none (by rw [Change.call?, he])).symm
  | _ => exact h.of_quiet rfl rfl rfl rfl

/-- The tracker takes a new set of a record. -/
theorem changed (h : Accounts l a₀ a st) (hs : st.announces = false) {t' : Tracker} {work : String}
    {applied : AppliedSet} {d : AppliedSet.Difference}
    (ht : a.tracker.Reported t' work applied d) :
    Accounts l a₀ { a with tracker := t' } (changing (Change.ofDifference d)) := by
  obtain ⟨ht₀, hr₀⟩ := h.unchanged hs
  rw [ht₀] at ht
  refine .after rfl work applied d ht ?_
  change a.registry.run _ = _
  rw [hr₀]
  rfl

/-- The registry is told what is due first. -/
theorem told {c : Change} {r : ApiResource} {changes : List Change}
    (h : Accounts l a₀ a (telling c r changes))
    (hr : a'.registry = a.registry.perform (c.callFor r)) (ht : a'.tracker = a.tracker) :
    Accounts l a₀ a' (posting c r changes) := by
  cases h with
  | before hn => cases hn
  | after hy work applied d ht₀ hr₀ =>
      refine .after rfl work applied d (ht ▸ ht₀) ?_
      rw [hr]
      exact hr₀

theorem answered (h : Accounts l a₀ a st) (hs : a.tracker.Sound) (hc : st.Clean)
    (ha : Answered l a id key st st' a' notes) : Accounts l a₀ a' st' := by
  cases ha with
  | leads hl => exact h.leads hl
  | creates o record hw =>
      obtain ⟨hub, rfl⟩ := hw.frame
      exact h.of_quiet rfl (of_created (P := fun st => st.announces = false) announces_finished
        (fun _ _ => rfl) (fun _ _ => rfl) _) rfl rfl
  | patches o record label hw =>
      obtain ⟨hub, rfl⟩ := hw.frame
      exact h.of_quiet rfl (of_patched (P := fun st => st.announces = false) announces_finished
        (fun _ _ => rfl) _) rfl rfl
  | updates record status hw =>
      obtain ⟨hub, rfl⟩ := hw.frame
      exact h.of_quiet rfl (of_updated (P := fun st => st.announces = false) announces_finished _)
        rfl rfl
  | erases name hw =>
      obtain ⟨hub, rfl⟩ := hw.frame
      exact h.of_quiet rfl (of_erased (P := fun st => st.announces = false) announces_finished _)
        rfl rfl
  | replaces work manifestWork applied =>
      exact h.changed rfl (Tracker.reported_replace hs hc)
  | removes work => exact h.changed rfl (Tracker.Call.reported hs (.remove work))
  | acquires c r changes hg =>
      refine h.told ?_ rfl
      rw [Change.callFor, hg]
      rfl
  | releases c r changes hg =>
      refine h.told ?_ rfl
      rw [Change.callFor, hg]
      rfl
  | posts c r changes => exact h.congr rfl rfl rfl rfl

/-- A reconcile that has ended told the registry nothing, or of all of the difference. -/
theorem ended (h : Accounts l a₀ a st) {result : Except AgentError Outcome}
    (hr : st.result? = some result) :
    a.tracker = a₀.tracker ∧ a.registry = a₀.registry ∨
      ∃ work applied d, a₀.tracker.Reported a.tracker work applied d ∧
        a.registry = a₀.registry.run (Change.calls l (Change.ofDifference d)) := by
  cases h with
  | before _ ht hr₀ => exact Or.inl ⟨ht, hr₀⟩
  | after _ work applied d ht hr₀ =>
      rw [dues_of_result? hr] at hr₀
      exact Or.inr ⟨work, applied, d, ht, hr₀⟩

end Accounts

/-! ## UIDs that come and go -/

namespace Tracker

variable {t t' : Tracker} {work : String} {applied : AppliedSet} {d : AppliedSet.Difference}

/-- Some record lists the UID that did not list it before, and under coordinates of the kind. -/
def Comes (l : Lookups) (kind : ResourceKind) (uid : String) (turn : Tracker × Tracker) : Prop :=
  ∃ work e r, e ∈ (turn.2.setOf work).entries ∧ (turn.1.setOf work).contains uid = false ∧
    e.uid = uid ∧ l.Serves e r ∧ r.resourceKind = kind

/-- The UID was listed under coordinates of the kind, and no record lists it any more. -/
def Goes (l : Lookups) (kind : ResourceKind) (uid : String) (turn : Tracker × Tracker) : Prop :=
  turn.1.Tracks l kind uid ∧ ¬ turn.2.Lists uid

theorem Tracks.lists (h : t.Tracks l kind uid) : t.Lists uid := by
  obtain ⟨e, r, hs, hu, _⟩ := h
  exact hu ▸ hs.lists

theorem not_comes_self (t : Tracker) : ¬ Comes l kind uid (t, t) := by
  rintro ⟨work, e, r, he, hn, rfl, _⟩
  rw [AppliedSet.contains_of_mem he] at hn
  cases hn

theorem not_goes_self (t : Tracker) : ¬ Goes l kind uid (t, t) := fun h => h.2 h.1.lists

theorem lists_iff_setOf (t : Tracker) (uid : String) :
    t.Lists uid ↔ ∃ work, (t.setOf work).contains uid = true := by
  constructor
  · rintro ⟨work, tracked, hg, hc⟩
    exact ⟨work, setOf_eq_of_get? hg ▸ hc⟩
  · rintro ⟨work, hc⟩
    obtain ⟨e, he, hu⟩ := (AppliedSet.contains_eq_true_iff _ uid).mp hc
    exact hu ▸ (stores_of_mem_setOf he).lists

namespace Reported

/-- What was added to a record's set came. -/
theorem comes_iff (h : t.Reported t' work applied d) :
    Comes l kind uid (t, t') ↔
      ∃ e ∈ d.added.entries, ∃ r, e.uid = uid ∧ l.Serves e r ∧ r.resourceKind = kind := by
  constructor
  · rintro ⟨other, e, r, he, hn, rfl, hr, hk⟩
    have hstored := h.stored other
    by_cases ho : work = other
    · rw [if_pos ho] at hstored
      refine ⟨e, ?_, r, rfl, hr, hk⟩
      rw [h.added, List.mem_filter, ho, hn]
      exact ⟨hstored ▸ he, rfl⟩
    · rw [if_neg ho] at hstored
      rw [← hstored, AppliedSet.contains_of_mem he] at hn
      cases hn
  · rintro ⟨e, he, r, rfl, hr, hk⟩
    rw [h.added, List.mem_filter, Bool.not_eq_true'] at he
    refine ⟨work, e, r, ?_, he.2, rfl, hr, hk⟩
    have hstored := h.stored work
    rw [if_pos rfl] at hstored
    exact hstored ▸ he.1

/-- What was removed from a record's set and from all others went. -/
theorem goes_iff (h : t.Reported t' work applied d) (hd : t'.works.Distinct) :
    Goes l kind uid (t, t') ↔
      ∃ e ∈ d.removed.entries, ∃ r, e.uid = uid ∧ l.Serves e r ∧ r.resourceKind = kind := by
  constructor
  · rintro ⟨⟨e, r, ⟨other, tracked, hg, he⟩, rfl, hr, hk⟩, hn⟩
    refine ⟨e, ?_, r, rfl, hr, hk⟩
    have hset := setOf_eq_of_get? hg
    have hstored := h.stored other
    by_cases ho : work = other
    · rw [h.removed, List.mem_filter, ho, hset, decide_eq_true_iff, mem_listed_iff hd]
      exact ⟨he, hn⟩
    · rw [if_neg ho, hset] at hstored
      refine absurd ((lists_iff_setOf t' e.uid).mpr ⟨other, ?_⟩) hn
      rw [hstored]
      exact AppliedSet.contains_of_mem he
  · rintro ⟨e, he, r, rfl, hr, hk⟩
    rw [h.removed, List.mem_filter, decide_eq_true_iff, mem_listed_iff hd] at he
    exact ⟨⟨e, r, stores_of_mem_setOf he.1, rfl, hr, hk⟩, he.2⟩

/-- Nothing that was added is removed. -/
theorem lists_of_added (h : t.Reported t' work applied d) {e : AppliedResource}
    (he : e ∈ d.added.entries) : t'.Lists e.uid := by
  rw [h.added, List.mem_filter] at he
  have hstored := h.stored work
  rw [if_pos rfl] at hstored
  exact (lists_iff_setOf t' e.uid).mpr ⟨work, hstored ▸ AppliedSet.contains_of_mem he.1⟩

theorem drops_iff (h : t.Reported t' work applied d) (hd : t'.works.Distinct) :
    (∃ call ∈ Change.calls l (Change.ofDifference d), call.Drops kind uid) ↔
      Goes l kind uid (t, t') := by
  rw [h.goes_iff hd]
  constructor
  · rintro ⟨call, hm, hdrop⟩
    obtain ⟨c, hc, r, hr, rfl⟩ := (Change.mem_calls_iff l _ _).mp hm
    rcases List.mem_append.mp hc with hc | hc
    · obtain ⟨e, he, rfl⟩ := List.mem_map.mp hc
      exact absurd hdrop id
    · obtain ⟨e, he, rfl⟩ := List.mem_map.mp hc
      exact ⟨e, he, r, hdrop.2, hr, hdrop.1⟩
  · rintro ⟨e, he, r, hu, hr, hk⟩
    refine ⟨_, (Change.mem_calls_iff l _ _).mpr ⟨⟨false, e⟩, ?_, r, hr, rfl⟩, hk, hu⟩
    exact List.mem_append.mpr (Or.inr (List.mem_map_of_mem he))

theorem acquires_iff (h : t.Reported t' work applied d) :
    (∃ call ∈ Change.calls l (Change.ofDifference d), call.Acquires kind uid) ↔
      Comes l kind uid (t, t') := by
  rw [h.comes_iff]
  constructor
  · rintro ⟨call, hm, hacq⟩
    obtain ⟨c, hc, r, hr, rfl⟩ := (Change.mem_calls_iff l _ _).mp hm
    rcases List.mem_append.mp hc with hc | hc
    · obtain ⟨e, he, rfl⟩ := List.mem_map.mp hc
      exact ⟨e, he, r, hacq.2, hr, hacq.1⟩
    · obtain ⟨e, he, rfl⟩ := List.mem_map.mp hc
      exact absurd hacq id
  · rintro ⟨e, he, r, hu, hr, hk⟩
    refine ⟨_, (Change.mem_calls_iff l _ _).mpr ⟨⟨true, e⟩, ?_, r, hr, rfl⟩, hk, hu⟩
    exact List.mem_append.mpr (Or.inl (List.mem_map_of_mem he))

/-- A UID that came has not gone in the same turn. -/
theorem not_goes_of_comes (h : t.Reported t' work applied d) (hc : Comes l kind uid (t, t')) :
    ∀ k, ¬ Goes l k uid (t, t') := by
  obtain ⟨e, he, r, rfl, _⟩ := h.comes_iff.mp hc
  exact fun k hg => hg.2 (h.lists_of_added he)

theorem since_iff (h : t.Reported t' work applied d) (hd : t'.works.Distinct) :
    Since (RegistryCall.Acquires kind uid) (RegistryCall.Drops kind uid)
        (Change.calls l (Change.ofDifference d)) ↔ Comes l kind uid (t, t') := by
  constructor
  · rintro ⟨before, call, after, he, hp, _⟩
    refine h.acquires_iff.mp ⟨call, ?_, hp⟩
    rw [he]
    exact List.mem_append.mpr (Or.inr List.mem_cons_self)
  · intro hc
    obtain ⟨call, hm, hp⟩ := h.acquires_iff.mpr hc
    obtain ⟨before, after, he⟩ := List.append_of_mem hm
    refine ⟨before, call, after, he, hp, fun later hl hdrop => ?_⟩
    refine h.not_goes_of_comes hc kind ((h.drops_iff hd).mp ⟨later, ?_, hdrop⟩)
    rw [he]
    exact List.mem_append.mpr (Or.inr (List.mem_cons_of_mem _ hl))

end Reported
end Tracker

/-! ## One reconcile after the other -/

/-- The queue, the registry and the tracker are as they may be. -/
structure Agent.Kept (a : Agent) : Prop where
  queue : a.queue.Sound a.clock
  registry : a.registry.Sound
  tracker : a.tracker.Sound

/-- Who holds a kind after a turn: who came under it, and who held it and has not gone. -/
def Agent.Turns (l : Lookups) (a a' : Agent) : Prop :=
  ∀ kind uid, a'.registry.Holds kind uid ↔
    kind.excluded = false ∧ Tracker.Comes l kind uid (a.tracker, a'.tracker) ∨
      ¬ Tracker.Goes l kind uid (a.tracker, a'.tracker) ∧ a.registry.Holds kind uid

namespace Agent

theorem turns_of_same (ht : a'.tracker = a.tracker)
    (hr : a'.registry.held = a.registry.held) : Turns l a a' := by
  intro kind uid
  rw [Registry.holds_congr hr, ht]
  simp [Tracker.not_comes_self, Tracker.not_goes_self]

theorem turns_of_reported {work : String} {applied : AppliedSet} {d : AppliedSet.Difference}
    (ht : a.tracker.Reported a'.tracker work applied d) (hd : a'.tracker.works.Distinct)
    (hs : a.registry.Sound)
    (hr : a'.registry = a.registry.run (Change.calls l (Change.ofDifference d))) :
    Turns l a a' := by
  intro kind uid
  rw [hr, Registry.holds_run hs, ht.since_iff hd, ← ht.drops_iff hd]
  simp only [not_exists, not_and, and_comm]

theorem Kept.reconcile (h : a.Kept) (key : ObjectKey) :
    (a.chore l (.reconcile key)).Kept ∧ a.Turns l (a.chore l (.reconcile key)) := by
  let I : Agent → Stage → Prop := fun b st => b.Kept ∧ st.Clean ∧ Accounts l a b st
  have hstart : I a (first key) :=
    ⟨h, of_first clean_finished trivial key, .before (announces_first key) rfl rfl⟩
  have hstep : ∀ b st st' b' notes, I b st → Answered l b 0 key st st' b' notes → I b' st' := by
    rintro b st st' b' notes ⟨hk, hc, ho⟩ ha
    obtain ⟨hq, hr, ht⟩ := ha.sound hk.queue hk.registry hk.tracker hc
    exact ⟨⟨hq, hr, ht⟩, ha.clean, ho.answered hk.tracker hc ha⟩
  obtain ⟨st', result, hresult, hk, _, ho⟩ :=
    run_rest hstep (Reconciler.reconcile a.cluster key).run a (first key) rest_first hstart
  refine ⟨hk, ?_⟩
  rcases ho.ended hresult with ⟨ht, hr⟩ | ⟨work, applied, d, ht, hr⟩
  · exact turns_of_same ht (congrArg Registry.held hr)
  · exact turns_of_reported ht hk.tracker.distinct h.registry hr

theorem Kept.crew (h : a.Kept) : (⟨a, []⟩ : Crew).Sound :=
  Crew.sound_nil h.queue h.registry h.tracker

/-- Events change neither what is tracked nor who holds what. -/
theorem Kept.step (h : a.Kept) {m : Move} {c' : Crew} (s : Crew.Step l ⟨a, []⟩ m c' notes) :
    c'.agent.Kept ∧ a.Turns l c'.agent := by
  have hsound := h.crew.step s
  refine ⟨⟨hsound.queue, hsound.registry, hsound.tracker⟩, ?_⟩
  cases s with
  | turn id hh => cases hh
  | work | object | fire | mood | pass | still => exact turns_of_same rfl rfl

theorem Kept.chore (h : a.Kept) (c : Chore) : (a.chore l c).Kept ∧ a.Turns l (a.chore l c) := by
  by_cases hnot : ∀ key, c ≠ .reconcile key
  · rcases chore_event (l := l) h.registry hnot with ⟨m, c', notes, hs, he, _⟩ | ⟨hub, he⟩
    · rw [he]
      exact h.step hs
    · rw [he]
      exact ⟨⟨h.queue, h.registry, h.tracker⟩, turns_of_same rfl rfl⟩
  · obtain ⟨key, rfl⟩ := not_forall_not.mp hnot
    exact h.reconcile key

/-- The tracker before and after each of some chores. -/
def turns (l : Lookups) : Agent → List Chore → List (Tracker × Tracker)
  | _, [] => []
  | a, c :: rest => (a.tracker, (a.chore l c).tracker) :: turns l (a.chore l c) rest

theorem turns_concat (a : Agent) (chores : List Chore) (c : Chore) :
    a.turns l (chores ++ [c]) = a.turns l chores ++
      [((a.chores l chores).tracker, ((a.chores l chores).chore l c).tracker)] := by
  induction chores generalizing a with
  | nil => rfl
  | cons d rest ih =>
      rw [List.cons_append, turns, ih, turns]
      rfl

theorem Kept.chores (h : a.Kept) (hnone : ∀ kind uid, ¬ a.registry.Holds kind uid)
    (chores : List Chore) :
    (a.chores l chores).Kept ∧ ∀ kind uid, (a.chores l chores).registry.Holds kind uid ↔
      kind.excluded = false ∧
        Since (Tracker.Comes l kind uid) (Tracker.Goes l kind uid) (a.turns l chores) := by
  induction chores using List.reverseRecOn with
  | nil =>
      refine ⟨h, fun kind uid => ⟨fun hh => absurd hh (hnone kind uid), ?_⟩⟩
      rintro ⟨_, before, n, after, he, _⟩
      exact absurd he.symm (by simp [turns])
  | append_singleton chores c ih =>
      obtain ⟨hkept, hholds⟩ := ih
      have hlast : a.chores l (chores ++ [c]) = (a.chores l chores).chore l c :=
        List.foldl_concat ..
      obtain ⟨hkept', hturns⟩ := hkept.chore (l := l) c
      rw [hlast]
      refine ⟨hkept', fun kind uid => ?_⟩
      rw [hturns kind uid, hholds, turns_concat, since_concat]
      tauto

end Agent

/-! ## Nothing tracked -/

theorem Registry.keys_eq_nil_iff (r : Registry) :
    r.held.keys = [] ↔ ∀ kind, r.isActive kind = false := by
  rw [List.eq_nil_iff_forall_not_mem]
  refine forall_congr' fun kind => ?_
  rw [Table.mem_keys_iff, isActive, Table.contains_eq_isSome, Bool.not_eq_true]

/-- Nothing is active and nothing runs exactly if nobody holds anything. -/
theorem Registry.Sound.idle_iff {r : Registry} (h : r.Sound) :
    (r.activeKinds = [] ∧ ∀ w ∈ r.started, w.stopped = true) ↔
      ∀ kind uid, ¬ r.Holds kind uid := by
  rw [r.activeKinds_eq_nil_iff, r.keys_eq_nil_iff]
  constructor
  · rintro ⟨hnone, _⟩ kind uid hh
    have hactive := (h.isActive_iff kind).mpr ⟨uid, hh⟩
    rw [hnone kind] at hactive
    cases hactive
  · intro hnone
    refine ⟨fun kind => ?_, ?_⟩
    · rw [Bool.eq_false_iff]
      intro hactive
      obtain ⟨uid, hh⟩ := (h.isActive_iff kind).mp hactive
      exact hnone kind uid hh
    · intro w hw
      by_contra hs
      obtain ⟨n, hn⟩ := List.getElem?_of_mem hw
      have hruns : r.Runs w.kind := ⟨n, w, hn, rfl, Bool.eq_false_iff.mpr hs⟩
      obtain ⟨uid, hh⟩ := (h.runs_iff w.kind).mp hruns
      exact hnone w.kind uid hh

/-- After any reconciles one after the other, whatever coordinates the records list their UIDs
under, a UID holds a kind that may be watched exactly if it came under the kind and has not gone
under that kind since. So when nothing is tracked, nothing is watched exactly if every UID that came
under a kind has gone under the same kind. -/
theorem unwatched_iff_gone_as_come (l : Lookups) (cluster : String) (timeout : Duration)
    (limiter : Limiter ObjectKey) (manifestWorks : Table RecordKey ManifestWork)
    (chores : List Chore) :
    let fresh := Agent.fresh cluster timeout limiter manifestWorks
    let a := fresh.chores l chores
    let stays kind uid := kind.excluded = false ∧
      Since (Tracker.Comes l kind uid) (Tracker.Goes l kind uid) (fresh.turns l chores)
    (∀ kind uid, a.registry.Holds kind uid ↔ stays kind uid) ∧
    (a.tracker.trackedCount = 0 →
      ((a.registry.activeKinds = [] ∧ ∀ w ∈ a.registry.started, w.stopped = true) ↔
        ∀ kind uid, ¬ stays kind uid)) := by
  intro fresh a stays
  have hfresh : fresh.Kept :=
    ⟨WorkQueue.sound_start limiter {}, Registry.sound_empty, Tracker.sound_empty⟩
  obtain ⟨hkept, hholds⟩ := hfresh.chores (l := l) Registry.not_holds_empty chores
  refine ⟨hholds, fun _ => ?_⟩
  rw [hkept.registry.idle_iff]
  simp only [hholds, stays]

namespace Versions

/-- Every group and version serves widgets. -/
def lookups : Lookups where
  named group version _ := .ok (.of group version "Widget" "widgets")
  ofKind kind := .ok (.of kind.group kind.version kind.kind "widgets")

def widget (version : String) : ResourceKind := ⟨"example.com", version, "Widget"⟩

/-- A deployment record that lists one widget under some version. -/
def work (version : String) : Object where
  metadata := { name := some "a", resourceVersion := some version }
  spec := some (.obj [("manifestWorkName", .str "a")])
  statusMember := some (.obj [("appliedResources", .arr
    [({ group := "example.com", version, resource := "widgets", ns := "default", name := "w",
        uid := "u" } : AppliedResource).toJson])])

def agent : Agent :=
  .fresh "cluster1" (.ofSeconds 5) (.exponential (.ofMillis 5) (.ofSeconds 1000) {}) {}

/-- The record lists the widget under each of some versions in turn and is deleted then. -/
def history (versions : List String) : List Chore :=
  (versions.flatMap fun version =>
    [.work (.apply (work version)), .reconcile ⟨appliedWorkKind, "", "a", none⟩]) ++
  [.work (.delete (work "v1")),
    .reconcile (ObjectKey.intoDeleted ⟨appliedWorkKind, "", "a", none⟩)]

theorem gone_as_come_of_one_version :
    (agent.chores lookups (history ["v1"])).tracker.trackedCount = 0 ∧
      ∀ kind uid, ¬ (kind.excluded = false ∧
        Since (Tracker.Comes lookups kind uid) (Tracker.Goes lookups kind uid)
          (agent.turns lookups (history ["v1"]))) := by
  have hcount : (agent.chores lookups (history ["v1"])).tracker.trackedCount = 0 := by
    decide +kernel
  have hkeys : (agent.chores lookups (history ["v1"])).registry.held.keys = [] := by
    decide +kernel
  have hstopped : ∀ w ∈ (agent.chores lookups (history ["v1"])).registry.started,
      w.stopped = true := by
    decide +kernel
  refine ⟨hcount, ((unwatched_iff_gone_as_come lookups "cluster1" (.ofSeconds 5)
    (.exponential (.ofMillis 5) (.ofSeconds 1000) {}) {} (history ["v1"])).2 hcount).mp
    ⟨(Registry.activeKinds_eq_nil_iff _).mpr hkeys, hstopped⟩⟩

/-- A record that moved its widget from one version to the next is deleted. Nothing is tracked, and
the watch of the first version runs on. -/
theorem watched_of_two_versions :
    (∀ e, ∃ r, lookups.Serves e r) ∧
      (agent.chores lookups (history ["v1", "v2"])).tracker.trackedCount = 0 ∧
      (agent.chores lookups (history ["v1", "v2"])).registry.isActive (widget "v1") = true ∧
      ∃ w ∈ (agent.chores lookups (history ["v1", "v2"])).registry.started,
        w.kind = widget "v1" ∧ w.stopped = false := by
  refine ⟨fun e => ⟨_, rfl⟩, ?_, ?_, ?_⟩
  · decide +kernel
  · decide +kernel
  · decide +kernel

end Versions
end StatusRelay
