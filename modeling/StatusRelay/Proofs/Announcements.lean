import StatusRelay.Proofs.ReferenceCounts
import Mathlib.Tactic.Tauto

/-!
# Reference counts of several reconcilers

What the tracker lists is what it said last about each UID, and who holds a watch is what the
registry was told last. Workers tell the registry what the tracker said, but not in the order in
which it was said: between the two another worker may say and tell the opposite. So when all are
done the counts are exact if and only if, for every UID, the registry was told last what the tracker
said last.
-/
namespace StatusRelay

open Stage

namespace Note

/-- What the tracker says about a UID: that it is listed now, or that it is not any more. -/
def said (uid : String) : Note → Option Bool
  | listed u => if u = uid then some true else none
  | dropped u => if u = uid then some false else none
  | _ => none

/-- What the registry is told about a UID: to count it in or out. -/
def told (uid : String) : Note → Option Bool
  | acquired u => if u = uid then some true else none
  | released u => if u = uid then some false else none
  | _ => none

/-- What a log says last. -/
def latest (p : Note → Option Bool) (log : List Note) : Option Bool := (log.filterMap p).getLast?

variable {p : Note → Option Bool} {log notes : List Note} {uid : String}

theorem latest_append (p : Note → Option Bool) (log notes : List Note) :
    latest p (log ++ notes) = (latest p notes).or (latest p log) := by
  rw [latest, List.filterMap_append, List.getLast?_append]
  rfl

theorem latest_singleton (p : Note → Option Bool) (n : Note) : latest p [n] = p n := by
  cases h : p n <;> simp [latest, h]

theorem latest_eq_none (h : ∀ n ∈ notes, p n = none) : latest p notes = none := by
  rw [latest, List.filterMap_eq_nil_iff.mpr h]
  rfl

theorem eq_none_of_latest (h : latest p notes = none) {n : Note} (hn : n ∈ notes) : p n = none :=
  List.filterMap_eq_nil_iff.mp (List.getLast?_eq_none_iff.mp h) n hn

theorem said_of_not_isNews (h : ∀ n ∈ notes, n.isNews = false) (uid : String) :
    latest (said uid) notes = none :=
  latest_eq_none fun n hn => by
    have := h n hn
    cases n <;> first | rfl | cases this

theorem told_of_not_isNews (h : ∀ n ∈ notes, n.isNews = false) (uid : String) :
    latest (told uid) notes = none :=
  latest_eq_none fun n hn => by
    have := h n hn
    cases n <;> first | rfl | cases this

theorem told_ofChanges (uid : String) (d : AppliedSet.Difference) :
    latest (told uid) (ofChanges d) = none := by
  refine latest_eq_none ?_
  intro n hn
  rcases List.mem_append.mp hn with hn | hn
  · obtain ⟨e, _, rfl⟩ := List.mem_map.mp hn
    rfl
  · obtain ⟨e, _, rfl⟩ := List.mem_map.mp hn
    rfl

/-- A value that is the only one a log has. -/
theorem latest_eq_some {b : Bool} (hall : ∀ n ∈ notes, p n = none ∨ p n = some b)
    (hsome : ∃ n ∈ notes, p n = some b) : latest p notes = some b := by
  obtain ⟨n, hn, hp⟩ := hsome
  have hne : notes.filterMap p ≠ [] := by
    intro he
    have hnone := List.filterMap_eq_nil_iff.mp he n hn
    rw [hp] at hnone
    cases hnone
  rw [latest, List.getLast?_eq_some_getLast hne]
  have hmem := List.getLast_mem hne
  obtain ⟨m, hm, hpm⟩ := List.mem_filterMap.mp hmem
  rcases hall m hm with h | h
  · rw [h] at hpm
    cases hpm
  · rw [h] at hpm
    exact hpm.symm

/-- A UID that a set gains is said to be listed. -/
theorem said_of_added {t t' : Tracker} {applied : AppliedSet} {d : AppliedSet.Difference}
    (hc : t.Changed t' applied d) {e : AppliedResource} (he : e ∈ d.added.entries) :
    latest (said e.uid) (ofChanges d) = some true := by
  have hlisted : listed e.uid ∈ ofChanges d :=
    List.mem_append.mpr (Or.inl (List.mem_map_of_mem (f := fun e => listed e.uid) he))
  refine latest_eq_some ?_ ⟨_, hlisted, if_pos rfl⟩
  intro n hn
  rcases List.mem_append.mp hn with hn | hn
  · obtain ⟨e', _, rfl⟩ := List.mem_map.mp hn
    by_cases hu : e'.uid = e.uid
    · exact Or.inr (if_pos hu)
    · exact Or.inl (if_neg hu)
  · obtain ⟨e', he', rfl⟩ := List.mem_map.mp hn
    have hne : e'.uid ≠ e.uid := by
      intro hu
      have hnot : ¬ t'.Lists e'.uid := (hc.removed e' he').2
      rw [hu] at hnot
      exact hnot (hc.added e he).2
    exact Or.inl (if_neg hne)

/-- A UID that a set loses and does not gain is said to be dropped, if it is dropped. -/
theorem said_of_removed {d : AppliedSet.Difference} {e : AppliedResource}
    (hadd : ∀ e' ∈ d.added.entries, e'.uid ≠ e.uid) (he : e ∈ d.removed.entries) :
    latest (said e.uid) (ofChanges d) = some false := by
  have hdropped : dropped e.uid ∈ ofChanges d :=
    List.mem_append.mpr (Or.inr (List.mem_map_of_mem (f := fun e => dropped e.uid) he))
  refine latest_eq_some ?_ ⟨_, hdropped, if_pos rfl⟩
  intro n hn
  rcases List.mem_append.mp hn with hn | hn
  · obtain ⟨e', he', rfl⟩ := List.mem_map.mp hn
    exact Or.inl (if_neg (hadd e' he'))
  · obtain ⟨e', _, rfl⟩ := List.mem_map.mp hn
    by_cases hu : e'.uid = e.uid
    · exact Or.inr (if_pos hu)
    · exact Or.inl (if_neg hu)

/-- Nothing is said of a UID that a set neither gains nor loses. -/
theorem said_of_no_change {d : AppliedSet.Difference} {uid : String}
    (h : ∀ c ∈ Change.ofDifference d, c.uid ≠ uid) : latest (said uid) (ofChanges d) = none := by
  refine latest_eq_none ?_
  intro n hn
  rcases List.mem_append.mp hn with hn | hn
  · obtain ⟨e, he, rfl⟩ := List.mem_map.mp hn
    exact if_neg (h ⟨true, e⟩ (List.mem_append.mpr (Or.inl (List.mem_map_of_mem he))))
  · obtain ⟨e, he, rfl⟩ := List.mem_map.mp hn
    exact if_neg (h ⟨false, e⟩ (List.mem_append.mpr (Or.inr (List.mem_map_of_mem he))))

/-- What is said of a UID is what became of it. -/
theorem said_ofChanges {t t' : Tracker} {applied : AppliedSet} {d : AppliedSet.Difference}
    (hc : t.Changed t' applied d) (uid : String) :
    (latest (said uid) (ofChanges d) = none ∧ (t'.Lists uid ↔ t.Lists uid) ∧
        ∀ c ∈ Change.ofDifference d, c.uid ≠ uid) ∨
      (∃ c ∈ Change.ofDifference d, c.uid = uid) ∧
        ((latest (said uid) (ofChanges d) = some true ∧ t'.Lists uid) ∨
          latest (said uid) (ofChanges d) = some false ∧ ¬ t'.Lists uid) := by
  by_cases hadd : ∃ e ∈ d.added.entries, e.uid = uid
  · obtain ⟨e, he, rfl⟩ := hadd
    have hm : (⟨true, e⟩ : Change) ∈ Change.ofDifference d :=
      List.mem_append.mpr (Or.inl (List.mem_map_of_mem he))
    exact Or.inr ⟨⟨_, hm, rfl⟩, Or.inl ⟨said_of_added hc he, (hc.added e he).2⟩⟩
  by_cases hrem : ∃ e ∈ d.removed.entries, e.uid = uid
  · obtain ⟨e, he, rfl⟩ := hrem
    have hm : (⟨false, e⟩ : Change) ∈ Change.ofDifference d :=
      List.mem_append.mpr (Or.inr (List.mem_map_of_mem he))
    have hnot : ∀ e' ∈ d.added.entries, e'.uid ≠ e.uid := fun e' he' hu => hadd ⟨e', he', hu⟩
    exact Or.inr ⟨⟨_, hm, rfl⟩, Or.inr ⟨said_of_removed hnot he, (hc.removed e he).2⟩⟩
  · have hnone : ∀ c ∈ Change.ofDifference d, c.uid ≠ uid := by
      intro c hm hu
      rcases List.mem_append.mp hm with hm | hm
      · obtain ⟨e, he, rfl⟩ := List.mem_map.mp hm
        exact hadd ⟨e, he, hu⟩
      · obtain ⟨e, he, rfl⟩ := List.mem_map.mp hm
        exact hrem ⟨e, he, hu⟩
    have hlists : t'.Lists uid ↔ t.Lists uid :=
      ⟨fun hl => (hc.gains uid hl).resolve_right hadd,
        fun hl => (hc.losses uid hl).resolve_right hrem⟩
    exact Or.inl ⟨said_of_no_change hnone, hlists, hnone⟩

end Note

/-- The changes in hand that the registry has not been told of. -/
def Hand.owed : Hand → List Change
  | .busy _ stage _ => stage.owed
  | .free | .idle | .gone => []

namespace Crew

variable {c : Crew} {a' : Agent} {id : WorkerId} {x x' : Hand}

/-- Some worker has yet to tell the registry of a change. -/
def Owing (c : Crew) (d : Change) : Prop :=
  ∃ (id : WorkerId) (x : Hand), c.hands[id]? = some x ∧ d ∈ x.owed

/-- The same of another worker. -/
def OwingElse (c : Crew) (id : WorkerId) (d : Change) : Prop :=
  ∃ (j : WorkerId) (x : Hand), id ≠ j ∧ c.hands[j]? = some x ∧ d ∈ x.owed

theorem owing_iff (hx : c.hands[id]? = some x) (d : Change) :
    c.Owing d ↔ d ∈ x.owed ∨ c.OwingElse id d := by
  constructor
  · rintro ⟨j, y, hy, hd⟩
    by_cases hj : id = j
    · subst hj
      rw [hx] at hy
      cases hy
      exact Or.inl hd
    · exact Or.inr ⟨j, y, hj, hy, hd⟩
  · rintro (hd | ⟨j, y, _, hy, hd⟩)
    · exact ⟨id, x, hx, hd⟩
    · exact ⟨j, y, hy, hd⟩

theorem owing_set (hx : c.hands[id]? = some x) (d : Change) :
    (⟨a', c.hands.set id x'⟩ : Crew).Owing d ↔ d ∈ x'.owed ∨ c.OwingElse id d := by
  constructor
  · rintro ⟨j, y, hy, hd⟩
    rw [getElem?_set hx] at hy
    by_cases hj : id = j
    · rw [if_pos hj] at hy
      cases hy
      exact Or.inl hd
    · rw [if_neg hj] at hy
      exact Or.inr ⟨j, y, hj, hy, hd⟩
  · rintro (hd | ⟨j, y, hj, hy, hd⟩)
    · exact ⟨id, x', by rw [getElem?_set hx, if_pos rfl], hd⟩
    · exact ⟨j, y, by rw [getElem?_set hx, if_neg hj, hy], hd⟩

end Crew

open Note

variable {l : Lookups} {w : Listing l} {c c' : Crew} {a' : Agent} {m : Move} {id : WorkerId}
  {x x' : Hand} {log notes : List Note}

/-- A UID that some entry of the listing has, of this kind. -/
def Listing.OfKind (w : Listing l) (kind : ResourceKind) (uid : String) : Prop :=
  ∃ e r, w.has e ∧ e.uid = uid ∧ l.Serves e r ∧ r.resourceKind = kind

/-- What the registry holds once a UID was counted out. -/
theorem Registry.Sound.holds_release_iff {registry : Registry} (hs : registry.Sound)
    (r : ApiResource) (uid : String) (kind : ResourceKind) (u : String) :
    (registry.release r.resourceKind uid).2.Holds kind u ↔
      if uid = u ∧ kind = r.resourceKind then False else registry.Holds kind u := by
  rw [Registry.holds_release hs]
  by_cases hu : uid = u ∧ kind = r.resourceKind
  · obtain ⟨rfl, rfl⟩ := hu
    simp
  · rw [if_neg hu]
    have : ¬ (kind = r.resourceKind ∧ u = uid) := fun hc => hu ⟨hc.2.symm, hc.1⟩
    tauto

/-- The log accounts for the tracker and the registry. -/
structure Tallies (w : Listing l) (a : Agent) (log : List Note) : Prop where
  lists : ∀ uid, a.tracker.Lists uid ↔ latest (said uid) log = some true
  holds : ∀ kind uid, a.registry.Holds kind uid ↔
    kind.excluded = false ∧ latest (told uid) log = some true ∧ w.OfKind kind uid

namespace Tallies

variable {a : Agent}

theorem fresh (w : Listing l) (cluster : String) (timeout : Duration)
    (limiter : Limiter ObjectKey) (manifestWorks : Table RecordKey ManifestWork) :
    Tallies w (.fresh cluster timeout limiter manifestWorks) [] where
  lists := by
    intro uid
    refine ⟨?_, fun h => by cases h⟩
    rintro ⟨work, tracked, hg, _⟩
    cases hg
  holds := fun kind uid =>
    ⟨fun h => absurd h (Registry.not_holds_empty kind uid), fun h => by cases h.2.1⟩

/-- Nothing was said or told. -/
theorem silent (h : Tallies w a log) (ht : a'.tracker = a.tracker)
    (hr : a'.registry.held = a.registry.held) (hn : ∀ n ∈ notes, n.isNews = false) :
    Tallies w a' (log ++ notes) where
  lists := by
    intro uid
    rw [latest_append, said_of_not_isNews hn, Option.none_or, ht]
    exact h.lists uid
  holds := by
    intro kind uid
    rw [latest_append, told_of_not_isNews hn, Option.none_or]
    simpa only [Registry.Holds, hr] using h.holds kind uid

/-- The tracker said what changed in one set. -/
theorem difference (h : Tallies w a log) {applied : AppliedSet} {d : AppliedSet.Difference}
    (hc : a.tracker.Changed a'.tracker applied d) (hr : a'.registry.held = a.registry.held) :
    Tallies w a' (log ++ ofChanges d) where
  lists := by
    intro uid
    rw [latest_append]
    rcases said_ofChanges hc uid with ⟨hs, hl, _⟩ | ⟨_, ⟨hs, hl⟩ | ⟨hs, hl⟩⟩
    · rw [hs, Option.none_or]
      exact hl.trans (h.lists uid)
    · rw [hs]
      exact ⟨fun _ => rfl, fun _ => hl⟩
    · rw [hs]
      exact ⟨fun hl' => absurd hl' hl, fun he => by cases he⟩
  holds := by
    intro kind uid
    rw [latest_append, told_ofChanges, Option.none_or]
    simpa only [Registry.Holds, hr] using h.holds kind uid

/-- The registry was told of one change. -/
theorem tell (h : Tallies w a log) {d : Change} {r : ApiResource} {n : Note} (he : w.has d.entry)
    (hs : l.Serves d.entry r) (ht : a'.tracker = a.tracker) (hsaid : ∀ uid, said uid n = none)
    (htold : ∀ uid, told uid n = if d.uid = uid then some d.gained else none)
    (hr : ∀ kind uid, a'.registry.Holds kind uid ↔
      if d.uid = uid ∧ kind = r.resourceKind then d.gained = true ∧ kind.excluded = false
      else a.registry.Holds kind uid) :
    Tallies w a' (log ++ [n]) where
  lists := by
    intro uid
    rw [latest_append, latest_eq_none (by simpa using hsaid uid), Option.none_or, ht]
    exact h.lists uid
  holds := by
    intro kind uid
    rw [hr, latest_append, latest_singleton, htold]
    by_cases hu : d.uid = uid
    · subst hu
      by_cases hk : kind = r.resourceKind
      · subst hk
        have hof : w.OfKind r.resourceKind d.uid := ⟨d.entry, r, he, rfl, hs, rfl⟩
        simp only [and_self, if_true, Option.some_or, Option.some.injEq]
        tauto
      · -- Another kind's entry would be served as this one is.
        have hnot : ¬ w.OfKind kind d.uid := by
          rintro ⟨e, r', he', hu, hs'', rfl⟩
          exact hk (congrArg ApiResource.resourceKind (w.serves_alike he' he hu hs'' hs))
        rw [if_neg fun hc => hk hc.2, h.holds]
        tauto
    · rw [if_neg fun hc => hu hc.1, if_neg hu, Option.none_or]
      exact h.holds kind uid

/-- What the registry holds once a UID was counted in. -/
theorem holds_acquire_iff (h : Tallies w a log) (r : ApiResource) (uid : String)
    (kind : ResourceKind) (u : String) :
    (a.registry.acquire r uid).2.Holds kind u ↔
      if uid = u ∧ kind = r.resourceKind then kind.excluded = false
      else a.registry.Holds kind u := by
  rw [Registry.holds_acquire]
  by_cases hu : uid = u ∧ kind = r.resourceKind
  · obtain ⟨rfl, rfl⟩ := hu
    have hheld : a.registry.Holds r.resourceKind uid → r.resourceKind.excluded = false :=
      fun hh => ((h.holds _ _).mp hh).1
    simp only [and_self, if_true, true_and]
    tauto
  · rw [if_neg hu]
    have : ¬ (kind = r.resourceKind ∧ u = uid ∧ r.resourceKind.excluded = false) :=
      fun hc => hu ⟨hc.2.1.symm, hc.1⟩
    tauto

theorem announced (h : Tallies w a log) (hs : a.registry.Sound) {owed owed' : List Change}
    (ha : w.Announces a a' owed owed' notes) : Tallies w a' (log ++ notes) := by
  cases ha with
  | nothing ht hr hn => exact h.silent ht hr hn
  | difference hc hr => exact h.difference hc hr
  | @acquired d r _ he hserves hg ht hr =>
      refine h.tell he hserves ht (fun _ => rfl) (fun uid => by rw [hg]; rfl) ?_
      intro kind uid
      rw [hr, h.holds_acquire_iff, hg]
      simp only [true_and]
  | @released d r _ he hserves hg ht hr =>
      refine h.tell he hserves ht (fun _ => rfl) (fun uid => by rw [hg]; rfl) ?_
      intro kind uid
      rw [hr, hs.holds_release_iff, hg]
      simp only [Bool.false_eq_true, false_and]

end Tallies

/-- The log accounts for the tracker and the registry, and what was said but not told yet is in
somebody's hand. -/
structure Heard (w : Listing l) (c : Crew) (log : List Note) : Prop where
  lists : ∀ uid, c.agent.tracker.Lists uid ↔ latest (said uid) log = some true
  holds : ∀ kind uid, c.agent.registry.Holds kind uid ↔
    kind.excluded = false ∧ latest (told uid) log = some true ∧ w.OfKind kind uid
  owed : ∀ d, c.Owing d → latest (said d.uid) log ≠ none
  told_said : ∀ uid, latest (told uid) log ≠ none → latest (said uid) log ≠ none
  said_told : ∀ uid, latest (said uid) log ≠ none →
    latest (told uid) log ≠ none ∨ ∃ d, c.Owing d ∧ d.uid = uid

/-- Every turn announces what is owed, or leaves it. -/
theorem Listing.Binds.announces (hb : w.Binds c) (hs : c.Sound) (hx : c.hands[id]? = some x)
    (t : Turned l c.agent id x x' a' notes) :
    w.Announces c.agent a' x.owed x'.owed notes := by
  have hkeep : ∀ {a' : Agent} {x' : Hand}, a'.tracker = c.agent.tracker →
      a'.registry.held = c.agent.registry.held → x'.owed = x.owed →
      w.Announces c.agent a' x.owed x'.owed [] := by
    intro a' x' ht hr ho
    rw [ho]
    exact .nothing ht hr (by simp)
  cases t with
  | waits hh =>
      refine hkeep rfl rfl ?_
      rcases hh with rfl | rfl <;> rfl
  | takes key hh =>
      refine hkeep rfl rfl ?_
      rcases hh with rfl | rfl <;> exact owed_first key
  | begins => exact hkeep rfl rfl rfl
  | answers key ha => exact Listing.announces hs.tracker (hb.fits id key _ ⟨_, hx⟩) ha
  | settles key hr =>
      obtain ⟨queue, clock, he⟩ := Agent.settle_frame c.agent key _
      rw [he]
      exact hkeep rfl rfl (owed_of_result? hr).symm
  | gone => exact hkeep rfl rfl rfl

namespace Heard

theorem start (w : Listing l) (cluster : String) (timeout : Duration)
    (limiter : Limiter ObjectKey) (manifestWorks : Table RecordKey ManifestWork) (workers : Nat) :
    Heard w (.start (.fresh cluster timeout limiter manifestWorks) workers) [] where
  lists := (Tallies.fresh w cluster timeout limiter manifestWorks).lists
  holds := (Tallies.fresh w cluster timeout limiter manifestWorks).holds
  owed := by
    rintro d ⟨j, y, hy, hd⟩
    obtain ⟨_, hy⟩ := List.getElem?_eq_some_iff.mp hy
    simp only [Crew.start, List.getElem_replicate] at hy
    subst hy
    cases hd
  told_said := fun uid h => absurd rfl h
  said_told := fun uid h => absurd rfl h

theorem tallies (h : Heard w c log) : Tallies w c.agent log := ⟨h.lists, h.holds⟩

theorem or_ne_none {α : Type} {p q : Option α} : p.or q ≠ none ↔ p ≠ none ∨ q ≠ none := by
  rw [Ne, Option.or_eq_none_iff, not_and_or]

/-- Nothing was said or told. -/
theorem silent (h : Heard w c log) (ht : c'.agent.tracker = c.agent.tracker)
    (hr : c'.agent.registry.held = c.agent.registry.held)
    (ho : ∀ d, c'.Owing d ↔ c.Owing d) (hn : ∀ n ∈ notes, n.isNews = false) :
    Heard w c' (log ++ notes) := by
  have hsaid : ∀ uid, latest (said uid) (log ++ notes) = latest (said uid) log := fun uid => by
    rw [latest_append, said_of_not_isNews hn, Option.none_or]
  have htold : ∀ uid, latest (told uid) (log ++ notes) = latest (told uid) log := fun uid => by
    rw [latest_append, told_of_not_isNews hn, Option.none_or]
  have htallies : Tallies w c'.agent (log ++ notes) := h.tallies.silent ht hr hn
  refine ⟨htallies.lists, htallies.holds, ?_, ?_, ?_⟩
  · intro d hd
    rw [hsaid]
    exact h.owed d ((ho d).mp hd)
  · intro uid
    rw [hsaid, htold]
    exact h.told_said uid
  · intro uid
    rw [hsaid, htold]
    simpa only [ho] using h.said_told uid

/-- The tracker said what changed in one set. -/
theorem difference (h : Heard w c log) (hx : c.hands[id]? = some x) {applied : AppliedSet}
    {d : AppliedSet.Difference} (hc : c.agent.tracker.Changed a'.tracker applied d)
    (hr : a'.registry.held = c.agent.registry.held) (hown : x.owed = [])
    (hown' : x'.owed = Change.ofDifference d) :
    Heard w ⟨a', c.hands.set id x'⟩ (log ++ ofChanges d) where
  lists := (h.tallies.difference hc hr).lists
  holds := (h.tallies.difference hc hr).holds
  owed := by
    intro e he
    rw [latest_append, or_ne_none]
    rcases (Crew.owing_set hx e).mp he with he | he
    · rw [hown'] at he
      refine Or.inl ?_
      rcases said_ofChanges hc e.uid with ⟨_, _, hne⟩ | ⟨_, ⟨hs, _⟩ | ⟨hs, _⟩⟩
      · exact absurd rfl (hne e he)
      · rw [hs]; exact Option.some_ne_none _
      · rw [hs]; exact Option.some_ne_none _
    · exact Or.inr (h.owed e ((Crew.owing_iff hx e).mpr (Or.inr he)))
  told_said := by
    intro uid
    rw [latest_append, told_ofChanges, Option.none_or, latest_append, or_ne_none]
    exact fun ht => Or.inr (h.told_said uid ht)
  said_told := by
    intro uid hs
    rw [latest_append (told uid), told_ofChanges, Option.none_or]
    by_cases hnew : ∃ e ∈ Change.ofDifference d, e.uid = uid
    · obtain ⟨e, he, hu⟩ := hnew
      exact Or.inr ⟨e, (Crew.owing_set hx e).mpr (Or.inl (hown' ▸ he)), hu⟩
    · rw [latest_append, or_ne_none] at hs
      rcases hs with hs | hs
      · rcases said_ofChanges hc uid with ⟨hnone, _⟩ | ⟨hsome, _⟩
        · exact absurd hnone hs
        · exact absurd hsome hnew
      · refine (h.said_told uid hs).imp_right ?_
        rintro ⟨e, he, hu⟩
        rcases (Crew.owing_iff hx e).mp he with he | he
        · rw [hown] at he
          cases he
        · exact ⟨e, (Crew.owing_set hx e).mpr (Or.inr he), hu⟩

/-- The registry was told of one change. -/
theorem tell (h : Heard w c log) (hx : c.hands[id]? = some x) {d : Change} {r : ApiResource}
    {n : Note} (he : w.has d.entry) (hs : l.Serves d.entry r)
    (ht : a'.tracker = c.agent.tracker) (hown : x.owed = d :: x'.owed)
    (hsaid : ∀ uid, said uid n = none)
    (htold : ∀ uid, told uid n = if d.uid = uid then some d.gained else none)
    (hr : ∀ kind uid, a'.registry.Holds kind uid ↔
      if d.uid = uid ∧ kind = r.resourceKind then d.gained = true ∧ kind.excluded = false
      else c.agent.registry.Holds kind uid) :
    Heard w ⟨a', c.hands.set id x'⟩ (log ++ [n]) := by
  have hs' : ∀ uid, latest (said uid) (log ++ [n]) = latest (said uid) log := fun uid => by
    rw [latest_append, latest_eq_none (by simpa using hsaid uid), Option.none_or]
  have ht' : ∀ uid, latest (told uid) (log ++ [n]) =
      if d.uid = uid then some d.gained else latest (told uid) log := by
    intro uid
    rw [latest_append]
    by_cases hu : d.uid = uid <;> simp [latest, htold uid, hu]
  have howing : c.Owing d := (Crew.owing_iff hx d).mpr (Or.inl (hown ▸ List.mem_cons_self))
  have htallies := h.tallies.tell he hs ht hsaid htold hr
  refine ⟨htallies.lists, htallies.holds, ?_, ?_, ?_⟩
  · intro e he'
    rw [hs']
    refine h.owed e ((Crew.owing_iff hx e).mpr (((Crew.owing_set hx e).mp he').imp_left ?_))
    exact fun hm => hown ▸ List.mem_cons_of_mem _ hm
  · intro uid hne
    rw [hs']
    rw [ht'] at hne
    by_cases hu : d.uid = uid
    · exact hu ▸ h.owed d howing
    · rw [if_neg hu] at hne
      exact h.told_said uid hne
  · intro uid hne
    rw [hs'] at hne
    rw [ht']
    by_cases hu : d.uid = uid
    · rw [if_pos hu]
      exact Or.inl (Option.some_ne_none _)
    · rw [if_neg hu]
      refine (h.said_told uid hne).imp_right ?_
      rintro ⟨e, he', heu⟩
      refine ⟨e, (Crew.owing_set hx e).mpr (((Crew.owing_iff hx e).mp he').imp_left ?_), heu⟩
      intro hm
      rw [hown] at hm
      rcases List.mem_cons.mp hm with rfl | hm
      · exact absurd heu hu
      · exact hm

theorem announced (h : Heard w c log) (hx : c.hands[id]? = some x)
    (hs : c.agent.registry.Sound) {owed owed' : List Change}
    (ha : w.Announces c.agent a' owed owed' notes) (hown : x.owed = owed)
    (hown' : x'.owed = owed') : Heard w ⟨a', c.hands.set id x'⟩ (log ++ notes) := by
  cases ha with
  | nothing ht hr hn =>
      refine h.silent ht hr (fun d => ?_) hn
      rw [Crew.owing_set hx, Crew.owing_iff hx, hown, hown']
  | difference hc hr => exact h.difference hx hc hr hown hown'
  | @acquired d r _ he hserves hg ht hr =>
      refine h.tell hx he hserves ht (hown'.symm ▸ hown) (fun _ => rfl) (fun uid => by rw [hg]; rfl)
        ?_
      intro kind uid
      rw [hr, h.tallies.holds_acquire_iff, hg]
      simp only [true_and]
  | @released d r _ he hserves hg ht hr =>
      refine h.tell hx he hserves ht (hown'.symm ▸ hown) (fun _ => rfl) (fun uid => by rw [hg]; rfl)
        ?_
      intro kind uid
      rw [hr, hs.holds_release_iff, hg]
      simp only [Bool.false_eq_true, false_and]

theorem turn (h : Heard w c log) (hs : c.Sound) (hb : w.Binds c)
    (hx : c.hands[id]? = some x) (t : Turned l c.agent id x x' a' notes) :
    Heard w ⟨a', c.hands.set id x'⟩ (log ++ notes) :=
  h.announced hx hs.registry (hb.announces hs hx t) rfl rfl

theorem step (h : Heard w c log) (hs : c.Sound) (hb : w.Binds c)
    (s : Crew.Step l c m c' notes) : Heard w c' (log ++ notes) := by
  cases s with
  | turn id hx t => exact h.turn hs hb hx t
  | work | object =>
      refine h.silent rfl rfl (fun _ => Iff.rfl) ?_
      intro n hn
      obtain ⟨k, _, rfl⟩ := List.mem_map.mp hn
      rfl
  | fire | mood | pass | still => exact h.silent rfl rfl (fun _ => Iff.rfl) (by simp)

end Heard

/-! ## When everybody is done -/

/-- The tracked UIDs of a kind are the listed ones that some entry says to be of it. -/
theorem Listing.Admits.tracks_iff {a : Agent} (hw : w.Admits a) (kind : ResourceKind)
    (uid : String) :
    a.tracker.Tracks l kind uid ↔ a.tracker.Lists uid ∧ w.OfKind kind uid := by
  constructor
  · rintro ⟨e, r, hs, rfl, hr, hk⟩
    exact ⟨hs.lists, e, r, hw.stores e hs, rfl, hr, hk⟩
  · rintro ⟨hl, e, r, he, hu, hr, hk⟩
    obtain ⟨e', hs', hu'⟩ := (Tracker.lists_iff a.tracker uid).mp hl
    obtain ⟨r', hr'⟩ := w.resolves e' (hw.stores e' hs')
    have heq : r' = r := w.serves_alike (hw.stores e' hs') he (hu'.trans hu.symm) hr' hr
    subst heq
    exact ⟨e', r', hs', hu', hr', hk⟩

/-- Who holds a kind is who is tracked if and only if the registry was told last to count in the
UIDs that the tracker listed last. -/
theorem Tallies.exact_iff {a : Agent} (h : Tallies w a log) (hw : w.Admits a) :
    (∀ kind uid, kind.excluded = false →
      (a.registry.Holds kind uid ↔ a.tracker.Tracks l kind uid)) ↔
    ∀ e r, w.has e → l.Serves e r → r.resourceKind.excluded = false →
      (latest (told e.uid) log = some true ↔ latest (said e.uid) log = some true) := by
  constructor
  · intro hexact e r he hr hx
    have hof : w.OfKind r.resourceKind e.uid := ⟨e, r, he, rfl, hr, rfl⟩
    have hiff := hexact r.resourceKind e.uid hx
    rw [h.holds, hw.tracks_iff, h.lists] at hiff
    tauto
  · intro hlast kind uid hx
    rw [h.holds, hw.tracks_iff, h.lists]
    constructor
    · rintro ⟨_, ht, hof⟩
      obtain ⟨e, r, he, rfl, hr, rfl⟩ := hof
      exact ⟨(hlast e r he hr hx).mp ht, e, r, he, rfl, hr, rfl⟩
    · rintro ⟨hs, hof⟩
      obtain ⟨e, r, he, rfl, hr, rfl⟩ := hof
      exact ⟨hx, (hlast e r he hr hx).mpr hs, e, r, he, rfl, hr, rfl⟩

/-- With nothing left to tell, a UID was spoken of to the registry if the tracker spoke of it. -/
theorem Heard.told_iff (h : Heard w c log) (hnone : ∀ d, ¬ c.Owing d) (uid : String) :
    latest (told uid) log = none ↔ latest (said uid) log = none := by
  constructor
  · intro ht
    by_contra hs
    rcases h.said_told uid hs with hne | ⟨d, hd, _⟩
    · exact hne ht
    · exact hnone d hd
  · intro hs
    by_contra ht
    exact h.told_said uid ht hs

theorem Heard.exact_iff (h : Heard w c log) (hb : w.Binds c) (hnone : ∀ d, ¬ c.Owing d) :
    (∀ kind uid, kind.excluded = false →
      (c.agent.registry.Holds kind uid ↔ c.agent.tracker.Tracks l kind uid)) ↔
    ∀ e r, w.has e → l.Serves e r → r.resourceKind.excluded = false →
      latest (told e.uid) log = latest (said e.uid) log := by
  -- What was spoken of was spoken of by both, so agreeing on what is in is agreeing altogether.
  have hsame : ∀ uid, (latest (told uid) log = some true ↔ latest (said uid) log = some true) ↔
      latest (told uid) log = latest (said uid) log := by
    intro uid
    have hsome := h.told_iff hnone uid
    cases ht : latest (told uid) log with
    | none => simp [hsome.mp ht]
    | some b =>
        cases hs : latest (said uid) log with
        | none =>
            rw [hsome.mpr hs] at ht
            cases ht
        | some b' => cases b <;> cases b' <;> simp
  rw [h.tallies.exact_iff hb.admits]
  simp only [hsame]

theorem Crew.not_owing_of_free (h : ∀ x ∈ c.floor.workers, x.key? = none) (d : Change) :
    ¬ c.Owing d := by
  rintro ⟨j, y, hy, hd⟩
  have hmem : y.worker c.agent.cluster ∈ c.floor.workers :=
    List.mem_map_of_mem (List.mem_of_getElem? hy)
  cases y with
  | busy key stage p =>
      have hk := h _ hmem
      rw [Hand.key?_worker_busy] at hk
      cases hk
  | free | idle | gone => exact List.not_mem_nil hd

/-- When several workers are done with all that they began, a kind is held by the tracked UIDs that
resolve to it if and only if, for every UID of a kind that is not excluded, the registry was told
last what the tracker said last. -/
theorem holders_exact_iff_told_in_order (w : Listing l) (cluster : String) (timeout : Duration)
    (limiter : Limiter ObjectKey) (manifestWorks : Table RecordKey ManifestWork) (workers : Nat)
    (moves : List Move) (hm : ∀ m ∈ moves, w.Permits m) :
    let start := Floor.start (.fresh cluster timeout limiter manifestWorks) workers
    let log := start.log l moves
    let a := (start.run l moves).agent
    (∀ x ∈ (start.run l moves).workers, x.key? = none) →
    (∀ kind, a.registry.Runs kind ↔ ∃ uid, a.registry.Holds kind uid) ∧
    ((∀ kind uid, kind.excluded = false →
      (a.registry.Holds kind uid ↔ a.tracker.Tracks l kind uid)) ↔
    ∀ e r, w.has e → l.Serves e r → r.resourceKind.excluded = false →
      latest (told e.uid) log = latest (said e.uid) log) := by
  intro start log a hfree
  obtain ⟨c, hrun, hsound, hbinds, hheard⟩ :=
    Crew.run_start (I := fun c log => c.Sound ∧ w.Binds c ∧ Heard w c log)
      (fun c log h => ⟨h.1.queue, h.1.registry⟩)
      (fun c log m c' notes h hm s =>
        ⟨h.1.step s, h.2.1.step h.1 hm s, h.2.2.step h.1 h.2.1 s⟩)
      moves (.fresh cluster timeout limiter manifestWorks) workers
      ⟨Crew.sound_start .., w.binds_start .., Heard.start ..⟩
      (Floor.along_of_forall (p := fun _ m => w.Permits m) fun m h _ => hm m h)
  have ha : a = c.agent := congrArg Floor.agent hrun
  rw [hrun] at hfree
  rw [ha]
  exact ⟨hsound.registry.runs_iff, hheard.exact_iff hbinds (Crew.not_owing_of_free hfree)⟩

namespace Widgets

def turns (id : WorkerId) (count : Nat) : List Move := List.replicate count (.turn id)

/-- One record goes while another that lists the same widget comes, the second worker taking this
many turns before the first one tells the registry that the first record is gone. -/
def overtaking (early : Nat) : List Move :=
  [.work (.apply (work "a"))] ++ turns 0 10 ++
  [.work (.delete (work "a")), .work (.apply (work "b"))] ++ turns 0 3 ++ turns 1 early ++
  turns 0 4 ++ turns 1 16

theorem permits_overtaking (early : Nat) : ∀ m ∈ overtaking early, listing.Permits m := by
  intro m hm
  simp only [overtaking, turns, List.mem_append, List.mem_cons, List.mem_replicate,
    List.not_mem_nil, or_false] at hm
  rcases hm with (((((rfl | ⟨_, rfl⟩) | rfl | rfl) | ⟨_, rfl⟩) | ⟨_, rfl⟩) | ⟨_, rfl⟩) | ⟨_, rfl⟩
  · intro o he
    cases he
    exact accepts_work "a"
  · trivial
  · intro o he
    cases he
  · intro o he
    cases he
    exact accepts_work "b"
  · trivial
  · trivial
  · trivial
  · trivial

/-- In the order in which the tracker spoke, the counts come out right. -/
theorem holders_exact_overtaking_nothing :
    (∀ m ∈ overtaking 0, listing.Permits m) ∧
      (∀ x ∈ ((Floor.start agent 2).run lookups (overtaking 0)).workers, x.key? = none) ∧
      ∀ kind uid, kind.excluded = false →
        (((Floor.start agent 2).run lookups (overtaking 0)).agent.registry.Holds kind uid ↔
          ((Floor.start agent 2).run lookups (overtaking 0)).agent.tracker.Tracks lookups kind
            uid) := by
  have hfree : ∀ x ∈ ((Floor.start agent 2).run lookups (overtaking 0)).workers,
      x.key? = none := by
    decide +kernel
  refine ⟨permits_overtaking 0, hfree, ?_⟩
  refine (holders_exact_iff_told_in_order listing "cluster1" (.ofSeconds 5)
    (.exponential (.ofMillis 5) (.ofSeconds 1000) {}) {} 2 (overtaking 0) (permits_overtaking 0)
    hfree).2.mpr ?_
  rintro e r rfl _ _
  decide +kernel

/-- Seven turns are enough to overtake the worker that gives the widget up: then the widget is
listed, but nobody holds its kind and no watch of it runs. -/
theorem holders_lost_overtaking :
    (∀ m ∈ overtaking 7, listing.Permits m) ∧
      (∀ x ∈ ((Floor.start agent 2).run lookups (overtaking 7)).workers, x.key? = none) ∧
      resource.resourceKind.excluded = false ∧
      ((Floor.start agent 2).run lookups (overtaking 7)).agent.tracker.Tracks lookups
        resource.resourceKind "u" ∧
      ¬ ((Floor.start agent 2).run lookups (overtaking 7)).agent.registry.Holds
        resource.resourceKind "u" ∧
      ((Floor.start agent 2).run lookups (overtaking 7)).agent.registry.isActive
        resource.resourceKind = false := by
  refine ⟨permits_overtaking 7, by decide +kernel, by decide +kernel, ?_, ?_, by decide +kernel⟩
  · exact ⟨entry, resource, ⟨"b", ⟨"b", ⟨[entry]⟩⟩, by decide +kernel, List.mem_singleton.mpr rfl⟩,
      rfl, rfl, rfl⟩
  · rintro ⟨held, hg, _⟩
    have hnone : ((Floor.start agent 2).run lookups (overtaking 7)).agent.registry.held.get?
        resource.resourceKind = none := by
      decide +kernel
    rw [hnone] at hg
    cases hg

end Widgets
end StatusRelay
