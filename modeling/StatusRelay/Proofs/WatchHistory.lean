import Mathlib.Data.List.Induction
import StatusRelay.Proofs.Desk
import StatusRelay.Proofs.Holders
import StatusRelay.Proofs.Relisting

/-!
# Watches over time

A registry is asked to count UIDs in and out and to stop everything, in any order, and its watches
take in events meanwhile. What was last asked about a UID since everything was stopped decides
whether the UID holds the kind. The first holder starts a watch and the last one to go stops it. So
of all watches ever started for a kind one runs while the kind is held and none otherwise, it is the
one that was started last, and no other cache can be looked at.
-/
namespace StatusRelay

/-- What a registry is asked, and what its watches see. -/
inductive RegistryCall where
  | acquire (resource : ApiResource) (uid : String)
  | release (kind : ResourceKind) (uid : String)
  | shutdown
  /-- One of the watches ever started takes in an event. -/
  | event (watch : Nat) (e : WatchEvent)

namespace RegistryCall

/-- The call counts the UID in. -/
def Acquires (kind : ResourceKind) (uid : String) : RegistryCall → Prop
  | acquire resource u => resource.resourceKind = kind ∧ u = uid
  | release _ _ | shutdown | event _ _ => False

/-- The call counts the UID out, alone or with all others. -/
def Drops (kind : ResourceKind) (uid : String) : RegistryCall → Prop
  | release k u => k = kind ∧ u = uid
  | shutdown => True
  | acquire _ _ | event _ _ => False

end RegistryCall

namespace Registry

variable {r r' : Registry} {kind : ResourceKind} {resource : ApiResource} {uid : String}

def feed (r : Registry) (n : Nat) (e : WatchEvent) : Registry :=
  match r.watch? n with
  | none => r
  | some w =>
      match w.ingest.handle? e with
      | none => r
      | some (ingest, _) => r.setIngest n ingest

def perform (r : Registry) : RegistryCall → Registry
  | .acquire resource uid => (r.acquire resource uid).2
  | .release kind uid => (r.release kind uid).2
  | .shutdown => r.shutdown
  | .event n e => r.feed n e

def run : Registry → List RegistryCall → Registry := List.foldl perform

/-- The number of watches of a kind that were stopped. -/
def stopsOf (r : Registry) (kind : ResourceKind) : Nat :=
  r.started.countP fun w => decide (w.kind = kind) && w.stopped

/-- The number of watches of a kind that run. -/
def runsOf (r : Registry) (kind : ResourceKind) : Nat :=
  r.started.countP fun w => decide (w.kind = kind) && !w.stopped

theorem startsOf_eq (r : Registry) (kind : ResourceKind) :
    r.startsOf kind = r.stopsOf kind + r.runsOf kind := by
  unfold startsOf stopsOf runsOf
  induction r.started with
  | nil => rfl
  | cons w rest ih =>
      simp only [List.countP_cons, ih]
      by_cases hk : w.kind = kind
      · cases w.stopped <;> simp [hk] <;> omega
      · simp [hk]

/-! ## Stopping and feeding -/

theorem getElem?_setIngest (r : Registry) (n m : Nat) (i : Ingest) :
    (r.setIngest n i).started[m]? =
      r.started[m]?.map fun w => if n = m then { w with ingest := i } else w := by
  simp only [setIngest, List.getElem?_modify, Option.map_eq_map]

theorem getElem?_stopWatch (r : Registry) (n m : Nat) :
    (r.stopWatch n).started[m]? =
      r.started[m]?.map fun w => if n = m then w.stop else w := by
  simp only [stopWatch, List.getElem?_modify, Option.map_eq_map]

theorem getElem?_stopAll (holdings : List Holding) (r : Registry) (m : Nat) :
    (holdings.foldl (fun r h => r.stopWatch h.watch) r).started[m]? =
      r.started[m]?.map fun w => if ∃ h ∈ holdings, h.watch = m then w.stop else w := by
  induction holdings generalizing r with
  | nil => simp
  | cons h rest ih =>
      rw [List.foldl_cons, ih, getElem?_stopWatch, Option.map_map]
      congr 1
      funext w
      by_cases hm : h.watch = m
      · by_cases hr : ∃ g ∈ rest, g.watch = m <;> simp [hm, hr, Watch.stop]
      · simp [hm]

theorem held_stopAll (holdings : List Holding) (r : Registry) :
    (holdings.foldl (fun r h => r.stopWatch h.watch) r).held = r.held := by
  induction holdings generalizing r with
  | nil => rfl
  | cons h rest ih => exact ih _

theorem held_shutdown (r : Registry) : r.shutdown.held = {} := held_stopAll _ _

/-- Every watch that runs is the watch of a held kind, so nothing runs after a shutdown. -/
theorem Sound.stopped_shutdown (h : r.Sound) {n : Nat} {w : Watch}
    (hn : r.shutdown.started[n]? = some w) :
    w.stopped = true ∧ ∃ v, r.started[n]? = some v ∧ w.kind = v.kind ∧ w.ingest = v.ingest := by
  have hn' := (getElem?_stopAll r.held.values { r with held := {} } n).symm.trans hn
  obtain ⟨v, hv, rfl⟩ := Option.map_eq_some_iff.mp hn'
  have hv' : r.started[n]? = some v := hv
  split
  · exact ⟨rfl, v, hv', rfl, rfl⟩
  · rename_i hnone
    refine ⟨?_, v, hv', rfl, rfl⟩
    by_contra hrun
    obtain ⟨held, hg, hw⟩ := h.running n v hv' (Bool.eq_false_iff.mpr hrun)
    exact hnone ⟨held, List.mem_map_of_mem (f := Prod.snd) (Table.mem_of_find?_eq_some hg), hw⟩

theorem Sound.shutdown (h : r.Sound) : r.shutdown.Sound where
  held := by
    intro kind g hg
    rw [held_shutdown] at hg
    cases hg
  watched := by
    intro kind g hg
    rw [held_shutdown] at hg
    cases hg
  running := by
    intro n w hn hs
    rw [(h.stopped_shutdown hn).1] at hs
    cases hs
  intakes := by
    intro n w hn
    obtain ⟨_, v, hv, hk, hi⟩ := h.stopped_shutdown hn
    rw [hi, hk]
    exact h.intakes n v hv

theorem feed_cases (r : Registry) (n : Nat) (e : WatchEvent) :
    r.feed n e = r ∨ ∃ w i, r.started[n]? = some w ∧ i.kind = w.ingest.kind ∧
      r.feed n e = r.setIngest n i := by
  unfold feed watch?
  split
  · exact Or.inl rfl
  · rename_i w hw
    split
    · exact Or.inl rfl
    · rename_i i keys hi
      exact Or.inr ⟨w, i, hw, Ingest.kind_handle? hi, rfl⟩

theorem held_feed (r : Registry) (n : Nat) (e : WatchEvent) : (r.feed n e).held = r.held := by
  rcases feed_cases r n e with he | ⟨w, i, _, _, he⟩ <;> rw [he]
  rfl

theorem Sound.feed (h : r.Sound) (n : Nat) (e : WatchEvent) : (r.feed n e).Sound := by
  rcases feed_cases r n e with he | ⟨w, i, hw, hi, he⟩
  · rw [he]
    exact h
  rw [he]
  refine ⟨h.held, ?_, ?_, ?_⟩
  · intro kind g hg
    obtain ⟨v, hv, hrest⟩ := h.watched kind g hg
    rw [getElem?_setIngest, hv]
    refine ⟨_, rfl, ?_⟩
    split <;> exact hrest
  · intro m v hv hs
    rw [getElem?_setIngest] at hv
    obtain ⟨u, hu, rfl⟩ := Option.map_eq_some_iff.mp hv
    by_cases hm : n = m
    · rw [if_pos hm] at hs ⊢
      exact h.running m u hu hs
    · rw [if_neg hm] at hs ⊢
      exact h.running m u hu hs
  · intro m v hv
    rw [getElem?_setIngest] at hv
    obtain ⟨u, hu, rfl⟩ := Option.map_eq_some_iff.mp hv
    by_cases hm : n = m
    · have huw : u = w := by
        rw [← hm, hw, Option.some.injEq] at hu
        exact hu.symm
      rw [if_pos hm]
      exact hi.trans (huw ▸ h.intakes m u hu)
    · rw [if_neg hm]
      exact h.intakes m u hu

theorem Sound.perform (h : r.Sound) (c : RegistryCall) : (r.perform c).Sound := by
  cases c with
  | acquire resource uid => exact h.acquire resource uid
  | release kind uid => exact h.release kind uid
  | shutdown => exact h.shutdown
  | event n e => exact h.feed n e

theorem Sound.run (h : r.Sound) (calls : List RegistryCall) : (r.run calls).Sound := by
  induction calls generalizing r with
  | nil => exact h
  | cons c rest ih => exact ih (h.perform c)

/-! ## Who holds a kind -/

theorem holds_congr (h : r'.held = r.held) (kind : ResourceKind) (uid : String) :
    r'.Holds kind uid ↔ r.Holds kind uid := by
  rw [Holds, Holds, h]

/-- One call: it counts the UID in, or leaves it as it was, or counts it out. -/
theorem holds_perform (h : r.Sound) (c : RegistryCall) (kind : ResourceKind) (uid : String) :
    (r.perform c).Holds kind uid ↔
      kind.excluded = false ∧ c.Acquires kind uid ∨ ¬ c.Drops kind uid ∧ r.Holds kind uid := by
  cases c with
  | acquire resource u =>
      have hacquire := holds_acquire r resource u kind uid
      rw [perform, hacquire]
      simp only [RegistryCall.Acquires, RegistryCall.Drops, not_false_eq_true, true_and]
      constructor
      · rintro (hh | ⟨rfl, rfl, hx⟩)
        · exact Or.inr hh
        · exact Or.inl ⟨hx, rfl, rfl⟩
      · rintro (⟨hx, rfl, rfl⟩ | hh)
        · exact Or.inr ⟨rfl, rfl, hx⟩
        · exact Or.inl hh
  | release k u =>
      rw [perform, holds_release h k u kind uid]
      simp only [RegistryCall.Acquires, RegistryCall.Drops, and_false, false_or]
      constructor
      · rintro ⟨hh, hne⟩
        exact ⟨fun hd => hne ⟨hd.1.symm, hd.2.symm⟩, hh⟩
      · rintro ⟨hne, hh⟩
        exact ⟨hh, fun hd => hne ⟨hd.1.symm, hd.2.symm⟩⟩
  | shutdown =>
      have hnone : ¬ r.shutdown.Holds kind uid := by
        rw [holds_congr (r := {}) (held_shutdown r)]
        exact not_holds_empty kind uid
      simp [perform, hnone, RegistryCall.Acquires, RegistryCall.Drops]
  | event n e =>
      rw [perform, holds_congr (held_feed r n e)]
      simp [RegistryCall.Acquires, RegistryCall.Drops]

/-- Who holds a kind after some calls: the UIDs counted in by one of them and not out again, and
those that held it before and were not counted out. -/
theorem holds_run (h : r.Sound) (calls : List RegistryCall) (kind : ResourceKind) (uid : String) :
    (r.run calls).Holds kind uid ↔
      kind.excluded = false ∧
          Since (RegistryCall.Acquires kind uid) (RegistryCall.Drops kind uid) calls ∨
        r.Holds kind uid ∧ ∀ c ∈ calls, ¬ c.Drops kind uid := by
  induction calls using List.reverseRecOn with
  | nil =>
      have hnone : ¬ Since (RegistryCall.Acquires kind uid) (RegistryCall.Drops kind uid) [] := by
        rintro ⟨before, n, after, he, -⟩
        simp at he
      simp [run, hnone]
  | append_singleton calls c ih =>
      rw [run, List.foldl_concat]
      change ((r.run calls).perform c).Holds kind uid ↔ _
      rw [holds_perform (h.run calls), ih, since_concat]
      simp only [List.mem_append, List.mem_singleton, or_imp, forall_and, forall_eq]
      tauto

/-! ## Which watch runs -/

/-- A watch that runs is the last one of its kind, and no kind is watched that is excluded. -/
structure Lined (r : Registry) : Prop where
  newest : ∀ (n : Nat) w, r.started[n]? = some w → w.stopped = false →
    ∀ (m : Nat) v, r.started[m]? = some v → v.kind = w.kind → m ≤ n
  allowed : ∀ (n : Nat) w, r.started[n]? = some w → w.kind.excluded = false

theorem lined_empty : ({} : Registry).Lined where
  newest := by intro n w hn; simp at hn
  allowed := by intro n w hn; simp at hn

/-- No watch is started, and none runs again. -/
def Ages (r r' : Registry) : Prop :=
  ∀ (n : Nat) w', r'.started[n]? = some w' → ∃ w, r.started[n]? = some w ∧
    w.kind = w'.kind ∧ (w'.stopped = false → w.stopped = false)

theorem ages_of_started_eq (h : r'.started = r.started) : r.Ages r' := by
  intro n w hw
  rw [h] at hw
  exact ⟨w, hw, rfl, id⟩

theorem Lined.ages (h : r.Lined) (ha : r.Ages r') : r'.Lined where
  newest := by
    intro n w' hw' hs m v' hv' hk
    obtain ⟨w, hw, hkw, hrun⟩ := ha n w' hw'
    obtain ⟨v, hv, hkv, _⟩ := ha m v' hv'
    exact h.newest n w hw (hrun hs) m v hv (hkv.trans (hk.trans hkw.symm))
  allowed := by
    intro n w' hw'
    obtain ⟨w, hw, hk, _⟩ := ha n w' hw'
    rw [← hk]
    exact h.allowed n w hw

theorem ages_stopWatch (r : Registry) (n : Nat) (held : Table ResourceKind Holding) :
    r.Ages (({ r with held := held } : Registry).stopWatch n) := by
  intro m w' hw'
  rw [getElem?_stopWatch] at hw'
  obtain ⟨w, hw, rfl⟩ := Option.map_eq_some_iff.mp hw'
  refine ⟨w, hw, ?_⟩
  split
  · exact ⟨rfl, fun hs => by cases hs⟩
  · exact ⟨rfl, id⟩

theorem ages_release (r : Registry) (kind : ResourceKind) (uid : String) :
    r.Ages (r.release kind uid).2 := by
  rcases release_cases r kind uid with hn | ⟨held, hg, hu | ⟨hu, hr⟩⟩
  · rw [release_of_not_holds hn]
    exact ages_of_started_eq rfl
  · rw [release_of_last hg hu]
    exact ages_stopWatch r held.watch _
  · rw [release_of_others hg hu hr]
    exact ages_of_started_eq rfl

theorem ages_feed (r : Registry) (n : Nat) (e : WatchEvent) : r.Ages (r.feed n e) := by
  rcases feed_cases r n e with he | ⟨w, i, _, _, he⟩
  · rw [he]
    exact ages_of_started_eq rfl
  rw [he]
  intro m v' hv'
  rw [getElem?_setIngest] at hv'
  obtain ⟨v, hv, rfl⟩ := Option.map_eq_some_iff.mp hv'
  refine ⟨v, hv, ?_⟩
  split <;> exact ⟨rfl, id⟩

/-- A watch is started for a kind that nobody holds, so no watch of the kind runs. -/
theorem Lined.open (h : r.Lined) (hr : r.Sound) (hx : resource.resourceKind.excluded = false)
    (hg : r.held.get? resource.resourceKind = none) (held : Table ResourceKind Holding) :
    ({ r with held := held, started := r.started ++ [.start resource] } : Registry).Lined where
  newest := by
    intro n w hn hs m v hm hk
    rcases getElem?_append_singleton hn with hn | ⟨rfl, rfl⟩
    · rcases getElem?_append_singleton hm with hm | ⟨rfl, rfl⟩
      · exact h.newest n w hn hs m v hm hk
      · obtain ⟨g, hheld, _⟩ := hr.running n w hn hs
        have hkind : w.kind = resource.resourceKind := hk.symm
        rw [hkind, hg] at hheld
        cases hheld
    · have hlt := (List.getElem?_eq_some_iff.mp hm).1
      rw [List.length_append, List.length_singleton] at hlt
      exact Nat.le_of_lt_succ hlt
  allowed := by
    intro n w hn
    rcases getElem?_append_singleton hn with hn | ⟨rfl, rfl⟩
    · exact h.allowed n w hn
    · exact hx

theorem Lined.acquire (h : r.Lined) (hr : r.Sound) (resource : ApiResource) (uid : String) :
    (r.acquire resource uid).2.Lined := by
  rcases acquire_cases r resource with hx | ⟨hx, ⟨held, hg⟩ | hg⟩
  · rw [acquire_of_excluded hx]
    exact h
  · rw [acquire_of_held hx hg]
    exact h.ages (ages_of_started_eq rfl)
  · rw [acquire_of_free hx hg]
    exact h.open hr hx hg _

theorem Lined.perform (h : r.Lined) (hr : r.Sound) (c : RegistryCall) : (r.perform c).Lined := by
  cases c with
  | acquire resource uid => exact h.acquire hr resource uid
  | release kind uid => exact h.ages (ages_release r kind uid)
  | shutdown =>
      refine h.ages ?_
      intro n w hn
      obtain ⟨hs, v, hv, hk, _⟩ := hr.stopped_shutdown hn
      exact ⟨v, hv, hk.symm, fun hrun => by rw [hs] at hrun; cases hrun⟩
  | event n e => exact h.ages (ages_feed r n e)

theorem Lined.run (h : r.Lined) (hr : r.Sound) (calls : List RegistryCall) :
    (r.run calls).Lined := by
  induction calls generalizing r with
  | nil => exact h
  | cons c rest ih => exact ih (h.perform hr c) (hr.perform c)

theorem latest?_eq_some {n : Nat} {w : Watch} (hn : r.started[n]? = some w) (hk : w.kind = kind)
    (hlast : ∀ (m : Nat) v, r.started[m]? = some v → v.kind = kind → m ≤ n) :
    r.latest? kind = some n := by
  have hlt := (List.getElem?_eq_some_iff.mp hn).1
  rw [latest?, List.find?_eq_some_iff_getElem]
  refine ⟨by simp [hn, hk], r.started.length - 1 - n, by simp; omega, by simp; omega, ?_⟩
  intro j hj
  have hlater : r.started.length - 1 - j < r.started.length := by omega
  obtain ⟨v, hv⟩ : ∃ v, r.started[r.started.length - 1 - j]? = some v :=
    ⟨_, List.getElem?_eq_getElem hlater⟩
  have hne : v.kind ≠ kind := by
    intro hkind
    have hle := hlast _ v hv hkind
    omega
  simp [hv, hne]

/-- A list in which one place alone has a property counts one. -/
theorem countP_eq_one {β : Type} {p : β → Bool} {l : List β} {n : Nat} {b : β}
    (hb : l[n]? = some b) (hp : p b = true)
    (hu : ∀ (m : Nat) c, l[m]? = some c → p c = true → m = n) : l.countP p = 1 := by
  induction l generalizing n with
  | nil => simp at hb
  | cons a rest ih =>
      cases n with
      | zero =>
          have hab : a = b := by simpa using hb
          have hrest : rest.countP p = 0 := by
            rw [List.countP_eq_zero]
            intro c hc hpc
            obtain ⟨m, hm⟩ := List.getElem?_of_mem hc
            have := hu (m + 1) c hm hpc
            omega
          rw [List.countP_cons, hrest, hab, if_pos hp]
      | succ n =>
          have ha : ¬ p a = true := by
            intro ha
            have := hu 0 a rfl ha
            omega
          rw [List.countP_cons_of_neg ha]
          apply ih hb
          intro m c hc hpc
          have := hu (m + 1) c hc hpc
          omega

theorem Lined.runsOf_eq (h : r.Lined) (hr : r.Sound) (kind : ResourceKind) :
    r.runsOf kind = if r.isActive kind then 1 else 0 := by
  cases hg : r.held.get? kind with
  | some held =>
      obtain ⟨w, hw, hk, hs⟩ := hr.watched kind held hg
      have hactive : r.isActive kind = true := by simp [isActive, hg]
      rw [hactive, if_pos rfl]
      refine countP_eq_one hw (by simp [hk, hs]) ?_
      intro m v hv hp
      simp only [Bool.and_eq_true, decide_eq_true_eq, Bool.not_eq_true'] at hp
      have hle := h.newest _ w hw hs m v hv (hp.1.trans hk.symm)
      have hge := h.newest m v hv hp.2 _ w hw (hk.trans hp.1.symm)
      exact Nat.le_antisymm hle hge
  | none =>
      have hactive : r.isActive kind = false := by simp [isActive, hg]
      rw [hactive, if_neg Bool.false_ne_true, runsOf, List.countP_eq_zero]
      intro w hw hp
      simp only [Bool.and_eq_true, decide_eq_true_eq, Bool.not_eq_true'] at hp
      obtain ⟨n, hn⟩ := List.getElem?_of_mem hw
      obtain ⟨held, hheld, _⟩ := hr.running n w hn hp.2
      rw [hp.1, hg] at hheld
      cases hheld

/-! ## What the calls report -/

/-- A watch of the kind is started after all others. -/
def Starts (r r' : Registry) (kind : ResourceKind) : Prop :=
  ∃ w : Watch, w.kind = kind ∧ w.stopped = false ∧ r'.started = r.started ++ [w]

/-- A watch of the kind that runs is stopped. -/
def Stops (r r' : Registry) (kind : ResourceKind) : Prop :=
  ∃ n w, r.watch? n = some w ∧ w.kind = kind ∧ w.stopped = false ∧
    r'.started = r.started.modify n Watch.stop

theorem Starts.ne (h : r.Starts r' kind) : r'.started ≠ r.started := by
  obtain ⟨w, _, _, he⟩ := h
  rw [he]
  simp

theorem Stops.ne (h : r.Stops r' kind) : r'.started ≠ r.started := by
  obtain ⟨n, w, hw, _, hs, he⟩ := h
  intro hsame
  have hw' : r.started[n]? = some w := hw
  have hmod : r.started[n]? = some w.stop := by
    rw [← hsame, he, List.getElem?_modify, hw']
    simp
  rw [hw', Option.some.injEq] at hmod
  rw [hmod] at hs
  cases hs

theorem acquire_starts (r : Registry) (resource : ApiResource) (uid : String) :
    ((r.acquire resource uid).1 = true ↔
      r.Starts (r.acquire resource uid).2 resource.resourceKind) ∧
    ((r.acquire resource uid).1 = false ↔ (r.acquire resource uid).2.started = r.started) := by
  have hsame : ∀ r' : Registry, r'.started = r.started →
      (false = true ↔ r.Starts r' resource.resourceKind) ∧
        (false = false ↔ r'.started = r.started) := by
    intro r' he
    exact ⟨⟨fun hf => (by cases hf), fun hs => absurd he hs.ne⟩, fun _ => he, fun _ => rfl⟩
  rcases acquire_cases r resource with hx | ⟨hx, ⟨held, hg⟩ | hg⟩
  · rw [acquire_of_excluded hx]
    exact hsame r rfl
  · rw [acquire_of_held hx hg]
    exact hsame _ rfl
  · rw [acquire_of_free hx hg]
    have hstarts : r.Starts { r with
        held := r.held.insert resource.resourceKind ⟨[uid], r.started.length⟩
        started := r.started ++ [.start resource] } resource.resourceKind :=
      ⟨.start resource, rfl, rfl, rfl⟩
    exact ⟨⟨fun _ => hstarts, fun _ => rfl⟩, fun hf => (by cases hf),
      fun he => absurd he hstarts.ne⟩

theorem Sound.release_stops (h : r.Sound) (kind : ResourceKind) (uid : String) :
    ((r.release kind uid).1 = true ↔ r.Stops (r.release kind uid).2 kind) ∧
    ((r.release kind uid).1 = false ↔ (r.release kind uid).2.started = r.started) := by
  have hsame : ∀ r' : Registry, r'.started = r.started →
      (false = true ↔ r.Stops r' kind) ∧ (false = false ↔ r'.started = r.started) := by
    intro r' he
    exact ⟨⟨fun hf => (by cases hf), fun hs => absurd he hs.ne⟩, fun _ => he, fun _ => rfl⟩
  rcases release_cases r kind uid with hn | ⟨held, hg, hu | ⟨hu, hr⟩⟩
  · rw [release_of_not_holds hn]
    exact hsame r rfl
  · rw [release_of_last hg hu]
    obtain ⟨w, hw, hk, hs⟩ := h.watched kind held hg
    have hstops : r.Stops (({ r with held := r.held.erase kind } : Registry).stopWatch held.watch)
        kind := ⟨held.watch, w, hw, hk, hs, rfl⟩
    exact ⟨⟨fun _ => hstops, fun _ => rfl⟩, fun hf => (by cases hf),
      fun he => absurd he hstops.ne⟩
  · rw [release_of_others hg hu hr]
    exact hsame _ rfl

/-! ## All histories -/

/-- The watches of one kind: while somebody holds it one runs, the last one started, and it is the
one whose cache can be looked at; otherwise all are stopped. -/
structure Watched (r : Registry) (kind : ResourceKind) : Prop where
  active : r.isActive kind = true ↔ ∃ uid, r.Holds kind uid
  listed : (r.lister? kind).isSome = true ↔ ∃ uid, r.Holds kind uid
  balance : r.startsOf kind = r.stopsOf kind + if r.isActive kind then 1 else 0
  last : ∀ n w, r.watch? n = some w → w.kind = kind →
    (w.stopped = false ↔ r.isActive kind = true ∧ r.latest? kind = some n)
  lister : ∀ cache, r.lister? kind = some cache → ∃ n w, r.latest? kind = some n ∧
    r.watch? n = some w ∧ w.stopped = false ∧ w.ingest.cache = cache
  excluded : kind.excluded = true → r.startsOf kind = 0

theorem Lined.watched (h : r.Lined) (hr : r.Sound) (kind : ResourceKind) : r.Watched kind := by
  have hlatest : ∀ held, r.held.get? kind = some held → ∃ w, r.started[held.watch]? = some w ∧
      w.stopped = false ∧ r.latest? kind = some held.watch := by
    intro held hg
    obtain ⟨w, hw, hk, hs⟩ := hr.watched kind held hg
    refine ⟨w, hw, hs, latest?_eq_some hw hk ?_⟩
    exact fun m v hv hkv => h.newest held.watch w hw hs m v hv (hkv.trans hk.symm)
  constructor
  · exact hr.isActive_iff kind
  · rw [lister?_eq, Option.isSome_map]
    exact hr.isSome_intake?_iff kind
  · rw [startsOf_eq, h.runsOf_eq hr]
  · intro n w hw hk
    constructor
    · intro hs
      obtain ⟨held, hg, hn⟩ := hr.running n w hw hs
      rw [hk] at hg
      obtain ⟨_, _, _, hl⟩ := hlatest held hg
      exact ⟨by simp [isActive, hg], by rw [hl, hn]⟩
    · rintro ⟨ha, hl⟩
      obtain ⟨held, hg⟩ := Option.isSome_iff_exists.mp ha
      obtain ⟨v, hv, hs, hl'⟩ := hlatest held hg
      rw [hl', Option.some.injEq] at hl
      have hw' : r.started[n]? = some w := hw
      rw [← hl, hv, Option.some.injEq] at hw'
      rw [← hw']
      exact hs
  · intro cache hc
    cases hg : r.held.get? kind with
    | none => simp [lister?, hg] at hc
    | some held =>
        obtain ⟨w, hw, hs, hl⟩ := hlatest held hg
        refine ⟨held.watch, w, hl, hw, hs, ?_⟩
        simpa [lister?, hg, hw] using hc
  · intro hx
    rw [startsOf, List.countP_eq_zero]
    intro w hw hk
    obtain ⟨n, hn⟩ := List.getElem?_of_mem hw
    have hallowed := h.allowed n w hn
    rw [of_decide_eq_true hk, hx] at hallowed
    cases hallowed

/-- After any calls and events a UID holds a kind that may be watched exactly if it was counted in
and not counted out since; each kind has one running watch, the last one started, while anybody
holds it, and none otherwise; and the next call says whether it starts or stops one. -/
theorem watches_follow_holders (calls : List RegistryCall) :
    let r := ({} : Registry).run calls
    (∀ kind uid, r.Holds kind uid ↔ kind.excluded = false ∧
      Since (RegistryCall.Acquires kind uid) (RegistryCall.Drops kind uid) calls) ∧
    (∀ kind, r.Watched kind) ∧
    (∀ resource uid,
      ((r.acquire resource uid).1 = true ↔
        r.Starts (r.acquire resource uid).2 resource.resourceKind) ∧
      ((r.acquire resource uid).1 = false ↔
        (r.acquire resource uid).2.started = r.started)) ∧
    (∀ kind uid,
      ((r.release kind uid).1 = true ↔ r.Stops (r.release kind uid).2 kind) ∧
      ((r.release kind uid).1 = false ↔ (r.release kind uid).2.started = r.started)) := by
  intro r
  have hsound : r.Sound := sound_empty.run calls
  have hlined : r.Lined := lined_empty.run sound_empty calls
  refine ⟨?_, hlined.watched hsound, acquire_starts r, hsound.release_stops⟩
  intro kind uid
  have hnone : ¬ ({} : Registry).Holds kind uid := not_holds_empty kind uid
  rw [holds_run sound_empty]
  simp [hnone]

end Registry
end StatusRelay
