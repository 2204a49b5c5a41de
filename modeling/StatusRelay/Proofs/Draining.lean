import StatusRelay.Proofs.Clients
import StatusRelay.Proofs.Ownership
import StatusRelay.Proofs.Announcements
import StatusRelay.Proofs.Patience
import Mathlib.Data.Finset.Card

/-!
# Draining the queue

The key of a deployment record may queue the keys of what the record lists, and those may be
deployment records again, in circles. A round takes one key out of the line, so it is enough that
what is queued is paid for. A record is stale if its own key would have another set stored for it.
The key of a record leaves it up to date and all others as they are, and queues nothing if the
record was not stale. A stray key, with a namespace or another record's name in its snapshot, may
make a record stale, but nothing that is queued is one. So the keys that are noted, with a price for
every stale record and twice that price for every stray key, become less with every round.
-/
namespace StatusRelay

/-! ## Keys and sets -/

/-- A key of a deployment record that has a namespace or another record's snapshot. Nothing that is
queued for a listed object is such a key. -/
def ObjectKey.stray (key : ObjectKey) : Bool :=
  decide (key.kind = appliedWorkKind) &&
    !(decide (key.ns = "") && key.deleted.all fun snapshot => decide (snapshot.name = key.name))

/-- The deployment records that a set lists are listed without a namespace. -/
def AppliedSet.Clusterwide (l : Lookups) (s : AppliedSet) : Prop :=
  ∀ e ∈ s.entries, ∀ resource, l.named e.group e.version e.resource = .ok resource →
    resource.resourceKind = appliedWorkKind → e.ns = ""

theorem AppliedSet.clusterwide_of_ns {l : Lookups} {s : AppliedSet}
    (h : (s.entries.all fun e => decide (e.ns = "")) = true) : s.Clusterwide l :=
  fun e he _ _ _ => of_decide_eq_true (List.all_eq_true.mp h e he)

variable {l : Lookups} {a a' : Agent} {key key' : ObjectKey} {name : String} {applied : AppliedSet}
  {t : Tracker} {manifestWork : String}

theorem ObjectKey.stray_eq_false_iff (hk : key.kind = appliedWorkKind) : key.stray = false ↔
    key.ns = "" ∧ ∀ snapshot, key.deleted = some snapshot → snapshot.name = key.name := by
  cases hd : key.deleted <;> simp [ObjectKey.stray, hk, hd]

theorem Change.stray_key {c : Change} {resource : ApiResource}
    (h : resource.resourceKind = appliedWorkKind → c.entry.ns = "") :
    (c.key resource).stray = false := by
  obtain ⟨gained, e⟩ := c
  by_cases hk : resource.resourceKind = appliedWorkKind
  · cases gained
    · exact (ObjectKey.stray_eq_false_iff hk).mpr ⟨h hk, by rintro _ ⟨⟩; rfl⟩
    · exact (ObjectKey.stray_eq_false_iff hk).mpr ⟨h hk, by rintro _ ⟨⟩⟩
  · cases gained <;> simp [ObjectKey.stray, Change.key, hk]

theorem Change.stray_keys {changes : List Change}
    (h : ∀ c ∈ changes, ∀ resource,
      l.named c.entry.group c.entry.version c.entry.resource = .ok resource →
      resource.resourceKind = appliedWorkKind → c.entry.ns = "") :
    ∀ k ∈ Change.keys l changes, k.stray = false := by
  induction changes with
  | nil => exact fun _ hk => absurd hk List.not_mem_nil
  | cons c rest ih =>
      have hrest := ih fun d hd => h d (List.mem_cons_of_mem _ hd)
      rw [Change.keys]
      split
      · rename_i resource hn
        intro k hk
        rcases List.mem_cons.mp hk with rfl | hk
        · exact Change.stray_key (h c List.mem_cons_self resource hn)
        · exact hrest k hk
      · exact hrest

theorem Change.length_keys_le (changes : List Change) :
    (Change.keys l changes).length ≤ changes.length := by
  induction changes with
  | nil => exact Nat.le_refl _
  | cons c rest ih =>
      rw [Change.keys]
      split
      · exact Nat.succ_le_succ ih
      · exact Nat.le_succ_of_le ih

/-- What changes when a set is stored comes from it or from the one before. -/
theorem mem_ofDifference_replace (h : t.Sound) (hc : applied.Clean) {c : Change}
    (hm : c ∈ Change.ofDifference (t.replace name manifestWork applied).1) :
    c.entry ∈ applied.entries ∨ c.entry ∈ (t.setOf name).entries := by
  rcases List.mem_append.mp hm with hm | hm
  · obtain ⟨e, he, rfl⟩ := List.mem_map.mp hm
    exact Or.inl ((AppliedSet.mem_added_difference hc e).mp he).1
  · obtain ⟨e, he, rfl⟩ := List.mem_map.mp hm
    rw [Tracker.removed_replace h] at he
    exact Or.inr (List.mem_filter.mp he).1

theorem length_ofDifference_replace_le (h : t.Sound) (hc : applied.Clean) :
    (Change.ofDifference (t.replace name manifestWork applied).1).length ≤
      applied.size + (t.setOf name).size := by
  rw [Change.ofDifference, List.length_append, List.length_map, List.length_map,
    Tracker.removed_replace h, Tracker.added_replace, AppliedSet.added_difference hc]
  exact Nat.add_le_add (List.length_filter_le _ _) (List.length_filter_le _ _)

/-- To store what differs in nothing changes nothing. -/
theorem ofDifference_replace_eq_nil (h : t.Sound)
    (hd : AppliedSet.difference (t.setOf name) applied = {}) :
    Change.ofDifference (t.replace name manifestWork applied).1 = [] := by
  have hremoved : (t.setOf name).entries.filter (fun r => !applied.contains r.uid) = [] := by
    rw [← AppliedSet.removed_difference (h.clean_setOf name), hd]
  rw [Change.ofDifference, Tracker.added_replace, hd, Tracker.removed_replace h,
    ← List.filter_filter, hremoved]
  rfl

/-! ## What is stale -/

/-- Some key of the record, not a stray one, would have another set stored for it. -/
def Agent.Stale (a : Agent) (name : String) : Prop :=
  ∃ key owner applied, key.kind = appliedWorkKind ∧ key.stray = false ∧ key.name = name ∧
    a.Offers key owner applied ∧ AppliedSet.difference (a.tracker.setOf name) applied ≠ {}

/-- What a key would have stored depends on the cache only. -/
theorem Agent.Offers.congr (h : a.Offers key name applied) (hk : key.kind = appliedWorkKind)
    (hw : a'.works = a.works) : a'.Offers key name applied := by
  have hfind : a'.find key.kind key.ns key.name = a.find key.kind key.ns key.name := by
    rw [hk]
    simp only [Agent.find, Agent.cacheOf?, if_true, hw]
  cases h with
  | listed hf hwork hready => exact .listed (hfind.trans hf) hwork hready
  | gone hf hd => exact .gone (hfind ▸ hf) hd

/-- The keys of a record that are not stray agree. -/
theorem Agent.Offers.unique {name' : String} {applied' : AppliedSet}
    (h : a.Offers key name applied) (h' : a.Offers key' name' applied')
    (hk : key.kind = appliedWorkKind) (hk' : key'.kind = appliedWorkKind)
    (hs : key.stray = false) (hs' : key'.stray = false) (hname : key.name = key'.name) :
    applied = applied' := by
  have hns := ((ObjectKey.stray_eq_false_iff hk).mp hs).1
  have hns' := ((ObjectKey.stray_eq_false_iff hk').mp hs').1
  have hfind : a.find key.kind key.ns key.name = a.find key'.kind key'.ns key'.name := by
    rw [hk, hk', hns, hns', hname]
  cases h with
  | listed hf hw _ =>
      cases h' with
      | listed hf' hw' _ =>
          rw [hfind, hf'] at hf
          cases hf
          rw [hw] at hw'
          cases hw'
          rfl
      | gone hf' _ => exact absurd (hfind ▸ hf) (hf' _)
  | gone hf _ =>
      cases h' with
      | listed hf' _ _ => exact absurd (hfind.trans hf') (hf _)
      | gone => rfl

/-! ## The queue in a round -/

namespace WorkQueue

variable {α : Type} [DecidableEq α] {q : WorkQueue α} {a : α} {c : Clock}

/-- A patient limiter has nothing added at once. -/
theorem dirty_addRateLimited (h : q.limiter.Patient) (a : α) (c : Clock) :
    (q.addRateLimited a c).1.dirty = q.dirty := by
  cases deferred_addRateLimited q a c with
  | added _ hn _ _ =>
      rw [h q.limiter .start a c.now] at hn
      cases hn
  | refused _ s _ => exact s.dirty
  | timer _ s => exact s.dirty

end WorkQueue

/-- Between keys: the queue's books are in order and its limiter is patient. -/
structure WorkQueue.Calm {α : Type} [DecidableEq α] (q : WorkQueue α) : Prop where
  places : q.Places
  patient : q.limiter.Patient

namespace WorkQueue.Calm

variable {α : Type} [DecidableEq α] {q : WorkQueue α} {a : α}

theorem retried (h : q.Calm) (ha : a ∈ q.processing) (c : Clock) :
    ((q.addRateLimited a c).1.done a).Calm where
  places := by
    refine Places.done (places_addRateLimited h.places a c) ?_
    rw [processing_addRateLimited]
    exact ha
  patient := by
    rw [limiter_done, limiter_addRateLimited]
    exact h.patient.after (.tried _ _ .start)

theorem forgotten (h : q.Calm) (ha : a ∈ q.processing) : ((q.forget a).done a).Calm where
  places := Places.done ((sameItems_forget q a).places h.places) ha
  patient := by
    rw [limiter_done]
    exact h.patient.after (.forgot _ .start)

end WorkQueue.Calm

theorem Agent.calm_settle (h : a.queue.Calm) (hk : key ∈ a.queue.processing)
    (result : Except AgentError Outcome) : (a.settle key result).queue.Calm := by
  rw [Agent.settle_eq]
  split
  · exact h.retried hk a.clock
  · exact h.forgotten hk

theorem Agent.dirty_settle (h : a.queue.limiter.Patient) (key : ObjectKey)
    (result : Except AgentError Outcome) : (a.settle key result).queue.dirty = a.queue.dirty := by
  rw [Agent.settle_eq]
  split
  · exact (WorkQueue.dirty_done _ _).trans (WorkQueue.dirty_addRateLimited h key a.clock)
  · exact WorkQueue.dirty_done _ _

/-! ## The measure -/

/-- Everything that deployment records list, in the cache or in the tracker, is in order. -/
structure Agent.Bounded (l : Lookups) (names : Finset String) (bound : Nat) (a : Agent) : Prop where
  filed : a.works.ingest.Entries fun e => Ingest.place? e.2 = some e.1
  cached : ∀ e ∈ a.works.ingest.cache.entries, e.2.name ∈ names ∧
    ∀ work, AppliedWork.ofObject e.2 = .ok work →
      (AppliedSet.ofResources work.resources).size ≤ bound ∧
        (AppliedSet.ofResources work.resources).Clusterwide l
  sound : a.tracker.Sound
  stored : ∀ name tracked, a.tracker.works.get? name = some tracked →
    name ∈ names ∧ tracked.applied.size ≤ bound ∧ tracked.applied.Clusterwide l

namespace Agent.Bounded

variable {names : Finset String} {bound : Nat}

theorem setOf (h : a.Bounded l names bound) (name : String) :
    (a.tracker.setOf name).size ≤ bound ∧ (a.tracker.setOf name).Clusterwide l := by
  cases hg : a.tracker.works.get? name with
  | none =>
      have hempty : a.tracker.setOf name = {} := by simp [Tracker.setOf, Tracker.appliedSet?, hg]
      rw [hempty]
      exact ⟨Nat.zero_le _, fun e he => absurd he List.not_mem_nil⟩
  | some tracked =>
      rw [Tracker.setOf_eq_of_get? hg]
      exact (h.stored name tracked hg).2

/-- What a key finds has the key's name. -/
theorem find (h : a.Bounded l names bound) (hk : key.kind = appliedWorkKind) {o : Object}
    (hf : a.find key.kind key.ns key.name = .present o) :
    o.name = key.name ∧ o.name ∈ names ∧ ∀ work, AppliedWork.ofObject o = .ok work →
      (AppliedSet.ofResources work.resources).size ≤ bound ∧
        (AppliedSet.ofResources work.resources).Clusterwide l := by
  have hat : a.works.ingest.at? (key.ns, key.name) = some o := by
    rw [hk] at hf
    exact (Agent.find_work_iff a (key.ns, key.name) o).mp hf
  rcases Cache.mem_of_lookup? hat with hm | hm
  · exact ⟨(Ingest.eq_of_place (h.filed.1 _ hm)).1, h.cached _ hm⟩
  · exact ⟨(Ingest.eq_of_place (h.filed.1 _ hm)).1, h.cached _ hm⟩

theorem offers (h : a.Bounded l names bound) (hk : key.kind = appliedWorkKind)
    (ho : a.Offers key name applied) :
    (key.stray = false → name = key.name) ∧ (applied.isEmpty = false → name ∈ names) ∧
      applied.Clean ∧ applied.size ≤ bound ∧ applied.Clusterwide l := by
  cases ho with
  | listed hf hw _ =>
      obtain ⟨hname, hmem, hset⟩ := h.find hk hf
      exact ⟨fun _ => hname, fun _ => hmem, AppliedSet.clean_ofResources _, hset _ hw⟩
  | gone _ hd =>
      refine ⟨fun hs => ((ObjectKey.stray_eq_false_iff hk).mp hs).2 _ hd, fun he => ?_, .empty,
        Nat.zero_le _, fun e he => absurd he List.not_mem_nil⟩
      cases he

/-- A name that is stale is among the names. -/
theorem mem_of_stale (h : a.Bounded l names bound) (hs : a.Stale name) : name ∈ names := by
  obtain ⟨key, owner, applied, hk, hstray, rfl, ho, hd⟩ := hs
  obtain ⟨howner, hmem, -⟩ := h.offers hk ho
  cases he : applied.isEmpty with
  | false => exact howner hstray ▸ hmem he
  | true =>
      cases hg : a.tracker.works.get? key.name with
      | some tracked => exact (h.stored _ tracked hg).1
      | none =>
          refine absurd ?_ hd
          rw [(AppliedSet.isEmpty_eq_true_iff applied).mp he, Tracker.setOf, Tracker.appliedSet?,
            hg]
          rfl

theorem stores (h : a.Bounded l names bound) (hk : key.kind = appliedWorkKind)
    (ho : a.Offers key name applied) {keys : List ObjectKey}
    (hb : a.Becomes (a.tracker.replace name manifestWork applied).2 keys a') :
    a'.Bounded l names bound where
  filed := hb.works ▸ h.filed
  cached := hb.works ▸ h.cached
  sound := hb.tracker ▸ h.sound.replace (h.offers hk ho).2.2.1
  stored := by
    intro other tracked hg
    rw [hb.tracker, Tracker.works_replace] at hg
    obtain ⟨-, hmem, -, hsize, hwide⟩ := h.offers hk ho
    split at hg
    · rename_i he
      split at hg
      · cases hg
      · rename_i hne
        cases hg
        exact ⟨he ▸ hmem (Bool.eq_false_iff.mpr hne), hsize, hwide⟩
    · exact h.stored other tracked hg

end Agent.Bounded

open Classical in
/-- How many records are stale. -/
noncomputable def Agent.staleCount (a : Agent) (names : Finset String) : Nat :=
  (names.filter a.Stale).card

section

variable {names : Finset String} {bound : Nat} {keys : List ObjectKey}

/-- With nothing stored nothing comes to be stale. -/
theorem Agent.Stale.congr (h : a'.Stale name) (ht : a'.tracker = a.tracker)
    (hw : a'.works = a.works) : a.Stale name := by
  obtain ⟨key, owner, applied, hk, hs, hname, ho, hd⟩ := h
  exact ⟨key, owner, applied, hk, hs, hname, ho.congr hk hw.symm, ht ▸ hd⟩

/-- Only the record whose set is stored may come to be stale, and not by its own key. -/
theorem Agent.Bounded.stale_stores (h : a.Bounded l names bound) (hk : key.kind = appliedWorkKind)
    (ho : a.Offers key name applied)
    (hb : a.Becomes (a.tracker.replace name manifestWork applied).2 keys a') {other : String}
    (hs : a'.Stale other) :
    (a.Stale other ∧ other ≠ name) ∨ key.stray = true ∧ other = name := by
  obtain ⟨key', owner, applied', hk', hstray', hname', ho', hd⟩ := hs
  have ho' := ho'.congr hk' hb.works.symm
  rw [hb.tracker, Tracker.setOf_replace] at hd
  by_cases he : name = other
  · rw [if_pos he] at hd
    refine Or.inr ⟨?_, he.symm⟩
    by_contra hstray
    have hstray : key.stray = false := Bool.eq_false_iff.mpr hstray
    have hname : key.name = key'.name := by
      rw [← (h.offers hk ho).1 hstray, hname', he]
    refine hd ?_
    rw [ho.unique ho' hk hk' hstray hstray' hname, AppliedSet.difference, if_pos rfl]
  · rw [if_neg he] at hd
    exact Or.inl ⟨⟨key', owner, applied', hk', hstray', hname', ho', hd⟩, Ne.symm he⟩

theorem Agent.staleCount_le (ht : a'.tracker = a.tracker) (hw : a'.works = a.works) :
    a'.staleCount names ≤ a.staleCount names := by
  classical
  refine Finset.card_le_card fun other hm => ?_
  obtain ⟨hm, hnow⟩ := Finset.mem_filter.mp hm
  exact Finset.mem_filter.mpr ⟨hm, hnow.congr ht hw⟩

/-- What a reconcile does to the measure: either nothing is queued and no more records are stale, or
a record that was stale is stale no more, or the key was a stray one. -/
structure Agent.Spends (a : Agent) (key : ObjectKey) (names : Finset String) (bound : Nat)
    (a' : Agent) (fresh : List ObjectKey) : Prop where
  dirty : a'.queue.dirty = fresh ++ a.queue.dirty
  plain : ∀ k ∈ fresh, k.stray = false
  stale : (fresh = [] ∧ a'.staleCount names ≤ a.staleCount names) ∨
    fresh.length ≤ 2 * bound ∧
      (a'.staleCount names + 1 ≤ a.staleCount names ∨
        key.stray = true ∧ a'.staleCount names ≤ a.staleCount names + 1)

theorem Agent.Bounded.staleCount_stray (h : a.Bounded l names bound)
    (hk : key.kind = appliedWorkKind) (ho : a.Offers key name applied)
    (hb : a.Becomes (a.tracker.replace name manifestWork applied).2 keys a') :
    a'.staleCount names ≤ a.staleCount names + 1 := by
  classical
  have hsub : names.filter a'.Stale ⊆ insert name (names.filter a.Stale) := by
    intro other hm
    obtain ⟨hm, hnow⟩ := Finset.mem_filter.mp hm
    rcases h.stale_stores hk ho hb hnow with ⟨hbefore, _⟩ | ⟨_, rfl⟩
    · exact Finset.mem_insert_of_mem (Finset.mem_filter.mpr ⟨hm, hbefore⟩)
    · exact Finset.mem_insert_self _ _
  exact (Finset.card_le_card hsub).trans (Finset.card_insert_le _ _)

/-- A record's own key leaves it up to date, and other records as they are. -/
theorem Agent.Bounded.staleCount_plain (h : a.Bounded l names bound)
    (hk : key.kind = appliedWorkKind) (hs : key.stray = false) (ho : a.Offers key name applied)
    (hb : a.Becomes (a.tracker.replace name manifestWork applied).2 keys a') :
    a'.staleCount names ≤ a.staleCount names ∧
      (AppliedSet.difference (a.tracker.setOf name) applied ≠ {} →
        a'.staleCount names < a.staleCount names) := by
  classical
  have hsub : names.filter a'.Stale ⊆ (names.filter a.Stale).erase name := by
    intro other hm
    obtain ⟨hm, hnow⟩ := Finset.mem_filter.mp hm
    rcases h.stale_stores hk ho hb hnow with ⟨hbefore, hne⟩ | ⟨hstray, _⟩
    · exact Finset.mem_erase.mpr ⟨hne, Finset.mem_filter.mpr ⟨hm, hbefore⟩⟩
    · rw [hs] at hstray
      cases hstray
  have hle := Finset.card_le_card hsub
  refine ⟨hle.trans Finset.card_erase_le, fun hd => lt_of_le_of_lt hle ?_⟩
  have hstale : a.Stale name :=
    ⟨key, name, applied, hk, hs, ((h.offers hk ho).1 hs).symm, ho, hd⟩
  exact Finset.card_erase_lt_of_mem (Finset.mem_filter.mpr ⟨h.mem_of_stale hstale, hstale⟩)

/-- The keys that are queued when a set is stored. -/
theorem Agent.Bounded.keys_stores (h : a.Bounded l names bound) (hk : key.kind = appliedWorkKind)
    (ho : a.Offers key name applied) (manifestWork : String) :
    let keys := Change.keys l
      (Change.ofDifference (a.tracker.replace name manifestWork applied).1)
    keys.length ≤ 2 * bound ∧ (∀ k ∈ keys, k.stray = false) ∧
      (AppliedSet.difference (a.tracker.setOf name) applied = {} → keys = []) := by
  intro keys
  obtain ⟨-, -, hclean, hsize, hwide⟩ := h.offers hk ho
  obtain ⟨hsize', hwide'⟩ := h.setOf name
  refine ⟨?_, Change.stray_keys fun c hm => ?_, fun hd => ?_⟩
  · calc keys.length
        ≤ (Change.ofDifference (a.tracker.replace name manifestWork applied).1).length :=
          Change.length_keys_le _
      _ ≤ applied.size + (a.tracker.setOf name).size :=
          length_ofDifference_replace_le h.sound hclean
      _ ≤ 2 * bound := by omega
  · exact (mem_ofDifference_replace h.sound hclean hm).elim (hwide _) (hwide' _)
  · change Change.keys l (Change.ofDifference _) = []
    rw [ofDifference_replace_eq_nil h.sound hd]
    rfl

theorem Agent.Bounded.spends (h : a.Bounded l names bound) (hr : a.Reconciled l key a') :
    a'.Bounded l names bound ∧ ∃ fresh, a.Spends key names bound a' fresh := by
  cases hr with
  | nothing hb =>
      refine ⟨⟨hb.works ▸ h.filed, hb.works ▸ h.cached, hb.tracker ▸ h.sound,
        hb.tracker ▸ h.stored⟩, [], ?_, fun k hm => absurd hm List.not_mem_nil,
        Or.inl ⟨rfl, Agent.staleCount_le hb.tracker hb.works⟩⟩
      rw [hb.queue]
      rfl
  | @stores name manifestWork applied hk ho hb =>
      obtain ⟨hlength, hplain, hnone⟩ := h.keys_stores hk ho manifestWork
      obtain ⟨fresh, hsub, hdirty⟩ := WorkQueue.dirty_addAll a.queue
        (Change.keys l (Change.ofDifference (a.tracker.replace name manifestWork applied).1))
      refine ⟨h.stores hk ho hb, fresh, hb.queue ▸ hdirty,
        fun k hm => hplain k (List.mem_reverse.mp (hsub.subset hm)), ?_⟩
      have hfresh : fresh.length ≤ 2 * bound :=
        (List.length_reverse ▸ hsub.length_le).trans hlength
      cases hs : key.stray with
      | true => exact Or.inr ⟨hfresh, Or.inr ⟨rfl, h.staleCount_stray hk ho hb⟩⟩
      | false =>
          obtain ⟨hle, hlt⟩ := h.staleCount_plain hk hs ho hb
          by_cases hd : AppliedSet.difference (a.tracker.setOf name) applied = {}
          · rw [hnone hd] at hsub
            exact Or.inl ⟨List.sublist_nil.mp hsub, hle⟩
          · exact Or.inr ⟨hfresh, Or.inl (hlt hd)⟩

/-! ## One key after the other -/

/-- Every key of a stale record may queue as many keys as two sets have entries, and so may every
stray key, which may make a record stale besides. -/
noncomputable def Agent.load (a : Agent) (names : Finset String) (bound : Nat) : Nat :=
  a.queue.dirty.length +
    (2 * bound + 1) * (a.staleCount names + 2 * a.queue.dirty.countP ObjectKey.stray)

/-- Between two keys. -/
structure Agent.Ready (l : Lookups) (names : Finset String) (bound : Nat) (a : Agent) : Prop where
  queue : a.queue.Calm
  bounded : a.Bounded l names bound

variable {σ : Type} {service : Service σ} {s : Client σ}

theorem Agent.Spends.load_lt {fresh : List ObjectKey} {q : WorkQueue ObjectKey}
    (ht : a.queue.Takes key q) (hd : key ∈ a.queue.dirty)
    (h : ({ a with queue := q } : Agent).Spends key names bound a' fresh) :
    a'.load names bound < a.load names bound := by
  have hline := List.perm_cons_erase hd
  rw [← ht.dirty] at hline
  have hlength : a.queue.dirty.length = q.dirty.length + 1 := hline.length_eq
  have hstray : a.queue.dirty.countP ObjectKey.stray =
      q.dirty.countP ObjectKey.stray + if key.stray then 1 else 0 := by
    rw [hline.countP_eq, List.countP_cons]
  have hlength' : a'.queue.dirty.length = fresh.length + q.dirty.length := by
    rw [h.dirty, List.length_append]
  have hstray' : a'.queue.dirty.countP ObjectKey.stray = q.dirty.countP ObjectKey.stray := by
    have hnone : fresh.countP ObjectKey.stray = 0 :=
      List.countP_eq_zero.mpr fun k hm => by simp [h.plain k hm]
    rw [h.dirty, List.countP_append, hnone, Nat.zero_add]
  have hsame : ({ a with queue := q } : Agent).staleCount names ≤ a.staleCount names :=
    Agent.staleCount_le rfl rfl
  simp only [Agent.load, hlength, hlength', hstray, hstray']
  generalize q.dirty.countP ObjectKey.stray = strays
  rcases h.stale with ⟨rfl, hle⟩ | ⟨hfresh, hle⟩
  · have hless : a'.staleCount names + 2 * strays ≤
        a.staleCount names + 2 * (strays + if key.stray then 1 else 0) := by omega
    have hpaid := Nat.mul_le_mul_left (2 * bound + 1) hless
    simp only [List.length_nil]
    omega
  · -- What was queued is paid for by one record less that is stale, or one stray key less.
    have hless : a'.staleCount names + 2 * strays + 1 ≤
        a.staleCount names + 2 * (strays + if key.stray then 1 else 0) := by
      rcases hle with hle | ⟨hs, hle⟩
      · omega
      · rw [hs, if_pos rfl]
        omega
    have hpaid := Nat.mul_le_mul_left (2 * bound + 1) hless
    rw [Nat.mul_succ] at hpaid
    omega

theorem Agent.Reconciled.queue (h : a.Reconciled l key a') :
    ∃ keys, a'.queue = a.queue.addAll keys := by
  cases h with
  | nothing hb => exact ⟨_, hb.queue⟩
  | stores _ _ hb => exact ⟨_, hb.queue⟩

theorem Agent.Ready.settle (h : a.Ready l names bound) (hk : key ∈ a.queue.processing)
    (result : Except AgentError Outcome) :
    (a.settle key result).Ready l names bound ∧
      (a.settle key result).load names bound ≤ a.load names bound := by
  have hcalm := Agent.calm_settle h.queue hk result
  have hdirty := Agent.dirty_settle h.queue.patient key result
  obtain ⟨queue, clock, he⟩ := Agent.settle_frame a key result
  rw [he] at hcalm hdirty ⊢
  have hdirty : queue.dirty = a.queue.dirty := hdirty
  refine ⟨⟨hcalm, ⟨h.bounded.filed, h.bounded.cached, h.bounded.sound, h.bounded.stored⟩⟩, ?_⟩
  have hstale : ({ a with queue := queue, clock := clock } : Agent).staleCount names ≤
      a.staleCount names := Agent.staleCount_le rfl rfl
  simp only [Agent.load, hdirty]
  exact Nat.add_le_add_left (Nat.mul_le_mul_left _ (Nat.add_le_add_right hstale _)) _

/-- A round that is given a key makes the measure less. -/
theorem Agent.Ready.round (h : s.agent.Ready l names bound) (hw : s.agent.queue.waiting ≠ [])
    (service : Service σ) (id : WorkerId) :
    (s.processNext l service id).agent.Ready l names bound ∧
      (s.processNext l service id).agent.load names bound < s.agent.load names bound := by
  obtain ⟨key, hout, ht⟩ := WorkQueue.takes_poll hw id
  let taken : Client σ := { s with agent := { s.agent with queue := (s.agent.queue.poll id).2 } }
  let run := (Reconciler.reconcile s.agent.cluster key).run.run (Client.answer l service) taken
  have hround : (s.processNext l service id).agent = run.2.agent.settle key run.1 := by
    have hpoll : s.agent.queue.poll id = (.item key, (s.agent.queue.poll id).2) :=
      Prod.ext hout rfl
    have hbusy : s.agent.queue.waiting.isEmpty = false := List.isEmpty_eq_false_iff.mpr hw
    unfold Client.processNext
    rw [hbusy, hpoll]
    rfl
  have hr : taken.agent.Reconciled l key run.2.agent := reconciled_reconcile key taken
  have hb : taken.agent.Bounded l names bound :=
    ⟨h.bounded.filed, h.bounded.cached, h.bounded.sound, h.bounded.stored⟩
  obtain ⟨hbounded, fresh, hspends⟩ := hb.spends hr
  obtain ⟨keys, hqueue⟩ := hr.queue
  have hready : run.2.agent.Ready l names bound := by
    refine ⟨⟨?_, ?_⟩, hbounded⟩
    · rw [hqueue]
      exact WorkQueue.places_addAll (ht.places h.queue.places) keys
    · rw [hqueue, WorkQueue.limiter_addAll]
      exact WorkQueue.limiter_poll s.agent.queue id ▸ h.queue.patient
  have hheld : key ∈ run.2.agent.queue.processing := by
    rw [hqueue, WorkQueue.processing_addAll]
    exact ht.mem_processing.mpr (Or.inr rfl)
  obtain ⟨hsettled, hle⟩ := hready.settle hheld run.1
  rw [hround]
  exact ⟨hsettled, lt_of_le_of_lt hle
    (hspends.load_lt ht (h.queue.places.noted key ht.mem_waiting))⟩

/-- The measure bounds the keys that are handed out until nothing is in line. -/
theorem Agent.Ready.drains (h : s.agent.Ready l names bound) (id : WorkerId) (n : Nat)
    (hn : s.agent.load names bound ≤ n) :
    (s.rounds l service id n).agent.queue.waiting = [] := by
  induction n generalizing s with
  | zero =>
      by_contra hw
      exact absurd (h.round hw service id).2 (by omega)
  | succ n ih =>
      by_cases hw : s.agent.queue.waiting = []
      · rw [Client.rounds_of_idle hw]
        exact hw
      · obtain ⟨hready, hlt⟩ := h.round hw service id
        exact ih hready (by omega)

/-- So a session before a hub that takes no time empties its line in the foreground. -/
theorem Session.waiting_processKeys (r : Session) (h : r.agent.hub.writeDelay = 0)
    (hready : r.agent.Ready r.agent.lookups names bound) :
    (r.processKeys (r.agent.load names bound)).2.agent.queue.waiting = [] := by
  rw [r.agent_processKeys h]
  exact Agent.Ready.drains hready r.workers.length _ (Nat.le_refl _)

end

/-! ## Reachable states -/

/-- Some number bounds the sizes of finitely many sets. -/
theorem exists_bound (sets : List AppliedSet) : ∃ bound, ∀ s ∈ sets, s.size ≤ bound := by
  induction sets with
  | nil => exact ⟨0, fun _ hs => absurd hs List.not_mem_nil⟩
  | cons s rest ih =>
      obtain ⟨bound, hrest⟩ := ih
      refine ⟨max s.size bound, fun s' hs => ?_⟩
      rcases List.mem_cons.mp hs with rfl | hs
      · exact Nat.le_max_left _ _
      · exact Nat.le_trans (hrest s' hs) (Nat.le_max_right _ _)

/-- The deployment records that are listed anywhere are listed without a namespace. -/
structure Agent.Clusterwide (l : Lookups) (a : Agent) : Prop where
  stored : ∀ e ∈ a.tracker.works.entries, e.2.applied.Clusterwide l
  cached : ∀ e ∈ a.works.ingest.cache.entries, ∀ work, AppliedWork.ofObject e.2 = .ok work →
    (AppliedSet.ofResources work.resources).Clusterwide l

theorem Agent.Clusterwide.bounded (h : a.Clusterwide l) (ht : a.tracker.Sound)
    (hf : a.works.ingest.Entries fun e => Ingest.place? e.2 = some e.1) :
    ∃ names bound, a.Bounded l names bound := by
  let listed : Object → AppliedSet := fun o =>
    match AppliedWork.ofObject o with
    | .ok work => .ofResources work.resources
    | .error _ => {}
  obtain ⟨bound, hbound⟩ := exists_bound
    (a.tracker.works.values.map TrackedWork.applied ++ a.works.ingest.cache.values.map listed)
  refine ⟨(a.tracker.works.keys ++ a.works.ingest.cache.values.map Object.name).toFinset, bound,
    hf, fun e he => ⟨?_, fun work hw => ⟨?_, h.cached e he work hw⟩⟩, ht,
    fun name tracked hg => ⟨?_, ?_, h.stored _ (Table.mem_of_find?_eq_some hg)⟩⟩
  · exact List.mem_toFinset.mpr (List.mem_append.mpr
      (Or.inr (List.mem_map_of_mem (List.mem_map_of_mem he))))
  · have hlisted : listed e.2 = .ofResources work.resources := by simp only [listed, hw]
    rw [← hlisted]
    exact hbound _ (List.mem_append.mpr (Or.inr (List.mem_map_of_mem (List.mem_map_of_mem he))))
  · exact List.mem_toFinset.mpr (List.mem_append.mpr
      (Or.inl ((Table.mem_keys_iff _ _).mpr (by rw [hg]; rfl))))
  · exact hbound _ (List.mem_append.mpr
      (Or.inl (List.mem_map_of_mem (List.mem_map_of_mem (Table.mem_of_find?_eq_some hg)))))

/-- In every state of every run the deployment records are filed under their own names. -/
theorem filed_run (l : Lookups) (cluster : String) (timeout : Duration)
    (limiter : Limiter ObjectKey) (manifestWorks : Table RecordKey ManifestWork) (workers : Nat)
    (moves : List Move) :
    let a := ((Floor.start (.fresh cluster timeout limiter manifestWorks) workers).run l
      moves).agent
    a.tracker.Sound ∧ a.works.ingest.Entries fun e => Ingest.place? e.2 = some e.1 := by
  intro a
  have hstep : ∀ (c : Crew) (log : List Note) (m : Move) (c' : Crew) (notes : List Note),
      (c.Sound ∧ c.agent.works.ingest.Entries fun e => Ingest.place? e.2 = some e.1) → True →
      Crew.Step l c m c' notes →
      c'.Sound ∧ c'.agent.works.ingest.Entries fun e => Ingest.place? e.2 = some e.1 := by
    rintro c log m c' notes ⟨hsound, hfiled⟩ - s
    refine ⟨hsound.step s, ?_⟩
    cases s with
    | turn id hx t => exact t.works ▸ hfiled
    | work e he => exact hfiled.handle? (fun o place _ hplace => hplace) he
    | object | fire | mood | pass | still => exact hfiled
  obtain ⟨c, hrun, hsound, hfiled⟩ := Crew.run_start
    (fun c _ h => ⟨h.1.queue, h.1.registry⟩) hstep moves
    (.fresh cluster timeout limiter manifestWorks) workers
    ⟨Crew.sound_start .., Ingest.entries_start _ _⟩
    (Floor.along_of_forall (p := fun _ _ => True) fun _ _ _ => trivial)
  have ha : a = c.agent := congrArg Floor.agent hrun
  rw [ha]
  exact ⟨hsound.tracker, hfiled⟩

/-- Before any hub and with no event and no timer, one worker empties the line: from every state of
every run, with any content of the queue, and whatever the deployment records list, be it each other
or themselves, as long as they list deployment records without a namespace. If no retry is
immediate, the number of keys that are handed out has a bound that does not depend on what the hub
answers. -/
theorem queue_drains (l l' : Lookups) (cluster : String) (timeout : Duration)
    (limiter : Limiter ObjectKey) (manifestWorks : Table RecordKey ManifestWork) (workers : Nat)
    (moves : List Move) (id : WorkerId) (q : WorkQueue ObjectKey)
    (hplaces : q.Places) (hpatient : q.limiter.Patient) :
    let a : Agent := { ((Floor.start (.fresh cluster timeout limiter manifestWorks) workers).run l
      moves).agent with queue := q }
    a.Clusterwide l' →
    ∃ n, ∀ (σ : Type) (service : Service σ) (hub : σ),
      ((⟨a, hub⟩ : Client σ).rounds l' service id n).agent.queue.waiting = [] := by
  intro a hwide
  obtain ⟨ht, hf⟩ := filed_run l cluster timeout limiter manifestWorks workers moves
  obtain ⟨names, bound, hb⟩ := hwide.bounded ht hf
  have hready : a.Ready l' names bound := ⟨⟨hplaces, hpatient⟩, hb⟩
  exact ⟨a.load names bound, fun _ _ _ => Agent.Ready.drains hready id _ (Nat.le_refl _)⟩

namespace Rings

/-- Every lookup finds deployment records. -/
def lookups : Lookups := ⟨fun _ _ _ => .ok appliedWorkResource, fun _ => .ok appliedWorkResource⟩

/-- The deployment record of some name that lists others. -/
def work (name : String) (others : List String) : Object where
  metadata := { name := some name, resourceVersion := some "1" }
  spec := some (.obj [("manifestWorkName", .str name)])
  statusMember := some (.obj [("appliedResources", .arr (others.map fun other =>
    AppliedResource.toJson { name := other, uid := other }))])

/-- One record lists itself and another one, which comes when the first was reconciled and lists
the first. -/
def ring : List Move :=
  [.work (.apply (work "a" ["a", "b"]))] ++ Widgets.turns 0 14 ++
  [.work (.apply (work "b" ["a"]))]

/-- Both records are in line, and so is the news that the first one is gone. -/
def line : WorkQueue ObjectKey where
  waiting := [Ingest.liveKey appliedWorkKind ("", "b"), Ingest.liveKey appliedWorkKind ("", "a"),
    (Ingest.liveKey appliedWorkKind ("", "a")).intoDeleted]
  dirty := [Ingest.liveKey appliedWorkKind ("", "a"), Ingest.liveKey appliedWorkKind ("", "b"),
    (Ingest.liveKey appliedWorkKind ("", "a")).intoDeleted]
  limiter := .standard

def limiter : Limiter ObjectKey := .exponential (.ofMillis 5) (.ofSeconds 1000) {}

theorem places_line : line.Places := by
  constructor <;> decide

/-- The worker comes to an end with the ring. -/
theorem drains_ring :
    line.Places ∧ line.limiter.Patient ∧
      ({ ((Floor.start (.fresh "cluster1" (.ofSeconds 5) limiter {}) 1).run lookups
        ring).agent with queue := line } : Agent).Clusterwide lookups ∧
      ∃ n, ∀ (σ : Type) (service : Service σ) (hub : σ),
        ((⟨{ ((Floor.start (.fresh "cluster1" (.ofSeconds 5) limiter {}) 1).run lookups
          ring).agent with queue := line }, hub⟩ : Client σ).rounds lookups service 0
          n).agent.queue.waiting = [] := by
  have hpatient : line.limiter.Patient := Limiter.patient_standard
  have hwide : ({ ((Floor.start (.fresh "cluster1" (.ofSeconds 5) limiter {}) 1).run lookups
      ring).agent with queue := line } : Agent).Clusterwide lookups := by
    constructor
    · have hstored : ∀ e ∈ ((Floor.start (.fresh "cluster1" (.ofSeconds 5) limiter {}) 1).run
          lookups ring).agent.tracker.works.entries,
          (e.2.applied.entries.all fun e => decide (e.ns = "")) = true := by decide +kernel
      exact fun e he => AppliedSet.clusterwide_of_ns (hstored e he)
    · have hcached : ∀ e ∈ ((Floor.start (.fresh "cluster1" (.ofSeconds 5) limiter {}) 1).run
          lookups ring).agent.works.ingest.cache.entries,
          (match AppliedWork.ofObject e.2 with
            | .ok work => (AppliedSet.ofResources work.resources).entries.all
                fun e => decide (e.ns = "")
            | .error _ => true) = true := by decide +kernel
      intro e he work hw
      have h := hcached e he
      rw [hw] at h
      exact AppliedSet.clusterwide_of_ns h
  exact ⟨places_line, hpatient, hwide, queue_drains lookups lookups "cluster1" (.ofSeconds 5)
    limiter {} 1 ring 0 line places_line hpatient hwide⟩

end Rings
end StatusRelay
