import StatusRelay.Tracker
import StatusRelay.Proofs.Tables

/-!
# What the tracker knows

A UID is listed when the stored set of some record has it. `Tracker.Sound` ties the index of owners
to the stored sets: whoever owns a UID lists it, and every listed UID has an owner. Both operations
keep it, and each says exactly what it changed: `replace` adds the entries that are new to the
record's own set, and both give back the entries of the old set that nobody lists any more.
-/
namespace StatusRelay

namespace AppliedSet

/-- No UID is empty or listed twice, as in every set made by `ofResources`. -/
structure Clean (s : AppliedSet) : Prop where
  nodup : s.uids.Nodup
  named : "" ∉ s.uids

theorem Clean.empty : ({} : AppliedSet).Clean := ⟨List.nodup_nil, List.not_mem_nil⟩

theorem mem_keepFirst {seen : List String} {r : AppliedResource} {l : List AppliedResource}
    (h : r ∈ keepFirst seen l) : r ∈ l ∧ r.uid ≠ "" ∧ r.uid ∉ seen := by
  induction l generalizing seen with
  | nil => simp [keepFirst] at h
  | cons a rest ih =>
      by_cases ha : a.uid = "" ∨ a.uid ∈ seen
      · rw [keepFirst, if_pos ha] at h
        obtain ⟨hr, hu⟩ := ih h
        exact ⟨List.mem_cons_of_mem _ hr, hu⟩
      · rw [keepFirst, if_neg ha] at h
        rw [not_or] at ha
        rcases List.mem_cons.mp h with rfl | h
        · exact ⟨List.mem_cons_self, ha⟩
        · obtain ⟨hr, hu, hs⟩ := ih h
          exact ⟨List.mem_cons_of_mem _ hr, hu, fun hm => hs (List.mem_cons_of_mem _ hm)⟩

theorem nodup_keepFirst (seen : List String) (l : List AppliedResource) :
    ((keepFirst seen l).map AppliedResource.uid).Nodup := by
  induction l generalizing seen with
  | nil => exact List.nodup_nil
  | cons a rest ih =>
      by_cases ha : a.uid = "" ∨ a.uid ∈ seen
      · rw [keepFirst, if_pos ha]
        exact ih seen
      · rw [keepFirst, if_neg ha, List.map_cons, List.nodup_cons]
        refine ⟨?_, ih _⟩
        intro hm
        obtain ⟨r, hr, hu⟩ := List.mem_map.mp hm
        exact (mem_keepFirst hr).2.2 (hu ▸ List.mem_cons_self)

/-- A list without repeated or empty UIDs passes unchanged. -/
theorem keepFirst_eq_self {seen : List String} {l : List AppliedResource}
    (hn : (l.map AppliedResource.uid).Nodup)
    (hs : ∀ r ∈ l, r.uid ≠ "" ∧ r.uid ∉ seen) : keepFirst seen l = l := by
  induction l generalizing seen with
  | nil => rfl
  | cons a rest ih =>
      rw [List.map_cons, List.nodup_cons] at hn
      have ha := hs a List.mem_cons_self
      rw [keepFirst, if_neg (not_or.mpr ha), ih hn.2]
      intro r hr
      refine ⟨(hs r (List.mem_cons_of_mem _ hr)).1, ?_⟩
      intro hm
      rcases List.mem_cons.mp hm with he | hm
      · exact hn.1 (he ▸ List.mem_map_of_mem hr)
      · exact (hs r (List.mem_cons_of_mem _ hr)).2 hm

theorem clean_ofResources (l : List AppliedResource) : (ofResources l).Clean where
  nodup := nodup_keepFirst [] l
  named := by
    intro h
    obtain ⟨r, hr, hu⟩ := List.mem_map.mp h
    exact (mem_keepFirst hr).2.1 hu

theorem mem_ofResources {r : AppliedResource} {l : List AppliedResource}
    (h : r ∈ (ofResources l).entries) : r ∈ l ∧ r.uid ≠ "" :=
  ⟨(mem_keepFirst h).1, (mem_keepFirst h).2.1⟩

/-- Whatever is picked from a clean set is a clean set as it stands. -/
theorem Clean.ofResources_filter {s : AppliedSet} (h : s.Clean) (p : AppliedResource → Bool) :
    ofResources (s.entries.filter p) = ⟨s.entries.filter p⟩ := by
  have hsub := List.Sublist.map AppliedResource.uid (List.filter_sublist (l := s.entries) (p := p))
  refine congrArg AppliedSet.mk (keepFirst_eq_self (h.nodup.sublist hsub) ?_)
  intro r hr
  refine ⟨?_, List.not_mem_nil⟩
  intro hu
  exact h.named (hu ▸ hsub.subset (List.mem_map_of_mem hr))

theorem contains_of_mem {s : AppliedSet} {r : AppliedResource} (h : r ∈ s.entries) :
    s.contains r.uid = true :=
  (contains_eq_true_iff s r.uid).mpr ⟨r, h, rfl⟩

theorem not_contains_of_isEmpty {s : AppliedSet} (h : s.isEmpty = true) (uid : String) :
    s.contains uid = false := by
  rw [(isEmpty_eq_true_iff s).mp h]
  rfl

/-- Each short cut of `difference` gives what the comparison by UID gives. -/
theorem added_difference {old new : AppliedSet} (hnew : new.Clean) :
    (difference old new).added.entries = new.entries.filter fun r => !old.contains r.uid := by
  unfold difference
  split
  · rename_i he
    subst he
    symm
    rw [List.filter_eq_nil_iff]
    intro r hr
    simp [-contains_eq_true_iff, contains_of_mem hr]
  split
  · rename_i ho
    simp [not_contains_of_isEmpty ho]
  split
  · rename_i hn
    simp [(isEmpty_eq_true_iff new).mp hn]
  · simp [without, hnew.ofResources_filter]

/-- The short cuts treat both sides alike. -/
theorem difference_swap (old new : AppliedSet) :
    difference new old = ⟨(difference old new).removed, (difference old new).added⟩ := by
  unfold difference
  by_cases heq : old = new
  · rw [if_pos heq, if_pos heq.symm]
  rw [if_neg heq, if_neg (Ne.symm heq)]
  by_cases ho : old.isEmpty = true
  · have hn : ¬ new.isEmpty = true := fun hn =>
      heq (((isEmpty_eq_true_iff old).mp ho).trans ((isEmpty_eq_true_iff new).mp hn).symm)
    simp only [if_pos ho, if_neg hn]
  · by_cases hn : new.isEmpty = true
    · simp only [if_neg ho, if_pos hn]
    · simp only [if_neg ho, if_neg hn]

theorem removed_difference {old new : AppliedSet} (hold : old.Clean) :
    (difference old new).removed.entries = old.entries.filter fun r => !new.contains r.uid := by
  have hadded := @added_difference new old hold
  rw [difference_swap old new] at hadded
  exact hadded

theorem mem_added_difference {old new : AppliedSet} (hnew : new.Clean) (r : AppliedResource) :
    r ∈ (difference old new).added.entries ↔ r ∈ new.entries ∧ old.contains r.uid = false := by
  rw [added_difference hnew, List.mem_filter, Bool.not_eq_true']

theorem mem_removed_difference {old new : AppliedSet} (hold : old.Clean) (r : AppliedResource) :
    r ∈ (difference old new).removed.entries ↔ r ∈ old.entries ∧ new.contains r.uid = false := by
  rw [removed_difference hold, List.mem_filter, Bool.not_eq_true']

end AppliedSet

namespace Tracker

variable {t : Tracker} {work manifestWork uid : String} {applied : AppliedSet}

/-- Some stored set has the UID. -/
def Lists (t : Tracker) (uid : String) : Prop :=
  ∃ work tracked, t.works.get? work = some tracked ∧ tracked.applied.contains uid = true

theorem not_lists_of_entries (h : ∀ e ∈ t.works.entries, e.2.applied.contains uid = false) :
    ¬ t.Lists uid := by
  rintro ⟨work, tracked, hg, hc⟩
  rw [h _ (Table.mem_of_find?_eq_some hg)] at hc
  cases hc

/-- Some stored set has the entry. -/
def Stores (t : Tracker) (e : AppliedResource) : Prop :=
  ∃ work tracked, t.works.get? work = some tracked ∧ e ∈ tracked.applied.entries

structure Sound (t : Tracker) : Prop where
  distinct : t.works.Distinct
  clean : ∀ work tracked, t.works.get? work = some tracked → tracked.applied.Clean
  owner_lists : ∀ uid work, t.owners.get? uid = some work →
    ∃ tracked, t.works.get? work = some tracked ∧ tracked.applied.contains uid = true
  lists_owned : ∀ uid, t.Lists uid → ∃ work, t.owners.get? uid = some work

theorem sound_empty : ({} : Tracker).Sound where
  distinct := Table.distinct_empty
  clean := by intro work tracked h; cases h
  owner_lists := by intro uid work h; cases h
  lists_owned := by rintro uid ⟨work, tracked, h, _⟩; cases h

/-- The set stored for a record, empty if there is none. -/
def setOf (t : Tracker) (work : String) : AppliedSet := (t.appliedSet? work).getD {}

theorem setOf_eq_of_get? {tracked : TrackedWork} (h : t.works.get? work = some tracked) :
    t.setOf work = tracked.applied := by
  simp [setOf, appliedSet?, h]

theorem Sound.clean_setOf (h : t.Sound) (work : String) : (t.setOf work).Clean := by
  cases hw : t.works.get? work with
  | none =>
      simp only [setOf, appliedSet?, hw, Option.map_none, Option.getD_none]
      exact .empty
  | some tracked =>
      rw [setOf_eq_of_get? hw]
      exact h.clean work tracked hw

theorem lists_iff (t : Tracker) (uid : String) : t.Lists uid ↔ ∃ e, t.Stores e ∧ e.uid = uid := by
  constructor
  · rintro ⟨work, tracked, hg, hc⟩
    obtain ⟨e, he, hu⟩ := (AppliedSet.contains_eq_true_iff _ uid).mp hc
    exact ⟨e, ⟨work, tracked, hg, he⟩, hu⟩
  · rintro ⟨e, ⟨work, tracked, hg, he⟩, rfl⟩
    exact ⟨work, tracked, hg, AppliedSet.contains_of_mem he⟩

theorem Stores.lists {e : AppliedResource} (h : t.Stores e) : t.Lists e.uid :=
  (lists_iff t e.uid).mpr ⟨e, h, rfl⟩

theorem stores_of_mem_setOf {e : AppliedResource} (h : e ∈ (t.setOf work).entries) :
    t.Stores e := by
  cases hw : t.works.get? work with
  | none => simp [setOf, appliedSet?, hw] at h
  | some tracked =>
      rw [setOf_eq_of_get? hw] at h
      exact ⟨work, tracked, hw, h⟩

/-! ## Other claimants -/

theorem leastText?_eq_none_iff (l : List String) : leastText? l = none ↔ l = [] := by
  cases l with
  | nil => simp [leastText?]
  | cons a rest =>
      simp only [leastText?]
      split
      · simp
      · split <;> simp

theorem mem_of_leastText? {l : List String} {s : String} (h : leastText? l = some s) : s ∈ l := by
  induction l generalizing s with
  | nil => simp [leastText?] at h
  | cons a rest ih =>
      simp only [leastText?] at h
      split at h
      · cases h; exact List.mem_cons_self
      · rename_i t ht
        split at h
        · cases h; exact List.mem_cons_of_mem _ (ih ht)
        · cases h; exact List.mem_cons_self

theorem mem_otherClaimants (h : t.Sound) (uid except other : String) :
    other ∈ t.otherClaimants uid except ↔ other ≠ except ∧
      ∃ tracked, t.works.get? other = some tracked ∧ tracked.applied.contains uid = true := by
  simp only [otherClaimants, List.mem_map, List.mem_filter, Bool.and_eq_true, decide_eq_true_eq]
  constructor
  · rintro ⟨⟨name, tracked⟩, ⟨hm, hne, hc⟩, rfl⟩
    exact ⟨hne, tracked, (Table.mem_entries_iff h.distinct _ _).mp hm, hc⟩
  · rintro ⟨hne, tracked, hg, hc⟩
    exact ⟨⟨other, tracked⟩, ⟨(Table.mem_entries_iff h.distinct _ _).mpr hg, hne, hc⟩, rfl⟩

theorem otherClaimant?_eq_none_iff (h : t.Sound) (uid except : String) :
    t.otherClaimant? uid except = none ↔ ∀ other tracked, t.works.get? other = some tracked →
      tracked.applied.contains uid = true → other = except := by
  rw [otherClaimant?, leastText?_eq_none_iff, List.eq_nil_iff_forall_not_mem]
  constructor
  · intro hnone other tracked hg hc
    by_contra hne
    exact hnone other ((mem_otherClaimants h uid except other).mpr ⟨hne, tracked, hg, hc⟩)
  · intro hall other hm
    obtain ⟨hne, tracked, hg, hc⟩ := (mem_otherClaimants h uid except other).mp hm
    exact hne (hall other tracked hg hc)

/-! ## Giving up claims -/

theorem works_withdraw (t : Tracker) (work : String) (entries : List AppliedResource) :
    (t.withdraw work entries).2.works = t.works := by
  induction entries generalizing t with
  | nil => rfl
  | cons e rest ih =>
      simp only [withdraw, ih]
      unfold withdrawEntry
      split
      · split <;> rfl
      · rfl

theorem otherClaimant?_congr {s t : Tracker} (h : s.works = t.works) (uid except : String) :
    s.otherClaimant? uid except = t.otherClaimant? uid except := by
  simp only [otherClaimant?, otherClaimants, h]

/-- Who is left without a claimant does not depend on the owners, so it can be read off at once. -/
theorem released_withdraw (t : Tracker) (work : String) (entries : List AppliedResource) :
    (t.withdraw work entries).1 =
      entries.filter fun e => (t.otherClaimant? e.uid work).isNone := by
  induction entries generalizing t with
  | nil => rfl
  | cons e rest ih =>
      have hworks : (t.withdrawEntry work e).2.works = t.works := by
        unfold withdrawEntry
        split
        · split <;> rfl
        · rfl
      have hfree : (t.withdrawEntry work e).1 = (t.otherClaimant? e.uid work).isNone := by
        unfold withdrawEntry
        split
        · rename_i other ho
          split <;> simp [ho]
        · rename_i ho
          simp [ho]
      simp only [withdraw, ih, hfree, List.filter_cons]
      simp only [otherClaimant?_congr hworks]

/-- Whose the UIDs are after one entry was given up. -/
theorem owners_withdrawEntry (t : Tracker) (work : String) (e : AppliedResource) (uid : String) :
    (t.withdrawEntry work e).2.owners.get? uid =
      if e.uid = uid then
        match t.otherClaimant? uid work with
        | some other => if t.owners.get? uid = some work then some other else t.owners.get? uid
        | none => none
      else t.owners.get? uid := by
  unfold withdrawEntry
  by_cases he : e.uid = uid
  · subst he
    cases t.otherClaimant? e.uid work with
    | none => simp
    | some other =>
        by_cases ho : t.owners.get? e.uid = some work <;> simp [ho]
  · rw [if_neg he]
    cases t.otherClaimant? e.uid work with
    | none => simp [Table.get?_erase, he]
    | some other =>
        by_cases ho : t.owners.get? e.uid = some work <;> simp [ho, Table.get?_insert, he]

/-- Whose the UIDs are after some entries were given up. -/
theorem owners_withdraw (t : Tracker) (work : String) (entries : List AppliedResource)
    (uid : String) :
    (t.withdraw work entries).2.owners.get? uid =
      if uid ∈ entries.map AppliedResource.uid then
        match t.otherClaimant? uid work with
        | some other => if t.owners.get? uid = some work then some other else t.owners.get? uid
        | none => none
      else t.owners.get? uid := by
  induction entries generalizing t with
  | nil => simp [withdraw]
  | cons e rest ih =>
      have hworks := works_withdraw t work [e]
      change (t.withdrawEntry work e).2.works = t.works at hworks
      simp only [withdraw, ih, owners_withdrawEntry, otherClaimant?_congr hworks, List.map_cons,
        List.mem_cons]
      -- A UID that comes up again finds its claims already given up.
      by_cases he : e.uid = uid
      · subst he
        cases ho : t.otherClaimant? e.uid work with
        | none => simp
        | some other =>
            by_cases hw : t.owners.get? e.uid = some work <;> simp [hw]
      · simp [he, Ne.symm he]

theorem owners_claim (t : Tracker) (work : String) (entries : List AppliedResource)
    (uid : String) :
    (t.claim work entries).owners.get? uid =
      if uid ∈ entries.map AppliedResource.uid then some work else t.owners.get? uid := by
  induction entries generalizing t with
  | nil => rfl
  | cons e rest ih =>
      change (claim { t with owners := t.owners.insert e.uid work } work rest).owners.get? uid = _
      rw [ih]
      simp only [List.map_cons, List.mem_cons, Table.get?_insert]
      by_cases he : e.uid = uid
      · simp [he]
      · simp [he, Ne.symm he]

theorem works_store (t : Tracker) (work manifestWork : String) (applied : AppliedSet)
    (other : String) :
    (t.store work manifestWork applied).works.get? other =
      if work = other then if applied.isEmpty then none else some ⟨manifestWork, applied⟩
      else t.works.get? other := by
  unfold store
  by_cases he : applied.isEmpty = true
  · simp [he, Table.get?_erase]
  · simp [he, Table.get?_insert]

theorem owners_store (t : Tracker) (work manifestWork : String) (applied : AppliedSet) :
    (t.store work manifestWork applied).owners = t.owners := by
  unfold store
  split <;> rfl

/-! ## Replacing a set -/

theorem added_replace (t : Tracker) (work manifestWork : String) (applied : AppliedSet) :
    (t.replace work manifestWork applied).1.added =
      (AppliedSet.difference (t.setOf work) applied).added := rfl

theorem works_replace (t : Tracker) (work manifestWork : String) (applied : AppliedSet)
    (other : String) :
    (t.replace work manifestWork applied).2.works.get? other =
      if work = other then if applied.isEmpty then none else some ⟨manifestWork, applied⟩
      else t.works.get? other := by
  simp only [replace, works_store, claim, works_withdraw]

theorem owners_replace (t : Tracker) (work manifestWork : String) (applied : AppliedSet)
    (uid : String) :
    (t.replace work manifestWork applied).2.owners.get? uid =
      if uid ∈ (AppliedSet.difference (t.setOf work) applied).added.uids then some work
      else if uid ∈ (AppliedSet.difference (t.setOf work) applied).removed.uids then
        match t.otherClaimant? uid work with
        | some other => if t.owners.get? uid = some work then some other else t.owners.get? uid
        | none => none
      else t.owners.get? uid := by
  simp only [replace, owners_store, owners_claim, owners_withdraw]
  rfl

theorem get?_replace_of_ne {other : String} (hne : other ≠ work) :
    (t.replace work manifestWork applied).2.works.get? other = t.works.get? other := by
  rw [works_replace, if_neg (Ne.symm hne)]

theorem get?_replace_of_contains (hc : applied.contains uid = true) :
    (t.replace work manifestWork applied).2.works.get? work = some ⟨manifestWork, applied⟩ := by
  have he : applied.isEmpty = false := by
    rw [Bool.eq_false_iff]
    intro he
    rw [AppliedSet.not_contains_of_isEmpty he] at hc
    cases hc
  rw [works_replace, if_pos rfl, he]
  rfl

theorem lists_replace (t : Tracker) (work manifestWork : String) (applied : AppliedSet)
    (uid : String) :
    (t.replace work manifestWork applied).2.Lists uid ↔ applied.contains uid = true ∨
      ∃ other tracked, other ≠ work ∧ t.works.get? other = some tracked ∧
        tracked.applied.contains uid = true := by
  constructor
  · rintro ⟨other, tracked, hg, hc⟩
    rw [works_replace] at hg
    by_cases ho : work = other
    · rw [if_pos ho] at hg
      split at hg
      · cases hg
      · cases hg; exact Or.inl hc
    · rw [if_neg ho] at hg
      exact Or.inr ⟨other, tracked, Ne.symm ho, hg, hc⟩
  · rintro (hc | ⟨other, tracked, hne, hg, hc⟩)
    · exact ⟨work, _, get?_replace_of_contains hc, hc⟩
    · exact ⟨other, tracked, (get?_replace_of_ne hne).trans hg, hc⟩

theorem mem_added_replace (hc : applied.Clean) (r : AppliedResource) :
    r ∈ (t.replace work manifestWork applied).1.added.entries ↔
      r ∈ applied.entries ∧ (t.setOf work).contains r.uid = false := by
  rw [added_replace]
  exact AppliedSet.mem_added_difference hc r

theorem removed_replace (h : t.Sound) (work manifestWork : String) (applied : AppliedSet) :
    (t.replace work manifestWork applied).1.removed.entries =
      (t.setOf work).entries.filter fun e =>
        (t.otherClaimant? e.uid work).isNone && !applied.contains e.uid := by
  have hold := h.clean_setOf work
  have hreleased : (t.replace work manifestWork applied).1.removed =
      AppliedSet.ofResources ((AppliedSet.difference (t.setOf work) applied).removed.entries.filter
        fun e => (t.otherClaimant? e.uid work).isNone) := by
    simp only [replace, released_withdraw]
    rfl
  rw [hreleased, AppliedSet.removed_difference hold, List.filter_filter, hold.ofResources_filter]

/-- What is reported as removed are the entries of the old set that no stored set has any more. -/
theorem mem_removed_replace (h : t.Sound) (r : AppliedResource) :
    r ∈ (t.replace work manifestWork applied).1.removed.entries ↔
      r ∈ (t.setOf work).entries ∧ ¬ (t.replace work manifestWork applied).2.Lists r.uid := by
  rw [removed_replace h, List.mem_filter, Bool.and_eq_true, Bool.not_eq_true',
    Option.isNone_iff_eq_none, otherClaimant?_eq_none_iff h, lists_replace]
  constructor
  · rintro ⟨hr, hall, hn⟩
    refine ⟨hr, ?_⟩
    rintro (hc | ⟨other, tracked, hne, hg, hc⟩)
    · rw [hn] at hc; cases hc
    · exact hne (hall other tracked hg hc)
  · rintro ⟨hr, hnot⟩
    rw [not_or] at hnot
    refine ⟨hr, ?_, Bool.eq_false_iff.mpr hnot.1⟩
    intro other tracked hg hc
    by_contra hne
    exact hnot.2 ⟨other, tracked, hne, hg, hc⟩

theorem distinct_store (h : t.works.Distinct) :
    (t.store work manifestWork applied).works.Distinct := by
  unfold store
  split
  · exact h.erase work
  · exact h.insert work _

/-- A record drops nothing that its new set still has. -/
theorem not_mem_removed_of_contains (h : t.Sound) (hc : applied.contains uid = true) :
    uid ∉ (AppliedSet.difference (t.setOf work) applied).removed.uids := by
  intro hm
  obtain ⟨r, hr, rfl⟩ := List.mem_map.mp hm
  have hnew := ((AppliedSet.mem_removed_difference (h.clean_setOf work) r).mp hr).2
  rw [hc] at hnew
  cases hnew

theorem owner_lists_replace (h : t.Sound) (hc : applied.Clean) {owner : String}
    (hown : (t.replace work manifestWork applied).2.owners.get? uid = some owner) :
    ∃ tracked, (t.replace work manifestWork applied).2.works.get? owner = some tracked ∧
      tracked.applied.contains uid = true := by
  rw [owners_replace] at hown
  split at hown
  · rename_i hadd
    cases hown
    obtain ⟨r, hr, rfl⟩ := List.mem_map.mp hadd
    have hin := AppliedSet.contains_of_mem ((AppliedSet.mem_added_difference hc r).mp hr).1
    exact ⟨_, get?_replace_of_contains hin, hin⟩
  split at hown
  · split at hown
    · rename_i other hother
      split at hown
      · rw [Option.some.injEq] at hown
        subst hown
        obtain ⟨hne, tracked, hg, hlist⟩ :=
          (mem_otherClaimants h uid work other).mp (mem_of_leastText? hother)
        exact ⟨tracked, (get?_replace_of_ne hne).trans hg, hlist⟩
      · rename_i hwork
        obtain ⟨tracked, hg, hlist⟩ := h.owner_lists uid owner hown
        have hne : owner ≠ work := fun he => hwork (he ▸ hown)
        exact ⟨tracked, (get?_replace_of_ne hne).trans hg, hlist⟩
    · cases hown
  · rename_i hrem
    obtain ⟨tracked, hg, hlist⟩ := h.owner_lists uid owner hown
    by_cases ho : owner = work
    · subst ho
      have hin : applied.contains uid = true := by
        by_contra hnot
        obtain ⟨r, hr, hu⟩ := (AppliedSet.contains_eq_true_iff _ uid).mp hlist
        refine hrem (List.mem_map.mpr ⟨r, ?_, hu⟩)
        rw [AppliedSet.mem_removed_difference (h.clean_setOf owner), setOf_eq_of_get? hg, hu]
        exact ⟨hr, Bool.eq_false_iff.mpr hnot⟩
      exact ⟨_, get?_replace_of_contains hin, hin⟩
    · exact ⟨tracked, (get?_replace_of_ne ho).trans hg, hlist⟩

theorem lists_owned_replace (h : t.Sound) (hc : applied.Clean)
    (hl : (t.replace work manifestWork applied).2.Lists uid) :
    ∃ owner, (t.replace work manifestWork applied).2.owners.get? uid = some owner := by
  rw [owners_replace]
  split
  · exact ⟨work, rfl⟩
  rename_i hadd
  rcases (lists_replace t work manifestWork applied uid).mp hl with
    ha | ⟨other, tracked, hne, hg, hlist⟩
  · -- What the record kept had an owner before and keeps it.
    rw [if_neg (not_mem_removed_of_contains h ha)]
    obtain ⟨r, hr, rfl⟩ := (AppliedSet.contains_eq_true_iff applied uid).mp ha
    have hin : (t.setOf work).contains r.uid = true := by
      by_contra hnot
      refine hadd (List.mem_map.mpr ⟨r, ?_, rfl⟩)
      exact (AppliedSet.mem_added_difference hc r).mpr ⟨hr, Bool.eq_false_iff.mpr hnot⟩
    obtain ⟨r', hr', hu'⟩ := (AppliedSet.contains_eq_true_iff _ r.uid).mp hin
    exact h.lists_owned r.uid (hu' ▸ (stores_of_mem_setOf hr').lists)
  · obtain ⟨owner, hown⟩ := h.lists_owned uid ⟨other, tracked, hg, hlist⟩
    split
    · split
      · rename_i another hano
        split
        · exact ⟨another, rfl⟩
        · exact ⟨owner, hown⟩
      · rename_i hnone
        exact (hne ((otherClaimant?_eq_none_iff h uid work).mp hnone other tracked hg hlist)).elim
    · exact ⟨owner, hown⟩

theorem Sound.replace (h : t.Sound) (hc : applied.Clean) :
    (t.replace work manifestWork applied).2.Sound where
  distinct := by
    refine distinct_store ?_
    change (t.withdraw work _).2.works.Distinct
    rw [works_withdraw]
    exact h.distinct
  clean := by
    intro other tracked hg
    by_cases ho : other = work
    · rw [works_replace, if_pos ho.symm] at hg
      split at hg
      · cases hg
      · cases hg; exact hc
    · exact h.clean other tracked ((get?_replace_of_ne ho).symm.trans hg)
  owner_lists := fun _ _ hown => owner_lists_replace h hc hown
  lists_owned := fun _ hl => lists_owned_replace h hc hl

/-! ## Forgetting a record -/

theorem otherClaimants_erase (t : Tracker) (uid work : String) :
    ({ t with works := t.works.erase work } : Tracker).otherClaimants uid work =
      t.otherClaimants uid work := by
  simp only [otherClaimants, Table.erase, List.filter_filter]
  congr 2
  funext e
  by_cases he : e.1 = work <;> simp [he]

/-- Giving up a record's claims does not look at the record's own set. -/
theorem withdraw_erase (t : Tracker) (work : String) (entries : List AppliedResource) :
    ({ t with works := t.works.erase work } : Tracker).withdraw work entries =
      ((t.withdraw work entries).1,
        { (t.withdraw work entries).2 with
          works := (t.withdraw work entries).2.works.erase work }) := by
  induction entries generalizing t with
  | nil => rfl
  | cons e rest ih =>
      have hentry : ({ t with works := t.works.erase work } : Tracker).withdrawEntry work e =
          ((t.withdrawEntry work e).1,
            { (t.withdrawEntry work e).2 with
              works := (t.withdrawEntry work e).2.works.erase work }) := by
        simp only [withdrawEntry, otherClaimant?, otherClaimants_erase]
        split
        · split <;> rfl
        · rfl
      simp only [withdraw, hentry, ih]

theorem difference_empty (old : AppliedSet) :
    AppliedSet.difference old {} = { removed := old } := by
  unfold AppliedSet.difference
  split
  · rename_i he
    rw [he]
  split
  · rename_i ho
    rw [(AppliedSet.isEmpty_eq_true_iff old).mp ho]
  · rfl

/-- To forget a record is to store nothing for it. -/
theorem remove_eq_replace {tracked : TrackedWork} (hg : t.works.get? work = some tracked)
    (manifestWork : String) :
    t.remove work = (some (t.replace work manifestWork {}).1.removed,
      (t.replace work manifestWork {}).2) := by
  have hset : (t.appliedSet? work).getD {} = tracked.applied := setOf_eq_of_get? hg
  simp only [remove, hg, replace, hset, difference_empty, withdraw_erase]
  rfl

theorem remove_of_get?_eq_none (hg : t.works.get? work = none) : t.remove work = (none, t) := by
  simp only [remove, hg]

theorem works_remove (t : Tracker) (work other : String) :
    (t.remove work).2.works.get? other = if work = other then none else t.works.get? other := by
  cases hg : t.works.get? work with
  | none =>
      rw [remove_of_get?_eq_none hg]
      split
      · rename_i he
        rw [← he, hg]
      · rfl
  | some tracked =>
      rw [remove_eq_replace hg "", works_replace]
      rfl

theorem Sound.remove (h : t.Sound) (work : String) : (t.remove work).2.Sound := by
  cases hg : t.works.get? work with
  | none =>
      rw [remove_of_get?_eq_none hg]
      exact h
  | some tracked =>
      rw [remove_eq_replace hg ""]
      change (t.replace work "" {}).2.Sound
      exact h.replace .empty

/-! ## Owners -/

theorem Sound.isSome_owner_iff (h : t.Sound) (uid : String) :
    (t.ownerOf? uid).isSome = true ↔ t.Lists uid := by
  constructor
  · intro hsome
    cases hown : t.owners.get? uid with
    | none => simp [ownerOf?, hown] at hsome
    | some work =>
        obtain ⟨tracked, hg, hc⟩ := h.owner_lists uid work hown
        exact ⟨work, tracked, hg, hc⟩
  · intro hl
    obtain ⟨work, hown⟩ := h.lists_owned uid hl
    obtain ⟨tracked, hg, _⟩ := h.owner_lists uid work hown
    simp [ownerOf?, hown, hg]

/-! ## What one operation changes -/

/-- From `t` to `t'` the set of one record became `applied`, and `d` says so. -/
structure Changed (t t' : Tracker) (applied : AppliedSet) (d : AppliedSet.Difference) : Prop where
  stores : ∀ e, t'.Stores e → t.Stores e ∨ e ∈ applied.entries
  added : ∀ e ∈ d.added.entries, e ∈ applied.entries ∧ t'.Lists e.uid
  removed : ∀ e ∈ d.removed.entries, t.Stores e ∧ ¬ t'.Lists e.uid
  gains : ∀ uid, t'.Lists uid → t.Lists uid ∨ ∃ e ∈ d.added.entries, e.uid = uid
  losses : ∀ uid, t.Lists uid → t'.Lists uid ∨ ∃ e ∈ d.removed.entries, e.uid = uid

theorem changed_replace (h : t.Sound) (hc : applied.Clean) :
    t.Changed (t.replace work manifestWork applied).2 applied
      (t.replace work manifestWork applied).1 where
  stores := by
    rintro e ⟨other, tracked, hg, he⟩
    rw [works_replace] at hg
    split at hg
    · split at hg
      · cases hg
      · cases hg; exact Or.inr he
    · exact Or.inl ⟨other, tracked, hg, he⟩
  added := by
    intro e he
    have hin := ((mem_added_replace hc e).mp he).1
    refine ⟨hin, (lists_replace t work manifestWork applied e.uid).mpr (Or.inl ?_)⟩
    exact AppliedSet.contains_of_mem hin
  removed := by
    intro e he
    obtain ⟨hold, hnot⟩ := (mem_removed_replace h e).mp he
    exact ⟨stores_of_mem_setOf hold, hnot⟩
  gains := by
    intro uid hl
    rcases (lists_replace t work manifestWork applied uid).mp hl with
      ha | ⟨other, tracked, _, hg, hlist⟩
    · obtain ⟨e, he, rfl⟩ := (AppliedSet.contains_eq_true_iff applied uid).mp ha
      by_cases hold : (t.setOf work).contains e.uid = true
      · obtain ⟨e', he', hu⟩ := (AppliedSet.contains_eq_true_iff _ e.uid).mp hold
        exact Or.inl (hu ▸ (stores_of_mem_setOf he').lists)
      · exact Or.inr ⟨e, (mem_added_replace hc e).mpr ⟨he, Bool.eq_false_iff.mpr hold⟩, rfl⟩
    · exact Or.inl ⟨other, tracked, hg, hlist⟩
  losses := by
    rintro uid ⟨other, tracked, hg, hlist⟩
    by_cases hl : (t.replace work manifestWork applied).2.Lists uid
    · exact Or.inl hl
    · by_cases ho : other = work
      · subst ho
        obtain ⟨e, he, rfl⟩ := (AppliedSet.contains_eq_true_iff _ uid).mp hlist
        rw [← setOf_eq_of_get? hg] at he
        exact Or.inr ⟨e, (mem_removed_replace h e).mpr ⟨he, hl⟩, rfl⟩
      · exact (hl ⟨other, tracked, (get?_replace_of_ne ho).trans hg, hlist⟩).elim

theorem changed_remove (h : t.Sound) {released : AppliedSet}
    (hr : (t.remove work).1 = some released) :
    t.Changed (t.remove work).2 {} { removed := released } := by
  cases hg : t.works.get? work with
  | none =>
      rw [remove_of_get?_eq_none hg] at hr
      cases hr
  | some tracked =>
      have hreplace : t.Changed (t.replace work "" {}).2 {} (t.replace work "" {}).1 :=
        changed_replace h .empty
      rw [remove_eq_replace hg ""] at hr ⊢
      rw [Option.some.injEq] at hr
      subst hr
      have hadded : (t.replace work "" {}).1.added = {} := by
        rw [added_replace, difference_empty]
      exact ⟨hreplace.stores, fun _ he => absurd he List.not_mem_nil, hreplace.removed,
        fun uid hl => by simpa [hadded] using hreplace.gains uid hl, hreplace.losses⟩

end Tracker
end StatusRelay
