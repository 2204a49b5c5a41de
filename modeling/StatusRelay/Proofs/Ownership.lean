import StatusRelay.Proofs.TrackedSets
import Mathlib.Data.Finset.Dedup
import Mathlib.Data.Finset.Card

/-!
# Whose the tracked objects are

Sets are stored and records forgotten in any order. At all times the index of owners and the stored
sets say the same: the UIDs with an owner are those that some stored set lists, each owner is one of
the records that list the UID, and no record is kept for an empty set. A call reports the difference
that it made, in the order of the sets: as added the entries that are new to the record's own set, as
removed those of its old set that no stored set lists any more. So the call that reports a UID as
removed is the one with which the last record that lists it drops it.
-/
namespace StatusRelay.Tracker

variable {t : Tracker} {work manifestWork uid : String} {applied : AppliedSet}

/-- All UIDs that the stored sets list. -/
def listed (t : Tracker) : Finset String :=
  (t.works.values.flatMap fun tracked => tracked.applied.uids).toFinset

theorem mem_listed_iff (h : t.works.Distinct) (uid : String) : uid ∈ t.listed ↔ t.Lists uid := by
  simp only [listed, List.mem_toFinset, List.mem_flatMap, Table.mem_values_iff h]
  constructor
  · intro hm
    obtain ⟨tracked, ⟨work, hg⟩, hu⟩ := hm
    exact ⟨work, tracked, hg, List.contains_iff_mem.mpr hu⟩
  · intro hl
    obtain ⟨work, tracked, hg, hc⟩ := hl
    exact ⟨tracked, ⟨work, hg⟩, List.contains_iff_mem.mp hc⟩

/-! ## One owner for each UID -/

theorem distinct_withdraw (h : t.owners.Distinct) (work : String)
    (entries : List AppliedResource) : (t.withdraw work entries).2.owners.Distinct := by
  induction entries generalizing t with
  | nil => exact h
  | cons e rest ih =>
      have hentry : (t.withdrawEntry work e).2.owners.Distinct := by
        unfold withdrawEntry
        split
        · split
          · exact h.insert e.uid _
          · exact h
        · exact h.erase e.uid
      exact ih hentry

theorem distinct_claim (h : t.owners.Distinct) (work : String)
    (entries : List AppliedResource) : (t.claim work entries).owners.Distinct := by
  induction entries generalizing t with
  | nil => exact h
  | cons e rest ih =>
      exact ih (t := { t with owners := t.owners.insert e.uid work }) (h.insert e.uid work)

theorem distinct_replace (h : t.owners.Distinct) (work manifestWork : String)
    (applied : AppliedSet) : (t.replace work manifestWork applied).2.owners.Distinct := by
  simp only [replace, owners_store]
  exact distinct_claim (distinct_withdraw h work _) work _

theorem distinct_remove (h : t.owners.Distinct) (work : String) :
    (t.remove work).2.owners.Distinct := by
  cases hg : t.works.get? work with
  | none =>
      rw [remove_of_get?_eq_none hg]
      exact h
  | some tracked =>
      rw [remove_eq_replace hg ""]
      exact distinct_replace h work "" {}

/-! ## The stored sets after a call -/

theorem setOf_replace (t : Tracker) (work manifestWork : String) (applied : AppliedSet)
    (other : String) :
    (t.replace work manifestWork applied).2.setOf other =
      if work = other then applied else t.setOf other := by
  simp only [setOf, appliedSet?, works_replace]
  by_cases ho : work = other
  · rw [if_pos ho, if_pos ho]
    by_cases he : applied.isEmpty = true
    · have hempty : applied = {} := (AppliedSet.isEmpty_eq_true_iff applied).mp he
      subst hempty
      rfl
    · rw [if_neg he]
      rfl
  · rw [if_neg ho, if_neg ho]

/-- No record is kept for an empty set. -/
def Filled (t : Tracker) : Prop :=
  ∀ work tracked, t.works.get? work = some tracked → tracked.applied.isEmpty = false

theorem Filled.replace (h : t.Filled) (work manifestWork : String) (applied : AppliedSet) :
    (t.replace work manifestWork applied).2.Filled := by
  intro other tracked hg
  rw [works_replace] at hg
  split at hg
  · split at hg
    · cases hg
    · rename_i he
      cases hg
      exact Bool.eq_false_iff.mpr he
  · exact h other tracked hg

theorem Filled.remove (h : t.Filled) (work : String) : (t.remove work).2.Filled := by
  intro other tracked hg
  rw [works_remove] at hg
  split at hg
  · cases hg
  · exact h other tracked hg

/-! ## Calls -/

inductive Call where
  | replace (work manifestWork : String) (resources : List AppliedResource)
  | remove (work : String)
  deriving Repr

namespace Call

/-- The record that the call is about. -/
def record : Call → String
  | replace work _ _ => work
  | remove work => work

/-- The set that the record has after the call. -/
def set : Call → AppliedSet
  | replace _ _ resources => .ofResources resources
  | remove _ => {}

/-- What the call reports, and the tracker after it. Forgetting a record adds nothing to its set. -/
def perform (t : Tracker) : Call → AppliedSet.Difference × Tracker
  | replace work manifestWork resources => t.replace work manifestWork (.ofResources resources)
  | remove work => ({ removed := (t.remove work).1.getD {} }, (t.remove work).2)

end Call

/-- The tracker after some calls. -/
def run (t : Tracker) (calls : List Call) : Tracker :=
  calls.foldl (fun t c => (c.perform t).2) t

/-- The index of owners says what the stored sets say. -/
structure Mirrors (t : Tracker) : Prop where
  tracked : ∀ uid, t.isTracked uid = true ↔ t.Lists uid
  owned : ∀ uid, (t.ownerOf? uid).isSome = t.isTracked uid
  owner : ∀ uid owner, t.ownerOf? uid = some owner → ∃ tracked,
    t.works.get? owner.appliedWork = some tracked ∧ tracked.manifestWork = owner.manifestWork ∧
      tracked.applied.contains uid = true
  count : t.trackedCount = t.listed.card
  filled : t.Filled

/-- From `t` to `t'` the set of one record became `applied`, and `d` reports the difference. -/
structure Reported (t t' : Tracker) (work : String) (applied : AppliedSet)
    (d : AppliedSet.Difference) : Prop where
  stored : ∀ other, t'.setOf other = if work = other then applied else t.setOf other
  added : d.added.entries = applied.entries.filter fun e => !(t.setOf work).contains e.uid
  removed : d.removed.entries = (t.setOf work).entries.filter fun e => decide (e.uid ∉ t'.listed)
  dropped : ∀ uid, d.removed.contains uid = true ↔ t.Lists uid ∧ ¬ t'.Lists uid

/-! ### One call -/

theorem owner_of_ownerOf? {owner : TrackedOwner} (h : t.ownerOf? uid = some owner) :
    t.owners.get? uid = some owner.appliedWork ∧ ∃ tracked,
      t.works.get? owner.appliedWork = some tracked ∧
        tracked.manifestWork = owner.manifestWork := by
  simp only [ownerOf?, Option.bind_eq_bind, Option.bind_eq_some_iff] at h
  obtain ⟨work, hown, tracked, hg, he⟩ := h
  cases he
  exact ⟨hown, tracked, hg, rfl⟩

theorem Sound.mirrors (h : t.Sound) (ho : t.owners.Distinct) (hf : t.Filled) : t.Mirrors := by
  have htracked : ∀ uid, t.isTracked uid = true ↔ t.Lists uid := by
    intro uid
    constructor
    · intro hu
      obtain ⟨work, hown⟩ := Option.isSome_iff_exists.mp hu
      exact ⟨work, h.owner_lists uid work hown⟩
    · intro hl
      obtain ⟨work, hown⟩ := h.lists_owned uid hl
      exact Option.isSome_iff_exists.mpr ⟨work, hown⟩
  refine ⟨htracked, ?_, ?_, ?_, hf⟩
  · intro uid
    rw [Bool.eq_iff_iff, h.isSome_owner_iff, htracked]
  · intro uid owner hown
    obtain ⟨hget, tracked, hg, hm⟩ := owner_of_ownerOf? hown
    obtain ⟨tracked', hg', hc⟩ := h.owner_lists uid owner.appliedWork hget
    rw [hg] at hg'
    cases hg'
    exact ⟨tracked, hg, hm, hc⟩
  · have hkeys : t.owners.keys.toFinset = t.listed := by
      ext uid
      rw [List.mem_toFinset, Table.mem_keys_iff, mem_listed_iff h.distinct, ← htracked]
      rfl
    have hcard : t.owners.keys.toFinset.card = t.owners.keys.length :=
      List.toFinset_card_of_nodup ho
    rw [← hkeys, hcard]
    exact (List.length_map _).symm

/-- Whatever a record drops and nobody else lists is reported, and nothing else. -/
theorem contains_removed_replace (h : t.Sound) (hc : applied.Clean) (uid : String) :
    (t.replace work manifestWork applied).1.removed.contains uid = true ↔
      t.Lists uid ∧ ¬ (t.replace work manifestWork applied).2.Lists uid := by
  have hchanged : t.Changed (t.replace work manifestWork applied).2 applied
      (t.replace work manifestWork applied).1 := changed_replace h hc
  rw [AppliedSet.contains_eq_true_iff]
  constructor
  · intro hr
    obtain ⟨e, he, hu⟩ := hr
    obtain ⟨hstored, hgone⟩ := hchanged.removed e he
    rw [← hu]
    exact ⟨hstored.lists, hgone⟩
  · intro hl
    exact (hchanged.losses uid hl.1).resolve_left hl.2

theorem reported_replace (h : t.Sound) (hc : applied.Clean) :
    t.Reported (t.replace work manifestWork applied).2 work applied
      (t.replace work manifestWork applied).1 where
  stored := setOf_replace t work manifestWork applied
  added := by
    rw [added_replace, AppliedSet.added_difference hc]
  removed := by
    rw [removed_replace h]
    refine List.filter_congr ?_
    intro e he
    have hmem : e ∈ (t.replace work manifestWork applied).1.removed.entries ↔
        e.uid ∉ (t.replace work manifestWork applied).2.listed := by
      rw [mem_removed_replace h, mem_listed_iff (h.replace hc).distinct]
      exact and_iff_right he
    rw [removed_replace h, List.mem_filter, and_iff_right he] at hmem
    rw [Bool.eq_iff_iff, hmem, decide_eq_true_iff]
  dropped := contains_removed_replace h hc

theorem Call.reported (h : t.Sound) (c : Call) :
    t.Reported (c.perform t).2 c.record c.set (c.perform t).1 := by
  cases c with
  | replace work manifestWork resources =>
      exact reported_replace h (AppliedSet.clean_ofResources resources)
  | remove work =>
      cases hg : t.works.get? work with
      | none =>
          have hnone : t.setOf work = {} := by simp [setOf, appliedSet?, hg]
          simp only [perform, remove_of_get?_eq_none hg, Option.getD_none]
          refine ⟨?_, rfl, ?_, ?_⟩
          · intro other
            change t.setOf other = if work = other then {} else t.setOf other
            split
            · rename_i ho
              rw [← ho, hnone]
            · rfl
          · change [] = (t.setOf work).entries.filter _
            rw [hnone]
            rfl
          · intro uid
            constructor
            · intro hu
              cases hu
            · intro hl
              exact absurd hl.1 hl.2
      | some tracked =>
          have hr : t.Reported (t.replace work "" {}).2 work {} (t.replace work "" {}).1 :=
            reported_replace h .empty
          simp only [perform, remove_eq_replace hg "", Option.getD_some]
          exact ⟨hr.stored, rfl, hr.removed, hr.dropped⟩

theorem Call.sound (h : t.Sound) (c : Call) : (c.perform t).2.Sound := by
  cases c with
  | replace work manifestWork resources => exact h.replace (AppliedSet.clean_ofResources resources)
  | remove work => exact h.remove work

theorem remove_eq_none_iff (t : Tracker) (work : String) :
    (t.remove work).1 = none ↔ t.works.get? work = none := by
  cases hg : t.works.get? work with
  | none => simp [remove_of_get?_eq_none hg]
  | some tracked => simp [remove_eq_replace hg ""]

/-! ### All histories -/

theorem kept_run (calls : List Call) (h : t.Sound ∧ t.owners.Distinct ∧ t.Filled) :
    (t.run calls).Sound ∧ (t.run calls).owners.Distinct ∧ (t.run calls).Filled := by
  induction calls generalizing t with
  | nil => exact h
  | cons c rest ih =>
      obtain ⟨hs, ho, hf⟩ := h
      apply ih
      refine ⟨c.sound hs, ?_, ?_⟩
      · cases c with
        | replace work manifestWork resources => exact distinct_replace ho work manifestWork _
        | remove work => exact distinct_remove ho work
      · cases c with
        | replace work manifestWork resources => exact hf.replace work manifestWork _
        | remove work => exact hf.remove work

/-- After any calls the index mirrors the stored sets, and the next call, whatever it is, reports
exactly what it changes; only forgetting a record that is not there reports that there is none. -/
theorem index_mirrors_sets (calls : List Call) :
    (run {} calls).Mirrors ∧
      (∀ c : Call, (run {} calls).Reported (c.perform (run {} calls)).2 c.record c.set
        (c.perform (run {} calls)).1) ∧
      ∀ work, ((run {} calls).remove work).1 = none ↔ (run {} calls).works.get? work = none := by
  have hempty : ({} : Tracker).Filled := by
    intro work tracked hg
    cases hg
  obtain ⟨hs, ho, hf⟩ := kept_run calls ⟨sound_empty, Table.distinct_empty, hempty⟩
  exact ⟨hs.mirrors ho hf, fun c => c.reported hs, remove_eq_none_iff _⟩

end StatusRelay.Tracker
