import StatusRelay.Proofs.Upkeep

/-!
# The status in the record

A sync copies the status of the object over the one in the record. But of an object without a status
it takes it that there is none yet, and leaves the record alone: the status that an earlier object
or an earlier version of it had stays there. So the two are the same after a sync exactly if the
object has a status or the record had none before.
-/
namespace StatusRelay

open Projector WorkStatus

variable {o : Object} {r : WorkStatus}

/-- The record has the object's status, or one that counts as the same; or neither has one. -/
def WorkStatus.Copies (o : Object) (r : WorkStatus) : Prop :=
  r.status = o.status ∨ (r.status == o.status) = true

theorem WorkStatus.status_touchLabel (o : Object) (r : WorkStatus) :
    (touchLabel o r).status = r.status := by
  unfold touchLabel
  split
  · rfl
  · split <;> rfl

/-- What a sync makes of a record has the object's status, but for one case. -/
theorem WorkStatus.copies_touched_iff :
    (touched o r).Copies o ↔ o.status.isSome = true ∨ r.status = none := by
  unfold touched touchStatus
  cases ho : o.status with
  | none =>
      have hcopies : (touchLabel o r).Copies o ↔ (touchLabel o r).status = none := by
        unfold Copies
        rw [ho]
        cases (touchLabel o r).status with
        | none => simp
        | some status =>
            have hne : (some status == (none : Option Json)) = false := rfl
            simp [hne]
      dsimp only
      rw [hcopies, status_touchLabel]
      simp
  | some status =>
      refine ⟨fun _ => Or.inl rfl, fun _ => ?_⟩
      dsimp only
      split
      · rename_i hs
        refine Or.inr ?_
        rw [ho]
        unfold holds at hs
        cases hr : (touchLabel o r).status with
        | none => simp [hr] at hs
        | some held =>
            rw [hr] at hs
            exact hs
      · exact Or.inl ho.symm

/-- The status of the record before, if there was one, decides what a sync of an object without a
status leaves in it. -/
theorem Hub.Upshot.copies_iff {h h' : Hub} {l : Lookups} {cluster : String} {kind : ResourceKind}
    {owner : TrackedOwner} {best : Prop} {record : WorkStatus}
    (hs : h.Upshot (cluster, recordNameOf o kind) (h.basis? l cluster o kind owner) o best
      (.ok ()) h')
    (hg : h'.records.get? (cluster, recordNameOf o kind) = some record) :
    record.Copies o ↔ o.status.isSome = true ∨
      ∀ old, h.records.get? (cluster, recordNameOf o kind) = some old → old.status = none := by
  cases hs with
  | @done record? _ hb hl =>
      cases record? with
      | none =>
          cases hg.symm.trans hl.get?_none
      | some basis =>
          have hstatus : record.status = (touched o basis).status :=
            congrArg (·.status) (hl.unversioned_eq hg)
          have hcopies : record.Copies o ↔ (touched o basis).Copies o := by
            rw [Copies, Copies, hstatus]
          have hbasis : basis.status = none ↔
              ∀ old, h.records.get? (cluster, recordNameOf o kind) = some old →
                old.status = none := by
            unfold Hub.basis? at hb
            cases hold : h.records.get? (cluster, recordNameOf o kind) with
            | some old =>
                rw [hold] at hb
                cases hb
                simp
            | none =>
                rw [hold] at hb
                obtain ⟨work, resource, _, _, rfl⟩ := Hub.drafts?_eq_some hb
                have hnew : (newRecord cluster o kind work resource.plural).status = none := rfl
                simp [hnew]
          rw [hcopies, copies_touched_iff, hbasis]

/-- After a sync that succeeds the record, if there is one, has the object's status exactly if the
object has a status or no record was there before that had one. -/
theorem status_copied_iff (l : Lookups) (a : Agent) (history : List Deed) (weather : List Weather)
    (cluster : String) (o : Object) (kind : ResourceKind) (owner : TrackedOwner) :
    let start := Scene.start a history (weather.map Weather.gap)
    let synced := start.attempt l (Projector.sync cluster o kind owner)
    let key := (cluster, (o.identity kind).record)
    ∀ record, synced.1 = .ok () → synced.2.hub.records.get? key = some record →
      (record.Copies o ↔ o.status.isSome = true ∨
        ∀ old, start.hub.records.get? key = some old → old.status = none) := by
  intro start synced key record hok hg
  have halone : start.Alone False := Scene.alone_start a history weather
  have hsynced : start.Syncs l cluster o kind owner synced.1 synced.2 := Scene.syncs ..
  clear_value synced
  have hs := (hsynced.alone halone (Hub.sound_after history)).2
  rw [hok] at hs
  exact hs.copies_iff hg

/-! ## A dial that goes blank -/

namespace Dials

def key : RecordKey := ("c1", recordName "Dial" "n" "d")

def start : Scene := .start agent [.addManifestWork work] []

/-- The dial stands at one, and its record is made. -/
def shown : Except AgentError Unit × Scene :=
  start.attempt lookups (Projector.sync "c1" (dial (some (.int 1))) dials.resourceKind owner)

/-- The dial has no status any more. -/
def blanked : Except AgentError Unit × Scene :=
  shown.2.attempt lookups (Projector.sync "c1" (dial none) dials.resourceKind owner)

theorem shown_ok : shown.1 = .ok () := by decide +kernel

theorem isSome_shown : (shown.2.hub.records.get? key).isSome = true := by decide +kernel

theorem copies_shown : ∃ record, shown.2.hub.records.get? key = some record ∧
    record.Copies (dial (some (.int 1))) := by
  have hg := (Option.some_get isSome_shown).symm
  exact ⟨_, hg, (status_copied_iff lookups agent [.addManifestWork work] [] "c1"
    (dial (some (.int 1))) dials.resourceKind owner _ shown_ok hg).mpr (Or.inl rfl)⟩

/-- The status of a dial that has none any more stays in its record, although the sync succeeds. -/
theorem status_of_blank_dial : blanked.1 = .ok () ∧ (dial none).status.isNone = true ∧
    (blanked.2.hub.records.get? key).any (fun record => record.status.isSome) = true := by
  refine ⟨?_, rfl, ?_⟩
  · decide +kernel
  · decide +kernel

end Dials

end StatusRelay
