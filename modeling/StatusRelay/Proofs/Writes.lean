import StatusRelay.Proofs.Hands

/-!
# Writes to the hub

A write succeeds and changes one record, or it fails with an error for which it is tried again, and
then all records are as they were. Only creating a record makes one and only deleting removes one.
-/
namespace StatusRelay

/-- The hub changed, but only in its records. -/
def Agent.Rewrote (a a' : Agent) (records : Table RecordKey WorkStatus) : Prop :=
  ∃ hub : Hub, a' = { a with hub := hub } ∧ hub.records = records ∧
    hub.manifestWorks = a.hub.manifestWorks

/-- How a write fails. -/
def Agent.FailsTo (a a' : Agent) {α : Type} (v : Except AgentError α) : Prop :=
  ∃ e, v = .error e ∧ e.isRetryable = true ∧ a.Rewrote a' a.hub.records

namespace Wrote

variable {a a' : Agent} {name label : String} {record : WorkStatus}

theorem failsTo_timeout {α : Type} (a : Agent) (what : String) :
    a.FailsTo a (.error (.hubTimeout what) : Except AgentError α) :=
  ⟨_, rfl, rfl, a.hub, rfl, rfl, rfl⟩

/-- A hub that refuses writes refuses them all. -/
theorem failsTo_of_failWrites {c : HubCall} (hc : c.isWrite = true)
    (hf : a.hub.failWrites = true) : a.FailsTo (a.perform c).2 (a.perform c).1 := by
  have hp : a.hub.perform c = (HubCall.fail (.unavailable "injected write failure") c, a.hub) := by
    unfold Hub.perform
    rw [hc, hf]
    rfl
  refine ⟨.hub (.unavailable "injected write failure"), ?_, rfl, a.hub, ?_, rfl, rfl⟩ <;>
    rw [Agent.perform, hp]
  cases c <;> rfl

theorem eq_perform_or_timeout {c : HubCall} {v : Except AgentError c.Answer} (h : Wrote a c v a') :
    (v = (a.perform c).1 ∧ a' = (a.perform c).2) ∨
      v = .error (.hubTimeout c.describe) ∧ a' = a := by
  cases h with
  | effect => exact Or.inl ⟨rfl, rfl⟩
  | timeout => exact Or.inr ⟨rfl, rfl⟩

/-- A write fails, or the hub takes writes and does it. -/
theorem fails_or_performed {c : HubCall} {v : Except AgentError c.Answer} (hc : c.isWrite = true)
    (h : Wrote a c v a') : a.FailsTo a' v ∨
      a.hub.failWrites = false ∧ v = (a.perform c).1 ∧ a' = (a.perform c).2 := by
  obtain ⟨rfl, rfl⟩ | ⟨rfl, rfl⟩ := h.eq_perform_or_timeout
  · cases hf : a.hub.failWrites with
    | true => exact Or.inl (failsTo_of_failWrites hc hf)
    | false => exact Or.inr ⟨rfl, rfl, rfl⟩
  · exact Or.inl (failsTo_timeout _ _)

theorem creates {v : Except AgentError WorkStatus}
    (h : Wrote a (HubCall.create a.cluster record) v a') :
    a.FailsTo a' v ∨ ∃ version, v = .ok ((record.setNs a.cluster).setVersion version) ∧
      a.hub.records.get? (a.cluster, record.metadata.name.getD "") = none ∧
      a.Rewrote a' (a.hub.records.insert (a.cluster, record.metadata.name.getD "")
        ((record.setNs a.cluster).setVersion version)) := by
  rcases h.fails_or_performed rfl with hfails | ⟨hf, rfl, rfl⟩
  · exact Or.inl hfails
  · simp only [Agent.perform, Hub.perform, HubCall.isWrite, hf, Bool.and_false,
      Bool.false_eq_true, if_false, Hub.create, Hub.bump, Table.contains_eq_isSome]
    cases hg : a.hub.records.get? (a.cluster, record.metadata.name.getD "") with
    | some old => exact Or.inl ⟨_, rfl, rfl, _, rfl, rfl, rfl⟩
    | none => exact Or.inr ⟨_, rfl, rfl, _, rfl, rfl, rfl⟩

theorem patches {labels : Labels} {v : Except AgentError WorkStatus}
    (h : Wrote a (HubCall.patchLabels a.cluster name labels) v a') :
    a.FailsTo a' v ∨ ∃ old version,
      v = .ok ((old.mergeLabels labels).setVersion version) ∧
      a.hub.records.get? (a.cluster, name) = some old ∧
      a.Rewrote a' (a.hub.records.insert (a.cluster, name)
        ((old.mergeLabels labels).setVersion version)) := by
  rcases h.fails_or_performed rfl with hfails | ⟨hf, rfl, rfl⟩
  · exact Or.inl hfails
  · simp only [Agent.perform, Hub.perform, HubCall.isWrite, hf, Bool.and_false,
      Bool.false_eq_true, if_false, Hub.patchLabels, Hub.bump]
    cases hg : a.hub.records.get? (a.cluster, name) with
    | none => exact Or.inl ⟨_, rfl, rfl, _, rfl, rfl, rfl⟩
    | some old => exact Or.inr ⟨old, _, rfl, rfl, _, rfl, rfl, rfl⟩

theorem updates {update : WorkStatus} {v : Except AgentError WorkStatus}
    (h : Wrote a (HubCall.updateStatus a.cluster update) v a') :
    a.FailsTo a' v ∨ ∃ old version,
      v = .ok ((old.setStatus update.status).setVersion version) ∧
      a.hub.records.get? (a.cluster, update.metadata.name.getD "") = some old ∧
      a.Rewrote a' (a.hub.records.insert (a.cluster, update.metadata.name.getD "")
        ((old.setStatus update.status).setVersion version)) := by
  rcases h.fails_or_performed rfl with hfails | ⟨hf, rfl, rfl⟩
  · exact Or.inl hfails
  · simp only [Agent.perform, Hub.perform, HubCall.isWrite, hf, Bool.and_false,
      Bool.false_eq_true, if_false, Hub.updateStatus, Hub.bump]
    cases hg : a.hub.records.get? (a.cluster, update.metadata.name.getD "") with
    | none => exact Or.inl ⟨_, rfl, rfl, _, rfl, rfl, rfl⟩
    | some old =>
        simp only
        cases Hub.mayReplace update old with
        | true => exact Or.inr ⟨old, _, rfl, rfl, _, rfl, rfl, rfl⟩
        | false => exact Or.inl ⟨_, rfl, rfl, _, rfl, rfl, rfl⟩

theorem erases {v : Except AgentError Unit} (h : Wrote a (HubCall.delete a.cluster name) v a') :
    (∃ e, v = .error e ∧ e.isRetryable = true ∧ e.isNotFound = false ∧
        a.Rewrote a' a.hub.records) ∨
      (v = .ok () ∨ ∃ e, v = .error e ∧ e.isNotFound = true) ∧
        ∃ records, a.Rewrote a' records ∧ ∀ key, records.get? key =
          if (a.cluster, name) = key then none else a.hub.records.get? key := by
  obtain ⟨rfl, rfl⟩ | ⟨rfl, rfl⟩ := h.eq_perform_or_timeout
  · cases hf : a.hub.failWrites with
    | true =>
        simp only [Agent.perform, Hub.perform, HubCall.isWrite, hf, Bool.and_self, if_true]
        exact Or.inl ⟨_, rfl, rfl, rfl, _, rfl, rfl, rfl⟩
    | false =>
        simp only [Agent.perform, Hub.perform, HubCall.isWrite, hf, Bool.and_false,
          Bool.false_eq_true, if_false, Hub.delete, Table.contains_eq_isSome]
        cases hg : a.hub.records.get? (a.cluster, name) with
        | none =>
            refine Or.inr ⟨Or.inr ⟨_, rfl, rfl⟩, _, ⟨_, rfl, rfl, rfl⟩, ?_⟩
            intro key
            by_cases hk : (a.cluster, name) = key
            · rw [if_pos hk, ← hk]
              exact hg
            · rw [if_neg hk]
              rfl
        | some old =>
            exact Or.inr ⟨Or.inl rfl, _, ⟨_, rfl, rfl, rfl⟩, Table.get?_erase _ _⟩
  · exact Or.inl ⟨_, rfl, rfl, rfl, _, rfl, rfl, rfl⟩

end Wrote
end StatusRelay
