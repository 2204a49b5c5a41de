import StatusRelay.Proofs.World
import StatusRelay.Proofs.Writes

/-!
# What the log says of a record

A record is on the hub exactly if the log says last that it was made. A worker is overtaken when the
record was cleared after the worker looked for the object; a record is late if it was made by a
worker that had been overtaken.
-/
namespace StatusRelay

open Stage Ingest

namespace Note

/-- Whether a record was made or cleared. -/
def made (record : String) : Note → Option Bool
  | created _ r => if r = record then some true else none
  | cleared _ r => if r = record then some false else none
  | _ => none

/-- Whether a worker found an object, or a record was cleared. -/
def sighted (id : WorkerId) (record : String) : Note → Option Bool
  | found j _ => if j = id then some true else none
  | cleared _ r => if r = record then some false else none
  | _ => none

/-- Whether the key of some coordinates was queued for what is there, or because nothing is. -/
def wanted (kind : ResourceKind) (c : Coordinates) : Note → Option Bool
  | posted key =>
      if key = liveKey kind c then some true
      else if key = (liveKey kind c).intoDeleted then some false
      else none
  | _ => none

/-- The record was cleared since the worker last found an object. -/
def Overtaken (id : WorkerId) (record : String) (log : List Note) : Prop :=
  latest (sighted id record) log = some false

/-- The record was made by a worker that had been overtaken, and is as it was. -/
def Late (record : String) (log : List Note) : Prop :=
  ∃ before id after, log = before ++ created id record :: after ∧ Overtaken id record before ∧
    latest (made record) after = none

variable {p : Note → Option Bool} {log notes : List Note} {id : WorkerId} {record : String}
  {kind : ResourceKind} {c : Coordinates}

theorem latest_keep {b : Bool} (h : latest p log = some b)
    (hn : ∀ n ∈ notes, p n = none ∨ p n = some b) : latest p (log ++ notes) = some b := by
  rw [latest_append]
  by_cases hs : ∃ n ∈ notes, p n = some b
  · rw [latest_eq_some hn hs]
    rfl
  · have hnone : latest p notes = none := by
      refine latest_eq_none fun n hm => (hn n hm).resolve_right ?_
      exact fun he => hs ⟨n, hm, he⟩
    rw [hnone, h]
    rfl

theorem Overtaken.append (h : Overtaken id record log) (hn : ∀ key, found id key ∉ notes) :
    Overtaken id record (log ++ notes) := by
  refine latest_keep h ?_
  intro n hm
  cases n with
  | found j key =>
      refine Or.inl (if_neg ?_)
      intro he
      subst he
      exact hn key hm
  | cleared j r =>
      by_cases he : r = record
      · exact Or.inr (if_pos he)
      · exact Or.inl (if_neg he)
  | listed | dropped | acquired | released | posted | created => exact Or.inl rfl

theorem overtaken_cleared (j : WorkerId) : Overtaken id record (log ++ [cleared j record]) := by
  rw [Overtaken, latest_append]
  simp [latest, sighted]

theorem Late.append (h : Late record log) (hn : latest (made record) notes = none) :
    Late record (log ++ notes) := by
  obtain ⟨before, id, after, rfl, ho, ha⟩ := h
  refine ⟨before, id, after ++ notes, by simp, ho, ?_⟩
  rw [latest_append, hn, ha]
  rfl

theorem late_created (h : Overtaken id record log) : Late record (log ++ [created id record]) :=
  ⟨log, id, [], rfl, h, rfl⟩

/-- A late record is there. -/
theorem Late.made (h : Late record log) : latest (made record) log = some true := by
  obtain ⟨before, id, after, rfl, _, ha⟩ := h
  rw [latest_append, ← List.singleton_append, latest_append, ha]
  simp [latest, Note.made]

theorem intoDeleted_ne (key : ObjectKey) : liveKey kind c ≠ key.intoDeleted := by
  intro h
  have hd := congrArg ObjectKey.isDeleted h
  cases hd

end Note

open Note

variable {l : Lookups} {a a' : Agent} {id : WorkerId} {key : ObjectKey} {st st' : Stage}
  {notes log : List Note}

/-- The hub has a record of some name for the agent's cluster. -/
def Agent.Records (a : Agent) (name : String) : Prop :=
  (a.hub.records.get? (a.cluster, name)).isSome = true

/-- What a worker at a stage does to a record: nothing, or it makes it, or it clears it. -/
inductive Agent.Handles (a a' : Agent) (id : WorkerId) (name : String) (st : Stage) :
    List Note → Prop
  | keeps {notes : List Note} (hn : latest (made name) notes = none)
      (hr : a'.Records name ↔ a.Records name) : Handles a a' id name st notes
  | makes {o : Object} {record : WorkStatus} (hst : st = .creating o record)
      (hname : record.metadata.name.getD "" = name) (hr : ¬ a.Records name)
      (hr' : a'.Records name) : Handles a a' id name st [.created id name]
  | clears (hst : st = .looking name ∨ st = .erasing name) (hr' : ¬ a'.Records name) :
      Handles a a' id name st [.cleared id name]

theorem Agent.records_of_rewrote {name other : String} {record : WorkStatus}
    (h : a.Rewrote a' (a.hub.records.insert (a.cluster, name) record)) :
    a'.Records other ↔ name = other ∨ a.Records other := by
  obtain ⟨hub, rfl, hr, _⟩ := h
  simp only [Records, hr, Table.get?_insert]
  by_cases he : name = other
  · simp [he]
  · simp [he]

/-- A record that is written again was there before. -/
theorem Agent.records_of_rewrote_old {name : String} {record old : WorkStatus}
    (h : a.Rewrote a' (a.hub.records.insert (a.cluster, name) record))
    (hold : a.hub.records.get? (a.cluster, name) = some old) (other : String) :
    a'.Records other ↔ a.Records other := by
  rw [records_of_rewrote h]
  refine ⟨?_, Or.inr⟩
  rintro (rfl | hr)
  · rw [Records, hold]
    rfl
  · exact hr

theorem Agent.records_of_failsTo {α : Type} {v : Except AgentError α} (h : a.FailsTo a' v)
    (name : String) : a'.Records name ↔ a.Records name := by
  obtain ⟨e, _, _, hub, rfl, hr, _⟩ := h
  simp only [Records, hr]

theorem ofAnswer_delete {last : Bool} {cluster name : String} {v : Except AgentError Unit}
    (hv : v = .ok () ∨ ∃ e, v = .error e ∧ e.isNotFound = true) :
    ofAnswer id key last (.hub (.delete cluster name)) v = [.cleared id name] := by
  rcases hv with rfl | ⟨e, rfl, he⟩
  · rfl
  · simp [ofAnswer, he]

theorem Answered.handles (h : Answered l a id key st st' a' notes) (name : String) :
    a.Handles a' id name st notes := by
  cases h with
  | leads h =>
      cases h with
      | clear r hr =>
          by_cases he : r = name
          · subst he
            exact .clears (Or.inl rfl) (by simp [Agent.Records, hr])
          · exact .keeps (by simp [latest, made, he]) Iff.rfl
      | present | presentWork => exact .keeps rfl Iff.rfl
      | _ => exact .keeps rfl Iff.rfl
  | creates o record h =>
      rcases h.creates with hf | ⟨version, rfl, hnone, hw⟩
      · have hr := Agent.records_of_failsTo hf name
        obtain ⟨e, rfl, _⟩ := hf
        exact .keeps rfl hr
      · by_cases he : record.metadata.name.getD "" = name
        · subst he
          refine .makes rfl rfl ?_ ((Agent.records_of_rewrote hw).mpr (Or.inl rfl))
          simp [Agent.Records, hnone]
        · refine .keeps (by simp [latest, ofAnswer, made, he]) ?_
          rw [Agent.records_of_rewrote hw]
          exact ⟨fun h => h.resolve_left he, Or.inr⟩
  | patches o record label h =>
      rcases h.patches with hf | ⟨old, version, rfl, hold, hw⟩
      · exact .keeps rfl (Agent.records_of_failsTo hf name)
      · exact .keeps rfl (Agent.records_of_rewrote_old hw hold name)
  | updates record status h =>
      rcases h.updates with hf | ⟨old, version, rfl, hold, hw⟩
      · exact .keeps rfl (Agent.records_of_failsTo hf name)
      · exact .keeps rfl (Agent.records_of_rewrote_old hw hold name)
  | @erases r v _ h =>
      rcases h.erases with
        ⟨e, rfl, _, hnot, hub, rfl, hr, _⟩ | ⟨hv, records, ⟨hub, rfl, hr, _⟩, hg⟩
      · refine .keeps (by simp [ofAnswer, hnot, latest]) ?_
        simp only [Agent.Records, hr]
      · rw [ofAnswer_delete hv]
        by_cases he : r = name
        · subst he
          exact .clears (Or.inr rfl) (by simp [Agent.Records, hr, hg])
        · refine .keeps (by simp [latest, made, he]) ?_
          simp [Agent.Records, hr, hg, he]
  | replaces | removes =>
      refine .keeps (latest_eq_none ?_) Iff.rfl
      intro n hn
      obtain ⟨uid, rfl | rfl⟩ := Note.mem_ofChanges hn <;> rfl
  | acquires | releases | posts => exact .keeps rfl Iff.rfl

/-- What a turn does to a record. -/
theorem Turned.handles {c : Crew} {x x' : Hand} (t : Turned l c.agent id x x' a' notes)
    (hx : c.hands[id]? = some x) (name : String) :
    (latest (made name) notes = none ∧ (a'.Records name ↔ c.agent.Records name)) ∨
      ∃ key stage, c.Busy id key stage ∧ c.agent.Handles a' id name stage notes := by
  rcases t.answered with ⟨rfl, _, _, rfl⟩ | ⟨key, st, st', p, rfl, _, ha⟩
  · exact Or.inl ⟨rfl, Iff.rfl⟩
  · exact Or.inr ⟨key, st, ⟨p, hx⟩, ha.handles name⟩

/-- The hub has the records that the log says last to have been made. -/
def Recorded (c : Crew) (log : List Note) : Prop :=
  ∀ name, c.agent.Records name ↔ latest (made name) log = some true

theorem recorded_start (cluster : String) (timeout : Duration) (limiter : Limiter ObjectKey)
    (manifestWorks : Table RecordKey ManifestWork) (workers : Nat) :
    Recorded (.start (.fresh cluster timeout limiter manifestWorks) workers) [] := by
  intro name
  constructor
  · intro h
    cases h
  · intro h
    cases h

theorem made_map_posted (name : String) (keys : List ObjectKey) :
    latest (made name) (keys.map Note.posted) = none := by
  refine latest_eq_none ?_
  intro n hn
  obtain ⟨k, _, rfl⟩ := List.mem_map.mp hn
  rfl

theorem Recorded.step {c c' : Crew} {m : Move} (h : Recorded c log)
    (s : Crew.Step l c m c' notes) : Recorded c' (log ++ notes) := by
  intro name
  rw [latest_append]
  cases s with
  | @turn id x x' a' _ hx t =>
      rcases t.handles hx name with ⟨hn, hr⟩ | ⟨key, stage, _, hhandles⟩
      · rw [hn, Option.none_or]
        exact hr.trans (h name)
      · cases hhandles with
        | keeps hn hr =>
            rw [hn, Option.none_or]
            exact hr.trans (h name)
        | makes _ _ _ hr' => exact ⟨fun _ => by simp [latest, made], fun _ => hr'⟩
        | clears _ hr' => exact ⟨fun hr => absurd hr hr', fun he => by simp [latest, made] at he⟩
  | work | object =>
      rw [made_map_posted, Option.none_or]
      exact h name
  | fire | mood | pass | still => exact h name

end StatusRelay
