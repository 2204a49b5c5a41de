import StatusRelay.Proofs.Hands
import StatusRelay.Proofs.Holders
import StatusRelay.Proofs.Relisting
import StatusRelay.Proofs.TrackedSets

/-!
# Runs of a crew

A crew is an agent and what its workers have in hand. Every move of a floor is a `Step` of the crew
behind it, so `Crew.run` carries an invariant of steps through all runs. `Crew.Sound` is the one
that everything else needs: the parts of the agent are sound, and a key in hand is marked as being
processed and in no other hand.
-/
namespace StatusRelay

open Stage

namespace Agent

/-- Whether a key that ended so is tried again. -/
def retries : Except AgentError Outcome → Bool
  | .ok .settled => false
  | .ok .again => true
  | .error e => e.isRetryable

variable {a : Agent} {key b : ObjectKey} {result : Except AgentError Outcome}

theorem settle_eq (a : Agent) (key : ObjectKey) (result : Except AgentError Outcome) :
    a.settle key result =
      if retries result then
        { a with
          queue := (a.queue.addRateLimited key a.clock).1.done key
          clock := (a.queue.addRateLimited key a.clock).2 }
      else { a with queue := (a.queue.forget key).done key } := by
  unfold settle retries
  rcases result with e | o
  · rfl
  · cases o <;> rfl

theorem due_settle (h : a.queue.Sound a.clock) :
    (a.settle key result).queue.Due b ↔ a.queue.Due b ∨ retries result = true ∧ b = key := by
  rw [settle_eq]
  split
  · rename_i hr
    simp only [WorkQueue.due_done, WorkQueue.due_addRateLimited h.isOpen, hr, true_and]
  · rename_i hr
    simp only [WorkQueue.due_done, (WorkQueue.sameItems_forget a.queue key).due_iff, hr]
    simp

theorem processing_settle :
    (a.settle key result).queue.processing = a.queue.processing.erase key := by
  rw [settle_eq]
  split
  · simp only [WorkQueue.processing_done, WorkQueue.processing_addRateLimited]
  · simp only [WorkQueue.processing_done, (WorkQueue.sameItems_forget a.queue key).processing]

theorem sound_settle (h : a.queue.Sound a.clock) (hk : key ∈ a.queue.processing) :
    (a.settle key result).queue.Sound (a.settle key result).clock := by
  rw [settle_eq]
  split
  · refine (h.addRateLimited key).done ?_
    rw [WorkQueue.processing_addRateLimited]
    exact hk
  · exact ((WorkQueue.sameItems_forget a.queue key).sound h).done hk

/-- Settling a key concerns the queue and the clock only. -/
theorem settle_frame (a : Agent) (key : ObjectKey) (result : Except AgentError Outcome) :
    ∃ queue clock, a.settle key result = { a with queue := queue, clock := clock } := by
  rw [settle_eq]
  split
  · exact ⟨_, _, rfl⟩
  · exact ⟨_, a.clock, rfl⟩

end Agent

/-- A write concerns the hub only. -/
theorem Wrote.frame {a a' : Agent} {c : HubCall} {v : Except AgentError c.Answer}
    (h : Wrote a c v a') : ∃ hub, a' = { a with hub := hub } := by
  cases h with
  | effect => exact ⟨_, rfl⟩
  | timeout => exact ⟨a.hub, rfl⟩

namespace Stage

/-- A set that is to be stored is clean. -/
def Clean : Stage → Prop
  | replacing _ _ applied => applied.Clean
  | _ => True

theorem clean_finished (result : Except AgentError Outcome) : (finished result).Clean := trivial

theorem clean_recorded (o : Object) (record : WorkStatus) : (recorded o record).Clean :=
  of_recorded record clean_finished (fun _ _ => trivial) (fun _ _ => trivial)

end Stage

variable {l : Lookups} {a a' : Agent} {id : WorkerId} {key : ObjectKey} {st st' : Stage}
  {notes : List Note}

theorem Answered.frame (h : Answered l a id key st st' a' notes) :
    a'.cluster = a.cluster ∧ a'.works = a.works := by
  cases h with
  | leads | replaces | removes | acquires | releases | posts => exact ⟨rfl, rfl⟩
  | creates o record h | patches o record label h | updates record status h | erases name h =>
      obtain ⟨hub, rfl⟩ := h.frame
      exact ⟨rfl, rfl⟩

theorem Answered.cluster (h : Answered l a id key st st' a' notes) : a'.cluster = a.cluster :=
  h.frame.1

theorem Answered.works (h : Answered l a id key st st' a' notes) : a'.works = a.works := h.frame.2

/-- The tracker changes only where the set of a deployment record is stored or dropped. -/
theorem Answered.tracker_cases (h : Answered l a id key st st' a' notes) :
    (∃ work manifestWork applied, st = replacing work manifestWork applied ∧
        st' = changing (Change.ofDifference (a.tracker.replace work manifestWork applied).1) ∧
        a' = { a with tracker := (a.tracker.replace work manifestWork applied).2 }) ∨
      (∃ work, st = removing work ∧
        st' = changing (Change.ofDifference { removed := (a.tracker.remove work).1.getD {} }) ∧
        a' = { a with tracker := (a.tracker.remove work).2 }) ∨
      a'.tracker = a.tracker ∧ ∀ work,
        (∀ manifestWork applied, st ≠ replacing work manifestWork applied) ∧
          st ≠ removing work := by
  cases h with
  | leads h => cases h <;> exact Or.inr (Or.inr ⟨rfl, by simp⟩)
  | creates o record h | patches o record label h | updates record status h | erases r h =>
      obtain ⟨hub, rfl⟩ := h.frame
      exact Or.inr (Or.inr ⟨rfl, by simp⟩)
  | acquires | releases | posts => exact Or.inr (Or.inr ⟨rfl, by simp⟩)
  | replaces => exact Or.inl ⟨_, _, _, rfl, rfl, rfl⟩
  | removes => exact Or.inr (Or.inl ⟨_, rfl, rfl, rfl⟩)

/-- A turn that is no answer concerns the queue and the clock only, and the log keeps nothing of
it. -/
theorem Turned.answered {h h' : Hand} (t : Turned l a id h h' a' notes) :
    (notes = [] ∧ ∃ queue clock, a' = { a with queue := queue, clock := clock }) ∨
      ∃ key st st' p, h = .busy key st p ∧ h' = .busy key st' none ∧
        Answered l a id key st st' a' notes := by
  cases t with
  | waits | takes => exact Or.inl ⟨rfl, _, a.clock, rfl⟩
  | begins => exact Or.inl ⟨rfl, a.queue, _, rfl⟩
  | gone => exact Or.inl ⟨rfl, a.queue, a.clock, rfl⟩
  | answers key ha => exact Or.inr ⟨key, _, _, _, rfl, rfl, ha⟩
  | settles key => exact Or.inl ⟨rfl, Agent.settle_frame a key _⟩

theorem Turned.agent_of {P : Agent → Prop} {h h' : Hand} (t : Turned l a id h h' a' notes)
    (hframe : ∀ queue clock, P { a with queue := queue, clock := clock })
    (hans : ∀ key st st' p, h = .busy key st p → Answered l a id key st st' a' notes → P a') :
    P a' := by
  rcases t.answered with ⟨_, queue, clock, rfl⟩ | ⟨key, st, st', p, hh, _, ha⟩
  · exact hframe queue clock
  · exact hans key st st' p hh ha

/-- The stage in hand after a turn is the first of a key that was due, the stage from before, or
the one that an answer led to. -/
theorem Turned.stage_of {P : ObjectKey → Stage → Prop} {h h' : Hand}
    (t : Turned l a id h h' a' notes)
    (hfirst : ∀ key, a.queue.Due key → P key (first key))
    (hheld : ∀ key st p, h = .busy key st p → P key st)
    (hans : ∀ key st st' p, h = .busy key st p → Answered l a id key st st' a' notes → P key st') :
    ∀ key st p, h' = .busy key st p → P key st := by
  rintro key st p rfl
  cases t with
  | takes key hh hout => exact hfirst key hout.due
  | begins => exact hheld key st _ rfl
  | answers key ha => exact hans key _ _ _ rfl ha

theorem Turned.frame {h h' : Hand} (t : Turned l a id h h' a' notes) :
    a'.cluster = a.cluster ∧ a'.works = a.works :=
  t.agent_of (P := fun a' => a'.cluster = a.cluster ∧ a'.works = a.works) (fun _ _ => ⟨rfl, rfl⟩)
    fun _ _ _ _ _ ha => ha.frame

theorem Turned.cluster {h h' : Hand} (t : Turned l a id h h' a' notes) :
    a'.cluster = a.cluster := t.frame.1

theorem Turned.works {h h' : Hand} (t : Turned l a id h h' a' notes) : a'.works = a.works :=
  t.frame.2

/-- The agent's parts after an answer. -/
theorem Answered.sound (h : Answered l a id key st st' a' notes) (hq : a.queue.Sound a.clock)
    (hr : a.registry.Sound) (ht : a.tracker.Sound) (hc : st.Clean) :
    a'.queue.Sound a'.clock ∧ a'.registry.Sound ∧ a'.tracker.Sound := by
  cases h with
  | leads => exact ⟨hq, hr, ht⟩
  | creates o record h | patches o record label h | updates record status h | erases name h =>
      obtain ⟨hub, rfl⟩ := h.frame
      exact ⟨hq, hr, ht⟩
  | replaces work manifestWork applied => exact ⟨hq, hr, ht.replace hc⟩
  | removes work => exact ⟨hq, hr, ht.remove work⟩
  | acquires c resource => exact ⟨hq, hr.acquire resource c.uid, ht⟩
  | releases c resource => exact ⟨hq, hr.release resource.resourceKind c.uid, ht⟩
  | posts c resource => exact ⟨hq.add (c.key resource), hr, ht⟩

theorem Answered.processing (h : Answered l a id key st st' a' notes) :
    a'.queue.processing = a.queue.processing := by
  cases h with
  | leads | replaces | removes | acquires | releases => rfl
  | creates o record h | patches o record label h | updates record status h | erases name h =>
      obtain ⟨hub, rfl⟩ := h.frame
      rfl
  | posts c resource => exact WorkQueue.processing_add _ _

theorem Answered.clean (h : Answered l a id key st st' a' notes) : st'.Clean := by
  cases h with
  | leads h =>
      cases h with
      | presentWork o =>
          exact of_opened clean_finished fun _ _ => AppliedSet.clean_ofResources _
      | read o owner record => exact clean_recorded o record
      | _ => trivial
  | creates => exact of_created clean_finished (fun _ _ => trivial) (fun _ _ => trivial) _
  | patches => exact of_patched clean_finished (fun _ _ => trivial) _
  | updates => exact of_updated clean_finished _
  | erases => exact of_erased clean_finished _
  | replaces | removes | acquires | releases | posts => trivial

structure Crew where
  agent : Agent
  hands : List Hand

namespace Crew

variable {c c' : Crew} {m : Move}

/-- The floor that the crew works on. -/
def floor (c : Crew) : Floor := ⟨c.agent, c.hands.map (Hand.worker c.agent.cluster)⟩

def start (a : Agent) (workers : Nat) : Crew := ⟨a, List.replicate workers .free⟩

theorem floor_start (a : Agent) (workers : Nat) : (start a workers).floor = .start a workers := by
  simp [floor, start, Floor.start, Hand.worker]

/-- What a move does to a crew. -/
inductive Step (l : Lookups) (c : Crew) : Move → Crew → List Note → Prop
  | turn (id : WorkerId) {h h' : Hand} {a' : Agent} {notes : List Note}
      (hh : c.hands[id]? = some h) (t : Turned l c.agent id h h' a' notes) :
      Step l c (.turn id) ⟨a', c.hands.set id h'⟩ notes
  | work (e : WatchEvent) {i' : Ingest} {keys : List ObjectKey}
      (he : c.agent.works.ingest.handle? e = some (i', keys)) :
      Step l c (.work e) ⟨{ c.agent with
        works := { c.agent.works with ingest := i' }
        queue := c.agent.queue.addAll keys }, c.hands⟩ (keys.map Note.posted)
  | object (kind : ResourceKind) (e : WatchEvent) {held : Holding} {i i' : Ingest}
      {keys : List ObjectKey} (hg : c.agent.registry.held.get? kind = some held)
      (hi : c.agent.registry.intake? kind = some i) (he : i.handle? e = some (i', keys)) :
      Step l c (.object kind e) ⟨{ c.agent with
        registry := c.agent.registry.setIngest held.watch i'
        queue := c.agent.queue.addAll keys }, c.hands⟩ (keys.map Note.posted)
  | fire (d : Delayed ObjectKey) (hd : d ∈ c.agent.queue.delayed) :
      Step l c (.fire d) ⟨{ c.agent with queue := c.agent.queue.fire d }, c.hands⟩ []
  | mood (failWrites : Bool) (writeDelay : Nat) :
      Step l c (.mood failWrites writeDelay) ⟨{ c.agent with
        hub := { c.agent.hub with failWrites := failWrites, writeDelay := writeDelay } },
        c.hands⟩ []
  | pass (time : Nat) :
      Step l c (.pass time) ⟨{ c.agent with clock := c.agent.clock.advanceTo time }, c.hands⟩ []
  /-- The move has no effect. -/
  | still (m : Move) : Step l c m c []

theorem Step.cluster {notes : List Note} (s : Step l c m c' notes) :
    c'.agent.cluster = c.agent.cluster := by
  cases s with
  | turn id _ t => exact t.cluster
  | work | object | fire | mood | pass | still => rfl

theorem step_turn (hq : c.agent.queue.Sound c.agent.clock) (id : WorkerId) :
    ∃ c', c.floor.move l (.turn id) = c'.floor ∧
      Step l c (.turn id) c' (c.floor.notes l (.turn id)) := by
  cases hh : c.hands[id]? with
  | none =>
      have hw : c.floor.workers[id]? = none := by simp [floor, hh]
      refine ⟨c, ?_, ?_⟩
      · simp only [Floor.move, Floor.turn, hw]
      · simp only [Floor.notes, hw]
        exact .still _
  | some h =>
      have hw : c.floor.workers[id]? = some (h.worker c.agent.cluster) := by simp [floor, hh]
      have hplays : h.Plays l c.agent id := h.plays hq
      obtain ⟨h', a', hstep, ht⟩ := hplays
      refine ⟨⟨a', c.hands.set id h'⟩, ?_, ?_⟩
      · simp only [Floor.move, Floor.turn, hw]
        simp only [floor, hstep, Turned.cluster ht, List.map_set]
      · simp only [Floor.notes, hw]
        exact .turn id hh ht

theorem step_work (e : WatchEvent) :
    ∃ c', c.floor.move l (.work e) = c'.floor ∧
      Step l c (.work e) c' (c.floor.notes l (.work e)) := by
  cases hf : c.agent.worksFed with
  | false =>
      refine ⟨c, ?_, ?_⟩
      · simp [Floor.move, floor, Floor.withAgent, Agent.deliverWork, hf]
      · simp only [Floor.notes, floor, hf]
        exact .still _
  | true =>
      cases he : c.agent.works.ingest.handle? e with
      | none =>
          refine ⟨c, ?_, ?_⟩
          · simp [Floor.move, floor, Floor.withAgent, Agent.deliverWork, hf, he]
          · simp only [Floor.notes, floor, hf, Floor.reported, he]
            exact .still _
      | some result =>
          obtain ⟨i', keys⟩ := result
          refine ⟨⟨{ c.agent with
            works := { c.agent.works with ingest := i' }
            queue := c.agent.queue.addAll keys }, c.hands⟩, ?_, ?_⟩
          · simp [Floor.move, floor, Floor.withAgent, Agent.deliverWork, hf, he]
          · have hn : c.floor.notes l (.work e) = keys.map Note.posted := by
              simp [Floor.notes, floor, hf, Floor.reported, he]
            rw [hn]
            exact .work e he

theorem step_object (hr : c.agent.registry.Sound) (kind : ResourceKind) (e : WatchEvent) :
    ∃ c', c.floor.move l (.object kind e) = c'.floor ∧
      Step l c (.object kind e) c' (c.floor.notes l (.object kind e)) := by
  cases hn : c.agent.registry.latest? kind with
  | none =>
      refine ⟨c, ?_, ?_⟩
      · simp [Floor.move, floor, Floor.withAgent, Agent.deliver, hn]
      · simp only [Floor.notes, floor, hn]
        exact .still _
  | some n =>
      cases hw : c.agent.registry.watch? n with
      | none =>
          refine ⟨c, ?_, ?_⟩
          · simp [Floor.move, floor, Floor.withAgent, Agent.deliver, hn, hw]
          · simp only [Floor.notes, floor, hn, hw]
            exact .still _
      | some w =>
          cases hs : w.stopped with
          | true =>
              refine ⟨c, ?_, ?_⟩
              · simp [Floor.move, floor, Floor.withAgent, Agent.deliver, hn, hw, hs]
              · simp only [Floor.notes, floor, hn, hw, hs, if_true]
                exact .still _
          | false =>
              obtain ⟨held, hg, rfl, hi⟩ := hr.held_of_latest? hn hw hs
              cases he : w.ingest.handle? e with
              | none =>
                  refine ⟨c, ?_, ?_⟩
                  · simp [Floor.move, floor, Floor.withAgent, Agent.deliver, hn, hw, hs, he]
                  · simp only [Floor.notes, floor, hn, hw, hs, Floor.reported, he]
                    exact .still _
              | some result =>
                  obtain ⟨i', keys⟩ := result
                  refine ⟨⟨{ c.agent with
                    registry := c.agent.registry.setIngest held.watch i'
                    queue := c.agent.queue.addAll keys }, c.hands⟩, ?_, ?_⟩
                  · simp [Floor.move, floor, Floor.withAgent, Agent.deliver, hn, hw, hs, he]
                  · have hnotes : c.floor.notes l (.object kind e) = keys.map Note.posted := by
                      simp [Floor.notes, floor, hn, hw, hs, Floor.reported, he]
                    rw [hnotes]
                    exact .object kind e hg hi he

/-- Every move of the floor is a step of the crew. -/
theorem step_move (hq : c.agent.queue.Sound c.agent.clock) (hr : c.agent.registry.Sound)
    (m : Move) :
    ∃ c', c.floor.move l m = c'.floor ∧ Step l c m c' (c.floor.notes l m) := by
  cases m with
  | turn id => exact step_turn hq id
  | work e => exact step_work e
  | object kind e => exact step_object hr kind e
  | fire d =>
      by_cases hd : d ∈ c.agent.queue.delayed
      · have hm : c.floor.move l (.fire d) =
            c.floor.withAgent { c.agent with queue := c.agent.queue.fire d } := if_pos hd
        exact ⟨⟨{ c.agent with queue := c.agent.queue.fire d }, c.hands⟩, hm, .fire d hd⟩
      · have hm : c.floor.move l (.fire d) = c.floor := if_neg hd
        exact ⟨c, hm, .still _⟩
  | mood failWrites writeDelay => exact ⟨_, rfl, .mood failWrites writeDelay⟩
  | pass time => exact ⟨_, rfl, .pass time⟩

/-! ## Keys in hand -/

/-- A worker has a key in hand at some stage. -/
def Busy (c : Crew) (id : WorkerId) (key : ObjectKey) (stage : Stage) : Prop :=
  ∃ p, c.hands[id]? = some (.busy key stage p)

theorem getElem?_set {id : WorkerId} {h : Hand} (hh : c.hands[id]? = some h) (h' : Hand)
    (j : WorkerId) : (c.hands.set id h')[j]? = if id = j then some h' else c.hands[j]? := by
  rw [List.getElem?_set, if_pos (List.getElem?_eq_some_iff.mp hh).1]

/-- The keys in hand after one worker's turn. -/
theorem busy_set {a : Agent} {id : WorkerId} {h h' : Hand} (hh : c.hands[id]? = some h)
    (j : WorkerId) (key : ObjectKey) (stage : Stage) :
    (⟨a, c.hands.set id h'⟩ : Crew).Busy j key stage ↔
      (id = j ∧ ∃ p, h' = .busy key stage p) ∨ id ≠ j ∧ c.Busy j key stage := by
  simp only [Busy, getElem?_set hh]
  by_cases hj : id = j
  · simp [hj]
  · simp [hj]

theorem busy_set_self {a : Agent} {id : WorkerId} {h : Hand} (hh : c.hands[id]? = some h)
    {key : ObjectKey} {stage : Stage} {p : Option PendingCall} :
    (⟨a, c.hands.set id (.busy key stage p)⟩ : Crew).Busy id key stage :=
  (busy_set hh id key stage).mpr (Or.inl ⟨rfl, p, rfl⟩)

theorem Busy.set_ne {a : Agent} {id j : WorkerId} {h h' : Hand} {key : ObjectKey} {stage : Stage}
    (hb : c.Busy j key stage) (hh : c.hands[id]? = some h) (hj : id ≠ j) :
    (⟨a, c.hands.set id h'⟩ : Crew).Busy j key stage :=
  (busy_set hh j key stage).mpr (Or.inr ⟨hj, hb⟩)

/-- What holds of the stages in hand holds of them after a turn, if it holds of what the turn takes
up and of what its answer leads to. -/
theorem busy_turn {P : ObjectKey → Stage → Prop} {id : WorkerId} {x x' : Hand} {a' : Agent}
    (hx : c.hands[id]? = some x) (t : Turned l c.agent id x x' a' notes)
    (hfirst : ∀ key, c.agent.queue.Due key → P key (first key))
    (hheld : ∀ j key st, c.Busy j key st → P key st)
    (hans : ∀ key st st', c.Busy id key st → Answered l c.agent id key st st' a' notes →
      P key st') (j : WorkerId) (key : ObjectKey) (st : Stage)
    (hb : (⟨a', c.hands.set id x'⟩ : Crew).Busy j key st) : P key st := by
  rcases (busy_set hx j key st).mp hb with ⟨_, p, hp⟩ | ⟨_, hb⟩
  · refine t.stage_of hfirst ?_ ?_ key st p hp
    · rintro key st p rfl
      exact hheld id key st ⟨p, hx⟩
    · rintro key st st' p rfl ha
      exact hans key st st' ⟨p, hx⟩ ha
  · exact hheld j key st hb

theorem busy_of_key? {id : WorkerId} {w : Worker} {key : ObjectKey}
    (hw : c.floor.workers[id]? = some w) (hk : w.key? = some key) :
    ∃ stage, c.Busy id key stage := by
  rw [floor, List.getElem?_map] at hw
  obtain ⟨h, hh, rfl⟩ := Option.map_eq_some_iff.mp hw
  cases h with
  | busy key' stage p =>
      rw [Hand.key?_worker_busy] at hk
      cases hk
      exact ⟨stage, p, hh⟩
  | free | idle | gone => cases hk

/-- A key is in nobody's hands exactly if no worker of the floor has it. -/
theorem unheld_iff {key : ObjectKey} :
    (∀ w ∈ c.floor.workers, w.key? ≠ some key) ↔ ∀ id stage, ¬ c.Busy id key stage := by
  constructor
  · rintro h id stage ⟨p, hp⟩
    exact h _ (List.mem_map_of_mem (List.mem_of_getElem? hp)) (Hand.key?_worker_busy _)
  · intro h w hw hk
    obtain ⟨id, hid⟩ := List.mem_iff_getElem?.mp hw
    obtain ⟨stage, hb⟩ := busy_of_key? hid hk
    exact h id stage hb

structure Sound (c : Crew) : Prop where
  queue : c.agent.queue.Sound c.agent.clock
  registry : c.agent.registry.Sound
  tracker : c.agent.tracker.Sound
  held : ∀ id key stage, c.Busy id key stage → key ∈ c.agent.queue.processing
  apart : ∀ id id' key stage stage', c.Busy id key stage → c.Busy id' key stage' → id = id'
  clean : ∀ id key stage, c.Busy id key stage → stage.Clean

theorem not_busy_start {a : Agent} {workers : Nat} {id : WorkerId} {key : ObjectKey}
    {stage : Stage} : ¬ (start a workers).Busy id key stage := by
  rintro ⟨p, hp⟩
  obtain ⟨_, hp⟩ := List.getElem?_eq_some_iff.mp hp
  simp [start] at hp

theorem sound_start (cluster : String) (timeout : Duration) (limiter : Limiter ObjectKey)
    (manifestWorks : Table RecordKey ManifestWork) (workers : Nat) :
    (start (.fresh cluster timeout limiter manifestWorks) workers).Sound where
  queue := WorkQueue.sound_start limiter {}
  registry := Registry.sound_empty
  tracker := Tracker.sound_empty
  held := fun _ _ _ hb => absurd hb not_busy_start
  apart := fun _ _ _ _ _ hb => absurd hb not_busy_start
  clean := fun _ _ _ hb => absurd hb not_busy_start

/-- Nobody has a key in hand when none is being processed. -/
theorem Sound.not_busy (h : c.Sound) (hq : c.agent.queue.Idle) (id : WorkerId)
    (key : ObjectKey) (stage : Stage) : ¬ c.Busy id key stage := by
  intro hb
  have hkey := h.held id key stage hb
  rw [hq.2] at hkey
  exact List.not_mem_nil hkey

theorem Sound.not_busy_of_quiet (h : c.Sound) (hq : c.agent.queue.Quiet) (id : WorkerId)
    (key : ObjectKey) (stage : Stage) : ¬ c.Busy id key stage :=
  h.not_busy hq.idle id key stage

/-- A turn concerns one hand: what it takes up was in no hand, and it takes no key from others. -/
theorem Sound.of_set (h : c.Sound) {id : WorkerId} {x x' : Hand} {a' : Agent}
    (hx : c.hands[id]? = some x) (hq : a'.queue.Sound a'.clock) (hr : a'.registry.Sound)
    (ht : a'.tracker.Sound)
    (hothers : ∀ j key stage, id ≠ j → c.Busy j key stage → key ∈ a'.queue.processing)
    (hown : ∀ key stage p, x' = .busy key stage p → key ∈ a'.queue.processing ∧ stage.Clean ∧
      ∀ j stage', id ≠ j → ¬ c.Busy j key stage') :
    (⟨a', c.hands.set id x'⟩ : Crew).Sound where
  queue := hq
  registry := hr
  tracker := ht
  held := by
    intro j key stage hb
    rcases (busy_set hx j key stage).mp hb with ⟨_, p, hp⟩ | ⟨hj, hb⟩
    · exact (hown key stage p hp).1
    · exact hothers j key stage hj hb
  apart := by
    intro j j' key stage stage' hb hb'
    rcases (busy_set hx j key stage).mp hb with ⟨rfl, p, hp⟩ | ⟨hj, hb⟩
    · rcases (busy_set hx j' key stage').mp hb' with ⟨rfl, _⟩ | ⟨hj', hb'⟩
      · rfl
      · exact absurd hb' ((hown key stage p hp).2.2 j' stage' hj')
    · rcases (busy_set hx j' key stage').mp hb' with ⟨rfl, p, hp⟩ | ⟨_, hb'⟩
      · exact absurd hb ((hown key stage' p hp).2.2 j stage hj)
      · exact h.apart j j' key stage stage' hb hb'
  clean := by
    intro j key stage hb
    rcases (busy_set hx j key stage).mp hb with ⟨_, p, hp⟩ | ⟨_, hb⟩
    · exact (hown key stage p hp).2.1
    · exact h.clean j key stage hb

theorem Sound.turn (h : c.Sound) {id : WorkerId} {x x' : Hand} {a' : Agent}
    (hx : c.hands[id]? = some x) (t : Turned l c.agent id x x' a' notes) :
    (⟨a', c.hands.set id x'⟩ : Crew).Sound := by
  cases t with
  | waits hh hq =>
      refine h.of_set hx (hq.sound h.queue) h.registry h.tracker ?_ ?_
      · intro j key stage _ hb
        exact hq.processing ▸ h.held j key stage hb
      · intro key stage p he
        cases he
  | takes key hh hq hs =>
      refine h.of_set hx hs h.registry h.tracker ?_ ?_
      · intro j key' stage _ hb
        exact (hq.processing key').mpr (Or.inl (h.held j key' stage hb))
      · intro key' stage p he
        cases he
        exact ⟨(hq.processing key).mpr (Or.inr rfl), of_first clean_finished trivial key,
          fun j stage' _ hb => hq.fresh (h.held j key stage' hb)⟩
  | begins key stage pending hw hc =>
      have hb := (⟨_, hx⟩ : c.Busy id key stage)
      refine h.of_set hx (h.queue.later hc) h.registry h.tracker ?_ ?_
      · exact fun j key stage _ hb => h.held j key stage hb
      · intro key' stage' p he
        cases he
        exact ⟨h.held id key stage hb, h.clean id key stage hb,
          fun j stage' hj hb' => hj (h.apart id j key stage stage' hb hb')⟩
  | answers key ha =>
      rename_i stage stage' p
      have hb := (⟨p, hx⟩ : c.Busy id key stage)
      obtain ⟨hq, hr, ht⟩ := ha.sound h.queue h.registry h.tracker (h.clean id key stage hb)
      refine h.of_set hx hq hr ht ?_ ?_
      · exact fun j key stage _ hb => ha.processing ▸ h.held j key stage hb
      · intro key' st p he
        cases he
        exact ⟨ha.processing ▸ h.held id key stage hb, ha.clean,
          fun j st hj hb' => hj (h.apart id j key stage st hb hb')⟩
  | settles key hr =>
      rename_i stage p result
      have hb := (⟨p, hx⟩ : c.Busy id key stage)
      obtain ⟨queue, clock, he⟩ := Agent.settle_frame c.agent key result
      refine h.of_set hx (Agent.sound_settle h.queue (h.held id key stage hb)) ?_ ?_ ?_ ?_
      · rw [he]
        exact h.registry
      · rw [he]
        exact h.tracker
      · intro j key' stage' hj hb'
        rw [Agent.processing_settle]
        refine (List.mem_erase_of_ne ?_).mpr (h.held j key' stage' hb')
        intro he
        subst he
        exact hj (h.apart id j key' stage stage' hb hb')
      · intro key' st p he
        cases he
  | gone =>
      refine h.of_set hx h.queue h.registry h.tracker ?_ ?_
      · exact fun j key stage _ hb => h.held j key stage hb
      · intro key stage p he
        cases he

theorem Sound.step (h : c.Sound) (s : Step l c m c' notes) : c'.Sound := by
  cases s with
  | turn id hx t => exact h.turn hx t
  | work e he =>
      exact { h with
        queue := h.queue.addAll _
        held := fun j key stage hb =>
          (WorkQueue.processing_addAll c.agent.queue _) ▸ h.held j key stage hb }
  | object kind e hg hi he =>
      exact { h with
        queue := h.queue.addAll _
        registry := h.registry.setIngest hg
          ((Ingest.kind_handle? he).trans (h.registry.kind_of_intake? hi))
        held := fun j key stage hb =>
          (WorkQueue.processing_addAll c.agent.queue _) ▸ h.held j key stage hb }
  | fire d hd =>
      exact { h with
        queue := h.queue.fire d
        held := fun j key stage hb =>
          (WorkQueue.processing_fire c.agent.queue d) ▸ h.held j key stage hb }
  | mood => exact { h with }
  | pass time => exact { h with queue := h.queue.later (Nat.le_refl _) }
  | still => exact h

/-- What steps keep, as long as the moves are allowed, holds after every run. -/
theorem run {I : Crew → List Note → Prop} {allowed : Floor → Move → Prop}
    (hsound : ∀ c log, I c log → c.agent.queue.Sound c.agent.clock ∧ c.agent.registry.Sound)
    (hstep : ∀ c log m c' notes, I c log → allowed c.floor m → Step l c m c' notes →
      I c' (log ++ notes))
    (moves : List Move) (c : Crew) (log : List Note) (h : I c log)
    (ha : Floor.Along allowed l c.floor moves) :
    ∃ c', c.floor.run l moves = c'.floor ∧ I c' (log ++ c.floor.log l moves) := by
  induction moves generalizing c log with
  | nil => exact ⟨c, rfl, by simpa [Floor.log] using h⟩
  | cons m rest ih =>
      obtain ⟨hm, hrest⟩ := ha
      obtain ⟨hq, hr⟩ := hsound c log h
      obtain ⟨c', hc', hs⟩ := step_move (l := l) hq hr m
      rw [hc'] at hrest
      obtain ⟨c'', hrun, hI⟩ := ih c' _ (hstep c log m c' _ h hm hs) hrest
      refine ⟨c'', ?_, ?_⟩
      · rw [Floor.run_cons, hc', hrun]
      · rw [Floor.log, hc', ← List.append_assoc]
        exact hI

/-- What holds at the start and is kept by steps holds after every run from the start. -/
theorem run_start {I : Crew → List Note → Prop} {allowed : Floor → Move → Prop}
    (hsound : ∀ c log, I c log → c.agent.queue.Sound c.agent.clock ∧ c.agent.registry.Sound)
    (hstep : ∀ c log m c' notes, I c log → allowed c.floor m → Step l c m c' notes →
      I c' (log ++ notes))
    (moves : List Move) (a : Agent) (workers : Nat) (h : I (.start a workers) [])
    (ha : Floor.Along allowed l (.start a workers) moves) :
    ∃ c, (Floor.start a workers).run l moves = c.floor ∧
      I c ((Floor.start a workers).log l moves) := by
  rw [← floor_start] at ha ⊢
  exact run hsound hstep moves (.start a workers) [] h ha

/-- The same for what depends on the moves so far. -/
theorem run_past {I : Crew → List Move → Prop} {allowed : Floor → Move → Prop} {a : Agent}
    {workers : Nat}
    (hsound : ∀ c past, I c past → c.agent.queue.Sound c.agent.clock ∧ c.agent.registry.Sound)
    (hstep : ∀ past m c c', (Floor.start a workers).run l past = c.floor → I c past →
      allowed c.floor m → Step l c m c' (c.floor.notes l m) → c.floor.move l m = c'.floor →
      I c' (past ++ [m]))
    (moves : List Move) (h : I (.start a workers) [])
    (ha : Floor.Along allowed l (.start a workers) moves) :
    ∃ c, (Floor.start a workers).run l moves = c.floor ∧ I c moves := by
  have hrest : ∀ (rest past : List Move) (c : Crew),
      (Floor.start a workers).run l past = c.floor → I c past →
      Floor.Along allowed l c.floor rest →
      ∃ c', (Floor.start a workers).run l (past ++ rest) = c'.floor ∧ I c' (past ++ rest) := by
    intro rest
    induction rest with
    | nil =>
        intro past c hfloor hI _
        exact ⟨c, by rw [List.append_nil, hfloor], by rwa [List.append_nil]⟩
    | cons m rest ih =>
        intro past c hfloor hI hall
        obtain ⟨hm, hall⟩ := hall
        obtain ⟨hq, hr⟩ := hsound c past hI
        obtain ⟨c', hmove, s⟩ := step_move (l := l) hq hr m
        have hnow : (Floor.start a workers).run l (past ++ [m]) = c'.floor := by
          rw [Floor.run_concat, hfloor, hmove]
        rw [List.append_cons]
        exact ih (past ++ [m]) c' hnow (hstep past m c c' hfloor hI hm s hmove) (hmove ▸ hall)
  exact hrest moves [] (.start a workers) (floor_start a workers).symm h
    (floor_start a workers ▸ ha)

end Crew
end StatusRelay
