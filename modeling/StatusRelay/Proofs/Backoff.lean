import StatusRelay.Proofs.Separation

/-!
# Backing off

A key that has failed is left alone until its timer fires. Every failure sets a timer of its own,
and none is taken back or put off by a later one, so what ends the rest of a key is the first of its
timers, which may be one of an earlier failure; and a key that was added again while it was being
processed gets no rest at all.
-/
namespace StatusRelay

namespace WorkQueue

variable {α : Type} {q q' : WorkQueue α} {a b : α} {time : Nat}

/-- Nothing in the queue brings an item before some time. -/
structure Resting (q : WorkQueue α) (a : α) (time : Nat) : Prop where
  unlined : a ∉ q.waiting
  unnoted : a ∉ q.dirty
  timers : ∀ t ∈ q.delayed, t.item = a → time ≤ t.stamp.due

namespace Resting

theorem sameItems (h : q.Resting a time) (s : q.SameItems q') : q'.Resting a time where
  unlined := s.waiting ▸ h.unlined
  unnoted := s.dirty ▸ h.unnoted
  timers := s.delayed ▸ h.timers

theorem added (h : q.Resting a time) (s : q.Added b q') (hb : b ≠ a) : q'.Resting a time where
  unlined := by
    have hline : a ∉ q.waiting ++ [b] := by
      simp [h.unlined, Ne.symm hb]
    cases s with
    | known _ s | parked _ _ s => exact s.waiting ▸ h.unlined
    | queued _ _ s => exact s.waiting ▸ hline
  unnoted := by
    rw [s.mem_dirty]
    exact not_or.mpr ⟨h.unnoted, Ne.symm hb⟩
  timers := s.delayed ▸ h.timers

variable [DecidableEq α]

theorem add (h : q.Resting a time) (hb : b ≠ a) : (q.add b).Resting a time := by
  cases ho : q.shuttingDown with
  | true =>
      rw [add_of_shut ho]
      exact h
  | false => exact h.added (added_add ho b) hb

theorem addAll (h : q.Resting a time) {items : List α} (hi : a ∉ items) :
    (q.addAll items).Resting a time := by
  induction items generalizing q with
  | nil => exact h
  | cons b rest ih =>
      rw [List.mem_cons, not_or] at hi
      exact ih (h.add (Ne.symm hi.1)) hi.2

theorem addRateLimited (h : q.Resting a time) (hb : b ≠ a) (c : Clock) :
    (q.addRateLimited b c).1.Resting a time := by
  cases deferred_addRateLimited q b c with
  | added _ _ s _ => exact h.added s hb
  | refused _ s _ => exact h.sameItems s
  | timer _ s =>
      obtain ⟨stamp, _, s⟩ := s.sets
      have hset : ({ q with delayed := q.delayed ++ [⟨b, stamp⟩] } : WorkQueue α).Resting a
          time := by
        refine ⟨h.unlined, h.unnoted, fun t ht he => ?_⟩
        rcases List.mem_append.mp ht with ht | ht
        · exact h.timers t ht he
        · rw [List.mem_singleton.mp ht] at he
          exact absurd he hb
      exact hset.sameItems s

theorem done (h : q.Resting a time) (b : α) : (q.done b).Resting a time := by
  refine ⟨?_, dirty_done q b ▸ h.unnoted, delayed_done q b ▸ h.timers⟩
  unfold WorkQueue.done
  simp only
  split
  · rename_i hd
    have hb : b ≠ a := fun he => h.unnoted (he ▸ List.contains_iff_mem.mp hd)
    intro hm
    rcases List.mem_append.mp hm with hm | hm
    · exact h.unlined hm
    · exact hb (List.mem_singleton.mp hm).symm
  · exact h.unlined

/-- A timer that fires in its time is not one of the item's. -/
theorem fire (h : q.Resting a time) {t : Delayed α} (ht : t ∈ q.delayed)
    (hdue : t.stamp.due < time) : (q.fire t).Resting a time := by
  have hexpired : (q.expire t.stamp).Resting a time :=
    ⟨h.unlined, h.unnoted, fun d hd => h.timers d (List.mem_filter.mp hd).1⟩
  refine hexpired.add fun he => ?_
  exact absurd (h.timers t ht he) (Nat.not_le.mpr hdue)

/-- A caller is handed something else. -/
theorem polled (h : q.Resting a time) {out : Handout α} (s : q.Polled out q') :
    q'.Resting a time ∧ out ≠ .item a := by
  cases s with
  | item s =>
      have hline := h.unlined
      rw [s.line, List.mem_cons, not_or] at hline
      refine ⟨⟨hline.2, fun hm => ?_, s.delayed ▸ h.timers⟩, fun he => ?_⟩
      · rw [s.dirty] at hm
        exact h.unnoted (List.mem_of_mem_erase hm)
      · cases he
        exact hline.1 rfl
  | closed _ _ s | nothing _ s => exact ⟨h.sameItems s, by simp⟩

end Resting

/-- What is retried while nobody has added it meanwhile rests until the first of its timers. -/
theorem resting_retried [DecidableEq α] (hplaces : q.Places) (ha : a ∈ q.processing)
    (hdirty : a ∉ q.dirty) {c : Clock}
    (hdelay : time ≤ c.now + (q.limiter.next a c.now).1.nanos) (hnow : c.now < time)
    (htimers : ∀ t ∈ q.delayed, t.item = a → time ≤ t.stamp.due) :
    ((q.addRateLimited a c).1.done a).Resting a time := by
  refine Resting.done ?_ a
  have hline : a ∉ q.waiting := fun hw => hplaces.apart a hw ha
  have hsome : (q.limiter.next a c.now).1.isZero = false := by
    rw [Duration.isZero, beq_eq_false_iff_ne]
    omega
  unfold WorkQueue.addRateLimited addAfter
  simp only [hsome, Bool.false_eq_true, if_false]
  split
  · exact ⟨hline, hdirty, htimers⟩
  · refine ⟨hline, hdirty, fun t ht he => ?_⟩
    rcases List.mem_append.mp ht with ht | ht
    · exact htimers t ht he
    · rw [List.mem_singleton.mp ht]
      exact hdelay

/-- What was added while it was processed is still noted when it is retried. -/
theorem mem_dirty_retried [DecidableEq α] {c : Clock} (h : a ∈ q.dirty) :
    a ∈ (q.addRateLimited a c).1.dirty := by
  cases deferred_addRateLimited q a c with
  | added _ _ s _ => exact s.mem_dirty.mpr (Or.inl h)
  | refused _ s _ => exact s.dirty ▸ h
  | timer _ s => exact s.dirty ▸ h

end WorkQueue

/-! ## The clock -/

variable {l : Lookups} {a : Agent} {f : Floor} {m : Move} {key : ObjectKey} {time : Nat}
  {id : WorkerId} {w : Worker}

namespace Agent

theorem now_settle (a : Agent) (key : ObjectKey) (result : Except AgentError Outcome) :
    (a.settle key result).clock.now = a.clock.now := by
  rw [settle_eq]
  split
  · unfold WorkQueue.addRateLimited WorkQueue.addAfter
    simp only
    split
    · rfl
    · split <;> rfl
  · rfl

theorem now_stepFrom (l : Lookups) (a : Agent) (id : WorkerId) (w : Worker) :
    (a.stepFrom l id w).2.clock.now = a.clock.now := by
  cases w with
  | asking | waiting | stopped => rfl
  | writing key c pending next =>
      simp only [stepFrom, step, endWrite]
      split <;> rfl
  | working key rest =>
      cases rest with
      | done result => exact now_settle a key result
      | ask r next =>
          cases r with
          | hub c =>
              simp only [stepFrom, requestFrom, beginWrite?]
              split
              · rename_i begun
                split at begun
                · cases begun
                · cases begun
                  rfl
              · rfl
          | _ => rfl

end Agent

/-- What an event does to the queue and to what else a key's rest depends on. -/
structure Floor.Reports (f f' : Floor) (notes : List Note) : Prop where
  workers : f'.workers = f.workers
  clock : f'.agent.clock = f.agent.clock
  queue : ∃ keys, f'.agent.queue = f.agent.queue.addAll keys ∧ notes = keys.map Note.posted

namespace Floor

theorem reports_nothing (f : Floor) : f.Reports f [] := ⟨rfl, rfl, [], rfl, rfl⟩

theorem reports_work (l : Lookups) (f : Floor) (e : WatchEvent) :
    f.Reports (f.move l (.work e)) (f.notes l (.work e)) := by
  simp only [move, notes, Agent.deliverWork, reported]
  cases f.agent.worksFed with
  | false => exact f.reports_nothing
  | true =>
      cases f.agent.works.ingest.handle? e with
      | none => exact f.reports_nothing
      | some result => exact ⟨rfl, rfl, result.2, rfl, rfl⟩

theorem reports_object (l : Lookups) (f : Floor) (kind : ResourceKind) (e : WatchEvent) :
    f.Reports (f.move l (.object kind e)) (f.notes l (.object kind e)) := by
  simp only [move, notes, Agent.deliver, reported]
  cases f.agent.registry.latest? kind with
  | none => exact f.reports_nothing
  | some n =>
      simp only
      cases f.agent.registry.watch? n with
      | none => exact f.reports_nothing
      | some watch =>
          simp only
          cases watch.stopped with
          | true => exact f.reports_nothing
          | false =>
              simp only [Bool.false_eq_true, if_false]
              cases watch.ingest.handle? e with
              | none => exact f.reports_nothing
              | some result => exact ⟨rfl, rfl, result.2, rfl, rfl⟩

/-- Time does not go back. -/
theorem now_le_move (l : Lookups) (f : Floor) (m : Move) :
    f.agent.clock.now ≤ (f.move l m).agent.clock.now := by
  cases m with
  | turn id =>
      simp only [move, turn]
      cases f.workers[id]? with
      | none => exact Nat.le_refl _
      | some w => exact Nat.le_of_eq (f.agent.now_stepFrom l id w).symm
  | work e => rw [(f.reports_work l e).clock]
  | object kind e => rw [(f.reports_object l kind e).clock]
  | fire t =>
      simp only [move]
      split <;> exact Nat.le_refl _
  | mood => exact Nat.le_refl _
  | pass time => exact Nat.le_max_left _ _

theorem now_le_run (l : Lookups) (f : Floor) (moves : List Move) :
    f.agent.clock.now ≤ (f.run l moves).agent.clock.now := by
  induction moves generalizing f with
  | nil => exact Nat.le_refl _
  | cons m rest ih => exact Nat.le_trans (f.now_le_move l m) (ih (f.move l m))

/-! ## A key that is left alone -/

/-- A timer fires when its time has come, and not before. -/
def Punctual (f : Floor) : Move → Prop
  | .fire t => t.stamp.due ≤ f.agent.clock.now
  | _ => True

/-- Nobody has a key in hand, and nothing brings it before some time. -/
structure LeavesAlone (f : Floor) (key : ObjectKey) (time : Nat) : Prop where
  queue : f.agent.queue.Resting key time
  unheld : ∀ w ∈ f.workers, w.key? ≠ some key

namespace LeavesAlone

theorem reports {f' : Floor} {notes : List Note} (h : f.LeavesAlone key time)
    (hr : f.Reports f' notes) (hn : .posted key ∉ notes) : f'.LeavesAlone key time := by
  obtain ⟨keys, hq, rfl⟩ := hr.queue
  refine ⟨?_, hr.workers ▸ h.unheld⟩
  rw [hq]
  exact h.queue.addAll fun hm => hn (List.mem_map_of_mem hm)

end LeavesAlone
end Floor

/-- What a worker's turn may not do: bring the key before its time, or take it. -/
structure Agent.PassesBy (a' : Agent) (w' : Worker) (key : ObjectKey) (time : Nat) : Prop where
  queue : a'.queue.Resting key time
  unheld : w'.key? ≠ some key

namespace Agent

theorem passesBy_taken (h : a.queue.Resting key time) {out : Handout ObjectKey}
    {q : WorkQueue ObjectKey} (s : a.queue.Polled out q) :
    ({ a with queue := q } : Agent).PassesBy (a.taken out) key time := by
  obtain ⟨hq, hout⟩ := h.polled s
  refine ⟨hq, ?_⟩
  cases out with
  | item k =>
      intro hk
      exact hout (congrArg Handout.item (Option.some.inj hk))
  | closed | nothing => simp [taken, Worker.key?]

theorem resting_settle (h : a.queue.Resting key time) {k : ObjectKey} (hk : k ≠ key)
    (result : Except AgentError Outcome) : (a.settle k result).queue.Resting key time := by
  rw [settle_eq]
  split
  · exact (h.addRateLimited hk a.clock).done k
  · exact (h.sameItems (WorkQueue.sameItems_forget a.queue k)).done k

theorem passesBy_request (h : a.queue.Resting key time) {k : ObjectKey} (hk : k ≠ key)
    (rest : Reconcile) (hn : .posted key ∉ Floor.turnNotes l a id (.working k rest)) :
    (a.requestFrom l k rest).2.PassesBy (a.requestFrom l k rest).1 key time := by
  have hheld : some k ≠ some key := fun he => hk (Option.some.inj he)
  cases rest with
  | done result => exact ⟨resting_settle h hk result, by simp [requestFrom, Worker.key?]⟩
  | ask r next =>
      cases r with
      | hub c =>
          simp only [requestFrom]
          cases hb : a.beginWrite? c with
          | none => exact ⟨h, hheld⟩
          | some begun =>
              obtain ⟨clock, _, he⟩ := Hand.clock_of_beginWrite? hb
              exact ⟨by rw [he]; exact h, hheld⟩
      | enqueue posted =>
          refine ⟨h.add fun he => hn ?_, hheld⟩
          rw [he]
          exact List.mem_singleton.mpr rfl
      | _ => exact ⟨h, hheld⟩

theorem passesBy_step (h : a.queue.Resting key time) (hw : w.key? ≠ some key)
    (hn : .posted key ∉ Floor.turnNotes l a id w) :
    (a.stepFrom l id w).2.PassesBy (a.stepFrom l id w).1 key time := by
  cases w with
  | asking => exact passesBy_taken h (WorkQueue.polled_poll a.queue id)
  | waiting => exact passesBy_taken h (WorkQueue.polled_resume a.queue id)
  | working k rest => exact passesBy_request h (fun he => hw (congrArg some he)) rest hn
  | writing k c pending next =>
      simp only [stepFrom, step, endWrite]
      split <;> exact ⟨h, hw⟩
  | stopped => exact ⟨h, hw⟩

end Agent

namespace Floor.LeavesAlone

/-- A key that is not queued anew is left alone until its time. -/
theorem move (h : f.LeavesAlone key time) (hn : .posted key ∉ f.notes l m)
    (hm : f.Punctual m) (hnow : f.agent.clock.now < time) :
    (f.move l m).LeavesAlone key time := by
  cases m with
  | turn id =>
      simp only [Floor.move, Floor.turn]
      simp only [Floor.notes] at hn
      cases hw : f.workers[id]? with
      | none => exact h
      | some w =>
          rw [hw] at hn
          have hstep := Agent.passesBy_step h.queue (h.unheld w (List.mem_of_getElem? hw)) hn
          refine ⟨hstep.queue, fun v hv => ?_⟩
          rcases List.mem_or_eq_of_mem_set hv with hv | rfl
          · exact h.unheld v hv
          · exact hstep.unheld
  | work e => exact h.reports (f.reports_work l e) hn
  | object kind e => exact h.reports (f.reports_object l kind e) hn
  | fire t =>
      simp only [Floor.move]
      split
      · rename_i ht
        exact ⟨h.queue.fire ht (Nat.lt_of_le_of_lt hm hnow), h.unheld⟩
      · exact h
  | mood | pass => exact ⟨h.queue, h.unheld⟩

theorem run (h : f.LeavesAlone key time) (moves : List Move) (hn : .posted key ∉ f.log l moves)
    (hm : Floor.Along Floor.Punctual l f moves)
    (hnow : (f.run l moves).agent.clock.now < time) : (f.run l moves).LeavesAlone key time := by
  induction moves generalizing f with
  | nil => exact h
  | cons m rest ih =>
      rw [Floor.log, List.mem_append, not_or] at hn
      have hbefore : f.agent.clock.now < time :=
        Nat.lt_of_le_of_lt (f.now_le_run l (m :: rest)) hnow
      exact ih (h.move hn.1 hm.1 hbefore) hn.2 hm.2 hnow

end Floor.LeavesAlone

/-! ## After a failure -/

/-- The key that a worker is done with and that is to be tried again. -/
def Worker.failed? : Worker → Option ObjectKey
  | .working key (.done result) => if Agent.retries result then some key else none
  | _ => none

theorem Worker.eq_of_failed? (h : w.failed? = some key) :
    ∃ result, w = .working key (.done result) ∧ Agent.retries result = true := by
  unfold failed? at h
  split at h
  · rename_i k result
    split at h
    · rename_i hr
      cases h
      exact ⟨result, rfl, hr⟩
    · cases h
  · cases h

/-- Nobody else has the key of a worker in hand. -/
theorem Crew.Sound.key?_ne {c : Crew} (h : c.Sound) {j : WorkerId} {v : Worker}
    (hw : c.floor.workers[id]? = some w) (hk : w.key? = some key)
    (hv : c.floor.workers[j]? = some v) (hj : id ≠ j) : v.key? ≠ some key := by
  intro hvk
  obtain ⟨stage, hb⟩ := Crew.busy_of_key? hw hk
  obtain ⟨stage', hb'⟩ := Crew.busy_of_key? hv hvk
  exact hj (h.apart id j key stage stage' hb hb')

/-- What a failed key's rest depends on when it is settled. -/
theorem Crew.Sound.leavesAlone {c : Crew} (h : c.Sound)
    (hw : c.floor.workers[id]?.bind Worker.failed? = some key)
    (hdirty : key ∉ c.agent.queue.dirty)
    (hdelay : time ≤ c.agent.clock.now +
      (c.agent.queue.limiter.next key c.agent.clock.now).1.nanos)
    (hnow : c.agent.clock.now < time)
    (htimers : ∀ t ∈ c.agent.queue.delayed, t.item = key → time ≤ t.stamp.due) :
    (c.floor.move l (.turn id)).LeavesAlone key time := by
  obtain ⟨w, hw, hfailed⟩ := Option.bind_eq_some_iff.mp hw
  obtain ⟨result, rfl, hretries⟩ := Worker.eq_of_failed? hfailed
  obtain ⟨stage, hb⟩ := Crew.busy_of_key? hw rfl
  have hprocessing := h.held id key stage hb
  simp only [Floor.move, Floor.turn, hw]
  refine ⟨?_, fun v hv => ?_⟩
  · change (c.agent.settle key result).queue.Resting key time
    rw [Agent.settle_eq, if_pos hretries]
    exact WorkQueue.resting_retried h.queue.places hprocessing hdirty hdelay hnow htimers
  · obtain ⟨j, hj⟩ := List.mem_iff_getElem?.mp hv
    by_cases hid : id = j
    · subst hid
      rw [List.getElem?_set_self (List.getElem?_eq_some_iff.mp hw).1] at hj
      cases hj
      simp [Agent.stepFrom, Agent.requestFrom, Worker.key?]
    · rw [List.getElem?_set_ne hid] at hj
      exact h.key?_ne hw rfl hj hid

/-- With any number of workers, any events and any failures before: a key that failed and was not
added while it was processed is handed out to nobody, and does not even wait, before the delay
chosen for it has passed, as long as nothing but timers adds it and none that an earlier failure
set is due before. A key that was added while it was processed waits at once. -/
theorem rests_until_first_timer (l : Lookups) (cluster : String) (timeout : Duration)
    (limiter : Limiter ObjectKey) (manifestWorks : Table RecordKey ManifestWork) (workers : Nat)
    (moves : List Move) (id : WorkerId) (key : ObjectKey) :
    let f := (Floor.start (.fresh cluster timeout limiter manifestWorks) workers).run l moves
    let delay := (f.agent.queue.limiter.next key f.agent.clock.now).1
    let settled := f.move l (.turn id)
    f.workers[id]?.bind Worker.failed? = some key →
    (key ∈ f.agent.queue.dirty → key ∈ settled.agent.queue.waiting) ∧
    (key ∉ f.agent.queue.dirty → ∀ more, .posted key ∉ settled.log l more →
      Floor.Along Floor.Punctual l settled more →
      let g := settled.run l more
      g.agent.clock.now < f.agent.clock.now + delay.nanos →
      (∀ t ∈ f.agent.queue.delayed, t.item = key → g.agent.clock.now < t.stamp.due) →
      key ∉ g.agent.queue.waiting ∧ ∀ w ∈ g.workers, w.key? ≠ some key) := by
  intro f delay settled hfailed
  obtain ⟨c, hrun, hsound⟩ := Crew.run_start (I := fun c _ => c.Sound)
    (fun c _ h => ⟨h.queue, h.registry⟩) (fun c _ m c' notes h _ s => h.step s) moves
    (.fresh cluster timeout limiter manifestWorks) workers (Crew.sound_start ..)
    (Floor.along_of_forall (p := fun _ _ => True) fun _ _ _ => trivial)
  have hf : f = c.floor := hrun
  clear_value f
  subst hf
  constructor
  · intro hdirty
    obtain ⟨w, hw, hkey⟩ := Option.bind_eq_some_iff.mp hfailed
    obtain ⟨result, rfl, hretries⟩ := Worker.eq_of_failed? hkey
    have hsettled : settled.agent = c.agent.settle key result := by
      simp only [settled, Floor.move, Floor.turn, hw]
      rfl
    rw [hsettled, Agent.settle_eq, if_pos hretries]
    exact WorkQueue.mem_waiting_done_self (WorkQueue.mem_dirty_retried hdirty)
  · intro hdirty more hposted hpunctual g hdelay htimers
    have hnow : settled.agent.clock.now ≤ g.agent.clock.now := settled.now_le_run l more
    have hsame : c.agent.clock.now ≤ settled.agent.clock.now := c.floor.now_le_move l (.turn id)
    have halone : settled.LeavesAlone key (g.agent.clock.now + 1) :=
      hsound.leavesAlone hfailed hdirty hdelay (Nat.lt_succ_of_le (Nat.le_trans hsame hnow))
        htimers
    have hrest := halone.run more hposted hpunctual (Nat.lt_succ_self _)
    exact ⟨hrest.queue.unlined, hrest.unheld⟩

namespace Widgets

/-- A deployment record that lists nothing yet, which is tried again until it does. -/
def bare (version : String) : Object where
  metadata := { name := some "a", resourceVersion := some version }
  spec := some (.obj [("manifestWorkName", .str "a")])

def bareKey : ObjectKey := Ingest.liveKey appliedWorkKind ("", "a")

/-- The record has failed once when it changes, and its key has just been processed again. -/
def failedTwice : List Move :=
  [.work (.apply (bare "1"))] ++ turns 0 3 ++ [.work (.apply (bare "2"))] ++ turns 0 2

/-- Until the timer of the first failure is due, the key is with nobody. -/
theorem rests_failedTwice :
    let f := (Floor.start agent 1).run lookups failedTwice
    let settled := f.move lookups (.turn 0)
    let g := settled.run lookups [.turn 0, .pass 4000000, .turn 0]
    f.workers[0]?.bind Worker.failed? = some bareKey ∧ bareKey ∉ f.agent.queue.dirty ∧
      .posted bareKey ∉ settled.log lookups [.turn 0, .pass 4000000, .turn 0] ∧
      bareKey ∉ g.agent.queue.waiting ∧ ∀ w ∈ g.workers, w.key? ≠ some bareKey := by
  intro f settled g
  have hfailed : f.workers[0]?.bind Worker.failed? = some bareKey := by decide +kernel
  have hdirty : bareKey ∉ f.agent.queue.dirty := by decide +kernel
  have hposted : .posted bareKey ∉ settled.log lookups [.turn 0, .pass 4000000, .turn 0] := by
    decide +kernel
  refine ⟨hfailed, hdirty, hposted, ?_⟩
  refine (rests_until_first_timer lookups "cluster1" (.ofSeconds 5)
    (.exponential (.ofMillis 5) (.ofSeconds 1000) {}) {} 1 failedTwice 0 bareKey hfailed).2 hdirty
    [.turn 0, .pass 4000000, .turn 0] hposted ⟨trivial, trivial, trivial, trivial⟩ ?_ ?_
  · decide +kernel
  · decide +kernel

/-- The record changes while its key is being processed for the first time. -/
def changedMeanwhile : List Move :=
  [.work (.apply (bare "1"))] ++ turns 0 2 ++ [.work (.apply (bare "2"))]

/-- A worker settles a failed key, nothing but a retry adds it in the moves after that, and still
it is handed out before the delay that was chosen for it has passed. -/
def HandedOutEarly (f : Floor) (id : WorkerId) (key : ObjectKey) (more : List Move) : Prop :=
  let delay := (f.agent.queue.limiter.next key f.agent.clock.now).1
  let settled := f.move lookups (.turn id)
  let g := settled.run lookups more
  f.workers[id]?.bind Worker.failed? = some key ∧ .posted key ∉ settled.log lookups more ∧
    Floor.Along Floor.Punctual lookups settled more ∧
    g.agent.clock.now < f.agent.clock.now + delay.nanos ∧ ∃ w ∈ g.workers, w.key? = some key

/-- The delay after the second failure is 10 ms, but the timer of the first one fires after 5 ms.
And a record that changes while its key is being processed is not made to wait at all. -/
theorem handed_out_before_the_delay :
    HandedOutEarly ((Floor.start agent 1).run lookups failedTwice) 0 bareKey
        [.pass 6000000, .fire ⟨bareKey, ⟨5000000, 0⟩⟩, .turn 0] ∧
      HandedOutEarly ((Floor.start agent 1).run lookups changedMeanwhile) 0 bareKey [.turn 0] := by
  constructor
  · refine ⟨by decide +kernel, by decide +kernel, ⟨trivial, ?_, trivial, trivial⟩,
      by decide +kernel, by decide +kernel⟩
    change (5000000 : Nat) ≤ _
    decide +kernel
  · exact ⟨by decide +kernel, by decide +kernel, ⟨trivial, trivial⟩, by decide +kernel,
      by decide +kernel⟩

end Widgets
end StatusRelay
