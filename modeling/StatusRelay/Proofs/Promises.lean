import StatusRelay.Proofs.Crew
import StatusRelay.Proofs.Desk

/-!
# What an add promises

An add may be absorbed by an item that waits, is parked or is to be added later. Each of these
stands for a hand-out that starts after the add: a noted item is owed until it is handed out, and
what is due to somebody who holds it stays due until it is given back, through timers that fire
and adds by others. So a retry that comes before `done` cannot be lost, and a queue that is shut
down hands out all it owes before it is closed with nothing in process.
-/
namespace StatusRelay

theorem since_append {ν : Type} {p stop : ν → Prop} {log more : List ν} (h : Since p stop log)
    (hs : ∀ n ∈ more, ¬ stop n) : Since p stop (log ++ more) := by
  obtain ⟨before, n, after, rfl, hp, ha⟩ := h
  refine ⟨before, n, after ++ more, List.append_assoc _ _ _, hp, ?_⟩
  intro m hm
  exact (List.mem_append.mp hm).elim (ha m) (hs m)

/-- The item waits, or a timer will add it. -/
def WorkQueue.Coming {α : Type} (q : WorkQueue α) (a : α) : Prop :=
  a ∈ q.waiting ∨ ∃ timer ∈ q.delayed, timer.item = a

namespace Desk

variable {α : Type} [DecidableEq α] {d d' : Desk α} {log notes : List (QueueNote α)} {a : α}

/-! ## What a step leaves standing -/

namespace Step

theorem isOpen (s : Step d d' notes) (h : d'.queue.shuttingDown = false) :
    d.queue.shuttingDown = false := by
  cases s with
  | rests s _ => exact s.shuttingDown ▸ h
  | closes _ _ _ s _ => exact s.shuttingDown ▸ h
  | adds _ ho _ _ => exact ho
  | delays _ s _ => exact s.isOpen
  | fires _ _ ho _ _ => exact ho
  | expires _ _ s _ => exact s.shuttingDown ▸ h
  | hands _ _ s _ _ => exact s.shuttingDown ▸ h
  | finishes a _ he =>
      rw [he, finish, WorkQueue.shuttingDown_done] at h
      exact h
  | shuts s _ =>
      rw [s.shuttingDown] at h
      cases h

/-- Who holds an item holds it until it is finished. -/
theorem mem_inHand (s : Step d d' notes) (ha : a ∈ d.inHand) (hn : .finished a ∉ notes) :
    a ∈ d'.inHand := by
  have hstays : d.Stays d' → a ∈ d'.inHand := by
    intro h
    rw [inHand, h.held]
    exact ha
  cases s with
  | rests _ h | closes _ _ _ _ h | adds _ _ _ h | delays _ _ h | fires _ _ _ _ h
  | expires _ _ _ h | shuts _ h => exact hstays h
  | hands _ b _ hh _ =>
      rw [inHand, hh]
      exact List.mem_cons_of_mem _ ha
  | finishes b _ he =>
      have hne : a ≠ b := by
        intro hab
        exact hn (hab ▸ List.mem_singleton.mpr rfl)
      rw [he, Kept.inHand_finish]
      exact List.mem_filter.mpr ⟨ha, decide_eq_true hne⟩

/-- While somebody holds an item, what was promised for it stands. -/
theorem due (s : Step d d' notes) (h : Kept d log) (ha : a ∈ d.inHand)
    (ho : d'.queue.shuttingDown = false) (hd : d.queue.Due a) : d'.queue.Due a := by
  cases s with
  | rests s _ => exact (s.due_iff a).mpr hd
  | closes _ _ _ s _ => exact (s.due_iff a).mpr hd
  | adds _ _ s _ => exact s.due_iff.mpr (Or.inl hd)
  | delays _ s _ => exact s.due_iff.mpr (Or.inl hd)
  | fires timer ht _ s _ => exact (s.due_expire h.timed ht).mpr hd
  | expires timer hs s _ =>
      have hshut : d'.queue.shuttingDown = true := s.shuttingDown.trans hs
      rw [ho] at hshut
      cases hshut
  | hands t b s _ _ =>
      have hne : a ≠ b := by
        intro hab
        exact s.fresh h.places (hab ▸ (h.processed a).mpr ha)
      exact ((s.handsOut h.places).rest a hne).mpr hd
  | finishes b _ he =>
      rw [he]
      exact (WorkQueue.due_done d.queue b a).mpr hd
  | shuts s _ =>
      rw [s.shuttingDown] at ho
      cases ho

/-- A timer stands until it fires, and then its item is added, unless the queue was shut down. -/
theorem timer {timer : Delayed α} (s : Step d d' notes) (h : Kept d log)
    (ht : timer ∈ d.queue.delayed) :
    timer ∈ d'.queue.delayed ∨ .added timer.item ∈ notes ∨ d'.queue.shuttingDown = true := by
  cases s with
  | rests s _ | closes _ _ _ s _ | adds _ _ s _ | hands _ _ s _ _ | shuts s _ =>
      exact Or.inl (s.delayed ▸ ht)
  | delays _ s _ => exact Or.inl (s.mem_delayed_of ht)
  | fires fired hf _ s _ =>
      by_cases he : timer = fired
      · exact Or.inr (Or.inl (he ▸ List.mem_singleton.mpr rfl))
      · refine Or.inl ?_
        rw [s.delayed]
        exact (h.timed.mem_delayed_expire hf).mpr ⟨ht, he⟩
  | expires _ hs s _ => exact Or.inr (Or.inr (s.shuttingDown.trans hs))
  | finishes b _ he =>
      refine Or.inl ?_
      rw [he, finish, WorkQueue.delayed_done]
      exact ht

end Step

/-! ## Runs -/

namespace Kept

/-- What steps of a desk in good order keep holds after every run. -/
theorem run_keeps {I : Desk α → List (QueueNote α) → Prop} (h : Kept d log) (hi : I d [])
    (hstep : ∀ e seen e' notes, Kept e (log ++ seen) → I e seen → Step e e' notes →
      I e' (seen ++ notes))
    (moves : List (QueueMove α)) :
    Kept (d.run moves) (log ++ d.log moves) ∧ I (d.run moves) (d.log moves) := by
  have hrun := Desk.run_keeps (I := fun e seen => Kept e (log ++ seen) ∧ I e seen) ?_ moves d []
    ⟨(List.append_nil log).symm ▸ h, hi⟩
  · rw [List.nil_append] at hrun
    exact hrun
  · intro e seen e' notes ⟨hk, hi⟩ s
    refine ⟨?_, hstep e seen e' notes hk hi s⟩
    rw [← List.append_assoc]
    exact hk.step s

theorem move (h : Kept d log) (m : QueueMove α) : Kept (d.move m) (log ++ d.notes m) :=
  h.step (step_move d m)

/-- What somebody holds and is due stays so until it is finished, as long as the queue is open. -/
theorem due_run (h : Kept d log) (ha : a ∈ d.inHand)
    (hd : d.queue.shuttingDown = false → d.queue.Due a) (moves : List (QueueMove α))
    (hn : .finished a ∉ d.log moves) :
    a ∈ (d.run moves).inHand ∧
      ((d.run moves).queue.shuttingDown = false → (d.run moves).queue.Due a) := by
  refine (h.run_keeps (I := fun e seen => .finished a ∉ seen →
    a ∈ e.inHand ∧ (e.queue.shuttingDown = false → e.queue.Due a)) ?_ ?_ moves).2 hn
  · exact fun _ => ⟨ha, hd⟩
  · intro e seen e' notes hk hi s hf
    rw [List.mem_append, not_or] at hf
    obtain ⟨hm, hdue⟩ := hi hf.1
    exact ⟨s.mem_inHand hm hf.2, fun ho => s.due hk hm ho (hdue (s.isOpen ho))⟩

theorem timer_run (h : Kept d log) {timer : Delayed α} (ht : timer ∈ d.queue.delayed)
    (moves : List (QueueMove α)) :
    timer ∈ (d.run moves).queue.delayed ∨ .added timer.item ∈ d.log moves ∨
      (d.run moves).queue.shuttingDown = true := by
  refine (h.run_keeps (I := fun e seen => timer ∈ e.queue.delayed ∨
    .added timer.item ∈ seen ∨ e.queue.shuttingDown = true) ?_ ?_ moves).2
  · exact Or.inl ht
  · intro e seen e' notes hk hi s
    rcases hi with hm | hm | hs
    · exact (s.timer hk hm).imp_right
        (Or.imp_left fun hm => List.mem_append.mpr (Or.inr hm))
    · exact Or.inr (Or.inl (List.mem_append.mpr (Or.inl hm)))
    · refine Or.inr (Or.inr ?_)
      by_contra ho
      rw [Bool.not_eq_true] at ho
      rw [s.isOpen ho] at hs
      cases hs

omit [DecidableEq α] in
/-- An add that no hand-out followed stands: its item waits, or is parked while somebody holds
it. -/
theorem stands (h : Kept d log) {before after : List (QueueNote α)}
    (he : log = before ++ .added a :: after) (hn : ∀ t, .handed t a ∉ after) :
    a ∈ d.queue.waiting ∨ a ∈ d.queue.dirty ∧ a ∈ d.inHand := by
  have hdirty : a ∈ d.queue.dirty := by
    refine (h.noted a).mpr ⟨before, _, after, he, rfl, ?_⟩
    rintro n hm ⟨t, rfl⟩
    exact hn t hm
  exact (h.places.known a hdirty).imp_right fun hp => ⟨hdirty, (h.processed a).mp hp⟩

end Kept

/-- What is held and noted waits once it is marked done. -/
theorem mem_waiting_done (hd : a ∈ d.queue.dirty) (ha : a ∈ d.inHand) :
    a ∈ (d.move (.done a)).queue.waiting := by
  simp only [Desk.move, ha, if_true]
  exact WorkQueue.mem_waiting_done_self hd

/-! ## Retries -/

/-- A retry is due now or later, unless the queue is shut down. -/
theorem due_retried (d : Desk α) (a : α)
    (ho : (d.move (.addRateLimited a)).queue.shuttingDown = false) :
    (d.move (.addRateLimited a)).queue.Due a :=
  (WorkQueue.due_addRateLimited ((step_move d _).isOpen ho)).mpr (Or.inr rfl)

/-- What is due when it is marked done waits or will be added by a timer. -/
theorem coming_done (ha : a ∈ d.inHand) (hd : d.queue.Due a) :
    (d.move (.done a)).queue.Coming a := by
  refine hd.imp (fun hd => mem_waiting_done hd ha) ?_
  intro hd
  simp only [Desk.move, ha, if_true, finish, WorkQueue.delayed_done]
  exact hd

end Desk

namespace Agent

/-- What settling a key does to the queue: two moves of the worker that holds it, the retry, or the
end of the key's failures, first. -/
theorem settle_moves (a : Agent) (key : ObjectKey) (result : Except AgentError Outcome)
    (held : List (Ticket × ObjectKey)) (h : key ∈ held.map Prod.snd) :
    let d : Desk ObjectKey := ⟨a.queue, a.clock, held⟩
    let e := d.move (if retries result then .addRateLimited key else .forget key)
    (a.settle key result).queue = (e.move (.done key)).queue ∧
      (a.settle key result).clock = (e.move (.done key)).clock := by
  intro d e
  have hdone : e.inHand = d.inHand → e.move (.done key) = e.finish key := by
    intro hi
    exact if_pos (hi ▸ h)
  rw [settle_eq]
  cases hr : retries result with
  | true =>
      have he : e = d.move (.addRateLimited key) := by simp only [e, hr, if_true]
      rw [hdone (he ▸ rfl), he]
      exact ⟨rfl, rfl⟩
  | false =>
      have he : e = d.move (.forget key) := by
        simp only [e, hr, Bool.false_eq_true, if_false]
      rw [hdone (he ▸ rfl), he]
      exact ⟨rfl, rfl⟩

/-- A key that is to be tried again comes back, whatever it was doing in the queue. -/
theorem coming_settle (a : Agent) {key : ObjectKey} {result : Except AgentError Outcome}
    (hr : retries result = true) (ho : a.queue.shuttingDown = false) :
    (a.settle key result).queue.Coming key := by
  have hq := (settle_moves a key result [(0, key)] List.mem_cons_self).1
  rw [hq]
  simp only [hr, if_true]
  refine Desk.coming_done List.mem_cons_self ?_
  exact (WorkQueue.due_addRateLimited ho).mpr (Or.inr rfl)

end Agent

namespace Desk

variable {α : Type} [DecidableEq α]

/-- A queue that was shut down with an item in line or parked has handed it out when it tells a
caller that it is closed and nothing is in process. -/
theorem Kept.handed_of_closed {d : Desk α} {log : List (QueueNote α)} {a : α} (h : Kept d log)
    (ha : a ∈ d.queue.dirty) (more : List (QueueMove α)) {q : WorkQueue α}
    (hc : (d.run more).queue.Polled .closed q) (hp : (d.run more).queue.processing = []) :
    ∃ t, .handed t a ∈ d.log more := by
  by_contra hn
  rw [not_exists] at hn
  have hk := (h.run_keeps (I := fun _ _ => True) trivial (fun _ _ _ _ _ _ _ => trivial) more).1
  have howed : Owed (log ++ d.log more) a := by
    refine since_append ((h.noted a).mp ha) ?_
    rintro n hm ⟨t, rfl⟩
    exact hn t hm
  rcases hk.places.known a ((hk.noted a).mpr howed) with hw | hm
  · cases hc with
    | closed _ hempty _ =>
        rw [hempty] at hw
        exact List.not_mem_nil hw
  · rw [hp] at hm
    exact List.not_mem_nil hm

/-- No add is lost. After every list of moves, each add that was accepted was answered by a
hand-out after it, or its item waits, or is noted while somebody holds it and waits as soon as that
is marked done. A retry made by who holds the item brings it back after `done`, whatever happens
between the two, if the queue is still open, and so does settling a key with a result that asks for
a retry. A timer stands until it fires, and its item is added then. What waits or is parked when
the queue is shut down is handed out before any caller is told that the queue is closed with
nothing in process. -/
theorem no_lost_work (limiter : Limiter α) (clock : Clock) (moves : List (QueueMove α)) :
    let d := (start limiter clock).run moves
    let log := (start limiter clock).log moves
    (∀ a before after, log = before ++ .added a :: after →
      (∃ t, .handed t a ∈ after) ∨ a ∈ d.queue.waiting ∨
        a ∈ d.queue.dirty ∧ (∃ t, (t, a) ∈ d.held) ∧
          a ∈ (d.move (.done a)).queue.waiting) ∧
      (∀ a t between, (t, a) ∈ d.held →
        let e := d.move (.addRateLimited a)
        let f := (e.run between).move (.done a)
        .finished a ∉ e.log between → f.queue.shuttingDown = false → f.queue.Coming a) ∧
      (∀ (agent : Agent) key result, Agent.retries result = true →
        agent.queue.shuttingDown = false → (agent.settle key result).queue.Coming key) ∧
      (∀ timer ∈ d.queue.delayed, ∀ more,
        timer ∈ (d.run more).queue.delayed ∨ .added timer.item ∈ d.log more ∨
          (d.run more).queue.shuttingDown = true) ∧
      (∀ a more t, a ∈ d.queue.waiting ∨ a ∈ d.queue.dirty ∧ a ∈ d.queue.processing →
        let e := d.move .shutDown
        let q := (e.run more).queue
        (q.poll t).1 = .closed ∨ (q.resume t).1 = .closed → q.processing = [] →
          ∃ t', .handed t' a ∈ e.log more) := by
  intro d log
  have h : Kept d log := Kept.run limiter clock moves
  refine ⟨?_, ?_, ?_, ?_, ?_⟩
  · intro a before after he
    by_cases hn : ∃ t, .handed t a ∈ after
    · exact Or.inl hn
    · rw [not_exists] at hn
      refine Or.inr ((h.stands he hn).imp_right ?_)
      rintro ⟨hd, hm⟩
      exact ⟨hd, mem_inHand.mp hm, mem_waiting_done hd hm⟩
  · intro a t between ht e f hn ho
    have hm : a ∈ e.inHand := mem_inHand.mpr ⟨t, ht⟩
    have hdue : e.queue.shuttingDown = false → e.queue.Due a := due_retried d a
    obtain ⟨hm, hdue⟩ := (h.move (.addRateLimited a)).due_run hm hdue between hn
    exact coming_done hm (hdue ((step_move _ _).isOpen ho))
  · intro agent key result hr ho
    exact agent.coming_settle hr ho
  · intro timer ht more
    exact h.timer_run ht more
  · intro a more t ha e q hc hp
    have hdirty : a ∈ e.queue.dirty := ha.elim (h.places.noted a) And.left
    have he : Kept e _ := h.move .shutDown
    rcases hc with hc | hc
    · exact he.handed_of_closed hdirty more (hc ▸ WorkQueue.polled_poll q t) hp
    · exact he.handed_of_closed hdirty more (hc ▸ WorkQueue.polled_resume q t) hp

/-- A caller may be told that the queue is closed while a parked item is still in process. -/
example :
    (start (.largest []) {}).log
        [.add 1, .poll 0, .add 1, .shutDown, .poll 2, .done 1, .poll 3, .done 1, .poll 4] =
      [.added 1, .handed 0 1, .added 1, .closed 2, .finished 1, .handed 3 1, .finished 1,
        .closed 4] := by
  decide

end Desk
end StatusRelay
