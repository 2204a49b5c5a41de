import StatusRelay.Proofs.Backlog

/-!
# A queue and its callers

Any number of callers around one queue: they add items, at once or later, ask for them, go away,
and mark done what they were handed; timers fire, time passes, and somebody shuts the queue down.
A `Desk` remembers who holds what. Two moves need something to be there: only what somebody holds
is marked done, and only a timer that was set fires. Without it nothing happens, so that every
list of moves is a run and every order of operations is one of these lists.

`log` tells which adds were accepted and what was handed out and finished. An item is owed while it
was added and not handed out since, and the notes of the queue are exactly the items it owes.
-/
namespace StatusRelay

/-- What is done to a queue. -/
inductive QueueMove (α : Type) where
  | add (a : α)
  | addAfter (a : α) (delay : Duration)
  | addRateLimited (a : α)
  | forget (a : α)
  | fire (timer : Delayed α)
  /-- A caller asks for an item. -/
  | poll (t : Ticket)
  /-- A caller that got nothing asks once more. -/
  | resume (t : Ticket)
  /-- A caller goes away. -/
  | leave (t : Ticket)
  | done (a : α)
  | shutDown
  | pass (time : Nat)
  deriving DecidableEq, Repr

inductive QueueNote (α : Type) where
  /-- An add that was not refused, by a caller or by a timer that fired. -/
  | added (a : α)
  | handed (t : Ticket) (a : α)
  | finished (a : α)
  /-- A caller was told that the queue is closed. -/
  | closed (t : Ticket)
  deriving DecidableEq, Repr

/-- Something like `p` happened, and nothing like `stop` after it. -/
def Since {ν : Type} (p stop : ν → Prop) (log : List ν) : Prop :=
  ∃ before n after, log = before ++ n :: after ∧ p n ∧ ∀ m ∈ after, ¬ stop m

theorem since_concat {ν : Type} {p stop : ν → Prop} {log : List ν} {n : ν} :
    Since p stop (log ++ [n]) ↔ p n ∨ ¬ stop n ∧ Since p stop log := by
  constructor
  · rintro ⟨before, m, after, he, hp, hs⟩
    rcases List.eq_nil_or_concat after with rfl | ⟨after, last, rfl⟩
    · have hn : n = m := (List.append_inj' he rfl).2 |> List.singleton_inj.mp
      exact Or.inl (hn ▸ hp)
    · rw [List.concat_eq_append] at he hs
      have he' : log ++ [n] = (before ++ m :: after) ++ [last] := by
        rw [he, List.append_assoc, List.cons_append]
      obtain ⟨hlog, hlast⟩ := List.append_inj' he' rfl
      have hn : n = last := List.singleton_inj.mp hlast
      refine Or.inr ⟨?_, before, m, after, hlog, hp, ?_⟩
      · exact hn ▸ hs last (List.mem_append.mpr (Or.inr (List.mem_singleton.mpr rfl)))
      · exact fun k hk => hs k (List.mem_append.mpr (Or.inl hk))
  · rintro (hp | ⟨hn, before, m, after, rfl, hp, hs⟩)
    · exact ⟨log, n, [], rfl, hp, fun _ hm => absurd hm List.not_mem_nil⟩
    · refine ⟨before, m, after ++ [n], List.append_assoc _ _ _, hp, ?_⟩
      intro k hk
      rcases List.mem_append.mp hk with hk | hk
      · exact hs k hk
      · exact (List.mem_singleton.mp hk) ▸ hn

structure Desk (α : Type) where
  queue : WorkQueue α
  clock : Clock
  /-- What was handed to whom and is not marked done. -/
  held : List (Ticket × α) := []

namespace Desk

variable {α : Type}

def start (limiter : Limiter α) (clock : Clock) : Desk α := { queue := { limiter }, clock }

/-- The items that somebody holds. -/
def inHand (d : Desk α) : List α := d.held.map Prod.snd

def withQueue (d : Desk α) (q : WorkQueue α) : Desk α := { d with queue := q }

def withTimers (d : Desk α) (r : WorkQueue α × Clock) : Desk α :=
  { d with queue := r.1, clock := r.2 }

/-- A caller goes away with what it was handed, if anything. -/
def receive (d : Desk α) (t : Ticket) : Handout α × WorkQueue α → Desk α
  | (.item a, q) => { d with queue := q, held := (t, a) :: d.held }
  | (.closed, q) | (.nothing, q) => d.withQueue q

/-- An add that is made now, if the queue is open. -/
def accepted (q : WorkQueue α) (a : α) (now : Bool) : List (QueueNote α) :=
  if now && !q.shuttingDown then [.added a] else []

def told (t : Ticket) : Handout α → List (QueueNote α)
  | .item a => [.handed t a]
  | .closed => [.closed t]
  | .nothing => []

/-- The item was added and not handed out since. -/
def Owed (log : List (QueueNote α)) (a : α) : Prop :=
  Since (fun n => n = .added a) (fun n => ∃ t, n = .handed t a) log

theorem owed_concat {log : List (QueueNote α)} {n : QueueNote α} {a : α} :
    Owed (log ++ [n]) a ↔ n = .added a ∨ (∀ t, n ≠ .handed t a) ∧ Owed log a := by
  rw [Owed, since_concat, not_exists]
  rfl

/-- Nobody is handed anything or finishes. -/
structure Stays (d d' : Desk α) : Prop where
  held : d'.held = d.held
  issued : d.clock.issued ≤ d'.clock.issued

variable [DecidableEq α]

def finish (d : Desk α) (a : α) : Desk α :=
  { d with queue := d.queue.done a, held := d.held.filter fun h => decide (h.2 ≠ a) }

def move (d : Desk α) : QueueMove α → Desk α
  | .add a => d.withQueue (d.queue.add a)
  | .addAfter a delay => d.withTimers (d.queue.addAfter a delay d.clock)
  | .addRateLimited a => d.withTimers (d.queue.addRateLimited a d.clock)
  | .forget a => d.withQueue (d.queue.forget a)
  | .fire timer => if timer ∈ d.queue.delayed then d.withQueue (d.queue.fire timer) else d
  | .poll t => d.receive t (d.queue.poll t)
  | .resume t => d.receive t (d.queue.resume t)
  | .leave t => d.withQueue (d.queue.leave t)
  | .done a => if a ∈ d.inHand then d.finish a else d
  | .shutDown => d.withQueue d.queue.shutDown
  | .pass time => { d with clock := d.clock.advanceTo time }

/-- What a move shows. -/
def notes (d : Desk α) : QueueMove α → List (QueueNote α)
  | .add a => accepted d.queue a true
  | .addAfter a delay => accepted d.queue a delay.isZero
  | .addRateLimited a => accepted d.queue a (d.queue.limiter.next a d.clock.now).1.isZero
  | .fire timer => accepted d.queue timer.item (decide (timer ∈ d.queue.delayed))
  | .poll t => told t (d.queue.poll t).1
  | .resume t => told t (d.queue.resume t).1
  | .done a => if a ∈ d.inHand then [.finished a] else []
  | .forget _ | .leave _ | .shutDown | .pass _ => []

def run : Desk α → List (QueueMove α) → Desk α := List.foldl move

/-- Everything that a run shows. -/
def log : Desk α → List (QueueMove α) → List (QueueNote α)
  | _, [] => []
  | d, m :: rest => d.notes m ++ log (d.move m) rest

/-! ## One move -/

/-- What a move can do to the items, and what it shows. -/
inductive Step (d d' : Desk α) : List (QueueNote α) → Prop where
  | rests (s : d.queue.SameItems d'.queue) (h : d.Stays d') : Step d d' []
  | closes (t : Ticket) (hs : d.queue.shuttingDown = true) (hw : d.queue.waiting = [])
      (s : d.queue.SameItems d'.queue) (h : d.Stays d') : Step d d' [.closed t]
  | adds (a : α) (ho : d.queue.shuttingDown = false) (s : d.queue.Added a d'.queue)
      (h : d.Stays d') : Step d d' [.added a]
  | delays (a : α) (s : d.queue.Delays d.clock a d'.queue d'.clock) (h : d.Stays d') :
      Step d d' []
  | fires (timer : Delayed α) (ht : timer ∈ d.queue.delayed)
      (ho : d.queue.shuttingDown = false)
      (s : (d.queue.expire timer.stamp).Added timer.item d'.queue) (h : d.Stays d') :
      Step d d' [.added timer.item]
  | expires (timer : Delayed α) (hs : d.queue.shuttingDown = true)
      (s : (d.queue.expire timer.stamp).SameItems d'.queue) (h : d.Stays d') : Step d d' []
  | hands (t : Ticket) (a : α) (s : d.queue.Takes a d'.queue) (hh : d'.held = (t, a) :: d.held)
      (hc : d'.clock = d.clock) : Step d d' [.handed t a]
  | finishes (a : α) (ha : a ∈ d.inHand) (he : d' = d.finish a) : Step d d' [.finished a]
  | shuts (s : ({ d.queue with shuttingDown := true } : WorkQueue α).SameItems d'.queue)
      (h : d.Stays d') : Step d d' []

theorem step_add (d : Desk α) (a : α) :
    d.Step (d.withQueue (d.queue.add a)) (accepted d.queue a true) := by
  have hstays : d.Stays (d.withQueue (d.queue.add a)) := ⟨rfl, Nat.le_refl _⟩
  cases ho : d.queue.shuttingDown with
  | true =>
      have hs := WorkQueue.add_of_shut ho a
      simp only [accepted, ho, Bool.not_true, Bool.and_false, Bool.false_eq_true, if_false]
      refine .rests ?_ hstays
      rw [withQueue, hs]
      exact .refl _
  | false =>
      simp only [accepted, ho, Bool.not_false, Bool.and_self, if_true]
      exact .adds a ho (WorkQueue.added_add ho a) hstays

theorem step_deferred {d : Desk α} {a : α} {now : Bool} {r : WorkQueue α × Clock}
    (h : d.queue.Deferred d.clock a now r.1 r.2) :
    d.Step (d.withTimers r) (accepted d.queue a now) := by
  cases h with
  | added ho hn s hc =>
      simp only [accepted, ho, hn, Bool.not_false, Bool.and_self, if_true]
      exact .adds a ho s ⟨rfl, Nat.le_of_eq (congrArg Clock.issued hc.symm)⟩
  | refused hs s hc =>
      simp only [accepted, hs, Bool.not_true, Bool.and_false, Bool.false_eq_true, if_false]
      exact .rests s ⟨rfl, Nat.le_of_eq (congrArg Clock.issued hc.symm)⟩
  | timer hn s =>
      simp only [accepted, hn, Bool.false_and, Bool.false_eq_true, if_false]
      have hle : d.clock.issued ≤ r.2.issued := by
        rw [s.issued]
        exact Nat.le_succ _
      exact .delays a s ⟨rfl, hle⟩

theorem step_fire {d : Desk α} {timer : Delayed α} (ht : timer ∈ d.queue.delayed) :
    d.Step (d.withQueue (d.queue.fire timer)) (accepted d.queue timer.item true) := by
  have hstays : d.Stays (d.withQueue (d.queue.fire timer)) := ⟨rfl, Nat.le_refl _⟩
  cases ho : d.queue.shuttingDown with
  | true =>
      have hs := WorkQueue.add_of_shut (q := d.queue.expire timer.stamp) ho timer.item
      simp only [accepted, ho, Bool.not_true, Bool.and_false, Bool.false_eq_true, if_false]
      refine .expires timer ho ?_ hstays
      rw [withQueue, WorkQueue.fire, hs]
      exact .refl _
  | false =>
      simp only [accepted, ho, Bool.not_false, Bool.and_self, if_true]
      exact .fires timer ht ho (WorkQueue.added_add (q := d.queue.expire timer.stamp) ho _) hstays

theorem step_receive {d : Desk α} {t : Ticket} {r : Handout α × WorkQueue α}
    (h : d.queue.Polled r.1 r.2) : d.Step (d.receive t r) (told t r.1) := by
  obtain ⟨out, q⟩ := r
  have hstays : d.Stays (d.withQueue q) := ⟨rfl, Nat.le_refl _⟩
  cases h with
  | item s => exact .hands t _ s rfl rfl
  | closed hs hw s => exact .closes t hs hw s hstays
  | nothing hs s => exact .rests s hstays

theorem step_move (d : Desk α) (m : QueueMove α) : d.Step (d.move m) (d.notes m) := by
  have hself : d.Step d [] := .rests (.refl _) ⟨rfl, Nat.le_refl _⟩
  cases m with
  | add a => exact step_add d a
  | addAfter a delay => exact step_deferred (WorkQueue.deferred_addAfter d.queue a delay d.clock)
  | addRateLimited a => exact step_deferred (WorkQueue.deferred_addRateLimited d.queue a d.clock)
  | forget a => exact .rests (WorkQueue.sameItems_forget d.queue a) ⟨rfl, Nat.le_refl _⟩
  | fire timer =>
      by_cases ht : timer ∈ d.queue.delayed
      · simp only [move, notes, ht, if_true, decide_true]
        exact step_fire ht
      · simp only [move, notes, ht, if_false, decide_false]
        exact hself
  | poll t => exact step_receive (WorkQueue.polled_poll d.queue t)
  | resume t => exact step_receive (WorkQueue.polled_resume d.queue t)
  | leave t => exact .rests (WorkQueue.sameItems_leave d.queue t) ⟨rfl, Nat.le_refl _⟩
  | done a =>
      by_cases ha : a ∈ d.inHand
      · simp only [move, notes, ha, if_true]
        exact .finishes a ha rfl
      · simp only [move, notes, ha, if_false]
        exact hself
  | shutDown => exact .shuts ⟨rfl, rfl, rfl, rfl, rfl⟩ ⟨rfl, Nat.le_refl _⟩
  | pass time => exact .rests (.refl _) ⟨rfl, Nat.le_refl _⟩

/-- What steps keep holds after every run. -/
theorem run_keeps {I : Desk α → List (QueueNote α) → Prop}
    (hstep : ∀ d log d' notes, I d log → Step d d' notes → I d' (log ++ notes))
    (moves : List (QueueMove α)) (d : Desk α) (log : List (QueueNote α)) (h : I d log) :
    I (d.run moves) (log ++ d.log moves) := by
  induction moves generalizing d log with
  | nil =>
      rw [Desk.log, List.append_nil]
      exact h
  | cons m rest ih =>
      have hm := hstep d log _ _ h (step_move d m)
      rw [Desk.log, ← List.append_assoc]
      exact ih (d.move m) _ hm

/-! ## The books of a desk -/

/-- The queue's notes are the items it owes, and it processes what somebody holds. -/
structure Kept (d : Desk α) (log : List (QueueNote α)) : Prop where
  places : d.queue.Places
  timed : d.queue.Timed d.clock
  distinct : d.queue.dirty.Nodup
  noted : ∀ a, a ∈ d.queue.dirty ↔ Owed log a
  processed : ∀ a, a ∈ d.queue.processing ↔ a ∈ d.inHand
  single : d.inHand.Nodup

namespace Kept

omit [DecidableEq α] in
theorem start (limiter : Limiter α) (clock : Clock) : Kept (.start limiter clock) [] where
  places := WorkQueue.places_start limiter
  timed := WorkQueue.timed_start limiter clock
  distinct := List.nodup_nil
  noted := by
    intro a
    refine ⟨fun h => absurd h List.not_mem_nil, ?_⟩
    rintro ⟨before, n, after, he, -⟩
    exact absurd he.symm (by simp)
  processed := fun a => Iff.rfl
  single := List.nodup_nil

variable {d d' : Desk α} {log notes : List (QueueNote α)} {a : α}

omit [DecidableEq α] in
theorem sameItems (h : Kept d log) (s : d.queue.SameItems d'.queue) (hs : d.Stays d') :
    Kept d' log where
  places := s.places h.places
  timed := (h.timed.of_delayed s.delayed).later hs.issued
  distinct := s.dirty ▸ h.distinct
  noted := by rw [s.dirty]; exact h.noted
  processed := by rw [s.processing, inHand, hs.held]; exact h.processed
  single := by rw [inHand, hs.held]; exact h.single

omit [DecidableEq α] in
theorem added (h : Kept d log) (s : d.queue.Added a d'.queue) (hs : d.Stays d') :
    Kept d' (log ++ [.added a]) where
  places := s.places h.places
  timed := (h.timed.of_delayed s.delayed).later hs.issued
  distinct := s.nodup_dirty h.distinct
  noted := by
    intro b
    rw [s.mem_dirty, owed_concat, h.noted]
    simp [or_comm, eq_comm]
  processed := by rw [s.processing, inHand, hs.held]; exact h.processed
  single := by rw [inHand, hs.held]; exact h.single

omit [DecidableEq α] in
theorem expired (h : Kept d log) (stamp : Stamp) :
    Kept (d.withQueue (d.queue.expire stamp)) log :=
  { h with places := { h.places with }, timed := h.timed.expire stamp }

omit [DecidableEq α] in
theorem delayed (h : Kept d log) (s : d.queue.Delays d.clock a d'.queue d'.clock)
    (hs : d.Stays d') : Kept d' log where
  places := s.places h.places
  timed := s.timed h.timed
  distinct := s.dirty ▸ h.distinct
  noted := by rw [s.dirty]; exact h.noted
  processed := by rw [s.processing, inHand, hs.held]; exact h.processed
  single := by rw [inHand, hs.held]; exact h.single

theorem handed {t : Ticket} (h : Kept d log) (s : d.queue.Takes a d'.queue)
    (hh : d'.held = (t, a) :: d.held) (hc : d'.clock = d.clock) :
    Kept d' (log ++ [.handed t a]) where
  places := s.places h.places
  timed := hc ▸ h.timed.of_delayed s.delayed
  distinct := s.dirty ▸ h.distinct.erase a
  noted := by
    intro b
    rw [s.mem_dirty h.distinct, owed_concat, h.noted]
    simp [and_comm, eq_comm]
  processed := by
    intro b
    rw [s.mem_processing, h.processed, inHand, inHand, hh, List.map_cons, List.mem_cons, or_comm]
  single := by
    rw [inHand, hh, List.map_cons, List.nodup_cons]
    refine ⟨?_, h.single⟩
    exact fun hm => s.fresh h.places ((h.processed a).mpr hm)

theorem inHand_finish (d : Desk α) (a : α) :
    (d.finish a).inHand = d.inHand.filter fun b => decide (b ≠ a) := by
  rw [finish, inHand, inHand, List.filter_map]
  rfl

theorem finished (h : Kept d log) (ha : a ∈ d.inHand) :
    Kept (d.finish a) (log ++ [.finished a]) where
  places := h.places.done ((h.processed a).mpr ha)
  timed := h.timed.of_delayed (WorkQueue.delayed_done d.queue a)
  distinct := by
    rw [finish, WorkQueue.dirty_done]
    exact h.distinct
  noted := by
    intro b
    rw [finish, WorkQueue.dirty_done, owed_concat, h.noted]
    simp
  processed := by
    intro b
    rw [inHand_finish, finish, WorkQueue.processing_done, h.places.single.mem_erase_iff,
      List.mem_filter, decide_eq_true_iff, h.processed, and_comm]
  single := by
    rw [inHand_finish]
    exact h.single.filter _

omit [DecidableEq α] in
theorem closed (t : Ticket) (h : Kept d log) : Kept d (log ++ [.closed t]) :=
  { h with
    noted := by
      intro b
      rw [owed_concat, h.noted]
      simp }

omit [DecidableEq α] in
theorem shut (h : Kept d log) :
    Kept (d.withQueue { d.queue with shuttingDown := true }) log :=
  { h with places := { h.places with }, timed := { h.timed with } }

theorem step (h : Kept d log) (s : Step d d' notes) : Kept d' (log ++ notes) := by
  cases s with
  | rests s hs =>
      rw [List.append_nil]
      exact h.sameItems s hs
  | closes t _ _ s hs => exact (h.sameItems s hs).closed t
  | adds a _ s hs => exact h.added s hs
  | delays a s hs =>
      rw [List.append_nil]
      exact h.delayed s hs
  | fires timer _ _ s hs => exact (h.expired timer.stamp).added s ⟨hs.held, hs.issued⟩
  | expires timer _ s hs =>
      rw [List.append_nil]
      exact (h.expired timer.stamp).sameItems s ⟨hs.held, hs.issued⟩
  | hands t a s hh hc => exact h.handed s hh hc
  | finishes a ha he =>
      rw [he]
      exact h.finished ha
  | shuts s hs =>
      rw [List.append_nil]
      exact h.shut.sameItems s ⟨hs.held, hs.issued⟩

theorem run (limiter : Limiter α) (clock : Clock) (moves : List (QueueMove α)) :
    Kept ((Desk.start limiter clock).run moves) ((Desk.start limiter clock).log moves) := by
  have h := run_keeps (I := Kept) (fun _ _ _ _ h s => h.step s) moves (.start limiter clock) []
    (start limiter clock)
  rw [List.nil_append] at h
  exact h

omit [DecidableEq α] in
theorem owed_iff (h : Kept d log) (a : α) :
    a ∈ d.queue.dirty ↔ a ∈ d.queue.waiting ∨ a ∈ d.inHand ∧ Owed log a := by
  constructor
  · intro hd
    have ho := (h.noted a).mp hd
    rcases h.places.known a hd with hw | hp
    · exact Or.inl hw
    · exact Or.inr ⟨(h.processed a).mp hp, ho⟩
  · rintro (hw | ⟨-, ho⟩)
    · exact h.places.noted a hw
    · exact (h.noted a).mpr ho

/-- What a caller gets, nobody holds. -/
theorem fresh_of_polled (h : Kept d log) {q : WorkQueue α} (s : d.queue.Polled (.item a) q) :
    a ∉ d.inHand := by
  cases s with
  | item s => exact fun hm => s.fresh h.places ((h.processed a).mpr hm)

end Kept

omit [DecidableEq α] in
theorem mem_inHand {d : Desk α} {a : α} : a ∈ d.inHand ↔ ∃ t, (t, a) ∈ d.held := by
  simp [inHand]

/-- After every list of moves nothing waits twice or while it is processed, an item is noted
exactly if it waits or somebody holds it and it was added since it was handed out, no item is held
twice, and whoever asks for an item next gets none that somebody holds. -/
theorem exclusion (limiter : Limiter α) (clock : Clock) (moves : List (QueueMove α)) :
    let d := (Desk.start limiter clock).run moves
    let log := (Desk.start limiter clock).log moves
    d.queue.waiting.Nodup ∧
      (∀ a ∈ d.queue.waiting, a ∉ d.queue.processing) ∧
      (∀ a, a ∈ d.queue.processing ↔ ∃ t, (t, a) ∈ d.held) ∧
      (∀ a, a ∈ d.queue.dirty ↔
        a ∈ d.queue.waiting ∨ (∃ t, (t, a) ∈ d.held) ∧ Owed log a) ∧
      (d.held.map Prod.snd).Nodup ∧
      (∀ t a, (d.queue.poll t).1 = .item a ∨ (d.queue.resume t).1 = .item a →
        ∀ t', (t', a) ∉ d.held) := by
  intro d log
  have h : Kept d log := Kept.run limiter clock moves
  refine ⟨h.places.once, h.places.apart, ?_, ?_, h.single, ?_⟩
  · intro a
    rw [← mem_inHand]
    exact h.processed a
  · intro a
    rw [← mem_inHand]
    exact h.owed_iff a
  · intro t a ha t' hm
    refine absurd (mem_inHand.mpr ⟨t', hm⟩) ?_
    rcases ha with ha | ha
    · exact h.fresh_of_polled (ha ▸ WorkQueue.polled_poll d.queue t)
    · exact h.fresh_of_polled (ha ▸ WorkQueue.polled_resume d.queue t)

/-- An item that is added again while it is held is handed out again only after it was finished. -/
example :
    (start (.largest []) {}).log [.add 1, .poll 0, .add 1, .poll 2, .done 1, .resume 2] =
      [.added 1, .handed 0 1, .added 1, .finished 1, .handed 2 1] := by
  decide

end Desk
end StatusRelay
