import StatusRelay.Proofs.Lobby

/-!
# The operations of a queue as steps of its callers

An operation of the queue is what its steps do when nothing comes between them. So what holds for
the steps in any order holds for the operations, and a run of a `Desk` is a run of a `Lobby`.
-/
namespace StatusRelay
namespace Lobby

variable {α : Type} [DecidableEq α]

variable {l : Lobby α} {t u : Ticket}

/-- The steps of an operation that nothing comes between. -/
def parts : QueueMove α → List (LobbyMove α)
  | .add a => [.offer a, .ring]
  | .addAfter a delay => [.addAfter a delay, .ring]
  | .addRateLimited a => [.addRateLimited a, .ring]
  | .forget a => [.forget a]
  | .fire timer => [.fire timer, .ring]
  | .poll t => [.arrive t, .look t, .again t, .look t, .depart t]
  | .resume t => [.wake t, .again t, .look t, .again t, .look t, .depart t]
  | .leave t => [.drop t]
  | .done a => [.done a, .ring]
  | .shutDown => [.shutDown, .bell]
  | .pass time => [.pass time]

/-- Only callers that are away ask, only those that sleep go on or away, and only what somebody
holds is marked done. -/
def Allows (l : Lobby α) (d : Desk α) : QueueMove α → Prop
  | .poll t => l.stand t = .away
  | .resume t => l.stand t = .asleep ∧ l.queue.signal.isWoken t = true
  | .leave t => l.stand t = .asleep
  | .done a => a ∈ d.inHand
  | .add _ | .addAfter _ _ | .addRateLimited _ | .forget _ | .fire _ | .shutDown | .pass _ => True

/-- The same queue at the same time, and nobody in the middle of an operation. -/
structure Matches (l : Lobby α) (d : Desk α) : Prop where
  queue : l.queue = d.queue
  clock : l.clock = d.clock
  rings : l.rings = 0
  bells : l.bells = 0
  callers : ∀ t, l.stand t = .away ∨ l.stand t = .asleep

variable {d : Desk α}

/-- What was put in line is told to a caller at once. -/
theorem move_ring_owing (hr : l.rings = 0) (r : Bool × WorkQueue α) :
    (l.owing r).move .ring = l.withQueue (if r.1 then r.2.notifyOne else r.2) := by
  obtain ⟨queue, clock, rings, bells, callers⟩ := l
  obtain ⟨queued, q⟩ := r
  change rings = 0 at hr
  subst hr
  cases queued <;> rfl

theorem move_ring_of_none (hr : l.rings = 0) : l.move .ring = l := by
  simp only [move, hr]

theorem add_eq (q : WorkQueue α) (a : α) :
    q.add a = if (q.offer a).1 then (q.offer a).2.notifyOne else (q.offer a).2 := by
  unfold WorkQueue.add
  split <;> rename_i he <;> rw [he] <;> rfl

theorem done_eq (q : WorkQueue α) (a : α) :
    q.done a = if (q.finish a).1 then (q.finish a).2.notifyOne else (q.finish a).2 := by
  simp only [WorkQueue.done, WorkQueue.finish]
  split <;> rfl

theorem run_later (hr : l.rings = 0) (a : α) (delay : Duration) :
    (l.later a delay).move .ring = { l with
      queue := (l.queue.addAfter a delay l.clock).1
      clock := (l.queue.addAfter a delay l.clock).2 } := by
  unfold later WorkQueue.addAfter
  cases hz : delay.isZero with
  | true =>
      simp only [if_true]
      rw [move_ring_owing hr, add_eq]
      rfl
  | false => exact move_ring_of_none hr

/-- A caller that found something goes. -/
theorem run_found {q : WorkQueue α} {out : Handout α} {permit : Bool}
    (ht : l.stand t = .looking permit) (hq : l.queue.check = (out, q)) (ho : out ≠ .nothing) :
    l.run [.look t, .again t, .look t, .depart t] =
      (((l.withQueue q).put t (.leaving out)).withSignal (q.signal.leave t)).put t .away := by
  have hlook : l.move (.look t) = (l.withQueue q).put t (.leaving out) := by
    simp only [move, ht, hq]
    cases out with
    | nothing => exact absurd rfl ho
    | item a => rfl
    | closed => rfl
  simp only [run, List.foldl_cons, List.foldl_nil, hlook]
  simp only [move, stand_put_self]
  rfl

theorem check_of_nothing {q q' : WorkQueue α} (h : q.check = (.nothing, q')) :
    q' = q ∧ ∀ s, ({ q with signal := s } : WorkQueue α).check =
      (.nothing, { q with signal := s }) := by
  unfold WorkQueue.check at h ⊢
  split at h
  · cases h
  · rename_i hw
    split at h
    · cases h
    · rename_i hd
      cases h
      refine ⟨rfl, fun s => ?_⟩
      simp only [hw, hd, Bool.false_eq_true, if_false]

/-- One round of a caller that has just registered: it goes with what the queue hands out, or
sleeps. -/
structure Round (l : Lobby α) (t : Ticket) (l' : Lobby α) : Prop where
  queue : l'.queue = (l.queue.poll t).2
  clock : l'.clock = l.clock
  rings : l'.rings = l.rings
  bells : l'.bells = l.bells
  callers : ∀ u, l'.stand u =
    if t = u then if (l.queue.poll t).1 = .nothing then .asleep else .away else l.stand u

/-- The steps of a round after the caller has registered. -/
def lookings (t : Ticket) : List (LobbyMove α) := [.look t, .again t, .look t, .depart t]

theorem round_of_found {out : Handout α} {q : WorkQueue α}
    (hq : (l.queue.enroll t).2.check = (out, q)) (ho : out ≠ .nothing) :
    l.Round t ((l.register t).run (lookings t)) := by
  have hpoll : l.queue.poll t = (out, q.leave t) := by
    simp only [WorkQueue.poll, hq]
  have hlooking : (l.register t).stand t = .looking (l.queue.enroll t).1 := stand_put_self _ _ _
  have hrun : (l.register t).run (lookings t) = _ := run_found hlooking hq ho
  rw [hrun]
  refine ⟨?_, rfl, rfl, rfl, fun u => ?_⟩
  · rw [hpoll]
    rfl
  · rw [hpoll, if_neg ho]
    by_cases hu : t = u
    · rw [if_pos hu, ← hu, stand_put_self]
    · rw [if_neg hu, stand_put_of_ne (Ne.symm hu), stand_withSignal, stand_put_of_ne (Ne.symm hu),
        stand_withQueue]
      exact stand_put_of_ne (Ne.symm hu) _ _

theorem move_look_of_nothing {permit : Bool} (ht : l.stand t = .looking permit)
    (hq : l.queue.check = (.nothing, l.queue)) :
    l.move (.look t) = l.put t (if permit then .returning else .asleep) := by
  simp only [move, ht, hq]
  rfl

/-- A caller that sleeps takes no step by itself. -/
theorem run_asleep (l : Lobby α) (t : Ticket) :
    (l.put t .asleep).run [.again t, .look t, .depart t] = l.put t .asleep := by
  simp [run, move]

/-- With nothing there a caller that is registered sleeps. -/
theorem round_of_registered (hq : (l.queue.enroll t).2.check = (.nothing, (l.queue.enroll t).2))
    (hp : (l.queue.enroll t).1 = false) : l.Round t ((l.register t).run (lookings t)) := by
  have hpoll : l.queue.poll t = (.nothing, (l.queue.enroll t).2) := by
    simp [WorkQueue.poll, hq, hp]
  have hlooking : (l.register t).stand t = .looking false := by
    rw [← hp]
    exact stand_put_self _ _ _
  have hlook : (l.register t).move (.look t) = (l.register t).put t .asleep :=
    move_look_of_nothing hlooking hq
  have hrun : (l.register t).run (lookings t) = (l.register t).put t .asleep := by
    refine Eq.trans ?_ (run_asleep (l.register t) t)
    exact congrArg (fun l' : Lobby α => l'.run [.again t, .look t, .depart t]) hlook
  rw [hrun]
  refine ⟨?_, rfl, rfl, rfl, fun u => ?_⟩
  · rw [hpoll]
    rfl
  · rw [hpoll, if_pos rfl]
    by_cases hu : t = u
    · rw [if_pos hu, ← hu, stand_put_self]
    · rw [if_neg hu, stand_put_of_ne (Ne.symm hu)]
      exact stand_put_of_ne (Ne.symm hu) _ _

/-- With nothing there a caller that took the permit has spent it, and registers at its second
attempt. -/
theorem round_of_permit (hq : (l.queue.enroll t).2.check = (.nothing, (l.queue.enroll t).2))
    (hq' : ∀ s, ({ (l.queue.enroll t).2 with signal := s } : WorkQueue α).check =
      (.nothing, { (l.queue.enroll t).2 with signal := s }))
    (hp : (l.queue.enroll t).1 = true) : l.Round t ((l.register t).run (lookings t)) := by
  have hsecond : ((l.queue.enroll t).2.enroll t).1 = false :=
    (Signal.enroll_fst _ t).trans (Signal.permit_enroll l.queue.signal t)
  have hpoll : l.queue.poll t = (.nothing, ((l.queue.enroll t).2.enroll t).2) := by
    simp [WorkQueue.poll, hq, hp]
  have hlooking : (l.register t).stand t = .looking true := by
    rw [← hp]
    exact stand_put_self _ _ _
  have hlook : (l.register t).move (.look t) = (l.register t).put t .returning :=
    move_look_of_nothing hlooking hq
  have hagain : ((l.register t).put t .returning).move (.again t) =
      ((l.register t).put t .returning).register t := by
    simp only [move, stand_put_self]
  have hlooking' : (((l.register t).put t .returning).register t).stand t = .looking false := by
    rw [← hsecond]
    exact stand_put_self _ _ _
  have hlook' : (((l.register t).put t .returning).register t).move (.look t) =
      (((l.register t).put t .returning).register t).put t .asleep :=
    move_look_of_nothing hlooking' (hq' _)
  have hrun : (l.register t).run (lookings t) =
      (((l.register t).put t .returning).register t).put t .asleep := by
    calc (l.register t).run (lookings t)
        = ((((l.register t).move (.look t)).move (.again t)).move (.look t)).move (.depart t) := rfl
      _ = ((((l.register t).put t .returning).register t).put t .asleep).move (.depart t) := by
          rw [hlook, hagain, hlook']
      _ = (((l.register t).put t .returning).register t).put t .asleep := by
          simp only [move, stand_put_self]
  rw [hrun]
  refine ⟨?_, rfl, rfl, rfl, fun u => ?_⟩
  · rw [hpoll]
    rfl
  · rw [hpoll, if_pos rfl]
    by_cases hu : t = u
    · rw [if_pos hu, ← hu, stand_put_self]
    · rw [if_neg hu, stand_put_of_ne (Ne.symm hu), register, stand_put_of_ne (Ne.symm hu),
        stand_withQueue, stand_put_of_ne (Ne.symm hu)]
      exact stand_put_of_ne (Ne.symm hu) _ _

/-- A round of a registered caller is the operation of the queue. -/
theorem round (l : Lobby α) (t : Ticket) : l.Round t ((l.register t).run (lookings t)) := by
  cases hq : (l.queue.enroll t).2.check with
  | mk out q =>
      cases out with
      | nothing =>
          obtain ⟨rfl, hq'⟩ := check_of_nothing hq
          cases hp : (l.queue.enroll t).1 with
          | false => exact round_of_registered hq hp
          | true => exact round_of_permit hq hq' hp
      | item a => exact round_of_found hq (by simp)
      | closed => exact round_of_found hq (by simp)

omit [DecidableEq α] in
theorem Matches.of_queue (h : l.Matches d) {q : WorkQueue α} {d' : Desk α} (hq : d'.queue = q)
    (hc : d'.clock = d.clock) : (l.withQueue q).Matches d' :=
  ⟨hq.symm, h.clock.trans hc.symm, h.rings, h.bells, h.callers⟩

/-- A round leaves the caller away or asleep, as the operation of the queue says. -/
theorem Matches.round {l₀ l' : Lobby α} {d' : Desk α} (h : l₀.Matches d) (hl : l.Round t l')
    (hr : l.rings = l₀.rings ∧ l.bells = l₀.bells ∧ l.clock = l₀.clock)
    (hu : ∀ u, u ≠ t → l.stand u = l₀.stand u) (hq : d'.queue = (l.queue.poll t).2)
    (hc : d'.clock = d.clock) : l'.Matches d' := by
  obtain ⟨hrings, hbells, hclock⟩ := hr
  refine ⟨hl.queue.trans hq.symm, ?_, hl.rings.trans (hrings.trans h.rings),
    hl.bells.trans (hbells.trans h.bells), fun u => ?_⟩
  · rw [hl.clock, hclock, h.clock, hc]
  · rw [hl.callers]
    by_cases he : t = u
    · rw [if_pos he]
      split
      · exact Or.inr rfl
      · exact Or.inl rfl
    · rw [if_neg he, hu u (Ne.symm he)]
      exact h.callers u

omit [DecidableEq α] in
theorem queue_receive (d : Desk α) (t : Ticket) (r : Handout α × WorkQueue α) :
    (d.receive t r).queue = r.2 ∧ (d.receive t r).clock = d.clock := by
  obtain ⟨out, q⟩ := r
  cases out <;> exact ⟨rfl, rfl⟩

theorem run_fire (hr : l.rings = 0) (timer : Delayed α) :
    l.run (parts (.fire timer)) =
      if timer ∈ l.queue.delayed then l.withQueue (l.queue.fire timer) else l := by
  change (l.move (.fire timer)).move .ring = _
  by_cases ht : timer ∈ l.queue.delayed
  · rw [move, if_pos ht, if_pos ht, WorkQueue.fire, add_eq]
    exact move_ring_owing hr _
  · rw [move, if_neg ht, if_neg ht]
    exact move_ring_of_none hr

theorem Matches.run_fire (h : l.Matches d) (timer : Delayed α) :
    (l.run (parts (.fire timer))).Matches (d.move (.fire timer)) := by
  rw [Lobby.run_fire h.rings, Desk.move, h.queue]
  split
  · exact h.of_queue rfl rfl
  · exact h

theorem Matches.run_poll (h : l.Matches d) (ht : l.stand t = .away) :
    (l.run (parts (.poll t))).Matches (d.move (.poll t)) := by
  have harrive : l.move (.arrive t) = l.register t := by simp only [Lobby.move, ht]
  have hrun : l.run (parts (.poll t)) = (l.register t).run (lookings t) :=
    congrArg (fun l' : Lobby α => l'.run (lookings t)) harrive
  obtain ⟨hq, hc⟩ := queue_receive d t (d.queue.poll t)
  have hqueue : (d.move (.poll t)).queue = (l.queue.poll t).2 := by
    rw [h.queue]
    exact hq
  rw [hrun]
  exact h.round (Lobby.round l t) ⟨rfl, rfl, rfl⟩ (fun _ _ => rfl) hqueue hc

/-- Whoever was woken gives its old registration up before it registers again. -/
theorem Matches.run_resume (h : l.Matches d) (ht : l.stand t = .asleep)
    (hw : l.queue.signal.isWoken t = true) :
    (l.run (parts (.resume t))).Matches (d.move (.resume t)) := by
  let back := (l.withSignal (l.queue.signal.resume t)).put t .returning
  have hwake : l.move (.wake t) = back := by
    simp only [Lobby.move, ht, hw, if_true]
    rfl
  have hagain : back.move (.again t) = back.register t := by
    have hback : back.stand t = .returning := stand_put_self _ _ _
    simp only [Lobby.move, hback]
  have hrun : l.run (parts (.resume t)) = (back.register t).run (lookings t) := by
    rw [← hagain, ← hwake]
    rfl
  obtain ⟨hq, hc⟩ := queue_receive d t (d.queue.resume t)
  rw [hrun]
  refine h.round (Lobby.round back t) ⟨rfl, rfl, rfl⟩ (fun u hu => ?_) ?_ hc
  · exact (stand_put_of_ne hu _ _).trans rfl
  · rw [Desk.move, hq, ← h.queue]
    rfl

theorem Matches.run_leave (h : l.Matches d) (ht : l.stand t = .asleep) :
    (l.run (parts (.leave t))).Matches (d.move (.leave t)) := by
  have hrun : l.run (parts (.leave t)) = (l.withSignal (l.queue.signal.leave t)).put t .away := by
    change l.move (.drop t) = _
    simp only [Lobby.move, ht]
  rw [hrun]
  refine ⟨?_, h.clock, h.rings, h.bells, fun u => ?_⟩
  · change l.queue.leave t = d.queue.leave t
    rw [h.queue]
  · rw [stand_put]
    split
    · exact Or.inl rfl
    · exact h.callers u

/-- What the desk does in one move the lobby does in several steps with nothing between them. -/
theorem Matches.run_parts (h : l.Matches d) (m : QueueMove α) (ha : l.Allows d m) :
    (l.run (parts m)).Matches (d.move m) := by
  cases m with
  | add a =>
      have hrun : l.run (parts (.add a)) = l.withQueue (l.queue.add a) := by
        rw [add_eq]
        exact move_ring_owing h.rings _
      rw [hrun]
      exact h.of_queue (by rw [h.queue]; rfl) rfl
  | addAfter a delay =>
      have hrun : l.run (parts (.addAfter a delay)) = _ := run_later h.rings a delay
      rw [hrun, h.queue, h.clock]
      exact ⟨rfl, rfl, h.rings, h.bells, h.callers⟩
  | addRateLimited a =>
      have hrun : l.run (parts (.addRateLimited a)) = { l with
          queue := (l.queue.addRateLimited a l.clock).1
          clock := (l.queue.addRateLimited a l.clock).2 } :=
        run_later (l := l.withQueue { l.queue with
          limiter := (l.queue.limiter.next a l.clock.now).2 }) h.rings a
          (l.queue.limiter.next a l.clock.now).1
      rw [hrun, h.queue, h.clock]
      exact ⟨rfl, rfl, h.rings, h.bells, h.callers⟩
  | forget a => exact h.of_queue (by rw [h.queue]; rfl) rfl
  | fire timer => exact h.run_fire timer
  | poll t => exact h.run_poll ha
  | resume t => exact h.run_resume ha.1 ha.2
  | leave t => exact h.run_leave ha
  | done a =>
      have hheld : a ∈ d.inHand := ha
      have hrun : l.run (parts (.done a)) = l.withQueue (l.queue.done a) := by
        rw [done_eq]
        exact move_ring_owing h.rings _
      rw [hrun, Desk.move, if_pos hheld]
      exact h.of_queue (by rw [h.queue]; rfl) rfl
  | shutDown =>
      have hrun : l.run (parts .shutDown) = l.withQueue l.queue.shutDown := by
        obtain ⟨queue, clock, rings, bells, callers⟩ := l
        rfl
      rw [hrun]
      exact h.of_queue (by rw [h.queue]; rfl) rfl
  | pass time =>
      have hclock : l.clock.advanceTo time = d.clock.advanceTo time := by rw [h.clock]
      exact ⟨h.queue, hclock, h.rings, h.bells, h.callers⟩

omit [DecidableEq α] in
theorem matches_start (limiter : Limiter α) (clock : Clock) :
    (start limiter clock).Matches (Desk.start limiter clock) :=
  ⟨rfl, rfl, rfl, rfl, fun _ => Or.inl rfl⟩

/-- Every move is allowed when its turn comes. -/
def AllowsAll (l : Lobby α) (d : Desk α) : List (QueueMove α) → Prop
  | [] => True
  | m :: rest => l.Allows d m ∧ (l.run (parts m)).AllowsAll (d.move m) rest

theorem Matches.run (h : l.Matches d) (moves : List (QueueMove α)) (ha : l.AllowsAll d moves) :
    (l.run (moves.flatMap parts)).Matches (d.run moves) := by
  induction moves generalizing l d with
  | nil => exact h
  | cons m rest ih =>
      have hrun : l.run ((m :: rest).flatMap parts) =
          (l.run (parts m)).run (rest.flatMap parts) := by
        rw [List.flatMap_cons]
        exact List.foldl_append
      rw [hrun]
      exact ih (h.run_parts m ha.1) ha.2

omit [DecidableEq α] in
/-- While somebody waits between two operations, there are no more items in line than callers that
were chosen for one, and the queue is open. -/
theorem Matches.waiting_le_chosen (h : l.Matches d) (ho : l.Orderly)
    (hw : d.queue.signal.waiting ≠ []) :
    d.queue.waiting.length ≤ d.queue.signal.chosen.length ∧ d.queue.shuttingDown = false := by
  obtain ⟨t, ht⟩ := List.exists_mem_of_ne_nil _ hw
  rw [← h.queue] at ht ⊢
  have hasleep : l.stand t = .asleep := by
    refine (h.callers t).resolve_left fun haway => ?_
    have hknown := ho.known t ((Signal.mem_tickets_iff _ t).mpr (Or.inl ht))
    rw [haway] at hknown
    cases hknown
  have hrunning : l.running = 0 := by
    refine total_eq_zero ho.single fun u => ?_
    rcases h.callers u with hs | hs <;> rw [hs] <;> rfl
  have hattended := ho.attended t ht hasleep
  constructor
  · have hitems := hattended.items
    rw [h.rings, hrunning] at hitems
    omega
  · refine Bool.eq_false_iff.mpr fun hdown => ?_
    have hbells := hattended.closing hdown
    rw [h.bells] at hbells
    exact Nat.lt_irrefl 0 hbells

theorem waiting_le_chosen (limiter : Limiter α) (clock : Clock) (moves : List (QueueMove α))
    (ha : (start limiter clock).AllowsAll (Desk.start limiter clock) moves) :
    let q := ((Desk.start limiter clock).run moves).queue
    q.signal.waiting ≠ [] →
      q.waiting.length ≤ q.signal.chosen.length ∧ q.shuttingDown = false := by
  intro q
  have hmatches := (matches_start limiter clock).run moves ha
  exact hmatches.waiting_le_chosen ((orderly_start limiter clock).run _)

end Lobby
end StatusRelay
