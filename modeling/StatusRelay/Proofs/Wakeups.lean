import StatusRelay.Proofs.Lobby

/-!
# Callers that are woken

Once nobody can go on, nobody sleeps while there is an item or the queue is shut down, whatever the
order of the steps was. Left to themselves, those who can go on come to that point. At any time a
caller that sleeps can be dropped.
-/
namespace StatusRelay
namespace Lobby

variable {α : Type} [DecidableEq α]

/-! ## At rest -/

section
omit [DecidableEq α]

variable {l : Lobby α} {t : Ticket}

/-- Nobody can go on: no wake-up is due, and every caller is away or sleeps and was not woken. -/
structure AtRest (l : Lobby α) : Prop where
  rings : l.rings = 0
  bells : l.bells = 0
  callers : ∀ t, l.stand t = .away ∨ l.stand t = .asleep ∧ l.queue.signal.isWoken t = false

theorem AtRest.running (h : l.AtRest) (ho : l.Orderly) : l.running = 0 := by
  refine total_eq_zero ho.single fun t => ?_
  rcases h.callers t with hs | ⟨hs, _⟩ <;> rw [hs] <;> rfl

theorem AtRest.chosen (h : l.AtRest) (ho : l.Orderly) : l.queue.signal.chosen = [] := by
  rw [List.eq_nil_iff_forall_not_mem]
  intro u hu
  have hwoken : l.queue.signal.isWoken u = true := by
    simp [Signal.isWoken, hu]
  have hknown := ho.known u ((Signal.mem_tickets_iff _ u).mpr (Or.inr hwoken))
  rcases h.callers u with hs | ⟨_, hs⟩
  · rw [hs] at hknown
    cases hknown
  · rw [hwoken] at hs
    cases hs

theorem Orderly.awake (h : l.Orderly) (hr : l.AtRest)
    (hw : l.queue.waiting ≠ [] ∨ l.queue.shuttingDown = true) (t : Ticket) :
    l.stand t ≠ .asleep := by
  intro ht
  have hlisted : t ∈ l.queue.signal.tickets := h.listed t (by rw [ht]; rfl)
  have hwaits : t ∈ l.queue.signal.waiting := by
    refine ((Signal.mem_tickets_iff _ t).mp hlisted).resolve_right fun hwoken => ?_
    rcases hr.callers t with hs | ⟨_, hs⟩
    · rw [ht] at hs
      cases hs
    · rw [hwoken] at hs
      cases hs
  have hattended := h.attended t hwaits ht
  rcases hw with hw | hd
  · have hitems := hattended.items
    have hpos := List.length_pos_of_ne_nil hw
    rw [hr.rings, hr.chosen h, hr.running h] at hitems
    simp only [List.length_nil] at hitems
    omega
  · have hbells := hattended.closing hd
    rw [hr.bells] at hbells
    exact Nat.lt_irrefl 0 hbells

/-- Only the dropped caller is gone. The items stay, whoever was woken still is, what is due is
still due, and a wake-up that the caller was chosen for goes to the caller that has waited longest
or is left as a permit. -/
structure Drops (l : Lobby α) (t : Ticket) (l' : Lobby α) : Prop where
  callers : ∀ u, l'.stand u = if t = u then .away else l.stand u
  items : l.queue.SameItems l'.queue
  due : l'.rings = l.rings ∧ l'.bells = l.bells
  woken : ∀ u, u ≠ t → l.queue.signal.isWoken u = true → l'.queue.signal.isWoken u = true
  permit : l.queue.signal.permit = true → l'.queue.signal.permit = true
  next : ∀ u rest, t ∈ l.queue.signal.chosen → l.queue.signal.waiting = u :: rest →
    u ∈ l'.queue.signal.chosen
  last : t ∈ l.queue.signal.chosen → l.queue.signal.waiting = [] → l'.queue.signal.permit = true

end

variable {l : Lobby α} {t : Ticket}

theorem Orderly.drops (h : l.Orderly) (ht : l.stand t = .asleep) :
    l.Drops t (l.move (.drop t)) := by
  have hmove : l.move (.drop t) = (l.withSignal (l.queue.signal.leave t)).put t .away := by
    simp only [Lobby.move, ht]
  have hleave := Signal.leave_eq h.distinct t
  rw [hmove]
  refine ⟨stand_put _ t .away, ⟨rfl, rfl, rfl, rfl, rfl⟩, ⟨rfl, rfl⟩, ?_, ?_, ?_, ?_⟩
  · exact fun u hu hw => Signal.isWoken_leave h.distinct hu hw
  · intro hp
    change (l.queue.signal.leave t).permit = true
    rw [hleave]
    split
    · exact Signal.permit_notifyOne hp
    · exact hp
  · intro u rest hc hw
    change u ∈ (l.queue.signal.leave t).chosen
    have hstrike : (l.queue.signal.strike t).waiting = u :: rest := by
      rw [← hw]
      exact List.erase_of_not_mem (Signal.not_mem_of_chosen h.distinct hc).1
    rw [hleave, if_pos hc, Signal.notifyOne, hstrike]
    exact List.mem_append.mpr (Or.inr (List.mem_singleton.mpr rfl))
  · intro hc hw
    change (l.queue.signal.leave t).permit = true
    have hstrike : (l.queue.signal.strike t).waiting = [] := by
      change l.queue.signal.waiting.erase t = []
      rw [hw]
      rfl
    rw [hleave, if_pos hc, Signal.notifyOne, hstrike]

/-- In whatever order the steps are taken, once nobody can go on nobody sleeps while there is an
item or the queue is shut down; and at any time a caller that sleeps can be dropped without the loss
of an item or a wake-up. -/
theorem nobody_sleeps_at_rest (limiter : Limiter α) (clock : Clock) (moves : List (LobbyMove α)) :
    let l := (start limiter clock).run moves
    (l.AtRest → l.queue.waiting ≠ [] ∨ l.queue.shuttingDown = true →
      ∀ t, l.stand t ≠ .asleep) ∧
    ∀ t, l.stand t = .asleep → l.Drops t (l.move (.drop t)) := by
  intro l
  have h : l.Orderly := (orderly_start limiter clock).run moves
  exact ⟨fun hr hw t => h.awake hr hw t, fun t ht => h.drops ht⟩

/-- Two callers sleep, and the first one is chosen for an item. -/
def oneChosen : Lobby String :=
  (start .standard {}).run [.arrive 1, .look 1, .arrive 2, .look 2, .offer "a", .ring]

/-- The chosen caller is dropped, the other one takes the item, and another item comes while nobody
waits. -/
def handedOn : Lobby String :=
  oneChosen.run [.drop 1, .wake 2, .again 2, .look 2, .depart 2, .offer "b", .ring]

theorem nobody_sleeps_handedOn :
    oneChosen.stand 1 = .asleep ∧ oneChosen.Drops 1 (oneChosen.move (.drop 1)) ∧
      (oneChosen.move (.drop 1)).queue.signal.chosen = [2] ∧
      handedOn.AtRest ∧ handedOn.queue.processing = ["a"] ∧ handedOn.queue.waiting = ["b"] ∧
      ∀ t, handedOn.stand t ≠ .asleep := by
  have hasleep : oneChosen.stand 1 = .asleep := by decide +kernel
  have hcallers : handedOn.callers = ⟨[(1, .away), (2, .away)]⟩ := by decide +kernel
  have hwaiting : handedOn.queue.waiting = ["b"] := by decide +kernel
  have haway : ∀ t, handedOn.stand t = .away := by
    intro t
    rw [stand, hcallers]
    by_cases h₁ : 1 = t <;> by_cases h₂ : 2 = t <;> simp [Table.get?, Table.find?, h₁, h₂]
  have hrest : handedOn.AtRest :=
    ⟨by decide +kernel, by decide +kernel, fun t => Or.inl (haway t)⟩
  have hitem : handedOn.queue.waiting ≠ [] ∨ handedOn.queue.shuttingDown = true := by
    rw [hwaiting]
    exact Or.inl (by simp)
  have hdrops : oneChosen.Drops 1 (oneChosen.move (.drop 1)) :=
    (nobody_sleeps_at_rest .standard {} _).2 1 hasleep
  have hstays : ∀ t, handedOn.stand t ≠ .asleep :=
    (nobody_sleeps_at_rest .standard {}
      [.arrive 1, .look 1, .arrive 2, .look 2, .offer "a", .ring, .drop 1, .wake 2, .again 2,
        .look 2, .depart 2, .offer "b", .ring]).1 hrest hitem
  exact ⟨hasleep, hdrops, by decide +kernel, hrest, by decide +kernel, hwaiting, hstays⟩

/-! ## Coming to rest -/

section
omit [DecidableEq α]

variable {l : Lobby α} {t : Ticket} {m : LobbyMove α}

/-- Somebody can take the step, with nothing new from outside. -/
def Enabled (l : Lobby α) : LobbyMove α → Prop
  | .ring => l.rings ≠ 0
  | .bell => l.bells ≠ 0
  | .look t => ∃ permit, l.stand t = .looking permit
  | .depart t => ∃ out, l.stand t = .leaving out
  | .wake t => l.stand t = .asleep ∧ l.queue.signal.isWoken t = true
  | .again t => l.stand t = .returning
  | .offer _ | .addAfter _ _ | .addRateLimited _ | .forget _ | .fire _ | .done _ | .shutDown
  | .arrive _ | .drop _ | .pass _ => False

/-- At rest nobody can go on. -/
theorem atRest_iff (l : Lobby α) : l.AtRest ↔ ∀ m, ¬ l.Enabled m := by
  constructor
  · intro h m he
    cases m with
    | ring => exact he h.rings
    | bell => exact he h.bells
    | look t =>
        obtain ⟨permit, hs⟩ := he
        rcases h.callers t with ha | ⟨ha, _⟩ <;> rw [hs] at ha <;> cases ha
    | depart t =>
        obtain ⟨out, hs⟩ := he
        rcases h.callers t with ha | ⟨ha, _⟩ <;> rw [hs] at ha <;> cases ha
    | wake t =>
        obtain ⟨hs, hw⟩ := he
        rcases h.callers t with ha | ⟨_, ha⟩
        · rw [hs] at ha
          cases ha
        · rw [hw] at ha
          cases ha
    | again t =>
        have hs : l.stand t = .returning := he
        rcases h.callers t with ha | ⟨ha, _⟩ <;> rw [hs] at ha <;> cases ha
    | _ => exact he
  · intro h
    refine ⟨not_not.mp (h .ring), not_not.mp (h .bell), fun t => ?_⟩
    cases hs : l.stand t with
    | away => exact Or.inl rfl
    | asleep => exact Or.inr ⟨rfl, Bool.eq_false_iff.mpr fun hw => h (.wake t) ⟨hs, hw⟩⟩
    | looking permit => exact absurd ⟨permit, hs⟩ (h (.look t))
    | returning => exact absurd hs (h (.again t))
    | leaving out => exact absurd ⟨out, hs⟩ (h (.depart t))

/-- What is left to do: a wake-up that is due may send a caller once around. -/
def load (l : Lobby α) : Nat := l.total Stand.cost + 4 * l.queue.signal.wakeups + 5 * l.rings

end

namespace Orderly

variable {l : Lobby α} {t : Ticket} {m : LobbyMove α}

theorem load_look (h : l.Enabled (.look t)) : (l.move (.look t)).load < l.load := by
  obtain ⟨permit, ht⟩ := h
  have hput : ∀ q : WorkQueue α, q.signal = l.queue.signal → ∀ stand : Stand α,
      stand.cost < (l.stand t).cost → ((l.withQueue q).put t stand).load < l.load := by
    intro q hs stand hlt
    have htotal := total_put Stand.cost rfl (l.withQueue q) t stand
    change _ + (l.stand t).cost = l.total Stand.cost + stand.cost at htotal
    change ((l.withQueue q).put t stand).total Stand.cost + 4 * q.signal.wakeups + 5 * l.rings < _
    rw [hs, load]
    omega
  have hcheck : l.queue.check.2.signal = l.queue.signal := by
    unfold WorkQueue.check
    split
    · rfl
    · split <;> rfl
  simp only [Lobby.move, ht]
  rw [ht] at hput
  cases hq : l.queue.check with
  | mk out q =>
      rw [hq] at hcheck
      cases out with
      | nothing =>
          refine hput q hcheck _ ?_
          cases permit <;> simp [Stand.cost]
      | item a =>
          refine hput q hcheck _ ?_
          cases permit <;> simp [Stand.cost]
      | closed =>
          refine hput q hcheck _ ?_
          cases permit <;> simp [Stand.cost]

theorem load_depart (h : l.Orderly) (he : l.Enabled (.depart t)) :
    (l.move (.depart t)).load < l.load := by
  obtain ⟨out, ht⟩ := he
  have hwakeups := Signal.wakeups_leave h.distinct t
  have htotal := total_put Stand.cost rfl (l.withSignal (l.queue.signal.leave t)) t .away
  change _ + (l.stand t).cost = l.total Stand.cost + 0 at htotal
  simp only [Lobby.move, ht]
  rw [ht] at htotal
  change _ + 1 = _ at htotal
  change ((l.withSignal _).put t .away).total Stand.cost +
    4 * (l.queue.signal.leave t).wakeups + 5 * l.rings < _
  rw [load]
  omega

theorem load_wake (h : l.Orderly) (he : l.Enabled (.wake t)) :
    (l.move (.wake t)).load < l.load := by
  obtain ⟨ht, hw⟩ := he
  have hwakeups := Signal.wakeups_strike hw
  have htotal := total_put Stand.cost rfl (l.withSignal (l.queue.signal.resume t)) t .returning
  change _ + (l.stand t).cost = l.total Stand.cost + 3 at htotal
  simp only [Lobby.move, ht, hw, if_true]
  rw [ht] at htotal
  change _ + 0 = _ at htotal
  change ((l.withSignal _).put t .returning).total Stand.cost +
    4 * (l.queue.signal.resume t).wakeups + 5 * l.rings < _
  rw [← Signal.resume_eq h.distinct hw] at hwakeups
  rw [load]
  omega

theorem load_again (he : l.Enabled (.again t)) : (l.move (.again t)).load < l.load := by
  have ht : l.stand t = .returning := he
  have htotal := total_put Stand.cost rfl (l.withQueue (l.queue.enroll t).2) t
    (.looking (l.queue.enroll t).1)
  change _ + (l.stand t).cost = l.total Stand.cost + _ at htotal
  simp only [Lobby.move, ht]
  rw [ht] at htotal
  change _ + 3 = _ at htotal
  change (l.register t).total Stand.cost + 4 * (l.queue.signal.enroll t).2.wakeups + 5 * l.rings < _
  change (l.register t).total Stand.cost + 3 = _ at htotal
  have henroll : (l.queue.enroll t).1 = l.queue.signal.permit := Signal.enroll_fst _ t
  rw [henroll] at htotal
  rw [load, Signal.wakeups_enroll]
  unfold Signal.wakeups
  cases hp : l.queue.signal.permit with
  | true =>
      rw [hp] at htotal
      change _ = _ + 4 at htotal
      simp only [Bool.toNat_true]
      omega
  | false =>
      rw [hp] at htotal
      change _ = _ + 2 at htotal
      omega

/-- Whoever goes on leaves less to do, unless it wakes everybody, and that is done as often as the
queue was shut down. -/
theorem move_lt (h : l.Orderly) (he : l.Enabled m) :
    (l.move m).bells < l.bells ∨ (l.move m).bells = l.bells ∧ (l.move m).load < l.load := by
  cases m with
  | ring =>
      refine Or.inr ?_
      obtain ⟨rings, hr⟩ := Nat.exists_eq_succ_of_ne_zero he
      have hwakeups := Signal.wakeups_notifyOne l.queue.signal
      simp only [Lobby.move, hr]
      refine ⟨rfl, ?_⟩
      change l.total Stand.cost + 4 * l.queue.signal.notifyOne.wakeups + 5 * rings < _
      rw [load, hr]
      omega
  | bell =>
      refine Or.inl ?_
      obtain ⟨bells, hb⟩ := Nat.exists_eq_succ_of_ne_zero he
      simp only [Lobby.move, hb]
      exact Nat.lt_succ_self bells
  | look t =>
      refine Or.inr ⟨?_, load_look he⟩
      obtain ⟨permit, ht⟩ := he
      simp only [Lobby.move, ht]
      unfold Lobby.looked
      split <;> rfl
  | depart t =>
      refine Or.inr ⟨?_, h.load_depart he⟩
      obtain ⟨out, ht⟩ := he
      simp only [Lobby.move, ht]
      rfl
  | wake t =>
      refine Or.inr ⟨?_, h.load_wake he⟩
      obtain ⟨ht, hw⟩ := he
      simp only [Lobby.move, ht, hw, if_true]
      rfl
  | again t =>
      refine Or.inr ⟨?_, load_again he⟩
      have ht : l.stand t = .returning := he
      simp only [Lobby.move, ht]
      rfl
  | _ => exact absurd he id

end Orderly

/-- Steps that follow from each other, with nothing new from outside. -/
def Unfolds (l : Lobby α) : List (LobbyMove α) → Prop
  | [] => True
  | m :: rest => l.Enabled m ∧ (l.move m).Unfolds rest

/-- Left to themselves, those who can go on come to rest. -/
theorem Orderly.comes_to_rest {l : Lobby α} (h : l.Orderly) :
    ∃ moves, l.Unfolds moves ∧ (l.run moves).AtRest := by
  by_cases hr : l.AtRest
  · exact ⟨[], trivial, hr⟩
  · rw [atRest_iff, not_forall] at hr
    obtain ⟨m, hm⟩ := hr
    have he : l.Enabled m := not_not.mp hm
    have hlt := h.move_lt he
    obtain ⟨moves, hgoes, hrest⟩ := (h.move m).comes_to_rest
    exact ⟨m :: moves, ⟨he, hgoes⟩, hrest⟩
termination_by (l.bells, l.load)
decreasing_by
  rcases hlt with hlt | ⟨heq, hlt⟩
  · exact Prod.Lex.left _ _ hlt
  · rw [heq]
    exact Prod.Lex.right _ hlt
end Lobby
end StatusRelay
