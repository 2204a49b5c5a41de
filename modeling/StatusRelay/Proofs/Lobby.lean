import StatusRelay.Proofs.Desk
import StatusRelay.Proofs.Signals
import StatusRelay.Proofs.Tables
import Mathlib.Algebra.GroupWithZero.Nat

/-!
# A queue between the steps of its callers

The steps that the queue's operations are made of, in any order. Whoever puts an item in line wakes
a caller only later, with a step of its own, and so does whoever shuts the queue down. A caller that
asks for an item registers, looks, and with nothing there sleeps; woken, it starts over. Between any
two of these steps all others may do theirs. A caller that sleeps may be dropped.

As long as a registered caller sleeps, there are at least as many wake-ups due, chosen callers and
callers about to look as items in line (`Attended`). Every step preserves this (`Orderly.move`).
-/
namespace StatusRelay

/-! ## Steps -/

/-- Where a caller is. -/
inductive Stand (α : Type) where
  | away
  /-- Registered or with a permit that it took, and about to look at the items. -/
  | looking (permit : Bool)
  | asleep
  /-- Woken, and about to register again. -/
  | returning
  /-- About to go, and to give up its registration. -/
  | leaving (out : Handout α)
  deriving DecidableEq, Repr

namespace Stand

variable {α : Type}

/-- The caller will look at the items. -/
def isRunning : Stand α → Bool
  | looking _ | returning => true
  | away | asleep | leaving _ => false

/-- How much a caller has to do before it sleeps or goes. -/
def cost : Stand α → Nat
  | looking permit => if permit then 4 else 2
  | returning => 3
  | leaving _ => 1
  | away | asleep => 0

/-- The caller counts on being registered. -/
def counts : Stand α → Bool
  | looking permit => !permit
  | asleep => true
  | away | returning | leaving _ => false

/-- The caller may be registered. -/
def mayCount : Stand α → Bool
  | leaving _ => true
  | stand => stand.counts

end Stand

/-- One step of somebody around the queue. -/
inductive LobbyMove (α : Type) where
  /-- An item is put in line, parked or passed over. -/
  | offer (a : α)
  | addAfter (a : α) (delay : Duration)
  | addRateLimited (a : α)
  | forget (a : α)
  | fire (timer : Delayed α)
  /-- Somebody who put an item in line wakes a caller. -/
  | ring
  | done (a : α)
  | shutDown
  /-- Somebody who shut the queue down wakes all callers. -/
  | bell
  | arrive (t : Ticket)
  | look (t : Ticket)
  /-- A caller goes with what it found. -/
  | depart (t : Ticket)
  /-- A caller that was woken goes on. -/
  | wake (t : Ticket)
  /-- A caller that goes on registers again. -/
  | again (t : Ticket)
  /-- A caller that sleeps is dropped. -/
  | drop (t : Ticket)
  | pass (time : Nat)
  deriving DecidableEq, Repr

structure Lobby (α : Type) where
  queue : WorkQueue α
  clock : Clock := {}
  /-- The items put in line for which nobody was woken yet. -/
  rings : Nat := 0
  /-- How often the queue was shut down without the callers being woken yet. -/
  bells : Nat := 0
  callers : Table Ticket (Stand α) := {}

/-- Takes an item out of processing, and back in line if it was added meanwhile (`true`). -/
def WorkQueue.finish {α : Type} [DecidableEq α] (q : WorkQueue α) (a : α) : Bool × WorkQueue α :=
  let q := { q with processing := q.processing.erase a }
  if q.dirty.contains a then (true, { q with waiting := q.waiting ++ [a] }) else (false, q)

/-- A delay touches the timers only. -/
theorem WorkQueue.addAfter_of_delay {α : Type} [DecidableEq α] (q : WorkQueue α) (a : α)
    {delay : Duration} (h : delay.isZero = false) (clock : Clock) :
    ∃ delayed, (q.addAfter a delay clock).1 = { q with delayed := delayed } := by
  unfold addAfter
  rw [h, if_neg Bool.false_ne_true]
  split
  · exact ⟨q.delayed, rfl⟩
  · exact ⟨_, rfl⟩

namespace Lobby

variable {α : Type}

def start (limiter : Limiter α) (clock : Clock) : Lobby α := { queue := { limiter }, clock }

def stand (l : Lobby α) (t : Ticket) : Stand α := (l.callers.get? t).getD .away

def put (l : Lobby α) (t : Ticket) (stand : Stand α) : Lobby α :=
  { l with callers := l.callers.insert t stand }

def withQueue (l : Lobby α) (q : WorkQueue α) : Lobby α := { l with queue := q }

def withSignal (l : Lobby α) (s : Signal) : Lobby α :=
  { l with queue := { l.queue with signal := s } }

/-- An item was put in line or not; if it was, a caller is to be woken. -/
def owing (l : Lobby α) (r : Bool × WorkQueue α) : Lobby α :=
  { l with queue := r.2, rings := if r.1 then l.rings + 1 else l.rings }

/-- What the callers come to together. -/
def total (l : Lobby α) (f : Stand α → Nat) : Nat := (l.callers.entries.map fun e => f e.2).sum

/-- The number of callers that will look at the items. -/
def running (l : Lobby α) : Nat := l.total fun stand => stand.isRunning.toNat

variable [DecidableEq α]

/-- An add after a delay; without one the item is offered at once. -/
def later (l : Lobby α) (a : α) (delay : Duration) : Lobby α :=
  if delay.isZero then l.owing (l.queue.offer a)
  else
    let (queue, clock) := l.queue.addAfter a delay l.clock
    { l with queue := queue, clock := clock }

/-- A caller registers or takes the permit. -/
def register (l : Lobby α) (t : Ticket) : Lobby α :=
  let (permit, queue) := l.queue.enroll t
  (l.withQueue queue).put t (.looking permit)

/-- What a caller does after a look. -/
def looked (l : Lobby α) (t : Ticket) (permit : Bool) : Handout α × WorkQueue α → Lobby α
  | (.nothing, q) => (l.withQueue q).put t (if permit then .returning else .asleep)
  | (out, q) => (l.withQueue q).put t (.leaving out)

/-- One step; a step that nobody can take does nothing. -/
def move (l : Lobby α) : LobbyMove α → Lobby α
  | .offer a => l.owing (l.queue.offer a)
  | .addAfter a delay => l.later a delay
  | .addRateLimited a =>
      let (delay, limiter) := l.queue.limiter.next a l.clock.now
      (l.withQueue { l.queue with limiter := limiter }).later a delay
  | .forget a => l.withQueue (l.queue.forget a)
  | .fire timer =>
      if timer ∈ l.queue.delayed then l.owing ((l.queue.expire timer.stamp).offer timer.item)
      else l
  | .ring =>
      match l.rings with
      | 0 => l
      | rings + 1 => { l.withSignal l.queue.signal.notifyOne with rings := rings }
  | .done a => l.owing (l.queue.finish a)
  | .shutDown =>
      { l with queue := { l.queue with shuttingDown := true }, bells := l.bells + 1 }
  | .bell =>
      match l.bells with
      | 0 => l
      | bells + 1 => { l.withSignal l.queue.signal.notifyAll with bells := bells }
  | .arrive t =>
      match l.stand t with
      | .away => l.register t
      | _ => l
  | .look t =>
      match l.stand t with
      | .looking permit => l.looked t permit l.queue.check
      | _ => l
  | .depart t =>
      match l.stand t with
      | .leaving _ => (l.withSignal (l.queue.signal.leave t)).put t .away
      | _ => l
  | .wake t =>
      match l.stand t with
      | .asleep =>
          if l.queue.signal.isWoken t then
            (l.withSignal (l.queue.signal.resume t)).put t .returning
          else l
      | _ => l
  | .again t =>
      match l.stand t with
      | .returning => l.register t
      | _ => l
  | .drop t =>
      match l.stand t with
      | .asleep => (l.withSignal (l.queue.signal.leave t)).put t .away
      | _ => l
  | .pass time => { l with clock := l.clock.advanceTo time }

def run : Lobby α → List (LobbyMove α) → Lobby α := List.foldl move

/-! ## Where the callers are -/

section
omit [DecidableEq α]

variable {l l' : Lobby α} {t u : Ticket} {s : Signal} {stand : Stand α}

theorem stand_put (l : Lobby α) (t : Ticket) (stand : Stand α) (u : Ticket) :
    (l.put t stand).stand u = if t = u then stand else l.stand u := by
  simp only [Lobby.stand, put, Table.get?_insert]
  split <;> rfl

@[simp] theorem stand_withSignal (l : Lobby α) (s : Signal) (t : Ticket) :
    (l.withSignal s).stand t = l.stand t := rfl

@[simp] theorem stand_withQueue (l : Lobby α) (q : WorkQueue α) (t : Ticket) :
    (l.withQueue q).stand t = l.stand t := rfl

@[simp] theorem stand_put_self (l : Lobby α) (t : Ticket) (stand : Stand α) :
    (l.put t stand).stand t = stand := by
  rw [stand_put, if_pos rfl]

theorem stand_put_of_ne (h : u ≠ t) (l : Lobby α) (stand : Stand α) :
    (l.put t stand).stand u = l.stand u := by
  rw [stand_put, if_neg (Ne.symm h)]

theorem sum_put (f : Stand α → Nat) (hf : f .away = 0) (t : Ticket) (stand : Stand α)
    (entries : List (Ticket × Stand α)) :
    ((Table.put t stand entries).map fun e => f e.2).sum +
        f ((Table.find? t entries).getD .away) =
      (entries.map fun e => f e.2).sum + f stand := by
  induction entries with
  | nil => simp [Table.put, Table.find?, hf]
  | cons e rest ih =>
      by_cases he : e.1 = t
      · simp only [Table.put, Table.find?, if_pos he, List.map_cons, List.sum_cons, Option.getD_some]
        omega
      · simp only [Table.put, Table.find?, if_neg he, List.map_cons, List.sum_cons]
        omega

/-- What the callers come to when one of them takes a step. -/
theorem total_put (f : Stand α → Nat) (hf : f .away = 0) (l : Lobby α) (t : Ticket)
    (stand : Stand α) : (l.put t stand).total f + f (l.stand t) = l.total f + f stand :=
  sum_put f hf t stand l.callers.entries

/-- Only callers that come to something count. -/
theorem total_eq_zero {f : Stand α → Nat} (hd : l.callers.Distinct) (hf : ∀ t, f (l.stand t) = 0) :
    l.total f = 0 := by
  refine List.sum_eq_zero_iff_forall_eq_nat.mpr fun n hn => ?_
  obtain ⟨e, he, rfl⟩ := List.mem_map.mp hn
  have hget : l.callers.get? e.1 = some e.2 := (Table.mem_entries_iff hd e.1 e.2).mp he
  have hstand : l.stand e.1 = e.2 := by rw [Lobby.stand, hget, Option.getD_some]
  rw [← hstand]
  exact hf e.1

theorem running_put (l : Lobby α) (t : Ticket) (stand : Stand α) :
    (l.put t stand).running + (l.stand t).isRunning.toNat = l.running + stand.isRunning.toNat :=
  total_put (fun stand => stand.isRunning.toNat) rfl l t stand

/-! ## Nobody is forgotten -/

/-- Enough is under way for a caller that sleeps: every item in line has a wake-up that is due, a
chosen caller or one that runs, and a shutdown will be told. -/
structure Attended (l : Lobby α) : Prop where
  items : l.queue.waiting.length ≤ l.rings + l.queue.signal.chosen.length + l.running
  closing : l.queue.shuttingDown = true → 0 < l.bells

structure Orderly (l : Lobby α) : Prop where
  single : l.callers.Distinct
  distinct : l.queue.signal.tickets.Nodup
  known : ∀ t ∈ l.queue.signal.tickets, (l.stand t).mayCount = true
  listed : ∀ t, (l.stand t).counts = true → t ∈ l.queue.signal.tickets
  attended : ∀ t ∈ l.queue.signal.waiting, l.stand t = .asleep → l.Attended

theorem orderly_start (limiter : Limiter α) (clock : Clock) : Orderly (start limiter clock) where
  single := Table.distinct_empty
  distinct := List.nodup_nil
  known := fun _ ht => absurd ht List.not_mem_nil
  listed := fun _ ht => by cases ht
  attended := fun _ ht => absurd ht List.not_mem_nil

namespace Orderly

/-- The items change, or what is due. -/
theorem of_same (h : l.Orderly) (hs : l'.queue.signal = l.queue.signal)
    (hc : l'.callers = l.callers) (ha : l.Attended → l'.Attended) : l'.Orderly := by
  have hstand : ∀ t, l'.stand t = l.stand t := fun t => by rw [Lobby.stand, hc, Lobby.stand]
  constructor
  · rw [hc]
    exact h.single
  · rw [hs]
    exact h.distinct
  · intro t ht
    rw [hs] at ht
    rw [hstand]
    exact h.known t ht
  · intro t ht
    rw [hstand] at ht
    rw [hs]
    exact h.listed t ht
  · intro t ht hasleep
    rw [hs] at ht
    rw [hstand] at hasleep
    exact ha (h.attended t ht hasleep)

/-- Callers are woken. -/
theorem of_perm (h : l.Orderly) (hp : l'.queue.signal.tickets.Perm l.queue.signal.tickets)
    (hc : l'.callers = l.callers)
    (ha : ∀ t ∈ l'.queue.signal.waiting, t ∈ l.queue.signal.waiting ∧ (l.Attended → l'.Attended)) :
    l'.Orderly := by
  have hstand : ∀ t, l'.stand t = l.stand t := fun t => by rw [Lobby.stand, hc, Lobby.stand]
  constructor
  · rw [hc]
    exact h.single
  · exact hp.nodup_iff.mpr h.distinct
  · intro t ht
    rw [hstand]
    exact h.known t (hp.mem_iff.mp ht)
  · intro t ht
    rw [hstand] at ht
    exact hp.mem_iff.mpr (h.listed t ht)
  · intro t ht hasleep
    obtain ⟨hw, hkeep⟩ := ha t ht
    rw [hstand] at hasleep
    exact hkeep (h.attended t hw hasleep)

/-- One caller takes a step; the others stay where they are. -/
theorem of_caller (h : l.Orderly) (stand : Stand α) (hc : l'.callers = (l.put t stand).callers)
    (hd : l'.queue.signal.tickets.Nodup)
    (hu : ∀ u, u ≠ t → (u ∈ l'.queue.signal.tickets ↔ u ∈ l.queue.signal.tickets))
    (hknown : t ∈ l'.queue.signal.tickets → stand.mayCount = true)
    (hlisted : stand.counts = true → t ∈ l'.queue.signal.tickets)
    (hself : stand = .asleep → l'.Attended)
    (ha : ∀ u ∈ l'.queue.signal.waiting, u ≠ t →
      u ∈ l.queue.signal.waiting ∧ (l.Attended → l'.Attended)) : l'.Orderly := by
  have hstand : ∀ u, l'.stand u = if t = u then stand else l.stand u := by
    intro u
    rw [Lobby.stand, hc]
    exact stand_put l t stand u
  refine ⟨?_, hd, ?_, ?_, ?_⟩
  · rw [hc]
    exact h.single.insert t stand
  · intro u hm
    rw [hstand]
    by_cases he : t = u
    · rw [if_pos he]
      exact hknown (he ▸ hm)
    · rw [if_neg he]
      exact h.known u ((hu u (Ne.symm he)).mp hm)
  · intro u hm
    rw [hstand] at hm
    by_cases he : t = u
    · rw [if_pos he] at hm
      exact he ▸ hlisted hm
    · rw [if_neg he] at hm
      exact (hu u (Ne.symm he)).mpr (h.listed u hm)
  · intro u hm hasleep
    rw [hstand] at hasleep
    by_cases he : t = u
    · rw [if_pos he] at hasleep
      exact hself hasleep
    · rw [if_neg he] at hasleep
      obtain ⟨hw, hkeep⟩ := ha u hm (Ne.symm he)
      exact hkeep (h.attended u hw hasleep)

end Orderly
end

/-! ### One step -/

namespace Orderly

variable {l : Lobby α} {t : Ticket}

omit [DecidableEq α] in
/-- An item in line is matched by a wake-up that is due. -/
theorem owing (h : l.Orderly) {r : Bool × WorkQueue α} (hs : r.2.signal = l.queue.signal)
    (hd : r.2.shuttingDown = l.queue.shuttingDown)
    (hw : r.2.waiting.length = l.queue.waiting.length + r.1.toNat) : (l.owing r).Orderly := by
  refine h.of_same hs rfl fun ha => ⟨?_, ?_⟩
  · have hitems := ha.items
    change r.2.waiting.length ≤
      (if r.1 then l.rings + 1 else l.rings) + r.2.signal.chosen.length + l.running
    rw [hw, hs]
    cases r.1 <;> simp <;> omega
  · intro hdown
    exact ha.closing (hd.symm.trans hdown)

theorem offered (h : l.Orderly) {q : WorkQueue α} (hw : q.waiting = l.queue.waiting)
    (hd : q.shuttingDown = l.queue.shuttingDown) (hs : q.signal = l.queue.signal) (a : α) :
    (l.owing (q.offer a)).Orderly := by
  unfold WorkQueue.offer
  split
  · exact h.owing hs hd (congrArg List.length hw)
  split
  · exact h.owing hs hd (congrArg List.length hw)
  · refine h.owing hs hd ?_
    simp [hw]

theorem finished (h : l.Orderly) (a : α) : (l.owing (l.queue.finish a)).Orderly := by
  unfold WorkQueue.finish
  simp only
  split
  · exact h.owing rfl rfl (by simp)
  · exact h.owing rfl rfl rfl

theorem later (h : l.Orderly) (a : α) (delay : Duration) : (l.later a delay).Orderly := by
  unfold Lobby.later
  cases hz : delay.isZero with
  | true => exact h.offered rfl rfl rfl a
  | false =>
      obtain ⟨delayed, he⟩ := WorkQueue.addAfter_of_delay l.queue a hz l.clock
      simp only [he]
      exact h.of_same rfl rfl fun ha => ⟨ha.items, ha.closing⟩

omit [DecidableEq α] in
theorem rung (h : l.Orderly) {rings : Nat} (hr : l.rings = rings + 1) :
    ({ l.withSignal l.queue.signal.notifyOne with rings := rings } : Lobby α).Orderly := by
  refine h.of_perm (Signal.perm_notifyOne _) rfl fun u hu => ?_
  obtain ⟨hw, hlength⟩ := Signal.chosen_notifyOne hu
  refine ⟨hw, fun ha => ⟨?_, ha.closing⟩⟩
  have hitems := ha.items
  change l.queue.waiting.length ≤ rings + l.queue.signal.notifyOne.chosen.length + l.running
  omega

omit [DecidableEq α] in
theorem belled (h : l.Orderly) (bells : Nat) :
    ({ l.withSignal l.queue.signal.notifyAll with bells := bells } : Lobby α).Orderly :=
  h.of_perm (Signal.perm_notifyAll _) rfl fun _ hu => absurd hu List.not_mem_nil

omit [DecidableEq α] in
theorem not_registered (h : l.Orderly) (hc : (l.stand t).mayCount = false) :
    t ∉ l.queue.signal.tickets := by
  intro hm
  rw [h.known t hm] at hc
  cases hc

omit [DecidableEq α] in
/-- Whoever registers will look. -/
theorem running_register (l : Lobby α) (t : Ticket) : l.running ≤ (l.register t).running := by
  have hput := running_put (l.withQueue (l.queue.enroll t).2) t (.looking (l.queue.enroll t).1)
  change (l.register t).running + (l.stand t).isRunning.toNat = l.running + 1 at hput
  have hone := Bool.toNat_le (l.stand t).isRunning
  omega

omit [DecidableEq α] in
theorem register_of_permit (h : l.Orderly) (hc : (l.stand t).mayCount = false)
    (hp : l.queue.signal.permit = true) : (l.register t).Orderly := by
  have hsignal : (l.register t).queue.signal = { l.queue.signal with permit := false } := by
    simp [Lobby.register, WorkQueue.enroll, Signal.enroll, hp, put, withQueue]
  have hpermit : (l.queue.enroll t).1 = true := (Signal.enroll_fst _ t).trans hp
  refine h.of_caller (.looking true) (by rw [← hpermit]; rfl) ?_ ?_ ?_ ?_ ?_ ?_
  · rw [hsignal]
    exact h.distinct
  · intro u _
    rw [hsignal]
    rfl
  · intro hm
    rw [hsignal] at hm
    exact absurd hm (h.not_registered hc)
  · intro hcounts
    cases hcounts
  · intro he
    cases he
  · intro u hm _
    rw [hsignal] at hm
    refine ⟨hm, fun ha => ⟨?_, ha.closing⟩⟩
    have hitems := ha.items
    have hrunning := running_register l t
    rw [hsignal]
    change l.queue.waiting.length ≤ l.rings + l.queue.signal.chosen.length + _
    omega

omit [DecidableEq α] in
theorem register_of_no_permit (h : l.Orderly) (hc : (l.stand t).mayCount = false)
    (hp : l.queue.signal.permit = false) : (l.register t).Orderly := by
  have hperm := Signal.perm_enroll hp t
  have hsignal : (l.register t).queue.signal = (l.queue.signal.enroll t).2 := rfl
  have hpermit : (l.queue.enroll t).1 = false := (Signal.enroll_fst _ t).trans hp
  refine h.of_caller (.looking false) (by rw [← hpermit]; rfl) ?_ ?_ ?_ ?_ ?_ ?_
  · rw [hsignal]
    exact hperm.nodup_iff.mpr (List.nodup_cons.mpr ⟨h.not_registered hc, h.distinct⟩)
  · intro u hu
    rw [hsignal, hperm.mem_iff, List.mem_cons]
    exact or_iff_right hu
  · exact fun _ => rfl
  · intro _
    rw [hsignal, hperm.mem_iff]
    exact List.mem_cons_self
  · intro he
    cases he
  · intro u hm hu
    have hsame : (l.queue.signal.enroll t).2 =
        { l.queue.signal with waiting := l.queue.signal.waiting ++ [t] } := by
      simp [Signal.enroll, hp]
    rw [hsignal, hsame] at hm
    have hw : u ∈ l.queue.signal.waiting :=
      (List.mem_append.mp hm).resolve_right fun he => hu (List.mem_singleton.mp he)
    refine ⟨hw, fun ha => ⟨?_, ha.closing⟩⟩
    have hitems := ha.items
    have hrunning := running_register l t
    rw [hsignal, hsame]
    change l.queue.waiting.length ≤ l.rings + l.queue.signal.chosen.length + _
    omega

omit [DecidableEq α] in
/-- A caller that is not registered registers, or takes the permit. -/
theorem register (h : l.Orderly) (hc : (l.stand t).mayCount = false) :
    (l.register t).Orderly := by
  cases hp : l.queue.signal.permit with
  | true => exact h.register_of_permit hc hp
  | false => exact h.register_of_no_permit hc hp

omit [DecidableEq α] in
/-- A caller has looked at the items; the signal is as it was. -/
theorem of_look (h : l.Orderly) {permit : Bool} (ht : l.stand t = .looking permit)
    {q : WorkQueue α} (hs : q.signal = l.queue.signal) (stand : Stand α)
    (hmay : stand.mayCount = true ∨ permit = true)
    (hcounts : stand.counts = true → permit = false)
    (hself : stand = .asleep → ((l.withQueue q).put t stand).Attended)
    (ha : l.Attended → ((l.withQueue q).put t stand).Attended) :
    ((l.withQueue q).put t stand).Orderly := by
  refine h.of_caller stand rfl ?_ ?_ ?_ ?_ hself ?_
  · change q.signal.tickets.Nodup
    rw [hs]
    exact h.distinct
  · intro u _
    change u ∈ q.signal.tickets ↔ _
    rw [hs]
  · intro hm
    change t ∈ q.signal.tickets at hm
    rw [hs] at hm
    refine hmay.resolve_right fun hp => ?_
    -- Whoever took a permit is not registered.
    have hknown := h.known t hm
    rw [ht, hp] at hknown
    cases hknown
  · intro hc
    change t ∈ q.signal.tickets
    rw [hs]
    apply h.listed
    rw [ht, hcounts hc]
    rfl
  · intro u hm _
    change u ∈ q.signal.waiting at hm
    rw [hs] at hm
    exact ⟨hm, ha⟩

/-- What a caller finds is one item less for the others, and it is no longer running for one. -/
theorem looked_item (h : l.Orderly) {permit : Bool} (ht : l.stand t = .looking permit) {a : α}
    {rest : List α} (hw : l.queue.waiting = a :: rest) :
    (l.looked t permit l.queue.check).Orderly := by
  obtain ⟨q, hq, hrest, hs, hd⟩ : ∃ q, l.queue.check = (.item a, q) ∧ q.waiting = rest ∧
      q.signal = l.queue.signal ∧ q.shuttingDown = l.queue.shuttingDown := by
    simp only [WorkQueue.check, hw]
    exact ⟨_, rfl, rfl, rfl, rfl⟩
  rw [hq]
  refine h.of_look ht hs (.leaving (.item a)) (Or.inl rfl) (fun hc => by cases hc)
    (fun he => by cases he) fun ha => ⟨?_, fun hdown => ha.closing (hd ▸ hdown)⟩
  have hrunning := running_put (l.withQueue q) t (.leaving (.item a))
  change _ + (l.stand t).isRunning.toNat = l.running + 0 at hrunning
  rw [ht] at hrunning
  change _ + 1 = l.running + 0 at hrunning
  have hitems := ha.items
  rw [hw, List.length_cons] at hitems
  change q.waiting.length ≤ l.rings + q.signal.chosen.length + _
  rw [hrest, hs]
  omega

/-- A caller that finds nothing leaves nothing to be found. -/
theorem looked_nothing (h : l.Orderly) {permit : Bool} (ht : l.stand t = .looking permit)
    (hw : l.queue.waiting = []) : (l.looked t permit l.queue.check).Orderly := by
  have hnone : ∀ l' : Lobby α, l'.queue.waiting = l.queue.waiting →
      l'.queue.waiting.length ≤ l'.rings + l'.queue.signal.chosen.length + l'.running := by
    intro l' he
    rw [he, hw]
    exact Nat.zero_le _
  cases hd : l.queue.shuttingDown with
  | true =>
      simp only [WorkQueue.check, hw, hd, if_true, Lobby.looked]
      exact h.of_look ht rfl (.leaving .closed) (Or.inl rfl) (fun hc => by cases hc)
        (fun he => by cases he) fun ha => ⟨hnone _ rfl, ha.closing⟩
  | false =>
      have hopen : ∀ stand, ((l.withQueue l.queue).put t stand).Attended := by
        intro stand
        refine ⟨hnone _ rfl, fun hdown => ?_⟩
        change l.queue.shuttingDown = true at hdown
        rw [hd] at hdown
        cases hdown
      simp only [WorkQueue.check, hw, hd, Bool.false_eq_true, if_false, Lobby.looked]
      cases permit with
      | true =>
          exact h.of_look ht rfl .returning (Or.inr rfl) (fun hc => by cases hc)
            (fun _ => hopen _) fun _ => hopen _
      | false =>
          exact h.of_look ht rfl .asleep (Or.inl rfl) (fun _ => rfl)
            (fun _ => hopen _) fun _ => hopen _

theorem looked (h : l.Orderly) {permit : Bool} (ht : l.stand t = .looking permit) :
    (l.looked t permit l.queue.check).Orderly := by
  cases hw : l.queue.waiting with
  | cons a rest => exact h.looked_item ht hw
  | nil => exact h.looked_nothing ht hw

omit [DecidableEq α] in
/-- A caller gives up its registration and goes. -/
theorem gone (h : l.Orderly) (hr : (l.stand t).isRunning = false) :
    ((l.withSignal (l.queue.signal.leave t)).put t .away).Orderly := by
  have hrunning := running_put (l.withSignal (l.queue.signal.leave t)) t .away
  refine h.of_caller .away rfl (Signal.nodup_leave h.distinct t) ?_ ?_ ?_ ?_ ?_
  · intro u hu
    exact (Signal.mem_leave_iff h.distinct t u).trans (and_iff_right hu)
  · intro hm
    exact absurd rfl ((Signal.mem_leave_iff h.distinct t t).mp hm).1
  · intro hcounts
    cases hcounts
  · intro he
    cases he
  · intro u hm _
    obtain ⟨hw, hlength⟩ := Signal.chosen_leave h.distinct hm
    refine ⟨hw, fun ha => ⟨?_, ha.closing⟩⟩
    have hitems := ha.items
    change _ + (l.stand t).isRunning.toNat = l.running + 0 at hrunning
    rw [hr] at hrunning
    change l.queue.waiting.length ≤ l.rings + (l.queue.signal.leave t).chosen.length + _
    rw [Bool.toNat_false] at hrunning
    omega

omit [DecidableEq α] in
/-- A caller that was woken goes on. -/
theorem woken (h : l.Orderly) (ht : l.stand t = .asleep)
    (hw : l.queue.signal.isWoken t = true) :
    ((l.withSignal (l.queue.signal.resume t)).put t .returning).Orderly := by
  have hresume := Signal.resume_eq h.distinct hw
  have hrunning := running_put (l.withSignal (l.queue.signal.resume t)) t .returning
  refine h.of_caller .returning rfl ?_ ?_ ?_ ?_ ?_ ?_
  · change (l.queue.signal.resume t).tickets.Nodup
    rw [hresume]
    exact Signal.nodup_strike h.distinct t
  · intro u hu
    change u ∈ (l.queue.signal.resume t).tickets ↔ _
    rw [hresume, Signal.mem_strike_iff h.distinct]
    exact and_iff_right hu
  · intro hm
    change t ∈ (l.queue.signal.resume t).tickets at hm
    rw [hresume, Signal.mem_strike_iff h.distinct] at hm
    exact absurd rfl hm.1
  · intro hcounts
    cases hcounts
  · intro he
    cases he
  · intro u hm _
    refine ⟨hm, fun ha => ⟨?_, ha.closing⟩⟩
    have hitems := ha.items
    change _ + (l.stand t).isRunning.toNat = l.running + 1 at hrunning
    rw [ht] at hrunning
    change _ + 0 = l.running + 1 at hrunning
    have hlength : l.queue.signal.chosen.length ≤ (l.queue.signal.chosen.erase t).length + 1 := by
      rw [List.length_erase]
      split <;> omega
    change l.queue.waiting.length ≤ l.rings + (l.queue.signal.chosen.erase t).length + _
    omega

theorem move (h : l.Orderly) (m : LobbyMove α) : (l.move m).Orderly := by
  cases m with
  | offer a => exact h.offered rfl rfl rfl a
  | addAfter a delay => exact h.later a delay
  | addRateLimited a =>
      have hsame : (l.withQueue { l.queue with
          limiter := (l.queue.limiter.next a l.clock.now).2 }).Orderly :=
        h.of_same rfl rfl fun ha => ⟨ha.items, ha.closing⟩
      exact hsame.later a _
  | forget a => exact h.of_same rfl rfl fun ha => ⟨ha.items, ha.closing⟩
  | fire timer =>
      unfold Lobby.move
      simp only
      split
      · exact h.offered (q := l.queue.expire timer.stamp) rfl rfl rfl timer.item
      · exact h
  | ring =>
      unfold Lobby.move
      simp only
      split
      · exact h
      · rename_i rings hr
        exact h.rung hr
  | done a => exact h.finished a
  | shutDown => exact h.of_same rfl rfl fun ha => ⟨ha.items, fun _ => Nat.succ_pos _⟩
  | bell =>
      unfold Lobby.move
      simp only
      split
      · exact h
      · exact h.belled _
  | arrive t =>
      unfold Lobby.move
      simp only
      split
      · rename_i ht
        exact h.register (by rw [ht]; rfl)
      · exact h
  | look t =>
      unfold Lobby.move
      simp only
      split
      · rename_i permit ht
        exact h.looked ht
      · exact h
  | depart t =>
      unfold Lobby.move
      simp only
      split
      · rename_i out ht
        exact h.gone (by rw [ht]; rfl)
      · exact h
  | wake t =>
      unfold Lobby.move
      simp only
      split
      · rename_i ht
        split
        · rename_i hw
          exact h.woken ht hw
        · exact h
      · exact h
  | again t =>
      unfold Lobby.move
      simp only
      split
      · rename_i ht
        exact h.register (by rw [ht]; rfl)
      · exact h
  | drop t =>
      unfold Lobby.move
      simp only
      split
      · rename_i ht
        exact h.gone (by rw [ht]; rfl)
      · exact h
  | pass time => exact h.of_same rfl rfl fun ha => ⟨ha.items, ha.closing⟩

theorem run (h : l.Orderly) (moves : List (LobbyMove α)) : (l.run moves).Orderly := by
  induction moves generalizing l with
  | nil => exact h
  | cons m rest ih => exact ih (h.move m)

end Orderly
end Lobby
end StatusRelay
