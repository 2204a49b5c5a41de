import StatusRelay.Queue
import Mathlib.Data.List.Nodup
import Mathlib.Data.List.Basic

/-!
# Where an item is

What each operation of the queue does with the items, stated once: an add that is taken note of
(`Added`), an add after a delay (`Deferred`), a round of a caller (`Polled`). `Places` keeps the
line, the notes and the items in process apart, `Timed` keeps the timers apart, and both hold in an
open queue as in one that is shut down.
-/
namespace StatusRelay.WorkQueue

variable {α : Type} [DecidableEq α] {q q' : WorkQueue α} {c c' : Clock} {a b : α}

/-- What waits is noted, what is noted waits or is being processed, and nothing does both. -/
structure Places (q : WorkQueue α) : Prop where
  once : q.waiting.Nodup
  noted : ∀ a ∈ q.waiting, a ∈ q.dirty
  known : ∀ a ∈ q.dirty, a ∈ q.waiting ∨ a ∈ q.processing
  apart : ∀ a ∈ q.waiting, a ∉ q.processing
  single : q.processing.Nodup

/-- Every timer has its own number. -/
structure Timed (q : WorkQueue α) (c : Clock) : Prop where
  stamps : (q.delayed.map fun d => d.stamp.order).Nodup
  issued : ∀ d ∈ q.delayed, d.stamp.order < c.issued

omit [DecidableEq α] in
theorem places_start (limiter : Limiter α) : ({ limiter } : WorkQueue α).Places := by
  constructor <;> simp

omit [DecidableEq α] in
theorem timed_start (limiter : Limiter α) (c : Clock) : ({ limiter } : WorkQueue α).Timed c := by
  constructor <;> simp

/-! ## The signal and the limiter -/

/-- The same items everywhere. -/
structure SameItems (q q' : WorkQueue α) : Prop where
  waiting : q'.waiting = q.waiting
  dirty : q'.dirty = q.dirty
  processing : q'.processing = q.processing
  delayed : q'.delayed = q.delayed
  shuttingDown : q'.shuttingDown = q.shuttingDown

omit [DecidableEq α] in
theorem SameItems.refl (q : WorkQueue α) : q.SameItems q := ⟨rfl, rfl, rfl, rfl, rfl⟩

omit [DecidableEq α] in
theorem SameItems.trans {q'' : WorkQueue α} (s : q.SameItems q') (s' : q'.SameItems q'') :
    q.SameItems q'' :=
  ⟨s'.waiting.trans s.waiting, s'.dirty.trans s.dirty, s'.processing.trans s.processing,
    s'.delayed.trans s.delayed, s'.shuttingDown.trans s.shuttingDown⟩

omit [DecidableEq α] in
theorem SameItems.places (s : q.SameItems q') (h : q.Places) : q'.Places where
  once := s.waiting ▸ h.once
  noted := by rw [s.waiting, s.dirty]; exact h.noted
  known := by rw [s.waiting, s.dirty, s.processing]; exact h.known
  apart := by rw [s.waiting, s.processing]; exact h.apart
  single := s.processing ▸ h.single

theorem sameItems_forget (q : WorkQueue α) (a : α) : q.SameItems (q.forget a) :=
  ⟨rfl, rfl, rfl, rfl, rfl⟩

omit [DecidableEq α] in
theorem sameItems_enroll (q : WorkQueue α) (t : Ticket) : q.SameItems (q.enroll t).2 :=
  ⟨rfl, rfl, rfl, rfl, rfl⟩

omit [DecidableEq α] in
theorem sameItems_leave (q : WorkQueue α) (t : Ticket) : q.SameItems (q.leave t) :=
  ⟨rfl, rfl, rfl, rfl, rfl⟩

/-! ## Adding -/

/-- An item is taken note of: it is known already, or it is parked until it was processed, or it
joins the line. -/
inductive Added (q : WorkQueue α) (a : α) (q' : WorkQueue α) : Prop where
  | known (hd : a ∈ q.dirty) (s : q.SameItems q')
  | parked (hd : a ∉ q.dirty) (hp : a ∈ q.processing)
      (s : SameItems { q with dirty := a :: q.dirty } q')
  | queued (hd : a ∉ q.dirty) (hp : a ∉ q.processing)
      (s : SameItems { q with dirty := a :: q.dirty, waiting := q.waiting ++ [a] } q')

theorem add_of_shut (h : q.shuttingDown = true) (a : α) : q.add a = q := by
  simp [add, offer, h]

theorem added_add (h : q.shuttingDown = false) (a : α) : q.Added a (q.add a) := by
  unfold add offer
  rw [h]
  by_cases hd : a ∈ q.dirty
  · simp only [Bool.false_or, List.contains_iff_mem, hd, if_true]
    exact .known hd (.refl q)
  by_cases hp : a ∈ q.processing
  · simp only [Bool.false_or, List.contains_iff_mem, hd, hp, if_true, if_false]
    exact .parked hd hp ⟨rfl, rfl, rfl, rfl, h.symm⟩
  · simp only [Bool.false_or, List.contains_iff_mem, hd, hp, if_false]
    exact .queued hd hp ⟨rfl, rfl, rfl, rfl, h.symm⟩

omit [DecidableEq α] in
theorem SameItems.added {q'' : WorkQueue α} (s : q.SameItems q') (h : q'.Added a q'') :
    q.Added a q'' := by
  cases h with
  | known hd s' => exact .known (s.dirty ▸ hd) (s.trans s')
  | parked hd hp s' =>
      refine .parked (s.dirty ▸ hd) (s.processing ▸ hp) (.trans ?_ s')
      exact { s with dirty := congrArg (a :: ·) s.dirty }
  | queued hd hp s' =>
      refine .queued (s.dirty ▸ hd) (s.processing ▸ hp) (.trans ?_ s')
      exact { s with
        dirty := congrArg (a :: ·) s.dirty
        waiting := congrArg (· ++ [a]) s.waiting }

namespace Added

variable (h : q.Added a q')

omit [DecidableEq α]
include h

theorem mem_dirty : b ∈ q'.dirty ↔ b ∈ q.dirty ∨ b = a := by
  cases h with
  | known hd s =>
      rw [s.dirty]
      exact ⟨Or.inl, fun hb => hb.elim id fun he => he ▸ hd⟩
  | parked hd hp s =>
      rw [s.dirty]
      exact List.mem_cons.trans or_comm
  | queued hd hp s =>
      rw [s.dirty]
      exact List.mem_cons.trans or_comm

theorem nodup_dirty (hn : q.dirty.Nodup) : q'.dirty.Nodup := by
  cases h with
  | known hd s => exact s.dirty ▸ hn
  | parked hd hp s => exact s.dirty ▸ hn.cons hd
  | queued hd hp s => exact s.dirty ▸ hn.cons hd

theorem processing : q'.processing = q.processing := by
  cases h with
  | known hd s | parked hd hp s | queued hd hp s => exact s.processing

theorem delayed : q'.delayed = q.delayed := by
  cases h with
  | known hd s | parked hd hp s | queued hd hp s => exact s.delayed

theorem shuttingDown : q'.shuttingDown = q.shuttingDown := by
  cases h with
  | known hd s | parked hd hp s | queued hd hp s => exact s.shuttingDown

theorem places (hq : q.Places) : q'.Places := by
  cases h with
  | known hd s => exact s.places hq
  | parked hd hp s =>
      refine s.places { hq with noted := ?_, known := ?_ }
      · intro b hb
        exact List.mem_cons_of_mem _ (hq.noted b hb)
      · intro b hb
        rcases List.mem_cons.mp hb with rfl | hb
        · exact Or.inr hp
        · exact hq.known b hb
  | queued hd hp s =>
      have hw : a ∉ q.waiting := fun hw => hd (hq.noted a hw)
      refine s.places { hq with once := ?_, noted := ?_, known := ?_, apart := ?_ }
      · rw [← List.concat_eq_append]
        exact hq.once.concat hw
      · intro b hb
        rcases List.mem_append.mp hb with hb | hb
        · exact List.mem_cons_of_mem _ (hq.noted b hb)
        · exact List.mem_cons.mpr (Or.inl (List.mem_singleton.mp hb))
      · intro b hb
        rcases List.mem_cons.mp hb with rfl | hb
        · exact Or.inl (List.mem_append.mpr (Or.inr (List.mem_singleton.mpr rfl)))
        · exact (hq.known b hb).imp_left fun hm => List.mem_append.mpr (Or.inl hm)
      · intro b hb
        rcases List.mem_append.mp hb with hb | hb
        · exact hq.apart b hb
        · exact (List.mem_singleton.mp hb) ▸ hp

end Added

/-! ## Timers -/

omit [DecidableEq α] in
theorem Timed.later (h : q.Timed c) (hc : c.issued ≤ c'.issued) : q.Timed c' :=
  { h with issued := fun d hd => Nat.lt_of_lt_of_le (h.issued d hd) hc }

omit [DecidableEq α] in
theorem Timed.of_delayed (h : q.Timed c) (he : q'.delayed = q.delayed) : q'.Timed c where
  stamps := he ▸ h.stamps
  issued := he ▸ h.issued

/-- A timer is set that will add the item. -/
structure Delays (q : WorkQueue α) (c : Clock) (a : α) (q' : WorkQueue α) (c' : Clock) : Prop where
  isOpen : q.shuttingDown = false
  issued : c'.issued = c.issued + 1
  sets : ∃ stamp : Stamp, stamp.order = c.issued ∧
    SameItems { q with delayed := q.delayed ++ [⟨a, stamp⟩] } q'

omit [DecidableEq α] in
theorem SameItems.delays {q'' : WorkQueue α} (s : q.SameItems q') (h : q'.Delays c a q'' c') :
    q.Delays c a q'' c' where
  isOpen := s.shuttingDown ▸ h.isOpen
  issued := h.issued
  sets := by
    obtain ⟨stamp, ho, hs⟩ := h.sets
    refine ⟨stamp, ho, .trans ?_ hs⟩
    exact { s with delayed := congrArg (· ++ [⟨a, stamp⟩]) s.delayed }

/-- An add after a delay: made at once if there is none (`now`), refused by a queue that is shut
down, or else left to a timer. -/
inductive Deferred (q : WorkQueue α) (c : Clock) (a : α) (now : Bool) (q' : WorkQueue α)
    (c' : Clock) : Prop where
  | added (ho : q.shuttingDown = false) (hn : now = true) (s : q.Added a q') (hc : c' = c)
  | refused (hs : q.shuttingDown = true) (s : q.SameItems q') (hc : c' = c)
  | timer (hn : now = false) (s : q.Delays c a q' c')

theorem deferred_addAfter (q : WorkQueue α) (a : α) (delay : Duration) (c : Clock) :
    q.Deferred c a delay.isZero (q.addAfter a delay c).1 (q.addAfter a delay c).2 := by
  unfold addAfter
  cases ho : q.shuttingDown with
  | true =>
      refine .refused ho ?_ ?_
      · split
        · rw [add_of_shut ho]
          exact .refl q
        · exact .refl q
      · split <;> rfl
  | false =>
      cases hz : delay.isZero with
      | true => exact .added ho rfl (added_add ho a) rfl
      | false => exact .timer rfl ⟨ho, rfl, _, rfl, rfl, rfl, rfl, rfl, ho.symm⟩

omit [DecidableEq α] in
theorem SameItems.deferred {q'' : WorkQueue α} {now : Bool} (s : q.SameItems q')
    (h : q'.Deferred c a now q'' c') : q.Deferred c a now q'' c' := by
  cases h with
  | added ho hn s' hc => exact .added (s.shuttingDown ▸ ho) hn (s.added s') hc
  | refused hs s' hc => exact .refused (s.shuttingDown ▸ hs) (s.trans s') hc
  | timer hn s' => exact .timer hn (s.delays s')

theorem deferred_addRateLimited (q : WorkQueue α) (a : α) (c : Clock) :
    q.Deferred c a (q.limiter.next a c.now).1.isZero (q.addRateLimited a c).1
      (q.addRateLimited a c).2 := by
  have hs : q.SameItems { q with limiter := (q.limiter.next a c.now).2 } :=
    ⟨rfl, rfl, rfl, rfl, rfl⟩
  exact hs.deferred (deferred_addAfter _ a _ c)

omit [DecidableEq α] in
theorem Delays.places (s : q.Delays c a q' c') (h : q.Places) : q'.Places := by
  obtain ⟨stamp, -, hs⟩ := s.sets
  exact hs.places { h with }

omit [DecidableEq α] in
theorem Delays.dirty (s : q.Delays c a q' c') : q'.dirty = q.dirty := by
  obtain ⟨stamp, -, hs⟩ := s.sets
  exact hs.dirty

omit [DecidableEq α] in
theorem Delays.processing (s : q.Delays c a q' c') : q'.processing = q.processing := by
  obtain ⟨stamp, -, hs⟩ := s.sets
  exact hs.processing

omit [DecidableEq α] in
theorem Delays.shuttingDown (s : q.Delays c a q' c') : q'.shuttingDown = q.shuttingDown := by
  obtain ⟨stamp, -, hs⟩ := s.sets
  exact hs.shuttingDown

omit [DecidableEq α] in
theorem Delays.mem_delayed_of (s : q.Delays c a q' c') {d : Delayed α} (hd : d ∈ q.delayed) :
    d ∈ q'.delayed := by
  obtain ⟨stamp, -, hs⟩ := s.sets
  rw [hs.delayed]
  exact List.mem_append.mpr (Or.inl hd)

omit [DecidableEq α] in
theorem Delays.timed (s : q.Delays c a q' c') (h : q.Timed c) : q'.Timed c' := by
  obtain ⟨stamp, ho, hs⟩ := s.sets
  have hmem : ∀ d ∈ q'.delayed, d ∈ q.delayed ∨ d = ⟨a, stamp⟩ := by
    intro d hd
    rw [hs.delayed] at hd
    exact (List.mem_append.mp hd).imp_right List.mem_singleton.mp
  constructor
  · rw [hs.delayed, List.map_append, List.map_singleton, ← List.concat_eq_append]
    refine h.stamps.concat ?_
    intro hm
    obtain ⟨d, hd, he⟩ := List.mem_map.mp hm
    have hlt := h.issued d hd
    rw [he, ho] at hlt
    exact Nat.lt_irrefl _ hlt
  · intro d hd
    rw [s.issued]
    rcases hmem d hd with hd | rfl
    · exact Nat.lt_succ_of_lt (h.issued d hd)
    · exact ho ▸ Nat.lt_succ_self _

omit [DecidableEq α] in
theorem Timed.expire (h : q.Timed c) (stamp : Stamp) : (q.expire stamp).Timed c where
  stamps := h.stamps.sublist (List.filter_sublist.map _)
  issued := fun d hd => h.issued d (List.mem_filter.mp hd).1

omit [DecidableEq α] in
/-- A timer that fires leaves the others alone, since every timer has its own number. -/
theorem Timed.mem_delayed_expire (h : q.Timed c) {d e : Delayed α} (hd : d ∈ q.delayed) :
    e ∈ (q.expire d.stamp).delayed ↔ e ∈ q.delayed ∧ e ≠ d := by
  simp only [WorkQueue.expire, List.mem_filter, Bool.not_eq_true', decide_eq_false_iff_not]
  constructor
  · rintro ⟨he, hs⟩
    exact ⟨he, fun heq => hs (heq ▸ rfl)⟩
  · rintro ⟨he, hne⟩
    refine ⟨he, ?_⟩
    intro hs
    exact hne (List.inj_on_of_nodup_map h.stamps he hd (congrArg Stamp.order hs))

/-! ## Handing out -/

/-- The item at the head of the line goes into processing, and is not noted any more. -/
structure Takes (q : WorkQueue α) (a : α) (q' : WorkQueue α) : Prop where
  line : q.waiting = a :: q'.waiting
  dirty : q'.dirty = q.dirty.erase a
  processing : q'.processing = q.processing.insert a
  delayed : q'.delayed = q.delayed
  shuttingDown : q'.shuttingDown = q.shuttingDown

/-- A round of a caller. -/
inductive Polled (q : WorkQueue α) : Handout α → WorkQueue α → Prop where
  | item {a : α} {q' : WorkQueue α} (h : q.Takes a q') : Polled q (.item a) q'
  | closed {q' : WorkQueue α} (hs : q.shuttingDown = true) (hw : q.waiting = [])
      (s : q.SameItems q') : Polled q .closed q'
  | nothing {q' : WorkQueue α} (hs : q.shuttingDown = false) (s : q.SameItems q') :
      Polled q .nothing q'

theorem polled_check (q : WorkQueue α) : q.Polled q.check.1 q.check.2 := by
  unfold check
  split
  · rename_i a rest hw
    exact .item ⟨hw, rfl, rfl, rfl, rfl⟩
  · rename_i hw
    split
    · rename_i hs
      exact .closed hs hw (.refl q)
    · rename_i hs
      exact .nothing (Bool.eq_false_iff.mpr hs) (.refl q)

theorem SameItems.polled {q'' : WorkQueue α} {out : Handout α} (s : q.SameItems q')
    (h : q'.Polled out q'') : q.Polled out q'' := by
  cases h with
  | item h =>
      refine .item ⟨s.waiting ▸ h.line, ?_, ?_, h.delayed.trans s.delayed,
        h.shuttingDown.trans s.shuttingDown⟩
      · rw [h.dirty, s.dirty]
      · rw [h.processing, s.processing]
  | closed hs hw s' => exact .closed (s.shuttingDown ▸ hs) (s.waiting ▸ hw) (s.trans s')
  | nothing hs s' => exact .nothing (s.shuttingDown ▸ hs) (s.trans s')

theorem Polled.of_sameItems {q'' : WorkQueue α} {out : Handout α} (h : q.Polled out q')
    (s : q'.SameItems q'') : q.Polled out q'' := by
  cases h with
  | item h =>
      exact .item ⟨s.waiting ▸ h.line, s.dirty.trans h.dirty, s.processing.trans h.processing,
        s.delayed.trans h.delayed, s.shuttingDown.trans h.shuttingDown⟩
  | closed hs hw s' => exact .closed hs hw (s'.trans s)
  | nothing hs s' => exact .nothing hs (s'.trans s)

theorem polled_poll (q : WorkQueue α) (t : Ticket) : q.Polled (q.poll t).1 (q.poll t).2 := by
  have h := (sameItems_enroll q t).polled (polled_check _)
  unfold poll
  simp only
  generalize (q.enroll t).2.check = checked at h ⊢
  obtain ⟨out, q'⟩ := checked
  cases out with
  | nothing =>
      simp only
      split
      · exact h.of_sameItems (sameItems_enroll q' t)
      · exact h
  | item a => exact h.of_sameItems (sameItems_leave q' t)
  | closed => exact h.of_sameItems (sameItems_leave q' t)

theorem polled_resume (q : WorkQueue α) (t : Ticket) :
    q.Polled (q.resume t).1 (q.resume t).2 := by
  have hs : q.SameItems { q with signal := q.signal.resume t } := ⟨rfl, rfl, rfl, rfl, rfl⟩
  exact hs.polled (polled_poll _ t)

namespace Takes

variable (h : q.Takes a q')

include h

theorem mem_waiting : a ∈ q.waiting := h.line ▸ List.mem_cons_self

theorem fresh (hq : q.Places) : a ∉ q.processing := hq.apart a h.mem_waiting

theorem mem_processing : b ∈ q'.processing ↔ b ∈ q.processing ∨ b = a := by
  rw [h.processing, List.mem_insert_iff, or_comm]

theorem mem_dirty (hn : q.dirty.Nodup) : b ∈ q'.dirty ↔ b ∈ q.dirty ∧ b ≠ a := by
  rw [h.dirty, hn.mem_erase_iff, and_comm]

theorem places (hq : q.Places) : q'.Places := by
  have honce := hq.once
  rw [h.line, List.nodup_cons] at honce
  have hline : ∀ b ∈ q'.waiting, b ∈ q.waiting :=
    fun b hb => h.line ▸ List.mem_cons_of_mem _ hb
  constructor
  · exact honce.2
  · intro b hb
    have hne : b ≠ a := fun he => honce.1 (he ▸ hb)
    rw [h.dirty]
    exact (List.mem_erase_of_ne hne).mpr (hq.noted b (hline b hb))
  · intro b hb
    rw [h.dirty] at hb
    rw [h.mem_processing]
    rcases hq.known b (List.mem_of_mem_erase hb) with hm | hm
    · rw [h.line] at hm
      rcases List.mem_cons.mp hm with he | hm
      · exact Or.inr (Or.inr he)
      · exact Or.inl hm
    · exact Or.inr (Or.inl hm)
  · intro b hb hm
    rcases h.mem_processing.mp hm with hm | rfl
    · exact hq.apart b (hline b hb) hm
    · exact honce.1 hb
  · rw [h.processing]
    exact hq.single.insert

end Takes

/-! ## Finishing -/

theorem processing_done (q : WorkQueue α) (a : α) :
    (q.done a).processing = q.processing.erase a := by
  unfold done
  simp only
  split <;> rfl

theorem dirty_done (q : WorkQueue α) (a : α) : (q.done a).dirty = q.dirty := by
  unfold done
  simp only
  split <;> rfl

theorem delayed_done (q : WorkQueue α) (a : α) : (q.done a).delayed = q.delayed := by
  unfold done
  simp only
  split <;> rfl

theorem shuttingDown_done (q : WorkQueue α) (a : α) :
    (q.done a).shuttingDown = q.shuttingDown := by
  unfold done
  simp only
  split <;> rfl

/-- What was added while it was processed joins the line. -/
theorem mem_waiting_done_self (h : a ∈ q.dirty) : a ∈ (q.done a).waiting := by
  simp [done, h, notifyOne]

theorem Places.done (h : q.Places) (ha : a ∈ q.processing) : (q.done a).Places := by
  unfold WorkQueue.done
  simp only
  split
  · rename_i hd
    rw [List.contains_iff_mem] at hd
    have hw : a ∉ q.waiting := fun hw => h.apart a hw ha
    refine { h with once := ?_, noted := ?_, known := ?_, apart := ?_, single := h.single.erase a }
    · rw [← List.concat_eq_append]
      exact h.once.concat hw
    · intro b hb
      rcases List.mem_append.mp hb with hb | hb
      · exact h.noted b hb
      · exact (List.mem_singleton.mp hb) ▸ hd
    · intro b hb
      by_cases he : b = a
      · exact Or.inl (List.mem_append.mpr (Or.inr (List.mem_singleton.mpr he)))
      · exact (h.known b hb).imp (fun hm => List.mem_append.mpr (Or.inl hm))
          (List.mem_erase_of_ne he).mpr
    · intro b hb hm
      rcases List.mem_append.mp hb with hb | hb
      · exact h.apart b hb (List.mem_of_mem_erase hm)
      · rw [List.mem_singleton.mp hb] at hm
        exact (h.single.mem_erase_iff.mp hm).1 rfl
  · rename_i hd
    rw [List.contains_iff_mem] at hd
    refine { h with known := ?_, apart := ?_, single := h.single.erase a }
    · intro b hb
      have he : b ≠ a := fun he => hd (he ▸ hb)
      exact (h.known b hb).imp_right (List.mem_erase_of_ne he).mpr
    · intro b hb hm
      exact h.apart b hb (List.mem_of_mem_erase hm)

end StatusRelay.WorkQueue
