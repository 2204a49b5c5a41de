import StatusRelay.Proofs.Places

/-!
# What the queue still has to hand out

An item is due when it was taken note of, in line or parked behind its own processing, or when a
timer will add it. `WorkQueue.Sound` keeps the books of an open queue apart: what waits is noted,
what is noted waits or is being processed, and nothing does both. Adding makes an item due, and only
handing it out ends that, so an empty queue owes nobody anything.
-/
namespace StatusRelay.WorkQueue

variable {α : Type} [DecidableEq α] {q q' : WorkQueue α} {c c' : Clock} {a b : α}

omit [DecidableEq α] in
def Due (q : WorkQueue α) (a : α) : Prop := a ∈ q.dirty ∨ ∃ d ∈ q.delayed, d.item = a

/-- A timer will add the item. -/
def Scheduled (q : WorkQueue α) (a : α) : Prop := ∃ d ∈ q.delayed, d.item = a

/-- Nothing waits and nothing is being processed. -/
def Idle (q : WorkQueue α) : Prop := q.waiting = [] ∧ q.processing = []

/-- Nothing waits, is being processed or is added later. -/
def Quiet (q : WorkQueue α) : Prop := q.waiting = [] ∧ q.processing = [] ∧ q.delayed = []

structure Sound (q : WorkQueue α) (c : Clock) : Prop where
  isOpen : q.shuttingDown = false
  once : q.waiting.Nodup
  noted : ∀ a ∈ q.waiting, a ∈ q.dirty
  known : ∀ a ∈ q.dirty, a ∈ q.waiting ∨ a ∈ q.processing
  apart : ∀ a ∈ q.waiting, a ∉ q.processing
  single : q.processing.Nodup
  stamps : (q.delayed.map fun d => d.stamp.order).Nodup
  issued : ∀ d ∈ q.delayed, d.stamp.order < c.issued

omit [DecidableEq α] in
theorem sound_iff :
    q.Sound c ↔ q.shuttingDown = false ∧ q.Places ∧ q.Timed c := by
  constructor
  · intro h
    exact ⟨h.isOpen, ⟨h.once, h.noted, h.known, h.apart, h.single⟩, ⟨h.stamps, h.issued⟩⟩
  · rintro ⟨hopen, hp, ht⟩
    exact ⟨hopen, hp.once, hp.noted, hp.known, hp.apart, hp.single, ht.stamps, ht.issued⟩

omit [DecidableEq α] in
theorem Sound.places (h : q.Sound c) : q.Places := (sound_iff.mp h).2.1

omit [DecidableEq α] in
theorem Sound.timed (h : q.Sound c) : q.Timed c := (sound_iff.mp h).2.2

omit [DecidableEq α] in
theorem sound_start (limiter : Limiter α) (c : Clock) : ({ limiter } : WorkQueue α).Sound c :=
  sound_iff.mpr ⟨rfl, places_start limiter, timed_start limiter c⟩

omit [DecidableEq α] in
theorem Sound.not_due (h : q.Sound c) (hq : q.Idle) (ha : ¬ q.Scheduled a) : ¬ q.Due a := by
  obtain ⟨hw, hp⟩ := hq
  rintro (hm | hd)
  · rcases h.known a hm with hm | hm
    · rw [hw] at hm
      exact List.not_mem_nil hm
    · rw [hp] at hm
      exact List.not_mem_nil hm
  · exact ha hd

omit [DecidableEq α] in
theorem Quiet.idle (hq : q.Quiet) : q.Idle := ⟨hq.1, hq.2.1⟩

omit [DecidableEq α] in
theorem Quiet.not_scheduled (hq : q.Quiet) (a : α) : ¬ q.Scheduled a := by
  rintro ⟨d, hm, _⟩
  rw [hq.2.2] at hm
  exact List.not_mem_nil hm

omit [DecidableEq α] in
theorem Sound.not_due_of_quiet (h : q.Sound c) (hq : q.Quiet) (a : α) : ¬ q.Due a :=
  h.not_due hq.idle (hq.not_scheduled a)

omit [DecidableEq α] in
/-- Timers that others set do not matter. -/
theorem Sound.later (h : q.Sound c) (hc : c.issued ≤ c'.issued) : q.Sound c' :=
  sound_iff.mpr ⟨h.isOpen, h.places, h.timed.later hc⟩

omit [DecidableEq α] in
theorem SameItems.due_iff (s : q.SameItems q') (a : α) : q'.Due a ↔ q.Due a := by
  rw [Due, Due, s.dirty, s.delayed]

omit [DecidableEq α] in
theorem SameItems.sound (s : q.SameItems q') (h : q.Sound c) : q'.Sound c :=
  sound_iff.mpr ⟨s.shuttingDown.trans h.isOpen, s.places h.places, h.timed.of_delayed s.delayed⟩

/-! ## Adding -/

omit [DecidableEq α] in
theorem Added.due_iff (s : q.Added a q') : q'.Due b ↔ q.Due b ∨ b = a := by
  rw [Due, Due, s.mem_dirty, s.delayed]
  exact or_right_comm

omit [DecidableEq α] in
theorem Added.sound (s : q.Added a q') (h : q.Sound c) : q'.Sound c :=
  sound_iff.mpr ⟨s.shuttingDown.trans h.isOpen, s.places h.places, h.timed.of_delayed s.delayed⟩

theorem processing_add (q : WorkQueue α) (a : α) : (q.add a).processing = q.processing := by
  cases h : q.shuttingDown with
  | true => rw [add_of_shut h]
  | false => exact (added_add h a).processing

theorem shuttingDown_add (q : WorkQueue α) (a : α) : (q.add a).shuttingDown = q.shuttingDown := by
  cases h : q.shuttingDown with
  | true => rw [add_of_shut h, h]
  | false => rw [(added_add h a).shuttingDown, h]

theorem due_add (h : q.shuttingDown = false) : (q.add a).Due b ↔ q.Due b ∨ b = a :=
  (added_add h a).due_iff

theorem Sound.add (h : q.Sound c) (a : α) : (q.add a).Sound c := (added_add h.isOpen a).sound h

theorem Sound.addAll (h : q.Sound c) (items : List α) : (q.addAll items).Sound c := by
  induction items generalizing q with
  | nil => exact h
  | cons a rest ih => exact ih (h.add a)

theorem due_addAll (h : q.Sound c) (items : List α) (b : α) :
    (q.addAll items).Due b ↔ q.Due b ∨ b ∈ items := by
  induction items generalizing q with
  | nil => simp [WorkQueue.addAll]
  | cons a rest ih =>
      change ((q.add a).addAll rest).Due b ↔ _
      rw [ih (h.add a), due_add h.isOpen, List.mem_cons, or_assoc]

theorem processing_addAll (q : WorkQueue α) (items : List α) :
    (q.addAll items).processing = q.processing := by
  induction items generalizing q with
  | nil => rfl
  | cons a rest ih => exact (ih (q := q.add a)).trans (processing_add q a)

theorem shuttingDown_addAll (q : WorkQueue α) (items : List α) :
    (q.addAll items).shuttingDown = q.shuttingDown := by
  induction items generalizing q with
  | nil => rfl
  | cons a rest ih => exact (ih (q := q.add a)).trans (shuttingDown_add q a)

/-- Of the items that are added those that were not known are noted. -/
theorem dirty_addAll (q : WorkQueue α) (items : List α) :
    ∃ fresh, List.Sublist fresh items.reverse ∧ (q.addAll items).dirty = fresh ++ q.dirty := by
  induction items generalizing q with
  | nil => exact ⟨[], .refl _, rfl⟩
  | cons a rest ih =>
      have hadd : ∃ fresh, List.Sublist fresh [a] ∧ (q.add a).dirty = fresh ++ q.dirty := by
        cases h : q.shuttingDown with
        | true => exact ⟨[], List.nil_sublist _, by rw [add_of_shut h]; rfl⟩
        | false =>
            cases added_add h a with
            | known _ s => exact ⟨[], List.nil_sublist _, s.dirty⟩
            | parked _ _ s | queued _ _ s => exact ⟨[a], .refl _, s.dirty⟩
      obtain ⟨first, hfirst, hq⟩ := hadd
      obtain ⟨fresh, hfresh, hrest⟩ := ih (q.add a)
      refine ⟨fresh ++ first, ?_, ?_⟩
      · rw [List.reverse_cons]
        exact hfresh.append hfirst
      · rw [List.append_assoc, ← hq]
        exact hrest

theorem places_addAll (h : q.Places) (items : List α) : (q.addAll items).Places := by
  induction items generalizing q with
  | nil => exact h
  | cons a rest ih =>
      refine ih (q := q.add a) ?_
      cases hs : q.shuttingDown with
      | true =>
          rw [add_of_shut hs]
          exact h
      | false => exact (added_add hs a).places h

omit [DecidableEq α] in
theorem Delays.due_iff (s : q.Delays c a q' c') : q'.Due b ↔ q.Due b ∨ b = a := by
  obtain ⟨stamp, -, hs⟩ := s.sets
  rw [Due, Due, hs.dirty, hs.delayed]
  simp only [List.mem_append, List.mem_singleton]
  constructor
  · rintro (hd | ⟨d, hd | rfl, rfl⟩)
    · exact Or.inl (Or.inl hd)
    · exact Or.inl (Or.inr ⟨d, hd, rfl⟩)
    · exact Or.inr rfl
  · rintro ((hd | ⟨d, hd, rfl⟩) | rfl)
    · exact Or.inl hd
    · exact Or.inr ⟨d, Or.inl hd, rfl⟩
    · exact Or.inr ⟨_, Or.inr rfl, rfl⟩

/-- A retry makes its item due, now or later. -/
theorem due_addRateLimited (h : q.shuttingDown = false) :
    (q.addRateLimited a c).1.Due b ↔ q.Due b ∨ b = a := by
  cases deferred_addRateLimited q a c with
  | added _ _ s _ => exact s.due_iff
  | refused hs _ _ =>
      rw [h] at hs
      cases hs
  | timer _ s => exact s.due_iff

theorem processing_addRateLimited (q : WorkQueue α) (a : α) (c : Clock) :
    (q.addRateLimited a c).1.processing = q.processing := by
  unfold addRateLimited addAfter
  simp only
  split
  · exact processing_add _ a
  · split <;> rfl

theorem shuttingDown_addRateLimited (q : WorkQueue α) (a : α) (c : Clock) :
    (q.addRateLimited a c).1.shuttingDown = q.shuttingDown := by
  unfold addRateLimited addAfter
  simp only
  split
  · exact shuttingDown_add _ a
  · split <;> rfl

omit [DecidableEq α] in
theorem Delays.sound (s : q.Delays c a q' c') (h : q.Sound c) : q'.Sound c' :=
  sound_iff.mpr ⟨s.shuttingDown.trans h.isOpen, s.places h.places, s.timed h.timed⟩

theorem Sound.addRateLimited (h : q.Sound c) (a : α) :
    (q.addRateLimited a c).1.Sound (q.addRateLimited a c).2 := by
  cases deferred_addRateLimited q a c with
  | added _ _ s hc =>
      rw [hc]
      exact s.sound h
  | refused _ s hc =>
      rw [hc]
      exact s.sound h
  | timer _ s => exact s.sound h

/-! ## Timers -/

omit [DecidableEq α] in
theorem Sound.expire (h : q.Sound c) (stamp : Stamp) : (q.expire stamp).Sound c :=
  sound_iff.mpr ⟨h.isOpen, { h.places with }, h.timed.expire stamp⟩

theorem Sound.fire (h : q.Sound c) (d : Delayed α) : (q.fire d).Sound c :=
  (h.expire d.stamp).add d.item

omit [DecidableEq α] in
/-- What is due when a timer fires stays due: its own item is added then. -/
theorem Added.due_expire {d : Delayed α} (s : (q.expire d.stamp).Added d.item q') (h : q.Timed c)
    (hd : d ∈ q.delayed) : q'.Due b ↔ q.Due b := by
  rw [s.due_iff]
  simp only [Due, h.mem_delayed_expire hd]
  constructor
  · rintro ((hb | ⟨e, ⟨he, _⟩, rfl⟩) | rfl)
    · exact Or.inl hb
    · exact Or.inr ⟨e, he, rfl⟩
    · exact Or.inr ⟨d, hd, rfl⟩
  · rintro (hb | ⟨e, he, rfl⟩)
    · exact Or.inl (Or.inl hb)
    · by_cases hed : e = d
      · exact Or.inr (congrArg Delayed.item hed)
      · exact Or.inl (Or.inr ⟨e, ⟨he, hed⟩, rfl⟩)

theorem due_fire (h : q.Sound c) {d : Delayed α} (hd : d ∈ q.delayed) :
    (q.fire d).Due b ↔ q.Due b :=
  (added_add (q := q.expire d.stamp) h.isOpen d.item).due_expire h.timed hd

theorem processing_fire (q : WorkQueue α) (d : Delayed α) :
    (q.fire d).processing = q.processing := processing_add _ _

/-! ## Handing out -/

/-- The item goes from the line into processing. -/
structure HandsOut (q : WorkQueue α) (a : α) (q' : WorkQueue α) : Prop where
  fresh : a ∉ q.processing
  due : q.Due a
  processing : ∀ b, b ∈ q'.processing ↔ b ∈ q.processing ∨ b = a
  rest : ∀ b, b ≠ a → (q'.Due b ↔ q.Due b)
  left : ∀ b, q'.Due b → q.Due b

theorem Takes.handsOut (s : q.Takes a q') (h : q.Places) : q.HandsOut a q' where
  fresh := s.fresh h
  due := Or.inl (h.noted a s.mem_waiting)
  processing := fun b => s.mem_processing
  rest := by
    intro b hb
    rw [Due, Due, s.dirty, s.delayed, List.mem_erase_of_ne hb]
  left := by
    intro b hb
    rw [Due, s.dirty, s.delayed] at hb
    exact hb.imp_left List.mem_of_mem_erase

theorem Takes.sound (s : q.Takes a q') (h : q.Sound c) : q'.Sound c :=
  sound_iff.mpr ⟨s.shuttingDown.trans h.isOpen, s.places h.places, h.timed.of_delayed s.delayed⟩

/-- A caller of an open queue goes away with an item or has changed nothing but the signal. -/
theorem Polled.cases {out : Handout α} (s : q.Polled out q') (h : q.Sound c) :
    (out = .nothing ∧ q.SameItems q') ∨
      ∃ a, out = .item a ∧ q.HandsOut a q' ∧ q'.Sound c := by
  cases s with
  | item s => exact Or.inr ⟨_, rfl, s.handsOut h.places, s.sound h⟩
  | closed hs _ _ =>
      rw [h.isOpen] at hs
      cases hs
  | nothing _ s => exact Or.inl ⟨rfl, s⟩

/-- A caller gets an item if one waits. -/
theorem takes_poll (hw : q.waiting ≠ []) (t : Ticket) :
    ∃ a, (q.poll t).1 = .item a ∧ q.Takes a (q.poll t).2 := by
  obtain ⟨a, rest, hline⟩ := List.exists_cons_of_ne_nil hw
  have hout : (q.poll t).1 = .item a := by simp [poll, enroll, check, hline]
  have hp := polled_poll q t
  rw [hout] at hp
  cases hp with
  | item h => exact ⟨a, hout, h⟩

theorem poll_cases (h : q.Sound c) (t : Ticket) :
    ((q.poll t).1 = .nothing ∧ q.SameItems (q.poll t).2) ∨
      ∃ a, (q.poll t).1 = .item a ∧ q.HandsOut a (q.poll t).2 ∧ (q.poll t).2.Sound c :=
  (polled_poll q t).cases h

theorem resume_cases (h : q.Sound c) (t : Ticket) :
    ((q.resume t).1 = .nothing ∧ q.SameItems (q.resume t).2) ∨
      ∃ a, (q.resume t).1 = .item a ∧ q.HandsOut a (q.resume t).2 ∧ (q.resume t).2.Sound c :=
  (polled_resume q t).cases h

/-! ## Finishing -/

theorem due_done (q : WorkQueue α) (a b : α) : (q.done a).Due b ↔ q.Due b := by
  rw [Due, Due, dirty_done, delayed_done]

theorem Sound.done (h : q.Sound c) (ha : a ∈ q.processing) : (q.done a).Sound c := by
  refine sound_iff.mpr ⟨?_, h.places.done ha, h.timed.of_delayed (delayed_done q a)⟩
  rw [shuttingDown_done]
  exact h.isOpen

/-! ## The limiter -/

theorem limiter_add (q : WorkQueue α) (a : α) : (q.add a).limiter = q.limiter := by
  have hoffer : (q.offer a).2.limiter = q.limiter := by
    unfold offer
    split
    · rfl
    · split <;> rfl
  unfold add
  generalize q.offer a = offered at hoffer ⊢
  obtain ⟨queued, q'⟩ := offered
  cases queued <;> exact hoffer

theorem limiter_addAll (q : WorkQueue α) (items : List α) :
    (q.addAll items).limiter = q.limiter := by
  induction items generalizing q with
  | nil => rfl
  | cons a rest ih => exact (ih (q.add a)).trans (limiter_add q a)

theorem limiter_addRateLimited (q : WorkQueue α) (a : α) (c : Clock) :
    (q.addRateLimited a c).1.limiter = (q.limiter.next a c.now).2 := by
  unfold addRateLimited addAfter
  simp only
  split
  · exact limiter_add _ a
  · split <;> rfl

theorem limiter_done (q : WorkQueue α) (a : α) : (q.done a).limiter = q.limiter := by
  unfold done
  simp only
  split <;> rfl

theorem limiter_poll (q : WorkQueue α) (t : Ticket) : (q.poll t).2.limiter = q.limiter := by
  have hcheck : ∀ q' : WorkQueue α, q'.check.2.limiter = q'.limiter := by
    intro q'
    unfold check
    split
    · rfl
    · split <;> rfl
  have h := hcheck (q.enroll t).2
  unfold poll
  simp only
  generalize (q.enroll t).2.check = checked at h ⊢
  obtain ⟨out, q'⟩ := checked
  cases out with
  | nothing =>
      simp only
      split <;> exact h
  | item | closed => exact h

theorem places_addRateLimited (h : q.Places) (a : α) (c : Clock) :
    (q.addRateLimited a c).1.Places := by
  cases deferred_addRateLimited q a c with
  | added _ _ s _ => exact s.places h
  | refused _ s _ => exact s.places h
  | timer _ s => exact s.places h

end StatusRelay.WorkQueue
