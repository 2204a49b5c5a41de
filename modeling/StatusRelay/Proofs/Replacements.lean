import StatusRelay.Proofs.Alone

/-!
# Objects that take the place of others

A watch may report another object where one was cached, with no word that the first is gone: the key
that is queued then is the live key, and a live key has no record cleared. So if the first object
was listed and the other one is not, the record stays until something else has it cleared. With one
worker nothing but this leaves a record where the cached object is listed by nobody.
-/
namespace StatusRelay

open Stage Ingest Note

/-- The move leaves an object that nobody lists where one was cached that is listed. -/
def Floor.Supplants (l : Lookups) (f : Floor) (m : Move) (kind : ResourceKind) (p : Coordinates) :
    Prop :=
  ∃ o o', f.agent.find kind p.1 p.2 = .present o ∧ f.agent.tracker.Lists o.uid ∧
    (f.move l m).agent.find kind p.1 p.2 = .present o' ∧
    ¬ (f.move l m).agent.tracker.Lists o'.uid

/-- This happened in the course of the moves, and the record was not cleared since. -/
def Floor.Supplanted (l : Lookups) (f : Floor) (moves : List Move) (kind : ResourceKind)
    (p : Coordinates) : Prop :=
  Since (fun f m => f.Supplants l m kind p) (fun n => ∀ id, n ≠ cleared id (recordOf kind p)) l f
    moves

variable {l : Lookups} {w : World l} {c c' : Crew} {m : Move} {f : Floor} {moves : List Move}
  {notes log : List Note} {kind : ResourceKind} {p : Coordinates}

/-- What is replaced is tracked still, or was supplanted. -/
theorem Crew.Replaced.tracked_or (hr : c.Replaced c' notes kind p) (hk : kind ≠ appliedWorkKind)
    (hmove : c.floor.move l m = c'.floor) :
    c'.Tracked kind p ∨ c.floor.Supplants l m kind p := by
  obtain ⟨_, ht, o, o', ho, hl, ho'⟩ := hr
  by_cases hl' : c'.agent.tracker.Lists o'.uid
  · exact Or.inl ⟨o', ho', hl'⟩
  · refine Or.inr ⟨o, o', (Agent.find_present_iff hk p o).mpr ho, hl, ?_, ?_⟩
    · rw [hmove]
      exact (Agent.find_present_iff hk p o').mpr ho'
    · rw [hmove]
      exact hl'

/-- What holds in every state of a run of one worker: what is at stake is accounted for, or its
object was supplanted. -/
structure Traced (w : World l) (start : Floor) (c : Crew) (past : List Move) : Prop where
  lone : Lone w c (start.log l past)
  recorded : Recorded c (start.log l past)
  traced : ∀ kind p, w.site kind p → c.Stakes (start.log l past) kind p →
    c.Accounted l kind p ∨ start.Supplanted l past kind p

namespace Traced

variable {start : Floor} {past : List Move}

theorem step (h : Traced w start c past) (hfloor : start.run l past = c.floor)
    (hm : w.Allows c.floor m) (s : Crew.Step l c m c' (c.floor.notes l m))
    (hmove : c.floor.move l m = c'.floor) : Traced w start c' (past ++ [m]) := by
  have hlog : start.log l (past ++ [m]) = start.log l past ++ c.floor.notes l m := by
    rw [Floor.log_concat, hfloor]
  refine ⟨hlog ▸ h.lone.step hm s, hlog ▸ h.recorded.step s, fun kind p hp hs => ?_⟩
  rw [hlog] at hs
  -- A record that was cleared just now is at stake no more.
  have hkept : ∀ n ∈ (start.run l past).notes l m, ∀ id, n ≠ cleared id (recordOf kind p) := by
    rw [hfloor]
    rintro _ hn id rfl
    exact World.Keeps.cleared_step s hn hs
  rcases h.lone.accounted_step hm s hp hs with ha | ⟨hs', hstill⟩
  · exact Or.inl ha
  · rcases h.traced kind p hp hs' with ha | hsupplanted
    · rcases hstill ha with ha | hreplaced
      · exact Or.inl ha
      · rcases hreplaced.tracked_or (w.notWork kind p hp) hmove with ht | hsupplants
        · exact Or.inl (Or.inl ht)
        · exact Or.inr (Floor.Since.now (hfloor.symm ▸ hsupplants) hkept)
    · exact Or.inr (hsupplanted.concat hkept)

theorem of_run (w : World l) (cluster : String) (timeout : Duration)
    (limiter : Limiter ObjectKey) (manifestWorks : Table RecordKey ManifestWork)
    (moves : List Move)
    (hm : Floor.Along w.Allows l
      (.start (.fresh cluster timeout limiter manifestWorks) 1) moves) :
    ∃ c, (Floor.start (.fresh cluster timeout limiter manifestWorks) 1).run l moves = c.floor ∧
      Traced w (.start (.fresh cluster timeout limiter manifestWorks) 1) c moves := by
  refine Crew.run_past (fun c past h => ⟨h.lone.keeps.sound.queue, h.lone.keeps.sound.registry⟩)
    (fun past m c c' hfloor h hm s hmove => h.step hfloor hm s hmove) moves ?_ hm
  refine ⟨Lone.start .., recorded_start _ _ _ _ _, fun kind p _ hs => ?_⟩
  rcases hs with ⟨hr, _⟩ | ⟨id, key, stage, hb, _⟩
  · cases hr
  · exact absurd hb Crew.not_busy_start

/-- A record that is there, with nothing left to do, and not for what is cached, is left over. -/
theorem supplanted (h : Traced w start c past) (hp : w.site kind p)
    (hq : c.agent.queue.Idle) (hlater : ¬ c.agent.queue.Scheduled (liveKey kind p).intoDeleted)
    (hr : c.agent.Records (recordOf kind p)) (hno : ¬ c.Tracked kind p) :
    start.Supplanted l past kind p := by
  have hfree : ∀ id key stage, ¬ c.Busy id key stage := h.lone.keeps.sound.not_busy hq
  rcases h.traced kind p hp (Or.inl ⟨hr, h.lone.timely _⟩) with
    (ht | (hdue | ⟨id, key, stage, _, _, hb, _⟩) | ⟨id, stage, hb, _⟩) | hs
  · exact absurd ht hno
  · exact absurd hdue (h.lone.keeps.sound.queue.not_due hq hlater)
  · exact absurd hb (hfree id key stage)
  · exact absurd hb (hfree id _ stage)
  · exact hs

end Traced

/-- With one worker and any events and failures: when no key waits or is being processed, and the
deletion key of a cached object that nobody lists is not to be tried again, then the object's record
is there exactly if it was made and not cleared, and the object, or one that was here before it,
took the place of a listed one since the record was cleared last. -/
theorem record_left_iff_supplanted (w : World l) (cluster : String) (timeout : Duration)
    (limiter : Limiter ObjectKey) (manifestWorks : Table RecordKey ManifestWork)
    (moves : List Move) (kind : ResourceKind) (o : Object)
    (hm : Floor.Along w.Allows l
      (.start (.fresh cluster timeout limiter manifestWorks) 1) moves)
    (hk : kind ≠ appliedWorkKind) :
    let start := Floor.start (.fresh cluster timeout limiter manifestWorks) 1
    let a := (start.run l moves).agent
    a.queue.Idle → ¬ a.queue.Scheduled (liveKey kind o.coordinates).intoDeleted →
    a.find kind o.ns o.name = .present o → ¬ a.tracker.Lists o.uid →
    (a.Records (recordOf kind o.coordinates) ↔
      latest (made (recordOf kind o.coordinates)) (start.log l moves) = some true ∧
        start.Supplanted l moves kind o.coordinates) := by
  intro start a hidle hlater hfind hunlisted
  obtain ⟨c, hrun, h⟩ := Traced.of_run w cluster timeout limiter manifestWorks moves hm
  have ha : a = c.agent := congrArg Floor.agent hrun
  rw [ha] at hidle hlater hfind hunlisted ⊢
  have ho := (Agent.find_present_iff hk o.coordinates o).mp hfind
  have hp : w.site kind o.coordinates := by
    obtain ⟨i, hi, hat⟩ := ho
    exact ((h.lone.keeps.sees kind i hi).owns.of_lookup? hat).1
  constructor
  · intro hr
    refine ⟨(h.recorded _).mp hr, h.supplanted hp hidle hlater hr ?_⟩
    rintro ⟨o', ho', hl⟩
    rw [ho'.unique ho] at hl
    exact hunlisted hl
  · exact fun hmade => (h.recorded _).mpr hmade.1

namespace Widgets

/-- Another widget under the name of the first one. -/
def reborn : Object where
  metadata :=
    { name := some "w", ns := some "default", uid := some "u2", resourceVersion := some "2" }

theorem owns_reborn : world.Owns resource.resourceKind reborn := by
  refine ⟨⟨rfl, rfl⟩, fun e r he hu _ => ?_⟩
  subst he
  exact absurd hu (by decide)

/-- The widget is deleted before another one comes. -/
def buried : List Move :=
  [.work (.apply (work "a"))] ++ turns 0 10 ++ [.object resource.resourceKind (.apply widget)] ++
  turns 0 9 ++ [.object resource.resourceKind (.delete widget)] ++ turns 0 8 ++
  [.object resource.resourceKind (.apply reborn)] ++ turns 0 8

/-- A list has another widget where the first one was. -/
def usurped : List Move :=
  [.work (.apply (work "a"))] ++ turns 0 10 ++ [.object resource.resourceKind (.apply widget)] ++
  turns 0 9 ++ [.object resource.resourceKind .init,
    .object resource.resourceKind (.initApply reborn), .object resource.resourceKind .initDone] ++
  turns 0 8

theorem brings_object {e : WatchEvent} (he : ∀ o, e.object? = some o → o = widget ∨ o = reborn) :
    world.Brings (.object resource.resourceKind e) := by
  intro o ho
  rcases he o ho with rfl | rfl
  · exact ⟨scoped_widget, owns_widget⟩
  · exact ⟨⟨⟨"w", by decide, rfl⟩, "default", by decide, rfl⟩, owns_reborn⟩

theorem allows_buried : Floor.Along world.Allows lookups (.start managed 1) buried := by
  refine World.along_of_inPlace ?_ (by decide +kernel)
  simp only [buried, List.forall_mem_append, List.forall_mem_singleton]
  refine ⟨⟨⟨⟨⟨⟨⟨brings_work (by decide) rfl, brings_turns 0 10⟩, brings_object ?_⟩,
    brings_turns 0 9⟩, brings_object ?_⟩, brings_turns 0 8⟩, brings_object ?_⟩, brings_turns 0 8⟩
  · rintro _ ⟨⟩
    exact Or.inl rfl
  · rintro _ ⟨⟩
    exact Or.inl rfl
  · rintro _ ⟨⟩
    exact Or.inr rfl

theorem allows_usurped : Floor.Along world.Allows lookups (.start managed 1) usurped := by
  refine World.along_of_inPlace ?_ (by decide +kernel)
  simp only [usurped, List.forall_mem_append, List.forall_mem_singleton, List.forall_mem_cons]
  refine ⟨⟨⟨⟨⟨brings_work (by decide) rfl, brings_turns 0 10⟩, brings_object ?_⟩,
    brings_turns 0 9⟩, brings_object ?_, brings_object ?_, brings_object ?_⟩,
    brings_turns 0 8⟩
  · rintro _ ⟨⟩
    exact Or.inl rfl
  · rintro _ ⟨⟩
  · rintro _ ⟨⟩
    exact Or.inr rfl
  · rintro _ ⟨⟩

/-- The record of the first widget went with it. -/
theorem record_gone_buried :
    Floor.Along world.Allows lookups (.start managed 1) buried ∧
      ((Floor.start managed 1).run lookups buried).agent.queue.Quiet ∧
      ∃ o, ((Floor.start managed 1).run lookups buried).agent.find resource.resourceKind o.ns
          o.name = .present o ∧
        ¬ ((Floor.start managed 1).run lookups buried).agent.tracker.Lists o.uid ∧
        ¬ ((Floor.start managed 1).run lookups buried).agent.Records
          (recordOf resource.resourceKind o.coordinates) := by
  have hallowed := allows_buried
  have hquiet : ((Floor.start managed 1).run lookups buried).agent.queue.Quiet := by
    unfold WorkQueue.Quiet
    decide +kernel
  obtain ⟨o, hfind, hcoords, huid⟩ := find_of_shown "u2"
    (a := ((Floor.start managed 1).run lookups buried).agent) (by decide +kernel)
  have hunlisted : ¬ ((Floor.start managed 1).run lookups buried).agent.tracker.Lists o.uid := by
    rw [huid]
    exact Tracker.not_lists_of_entries (by decide +kernel)
  have hmade : latest (made (recordOf resource.resourceKind ("default", "w")))
      ((Floor.start managed 1).log lookups buried) = some false := by
    decide +kernel
  refine ⟨hallowed, hquiet, o, hfind, hunlisted, ?_⟩
  rw [managed_eq] at hallowed hquiet hfind hunlisted hmade ⊢
  rw [record_left_iff_supplanted world "cluster1" (.ofSeconds 5)
    (.exponential (.ofMillis 5) (.ofSeconds 1000) {}) managedWorks buried
    resource.resourceKind o hallowed (by decide) hquiet.idle (hquiet.not_scheduled _) hfind
    hunlisted, hcoords]
  rintro ⟨htrue, _⟩
  cases hmade.symm.trans htrue

/-- The record of the first widget stays, though nobody lists the widget that is there now. -/
theorem record_left_usurped :
    Floor.Along world.Allows lookups (.start managed 1) usurped ∧
      ((Floor.start managed 1).run lookups usurped).agent.queue.Quiet ∧
      ∃ o, ((Floor.start managed 1).run lookups usurped).agent.find resource.resourceKind o.ns
          o.name = .present o ∧
        ¬ ((Floor.start managed 1).run lookups usurped).agent.tracker.Lists o.uid ∧
        ((Floor.start managed 1).run lookups usurped).agent.Records
          (recordOf resource.resourceKind o.coordinates) := by
  obtain ⟨o, hfind, hcoords, huid⟩ := find_of_shown "u2"
    (a := ((Floor.start managed 1).run lookups usurped).agent) (by decide +kernel)
  refine ⟨allows_usurped, ?_, o, hfind, ?_, ?_⟩
  · unfold WorkQueue.Quiet
    decide +kernel
  · rw [huid]
    exact Tracker.not_lists_of_entries (by decide +kernel)
  · rw [hcoords]
    unfold Agent.Records
    decide +kernel

end Widgets
end StatusRelay
