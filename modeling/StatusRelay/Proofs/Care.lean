import StatusRelay.Proofs.Alone

/-!
# Keys that see to things

Whatever is to be kept right has a key. Either the key is coming, or the worker has it in hand and
is seeing to the thing, or all is right already and the worker does no harm to it. `Tends.turn`
carries this through the turns of a lone worker, once it is known what the answers to its requests
do.
-/
namespace StatusRelay

open Stage Ingest

structure Care where
  key : ObjectKey
  /-- The keys whose processing touches the thing. -/
  mine : ObjectKey → Prop
  /-- With `key` in hand, the worker is going to set it right or to try again. -/
  mends : Stage → Prop
  /-- With one of those keys in hand, the worker leaves it right. -/
  spares : Stage → Prop
  right : Prop

namespace Care

/-- Every key starts well, and nobody gives up before all is right. -/
structure Lawful (care : Care) : Prop where
  begins : care.mends (first care.key)
  harmless : ∀ key, care.mine key → care.spares (first key)
  retries : ∀ stage result, care.mends stage → stage.result? = some result →
    Agent.retries result = true

/-- What the answer to a request has to do. -/
structure Passes (care care' : Care) (key : ObjectKey) (st st' : Stage) : Prop where
  same : care'.key = care.key
  mends : key = care.key → care.mends st → care'.mends st' ∨
    care'.right ∧ (care'.mine key → care'.spares st')
  right : care.right → (care.mine key → care.spares st) →
    care'.right ∧ (care'.mine key → care'.spares st')

end Care

variable {l : Lookups} {w : World l} {c : Crew} {a' : Agent} {id : WorkerId} {x x' : Hand}
  {notes : List Note} {care care' : Care}

/-- Somebody sees to it, or it is right. -/
def Crew.Tends (l : Lookups) (c : Crew) (care : Care) : Prop :=
  c.Coming l care.key ∨ (∃ id stage, c.Busy id care.key stage ∧ care.mends stage) ∨
    care.right ∧ ∀ id key stage, c.Busy id key stage → care.mine key → care.spares stage

namespace Crew

theorem Tends.mends (hx : c.hands[id]? = some x) {p : Option PendingCall} {key : ObjectKey}
    {stage : Stage} (hp : x' = .busy key stage p) (hkey : key = care.key)
    (hm : care.mends stage) : (⟨a', c.hands.set id x'⟩ : Crew).Tends l care := by
  subst hkey hp
  exact Or.inr (Or.inl ⟨id, stage, busy_set_self hx, hm⟩)

theorem Tends.right (hsingle : c.hands.length = 1) (hx : c.hands[id]? = some x)
    (hr : care.right)
    (hspares : ∀ key stage p, x' = .busy key stage p → care.mine key → care.spares stage) :
    (⟨a', c.hands.set id x'⟩ : Crew).Tends l care := by
  refine Or.inr (Or.inr ⟨hr, fun j key stage hb hmine => ?_⟩)
  obtain ⟨_, p, hp⟩ := busy_set_alone hsingle hx hb
  exact hspares key stage p hp hmine

/-- A thing that is seen to is seen to after a turn, if answers pass it on and everything else
leaves it. -/
theorem Tends.turn (h : c.Tends l care) (hs : c.Sound) (hb : w.toListing.Binds c)
    (hsingle : c.hands.length = 1) (hx : c.hands[id]? = some x)
    (t : Turned l c.agent id x x' a' notes) (hl : care.Lawful) (hl' : care'.Lawful)
    (hother : ∀ queue clock, a' = { c.agent with queue := queue, clock := clock } → care' = care)
    (hans : ∀ key st st' p, x = .busy key st p → Answered l c.agent id key st st' a' notes →
      care.Passes care' key st st') : (⟨a', c.hands.set id x'⟩ : Crew).Tends l care' := by
  have hkey : care'.key = care.key := by
    rcases t.answered with ⟨_, queue, clock, he⟩ | ⟨key, st, st', p, hh, _, ha⟩
    · rw [hother queue clock he]
    · exact (hans key st st' p hh ha).same
  rcases h with hcoming | ⟨j, stage, ⟨p, hp⟩, hm⟩ | ⟨hr, hspares⟩
  · rcases hcoming.turn hs hb hx t with hcoming | hbusy
    · exact Or.inl (hkey ▸ hcoming)
    · exact Or.inr (Or.inl ⟨id, _, hkey ▸ hbusy, hkey ▸ hl'.begins⟩)
  · -- The one worker has the key in hand.
    obtain ⟨rfl, rfl⟩ := Alone.eq_hand hsingle hx hp
    cases t with
    | waits hh | takes _ hh => rcases hh with hh | hh <;> cases hh
    | begins =>
        obtain rfl := hother _ _ rfl
        exact Tends.mends hx rfl rfl hm
    | answers _ ha =>
        have hpass := hans _ _ _ _ rfl ha
        rcases hpass.mends rfl hm with hm' | ⟨hr', hspares'⟩
        · exact Tends.mends hx rfl hpass.same.symm hm'
        · refine Tends.right hsingle hx hr' ?_
          intro _ _ _ he
          cases he
          exact hspares'
    | settles _ hres =>
        refine Or.inl (Or.inl ((Agent.due_settle hs.queue).mpr (Or.inr ⟨?_, hkey⟩)))
        exact hl.retries _ _ hm hres
  · -- All is right, and only an answer could make it wrong.
    rcases t.answered with ⟨_, queue, clock, he⟩ | ⟨key, st, st', p, rfl, rfl, ha⟩
    · rw [hother queue clock he] at hans ⊢
      refine Tends.right hsingle hx hr
        (t.stage_of (P := fun key st => care.mine key → care.spares st)
          (fun key _ => hl.harmless key) ?_ ?_)
      · rintro key st p rfl
        exact hspares id key st ⟨p, hx⟩
      · rintro key st st' p rfl ha
        exact ((hans key st st' p rfl ha).right hr (hspares id key st ⟨p, hx⟩)).2
    · obtain ⟨hr', hspares'⟩ := (hans key st st' p rfl ha).right hr (hspares id key st ⟨p, hx⟩)
      refine Tends.right hsingle hx hr' ?_
      rintro _ _ _ ⟨⟩
      exact hspares'

/-- What concerns neither the hands nor the thing leaves it seen to. -/
theorem Tends.still {c' : Crew} (h : c.Tends l care) (hh : c'.hands = c.hands)
    (hd : c.agent.queue.Due care.key → c'.agent.queue.Due care.key) : c'.Tends l care := by
  have hbusy : ∀ id key stage, c'.Busy id key stage ↔ c.Busy id key stage := by
    intro id key stage
    rw [Busy, Busy, hh]
  rcases h with (hdue | ⟨id, k, stage, d, r, hb, hd'⟩) | ⟨id, stage, hb, hm⟩ | ⟨hr, hspares⟩
  · exact Or.inl (Or.inl (hd hdue))
  · exact Or.inl (Or.inr ⟨id, k, stage, d, r, (hbusy id k stage).mpr hb, hd'⟩)
  · exact Or.inr (Or.inl ⟨id, stage, (hbusy id _ stage).mpr hb, hm⟩)
  · exact Or.inr (Or.inr ⟨hr, fun id key stage hb => hspares id key stage ((hbusy ..).mp hb)⟩)

/-- When nobody is about to see to a thing, it is right. -/
theorem Tends.right_of_idle (h : c.Tends l care) (hs : c.Sound) (hq : c.agent.queue.Idle)
    (hk : ¬ c.agent.queue.Scheduled care.key) : care.right := by
  rcases h with (hd | ⟨id, _, stage, _, _, hb, _⟩) | ⟨id, stage, hb, _⟩ | ⟨hr, _⟩
  · exact absurd hd (hs.queue.not_due hq hk)
  · exact absurd hb (hs.not_busy hq id _ stage)
  · exact absurd hb (hs.not_busy hq id _ stage)
  · exact hr

theorem Tends.right_of_quiet (h : c.Tends l care) (hs : c.Sound) (hq : c.agent.queue.Quiet) :
    care.right :=
  h.right_of_idle hs hq.idle (hq.not_scheduled _)

end Crew
end StatusRelay
