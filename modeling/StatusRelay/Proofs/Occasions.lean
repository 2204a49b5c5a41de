import StatusRelay.Proofs.Separation
import Mathlib.Data.List.Induction

/-!
# Lookups that change from move to move

What lookups of API resources find may differ from one moment to the next. An `Occasion` is a move
together with what lookups find when it is made, and `follow` makes the moves of a whole history.
`Crew.follow` carries what every step keeps through all histories, and tells it with the occasions
so far, so that an invariant can say what happened when.
-/
namespace StatusRelay

structure Occasion where
  lookups : Lookups
  move : Move

namespace Floor

def occur (f : Floor) (o : Occasion) : Floor := f.move o.lookups o.move

def follow : Floor → List Occasion → Floor := List.foldl occur

@[simp] theorem follow_nil (f : Floor) : f.follow [] = f := rfl

theorem follow_concat (f : Floor) (past : List Occasion) (o : Occasion) :
    f.follow (past ++ [o]) = (f.follow past).occur o := List.foldl_concat ..

/-- With lookups that do not change a history is a run. -/
theorem follow_steady (l : Lookups) (f : Floor) (moves : List Move) :
    f.follow (moves.map (⟨l, ·⟩)) = f.run l moves := by
  induction moves generalizing f with
  | nil => rfl
  | cons m rest ih => exact ih (f.move l m)

end Floor

namespace Crew

/-- What holds at the start and is kept by steps holds after every history. -/
theorem follow {a : Agent} {workers : Nat} {history : List Occasion}
    {I : Crew → List Occasion → Prop} (hstart : I (.start a workers) [])
    (hsound : ∀ c past, I c past → c.agent.queue.Sound c.agent.clock ∧ c.agent.registry.Sound)
    (hstep : ∀ past o c c', (past ++ [o]) <+: history →
      c.floor = (Floor.start a workers).follow past → I c past →
      Step o.lookups c o.move c' (c.floor.notes o.lookups o.move) →
      c'.floor = (Floor.start a workers).follow (past ++ [o]) → I c' (past ++ [o])) :
    ∃ c, (Floor.start a workers).follow history = c.floor ∧ I c history := by
  induction history using List.reverseRecOn with
  | nil => exact ⟨_, (floor_start a workers).symm, hstart⟩
  | append_singleton past o ih =>
      obtain ⟨c, hfloor, hI⟩ := ih fun p q c c' hp =>
        hstep p q c c' (hp.trans (List.prefix_append past [o]))
      obtain ⟨hq, hr⟩ := hsound c past hI
      obtain ⟨c', hmove, hs⟩ := step_move (l := o.lookups) hq hr o.move
      have hfloor' : (Floor.start a workers).follow (past ++ [o]) = c'.floor := by
        rw [Floor.follow_concat, hfloor]
        exact hmove
      exact ⟨c', hfloor', hstep past o c c' (List.prefix_refl _) hfloor.symm hI hs hfloor'.symm⟩

end Crew

namespace Widgets

/-- A history in which every lookup finds widgets. -/
def history (moves : List Move) : List Occasion := moves.map (⟨lookups, ·⟩)

end Widgets
end StatusRelay
