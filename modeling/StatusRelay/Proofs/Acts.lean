import StatusRelay.Proofs.Floor

/-!
# Sessions whose parts act in any order

What can happen to a session with one run is that its workers move, that one of them notices that
it is to stop, that the run has its own turn, that it is told to stop, and what others do. `act`
makes one of these happen, whoever may be in line, so all interleavings are among the lists of acts.
What the session itself does when it grants turns and lets time pass is one such list: only the line
itself, which says whose turn is next, has no part in it.
-/
namespace StatusRelay

/-- What can happen to a session with one run. -/
inductive Act where
  /-- A move of the floor. What lookups find may change from one to the next. -/
  | floor (l : Lookups) (m : Move)
  /-- A worker notices that it is to stop, wherever it is. -/
  | dismiss (id : WorkerId)
  /-- The run's own turn. -/
  | control
  /-- The run is told to stop. -/
  | stop
  /-- A timer of the queue goes off. -/
  | fire (d : Delayed ObjectKey)
  /-- The stream of the deployment records' events ends. -/
  | drop
  /-- Others change what is on the hub. -/
  | hub (hub : Hub)

namespace Session

def withFloor (r : Session) (f : Floor) : Session :=
  { r with agent := f.agent, workers := f.workers }

/-- A worker stops wherever it is, if it is told to. -/
def quit (r : Session) (id : WorkerId) : Session :=
  match r.workers[id]? with
  | some w =>
      if r.stopping then (r.withAgent (r.agent.dismiss id w)).setWorker id .stopped else r
  | none => r

def act (r : Session) : Act → Session
  | .floor l m => r.withFloor (r.floor.move l m)
  | .dismiss id => r.quit id
  | .control => r.turn (.controller 0)
  | .stop => r.stop
  | .fire d => r.withAgent { r.agent with queue := r.agent.queue.fire d }
  | .drop => r.dropWorks
  | .hub hub => r.withAgent { r.agent with hub := hub }

def acts : Session → List Act → Session := List.foldl act

theorem acts_append (r : Session) (first rest : List Act) :
    r.acts (first ++ rest) = (r.acts first).acts rest := List.foldl_append

/-- The session without its line. -/
def unlined (r : Session) : Session := { r with line := [] }

/-- Sessions that differ in their lines only. -/
theorem unlined_eq_iff {r r' : Session} : r.unlined = r'.unlined ↔ r.agent = r'.agent ∧
    r.workers = r'.workers ∧ r.controllers = r'.controllers ∧ r.stopping = r'.stopping := by
  simp only [unlined, Session.mk.injEq, and_true]

theorem unlined_enqueueTurns (r : Session) (ids : List WorkerId) :
    (ids.foldl (fun r id => r.enqueueTurn (.worker id)) r).unlined = r.unlined := by
  induction ids generalizing r with
  | nil => rfl
  | cons id rest ih =>
      rw [List.foldl_cons, ih]
      unfold enqueueTurn
      split <;> rfl

theorem unlined_collectWoken (r : Session) : r.collectWoken.unlined = r.unlined :=
  unlined_enqueueTurns r _

theorem unlined_startServing (r : Session) (n : Nat) (c : Controller) :
    (r.startServing n c).unlined = ({ r with
      workers := r.workers ++ List.replicate c.config.workers Worker.asking
      controllers := r.controllers.set n { c with
        phase := .serving
        workers := (List.range c.config.workers).map (r.workers.length + ·) } } :
      Session).unlined :=
  unlined_enqueueTurns _ _

theorem unlined_startDraining (r : Session) (n : Nat) (c : Controller) :
    (r.startDraining n c).unlined = ({ r with
      agent := { r.agent with queue := r.agent.queue.shutDown }
      controllers := r.controllers.set n { c with phase := .draining } } : Session).unlined :=
  unlined_enqueueTurns _ _

/-! ## The line has no part in what happens -/

variable {r r' : Session}

theorem controllerTurn_congr (h : r.unlined = r'.unlined) (n : Nat) (c : Controller) :
    (r.controllerTurn n c).unlined = (r'.controllerTurn n c).unlined := by
  obtain ⟨ha, hw, hc, hs⟩ := unlined_eq_iff.mp h
  have hnow : r.now = r'.now := congrArg (fun a => a.clock.now) ha
  have hall : r.allStopped c.workers = r'.allStopped c.workers := by rw [allStopped, allStopped, hw]
  unfold controllerTurn
  cases c.phase with
  | syncing deadline =>
      simp only [ha, hnow]
      split
      · rw [unlined_startServing, unlined_startServing]
        simp only [unlined, ha, hw, hc, hs]
      · split
        · simp only [unlined, setController, ha, hw, hc, hs]
        · split
          · simp only [unlined, setController, stopWorks, ha, hw, hc, hs]
          · exact h
  | serving =>
      simp only [hs]
      split
      · rw [unlined_startDraining, unlined_startDraining]
        simp only [unlined, ha, hw, hc, hs]
      · exact h
  | draining =>
      simp only [hall]
      split
      · simp only [unlined, finish, setController, stopWorks, ha, hw, hc, hs]
      · exact h
  | ended => exact h

theorem act_congr (h : r.unlined = r'.unlined) (x : Act) :
    (r.act x).unlined = (r'.act x).unlined := by
  obtain ⟨ha, hw, hc, hs⟩ := unlined_eq_iff.mp h
  cases x with
  | floor l m => simp only [act, floor, withFloor, unlined, ha, hw, hc, hs]
  | dismiss id =>
      simp only [act, quit, hw, hs]
      split
      · split
        · simp only [withAgent, setWorker, unlined, ha, hw, hc, hs]
        · exact h
      · exact h
  | control =>
      simp only [act, turn, hc]
      split
      · exact controllerTurn_congr h 0 _
      · exact h
  | stop => simp only [act, Session.stop, unlined, ha, hw, hc]
  | fire | hub => simp only [act, withAgent, unlined, ha, hw, hc, hs]
  | drop => simp only [act, dropWorks, unlined, ha, hw, hc, hs]

theorem acts_congr (h : r.unlined = r'.unlined) (xs : List Act) :
    (r.acts xs).unlined = (r'.acts xs).unlined := by
  induction xs generalizing r r' with
  | nil => exact h
  | cons x rest ih => exact ih (act_congr h x)

/-- Some list of acts leads from one session to another, but for the line. -/
def Reaches (r r' : Session) : Prop := ∃ xs, r'.unlined = (r.acts xs).unlined

theorem Reaches.refl (r : Session) : r.Reaches r := ⟨[], rfl⟩

theorem Reaches.trans {r'' : Session} (h : r.Reaches r') (h' : r'.Reaches r'') :
    r.Reaches r'' := by
  obtain ⟨xs, hxs⟩ := h
  obtain ⟨ys, hys⟩ := h'
  refine ⟨xs ++ ys, ?_⟩
  rw [acts_append, hys]
  exact acts_congr hxs ys

theorem reaches_act (r : Session) (x : Act) : r.Reaches (r.act x) := ⟨[x], rfl⟩

/-! ## The session's own turns -/

/-- Sessions of one run at most. -/
def Single (r : Session) : Prop := r.controllers.length ≤ 1

theorem Single.of_unlined (h : r.Single) (hu : r'.unlined.controllers.length =
    r.controllers.length) : r'.Single := le_of_eq_of_le hu h

theorem Single.controllerTurn (h : r.Single) (n : Nat) (c : Controller) :
    (r.controllerTurn n c).Single := by
  unfold Session.controllerTurn
  cases c.phase with
  | syncing deadline =>
      dsimp only
      split
      · refine h.of_unlined ?_
        rw [unlined_startServing]
        exact List.length_set
      · split
        · exact h.of_unlined List.length_set
        · split
          · exact h.of_unlined List.length_set
          · exact h
  | serving =>
      dsimp only
      split
      · refine h.of_unlined ?_
        rw [unlined_startDraining]
        exact List.length_set
      · exact h
  | draining =>
      dsimp only
      split
      · exact h.of_unlined List.length_set
      · exact h
  | ended => exact h

theorem Single.act (h : r.Single) (x : Act) : (r.act x).Single := by
  cases x with
  | dismiss id =>
      simp only [Session.act, quit]
      split
      · split <;> exact h
      · exact h
  | control =>
      simp only [Session.act, turn]
      split
      · exact h.controllerTurn 0 _
      · exact h
  | floor | stop | fire | drop | hub => exact h

theorem Single.reached (h : r.Single) (hr : r.Reaches r') : r'.Single := by
  obtain ⟨xs, hxs⟩ := hr
  have hacts : (r.acts xs).Single := by
    clear hxs
    induction xs generalizing r with
    | nil => exact h
    | cons x rest ih => exact ih (h.act x)
  refine hacts.of_unlined ?_
  rw [hxs]
  rfl

/-- A worker's turn is one step of it, or it stops. -/
theorem reaches_worker (r : Session) (id : WorkerId) : r.Reaches (r.turn (.worker id)) := by
  cases hw : r.workers[id]? with
  | none =>
      simp only [turn, hw]
      exact .refl r
  | some w =>
      cases hn : r.noticesStop w with
      | true =>
          have hstop : r.stopping = true := by
            unfold noticesStop at hn
            cases w <;> first | exact hn | cases hn
          refine ⟨[.dismiss id], ?_⟩
          simp only [turn, acts, List.foldl_cons, List.foldl_nil, act, quit, hw, workerTurn, hn,
            hstop, if_true]
          exact unlined_collectWoken _
      | false =>
          refine ⟨[.floor r.agent.lookups (.turn id)], ?_⟩
          simp only [turn, acts, List.foldl_cons, List.foldl_nil, act, hw, workerTurn, hn,
            Floor.move, Floor.turn, floor, Agent.stepFrom_lookups, Bool.false_eq_true, if_false]
          have hc := unlined_collectWoken
            ((r.withAgent (r.agent.step id w).2).setWorker id (r.agent.step id w).1)
          split <;> exact hc

/-- Whoever has a turn acts. -/
theorem Single.turn (h : r.Single) (t : Turn) : r.Reaches (r.turn t) := by
  cases t with
  | worker id => exact reaches_worker r id
  | controller n =>
      cases n with
      | zero => exact reaches_act r .control
      | succ n =>
          have hnone : r.controllers[n + 1]? = none :=
            List.getElem?_eq_none (Nat.le_trans h (Nat.le_add_left 1 n))
          simp only [Session.turn, hnone]
          exact .refl r
  | fire d => exact ⟨[.fire d], unlined_collectWoken _⟩

/-- The turns that a session grants. -/
theorem Single.settle (h : r.Single) (fuel : Nat) : r.Reaches (r.settle fuel) := by
  induction fuel generalizing r with
  | zero => exact .refl r
  | succ fuel ih =>
      have hgrant : ∀ (t : Turn) (rest : List Turn),
          r.Reaches (Session.settle fuel (({ r with line := rest } : Session).turn t)) := by
        intro t rest
        let s : Session := { r with line := rest }
        have hs : r.Reaches s := ⟨[], rfl⟩
        have hturn : r.Reaches (s.turn t) := hs.trans (Single.turn (r := s) h t)
        exact hturn.trans (ih (h.reached hturn))
      rw [Session.settle]
      split
      · exact hgrant _ _
      · dsimp only
        split
        · exact ⟨[], rfl⟩
        · exact hgrant _ _

theorem reaches_setTime (r : Session) (time : Nat) : r.Reaches (r.setTime time) :=
  reaches_act r (.floor r.agent.lookups (.pass time))

/-- What a session does until some time. -/
theorem Single.runUntil (h : r.Single) (turns time fuel : Nat) :
    r.Reaches (r.runUntil turns time fuel) := by
  induction fuel generalizing r with
  | zero => exact reaches_setTime r time
  | succ fuel ih =>
      have hsettled := h.settle turns
      rw [Session.runUntil]
      split
      · rename_i due _
        split
        · have hdue := hsettled.trans (reaches_setTime _ due)
          exact hdue.trans (ih (h.reached hdue))
        · exact hsettled.trans (reaches_setTime _ time)
      · exact hsettled.trans (reaches_setTime _ time)

end Session
end StatusRelay
