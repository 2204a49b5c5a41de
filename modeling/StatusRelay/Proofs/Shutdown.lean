import StatusRelay.Proofs.Acts
import StatusRelay.Proofs.Occasions
import StatusRelay.Proofs.WatchHistory

/-!
# Shutting down

A run waits for the list of deployment records, starts its workers, and when it is told to stop
closes the queue, waits until every worker has stopped and only then stops the watches. Meanwhile
the workers go on: each may take any number of turns before it notices, and then gives up its key
wherever it is. `Session.act` allows all these orders. Nothing is assumed of the queue, so the
lemmas on workers here are about turns that the ones on crews, whose queue is open, leave out.
-/
namespace StatusRelay

namespace WorkQueue

variable {α : Type} [DecidableEq α]

/-- What becomes of the items in process when a worker goes on: nothing, or it takes one, or it
gives back the one that it has. -/
inductive Booked (q q' : WorkQueue α) : Option α → Option α → Prop
  | keeps (item : Option α) (h : q'.processing = q.processing) : Booked q q' item item
  | takes (a : α) (h : q'.processing = q.processing.insert a) : Booked q q' none (some a)
  | returns (a : α) (h : q'.processing = q.processing.erase a) : Booked q q' (some a) none

end WorkQueue

/-! ## What a worker's turn keeps -/

/-- What holds of every turn of a worker, also when the queue is closed. -/
structure Worked (a a' : Agent) (w w' : Worker) : Prop where
  booked : a.queue.Booked a'.queue w.key? w'.key?
  shuttingDown : a'.queue.shuttingDown = a.queue.shuttingDown
  works : a'.works = a.works
  registry : a.registry.Sound → a'.registry.Sound

variable {a a' : Agent} {w w' : Worker} {key : ObjectKey} {id : WorkerId} {l : Lookups}

namespace Worked

/-- A turn that changes neither the queue nor the registry. -/
theorem of_same (hq : a'.queue = a.queue) (hw : a'.works = a.works)
    (hr : a'.registry = a.registry) (hk : w'.key? = w.key?) : Worked a a' w w' where
  booked := by
    rw [hk]
    exact .keeps _ (congrArg WorkQueue.processing hq)
  shuttingDown := congrArg WorkQueue.shuttingDown hq
  works := hw
  registry := by
    intro h
    rw [hr]
    exact h

/-- A worker that asks the queue. -/
theorem taken (hk : w.key? = none) {out : Handout ObjectKey} {q : WorkQueue ObjectKey}
    (h : a.queue.Polled out q) : Worked a { a with queue := q } w (a.taken out) := by
  cases h with
  | @item key q h =>
      refine ⟨?_, h.shuttingDown, rfl, id⟩
      rw [hk]
      exact .takes key h.processing
  | closed _ _ s | nothing _ s =>
      refine ⟨?_, s.shuttingDown, rfl, id⟩
      rw [hk]
      exact .keeps none s.processing

theorem settle (a : Agent) (key : ObjectKey) (result : Except AgentError Outcome)
    (rest : Reconcile) : Worked a (a.settle key result) (.working key rest) .asking := by
  obtain ⟨queue, clock, he⟩ := Agent.settle_frame a key result
  have hshut : (a.settle key result).queue.shuttingDown = a.queue.shuttingDown := by
    rw [Agent.settle_eq]
    split
    · simp only [WorkQueue.shuttingDown_done, WorkQueue.shuttingDown_addRateLimited]
    · simp only [WorkQueue.shuttingDown_done, (WorkQueue.sameItems_forget a.queue key).shuttingDown]
  refine ⟨.returns key Agent.processing_settle, hshut, ?_, ?_⟩
  · rw [he]
  · intro h
    rw [he]
    exact h

theorem perform (a : Agent) (c : HubCall) (hk : w'.key? = w.key?) :
    Worked a (a.perform c).2 w w' := of_same rfl rfl rfl hk

theorem answer (l : Lookups) (a : Agent) (r : Request) (hk : w'.key? = w.key?) :
    Worked a (Agent.answerFrom l r a).2 w w' := by
  cases r with
  | acquire resource uid =>
      refine ⟨?_, rfl, rfl, fun h => h.acquire resource uid⟩
      rw [hk]
      exact .keeps _ rfl
  | release kind uid =>
      refine ⟨?_, rfl, rfl, fun h => h.release kind uid⟩
      rw [hk]
      exact .keeps _ rfl
  | enqueue key =>
      refine ⟨?_, WorkQueue.shuttingDown_add _ _, rfl, fun h => h⟩
      rw [hk]
      exact .keeps _ (WorkQueue.processing_add _ _)
  | hub | resourceNamed | resourceOfKind | find | replaceSet | removeSet | ownerOf =>
      exact of_same rfl rfl rfl hk

theorem request (l : Lookups) (a : Agent) (key : ObjectKey) (rest : Reconcile) :
    Worked a (a.requestFrom l key rest).2 (.working key rest) (a.requestFrom l key rest).1 := by
  cases rest with
  | done result => exact settle a key result _
  | ask r next =>
      have hanswer : ∀ w' : Worker, w'.key? = some key →
          Worked a (Agent.answerFrom l r a).2 (.working key (.ask r next)) w' :=
        fun _ hk => answer l a r hk
      cases r with
      | hub c =>
          simp only [Agent.requestFrom]
          cases hb : a.beginWrite? c with
          | none => exact perform a c rfl
          | some begun =>
              obtain ⟨clock, _, he⟩ := Hand.clock_of_beginWrite? hb
              exact of_same (by rw [he]) (by rw [he]) (by rw [he]) rfl
      | resourceNamed | resourceOfKind | find | replaceSet | removeSet | ownerOf | acquire
      | release | enqueue => exact hanswer _ rfl

theorem step (l : Lookups) (a : Agent) (id : WorkerId) (w : Worker) :
    Worked a (a.stepFrom l id w).2 w (a.stepFrom l id w).1 := by
  cases w with
  | asking => exact taken rfl (WorkQueue.polled_poll a.queue id)
  | waiting => exact taken rfl (WorkQueue.polled_resume a.queue id)
  | working key rest => exact request l a key rest
  | writing key c pending next =>
      simp only [Agent.stepFrom, Agent.step, Agent.endWrite]
      split
      · exact perform a c rfl
      · exact of_same rfl rfl rfl rfl
  | stopped => exact of_same rfl rfl rfl rfl

/-- A worker that is told to stop gives its key back. -/
theorem dismiss (a : Agent) (id : WorkerId) (w : Worker) :
    Worked a (a.dismiss id w) w .stopped := by
  cases w with
  | asking | stopped => exact of_same rfl rfl rfl rfl
  | waiting =>
      have hs := WorkQueue.sameItems_leave a.queue id
      exact ⟨.keeps none hs.processing, hs.shuttingDown, rfl, fun h => h⟩
  | working key | writing key =>
      exact ⟨.returns key (WorkQueue.processing_done _ _), WorkQueue.shuttingDown_done _ _, rfl,
        fun h => h⟩

end Worked

/-! ## Keys in process -/

/-- What is in hand now and was not before. -/
def gained {α : Type} : Option α → Option α → List α
  | none, some a => [a]
  | _, _ => []

theorem gained_self {α : Type} (item : Option α) : gained item item = [] := by
  cases item <;> rfl

/-- The keys that workers have taken off the queue from one state of them to a later one. -/
def keysTaken (workers workers' : List Worker) : List ObjectKey :=
  (workers.zipWith (fun w w' => gained w.key? w'.key?) workers').flatten

theorem keysTaken_cons (w w' : Worker) (rest rest' : List Worker) :
    keysTaken (w :: rest) (w' :: rest') = gained w.key? w'.key? ++ keysTaken rest rest' := rfl

theorem keysTaken_self (workers : List Worker) : keysTaken workers workers = [] := by
  induction workers with
  | nil => rfl
  | cons w rest ih => rw [keysTaken_cons, gained_self, ih, List.nil_append]

theorem keysTaken_set {workers : List Worker} (hw : workers[id]? = some w) :
    keysTaken workers (workers.set id w') = gained w.key? w'.key? := by
  induction workers generalizing id with
  | nil => cases hw
  | cons v rest ih =>
      cases id with
      | zero =>
          cases hw
          rw [List.set_cons_zero, keysTaken_cons, keysTaken_self, List.append_nil]
      | succ id => rw [List.set_cons_succ, keysTaken_cons, gained_self, ih hw, List.nil_append]

/-- A key is in process once at most, and as long as it is, the worker that took it has it in
hand. -/
structure Books (taken processing : List ObjectKey) (workers : List Worker) : Prop where
  once : processing.Nodup
  held : ∀ k ∈ processing, k ∈ taken → ∃ w ∈ workers, w.key? = some k

namespace Books

variable {taken processing : List ObjectKey} {workers : List Worker}

/-- Before anything is taken. -/
theorem nothing (h : processing.Nodup) (workers : List Worker) : Books [] processing workers :=
  ⟨h, fun _ _ hk => absurd hk List.not_mem_nil⟩

/-- The other workers are still there after one has gone on. -/
theorem held_set {k : ObjectKey} (hw : workers[id]? = some w)
    (h : ∃ v ∈ workers, v.key? = some k) (hk : w.key? = some k → w'.key? = some k) :
    ∃ v ∈ workers.set id w', v.key? = some k := by
  obtain ⟨v, hv, hkey⟩ := h
  obtain ⟨j, hj⟩ := List.mem_iff_getElem?.mp hv
  by_cases hid : id = j
  · subst hid
    cases hj.symm.trans hw
    exact ⟨w', List.mem_set (List.getElem?_eq_some_iff.mp hw).1 w', hk hkey⟩
  · exact ⟨v, List.mem_iff_getElem?.mpr ⟨j, by rw [List.getElem?_set_ne hid, hj]⟩, hkey⟩

theorem booked (h : Books taken a.queue.processing workers) (hw : workers[id]? = some w)
    (hb : a.queue.Booked a'.queue w.key? w'.key?) :
    Books (taken ++ gained w.key? w'.key?) a'.queue.processing (workers.set id w') := by
  have hset : w' ∈ workers.set id w' := List.mem_set (List.getElem?_eq_some_iff.mp hw).1 w'
  generalize hk : w.key? = item at hb ⊢
  generalize hk' : w'.key? = item' at hb ⊢
  cases hb with
  | keeps _ hp =>
      rw [hp, gained_self, List.append_nil]
      exact ⟨h.once, fun k hm ht => held_set hw (h.held k hm ht) (hk'.trans <| hk.symm.trans ·)⟩
  | takes key hp =>
      rw [hp]
      refine ⟨h.once.insert, fun k hm ht => ?_⟩
      by_cases hkey : k = key
      · subst hkey
        exact ⟨w', hset, hk'⟩
      · have hold : k ∈ a.queue.processing := (List.mem_insert_iff.mp hm).resolve_left hkey
        have hbefore : k ∈ taken := by
          refine (List.mem_append.mp ht).resolve_right fun hnew => hkey ?_
          exact List.mem_singleton.mp hnew
        refine held_set hw (h.held k hold hbefore) fun hwk => ?_
        cases hk.symm.trans hwk
  | returns key hp =>
      rw [hp, gained, List.append_nil]
      · refine ⟨h.once.erase key, fun k hm ht => ?_⟩
        obtain ⟨hne, hold⟩ := h.once.mem_erase_iff.mp hm
        refine held_set hw (h.held k hold ht) fun hwk => ?_
        cases hk.symm.trans hwk
        exact absurd rfl hne
      · intro key h
        cases h

/-- Nobody has a key in hand, so none that was taken is in process. -/
theorem not_mem_of_stopped (h : Books taken processing workers)
    (hs : ∀ w ∈ workers, w = .stopped) {k : ObjectKey} (hk : k ∈ taken) : k ∉ processing := by
  intro hm
  obtain ⟨w, hw, hkey⟩ := h.held k hm hk
  rw [hs w hw] at hkey
  cases hkey

end Books

/-! ## Moves -/

theorem Agent.deliverWork_cases (a : Agent) (e : WatchEvent) :
    (a.deliverWork e).2 = a ∨ ∃ i keys, (a.deliverWork e).2 = { a with
      works := { a.works with ingest := i }, queue := a.queue.addAll keys } := by
  unfold deliverWork
  split
  · exact Or.inl rfl
  · cases a.works.ingest.handle? e with
    | none => exact Or.inl rfl
    | some r => exact Or.inr ⟨r.1, r.2, rfl⟩

/-- An event is taken in by a watch that runs, or nothing happens. -/
theorem Agent.deliver_cases (a : Agent) (kind : ResourceKind) (e : WatchEvent) :
    (a.deliver kind e).2 = a ∨ ∃ n w keys, a.registry.started[n]? = some w ∧ w.stopped = false ∧
      (a.deliver kind e).2 = { a with
        registry := a.registry.feed n e, queue := a.queue.addAll keys } := by
  cases hn : a.registry.latest? kind with
  | none => exact Or.inl (by simp only [deliver, hn])
  | some n =>
      cases hw : a.registry.watch? n with
      | none => exact Or.inl (by simp only [deliver, hn, hw])
      | some w =>
          cases hs : w.stopped with
          | true => exact Or.inl (by simp only [deliver, hn, hw, hs, if_true])
          | false =>
              cases he : w.ingest.handle? e with
              | none => exact Or.inl (by simp [deliver, hn, hw, hs, he])
              | some r =>
                  exact Or.inr ⟨n, w, r.2, hw, hs, by
                    simp [deliver, hn, hw, hs, he, Registry.feed]⟩

namespace Floor

variable {f f' : Floor}

/-- What the moves of a floor keep, whether or not the queue is open. -/
structure Carries (f f' : Floor) : Prop where
  length : f'.workers.length = f.workers.length
  books : ∀ past, Books past f.agent.queue.processing f.workers →
    Books (past ++ keysTaken f.workers f'.workers) f'.agent.queue.processing f'.workers
  shuttingDown : f'.agent.queue.shuttingDown = f.agent.queue.shuttingDown
  works : f'.agent.works.stopped = f.agent.works.stopped
  registry : f.agent.registry.Sound → f'.agent.registry.Sound

namespace Carries

/-- What happens leaves the workers alone. -/
theorem aside (hp : a'.queue.processing = f.agent.queue.processing)
    (hs : a'.queue.shuttingDown = f.agent.queue.shuttingDown)
    (hw : a'.works.stopped = f.agent.works.stopped)
    (hr : f.agent.registry.Sound → a'.registry.Sound) : Carries f (f.withAgent a') where
  length := rfl
  books := fun past h => by
    change Books (past ++ keysTaken f.workers f.workers) a'.queue.processing f.workers
    rw [keysTaken_self, List.append_nil, hp]
    exact h
  shuttingDown := hs
  works := hw
  registry := hr

theorem refl (f : Floor) : Carries f f := aside rfl rfl rfl id

/-- A worker goes on or stops. -/
theorem worker (hw : f.workers[id]? = some w) (h : Worked f.agent a' w w') :
    Carries f ⟨a', f.workers.set id w'⟩ where
  length := List.length_set
  books := fun past hb => by
    change Books (past ++ keysTaken f.workers (f.workers.set id w')) _ _
    rw [keysTaken_set hw]
    exact hb.booked hw h.booked
  shuttingDown := h.shuttingDown
  works := congrArg Watch.stopped h.works
  registry := h.registry

end Carries

theorem carries_move (l : Lookups) (f : Floor) (m : Move) : Carries f (f.move l m) := by
  cases m with
  | turn id =>
      change Carries f (f.turn l id)
      unfold turn
      cases hw : f.workers[id]? with
      | none => exact .refl f
      | some w => exact .worker hw (Worked.step l f.agent id w)
  | work e =>
      rcases f.agent.deliverWork_cases e with he | ⟨i, keys, he⟩
      · simp only [move, he]
        exact .refl f
      · simp only [move, he]
        exact .aside (WorkQueue.processing_addAll _ _) (WorkQueue.shuttingDown_addAll _ _) rfl id
  | object kind e =>
      rcases f.agent.deliver_cases kind e with he | ⟨n, w, keys, _, _, he⟩
      · simp only [move, he]
        exact .refl f
      · simp only [move, he]
        exact .aside (WorkQueue.processing_addAll _ _) (WorkQueue.shuttingDown_addAll _ _) rfl
          fun h => h.feed n e
  | fire d =>
      unfold move
      simp only
      split
      · exact .aside (WorkQueue.processing_fire _ d) (WorkQueue.shuttingDown_add _ _) rfl id
      · exact .refl f
  | mood | pass => exact .aside rfl rfl rfl id

/-- No worker works and no watch runs. -/
structure Still (f : Floor) : Prop where
  workers : ∀ w ∈ f.workers, w = .stopped
  watches : ∀ w ∈ f.agent.registry.started, w.stopped = true

/-- Neither the workers nor the watches change. -/
structure Rests (f f' : Floor) : Prop where
  workers : f'.workers = f.workers
  registry : f'.agent.registry = f.agent.registry

theorem Rests.refl (f : Floor) : f.Rests f := ⟨rfl, rfl⟩

theorem Still.of_rests (h : f.Still) (hr : f.Rests f') : f'.Still where
  workers := by
    rw [hr.workers]
    exact h.workers
  watches := by
    rw [hr.registry]
    exact h.watches

theorem Still.set (h : f.Still) (hw : f.workers[id]? = some w) :
    w = .stopped ∧ f.workers.set id .stopped = f.workers := by
  have hstopped := h.workers w (List.mem_of_getElem? hw)
  refine ⟨hstopped, ?_⟩
  rw [hstopped] at hw
  obtain ⟨hlt, hget⟩ := List.getElem?_eq_some_iff.mp hw
  rw [← hget]
  exact List.set_getElem_self hlt

/-- Where nobody works and no watch runs, moves start neither. -/
theorem Still.move (h : f.Still) (l : Lookups) (m : Move) : f.Rests (f.move l m) := by
  cases m with
  | turn id =>
      change f.Rests (f.turn l id)
      unfold turn
      cases hw : f.workers[id]? with
      | none => exact .refl f
      | some w =>
          obtain ⟨rfl, hset⟩ := h.set hw
          exact ⟨hset, rfl⟩
  | work e =>
      rcases f.agent.deliverWork_cases e with he | ⟨i, keys, he⟩ <;>
      · simp only [Floor.move, he]
        exact ⟨rfl, rfl⟩
  | object kind e =>
      rcases f.agent.deliver_cases kind e with he | ⟨n, w, keys, hn, hs, _⟩
      · simp only [Floor.move, he]
        exact .refl f
      · rw [h.watches w (List.mem_of_getElem? hn)] at hs
        cases hs
  | fire d =>
      unfold Floor.move
      simp only
      split <;> exact ⟨rfl, rfl⟩
  | mood | pass => exact ⟨rfl, rfl⟩

end Floor

namespace Session

variable {r : Session} {c : Controller} {past : List ObjectKey}

/-- The keys that were taken off the queue. -/
def taken : Session → List Act → List ObjectKey
  | _, [] => []
  | r, x :: rest => keysTaken r.workers (r.act x).workers ++ taken (r.act x) rest

theorem taken_append (r : Session) (first rest : List Act) :
    r.taken (first ++ rest) = r.taken first ++ (r.acts first).taken rest := by
  induction first generalizing r with
  | nil => rfl
  | cons x first ih =>
      change _ ++ taken (r.act x) (first ++ rest) = (_ ++ _) ++ ((r.act x).acts first).taken rest
      rw [ih, List.append_assoc]

/-- A session in which a run has just started: whatever the agent's queue, hub and caches hold,
no kind was ever watched. -/
def opening (a : Agent) (config : Config) : Session :=
  start { agent := { a with registry := {} } } config

/-- What the run has returned, if it has. -/
def returned? (r : Session) : Option (Except AgentError Unit) :=
  match r.controllers with
  | [⟨_, .ended result, _⟩] => some result
  | _ => none

/-! ## Acts that are not the run's own -/

/-- What leaves the runs alone and does to the floor what moves do. -/
structure Aside (r r' : Session) : Prop where
  controllers : r'.controllers = r.controllers
  carries : r.floor.Carries r'.floor
  rests : r.floor.Still → r.floor.Rests r'.floor

theorem Aside.refl (r : Session) : r.Aside r := ⟨rfl, .refl _, fun _ => .refl _⟩

theorem aside_quit (r : Session) (id : WorkerId) : r.Aside (r.quit id) := by
  unfold quit
  cases hw : r.workers[id]? with
  | none => exact .refl r
  | some w =>
      cases hs : r.stopping with
      | false => exact .refl r
      | true =>
          have hw' : r.floor.workers[id]? = some w := hw
          refine ⟨rfl, .worker hw' (Worked.dismiss r.agent id w), fun h => ?_⟩
          obtain ⟨rfl, hset⟩ := h.set hw'
          exact ⟨hset, rfl⟩

/-- The run has its turn, or what happens is not its own. -/
theorem act_cases (r : Session) (x : Act) : r.Aside (r.act x) ∨ x = .control := by
  cases x with
  | floor l m => exact Or.inl ⟨rfl, Floor.carries_move l r.floor m, fun h => h.move l m⟩
  | dismiss id => exact Or.inl (aside_quit r id)
  | control => exact Or.inr rfl
  | stop => exact Or.inl ⟨rfl, .refl _, fun _ => .refl _⟩
  | fire d =>
      exact Or.inl ⟨rfl, .aside (WorkQueue.processing_fire _ d) (WorkQueue.shuttingDown_add _ _) rfl
        id, fun _ => ⟨rfl, rfl⟩⟩
  | drop | hub => exact Or.inl ⟨rfl, .aside rfl rfl rfl id, fun _ => ⟨rfl, rfl⟩⟩

/-! ## The phases of a run -/

/-- No worker was started and no watch. -/
structure Idle (r : Session) (past : List ObjectKey) : Prop where
  workers : r.workers = []
  registry : r.agent.registry = {}
  past : past = []

/-- All workers and watches have stopped. -/
structure Over (r : Session) : Prop where
  still : r.floor.Still
  closed : r.agent.queue.shuttingDown = true
  held : r.agent.registry.held = {}
  works : r.agent.works.stopped = true

/-- How things stand in a phase of a run with these workers, when the keys in `past` have been
taken. -/
inductive Stands (r : Session) (past : List ObjectKey) (ids : List WorkerId) : Phase → Prop
  | syncing (deadline : Stamp) (h : r.Idle past) : Stands r past ids (.syncing deadline)
  | serving (h : ids = List.range r.workers.length) : Stands r past ids .serving
  | draining (h : ids = List.range r.workers.length)
      (hq : r.agent.queue.shuttingDown = true) : Stands r past ids .draining
  | closed (h : r.Over) : Stands r past ids (.ended (.ok ()))
  | failed (e : AgentError) (h : r.Idle past) : Stands r past ids (.ended (.error e))

/-- What holds in every phase, with the run's own. -/
structure Sound (r : Session) (past : List ObjectKey) (c : Controller) : Prop where
  alone : r.controllers = [c]
  books : Books past r.agent.queue.processing r.workers
  registry : r.agent.registry.Sound
  stands : r.Stands past c.workers c.phase

theorem Idle.still (h : r.Idle past) : r.floor.Still where
  workers := by
    change ∀ w ∈ r.workers, w = .stopped
    rw [h.workers]
    exact fun _ hw => absurd hw List.not_mem_nil
  watches := by
    change ∀ w ∈ r.agent.registry.started, w.stopped = true
    rw [h.registry]
    exact fun _ hw => absurd hw List.not_mem_nil

variable {r' : Session} {ids : List WorkerId} {phase : Phase}

theorem Idle.aside (h : r.Idle past) (s : r.Aside r') :
    r'.Idle (past ++ keysTaken r.workers r'.workers) := by
  have hr := s.rests h.still
  have hworkers : r'.workers = r.workers := hr.workers
  refine ⟨hworkers.trans h.workers, hr.registry.trans h.registry, ?_⟩
  rw [hworkers, keysTaken_self, h.past]
  rfl

theorem Over.aside (h : r.Over) (s : r.Aside r') : r'.Over := by
  have hr := s.rests h.still
  refine ⟨h.still.of_rests hr, s.carries.shuttingDown.trans h.closed, ?_,
    s.carries.works.trans h.works⟩
  exact (congrArg Registry.held hr.registry).trans h.held

theorem Stands.aside (h : r.Stands past ids phase) (s : r.Aside r') :
    r'.Stands (past ++ keysTaken r.workers r'.workers) ids phase := by
  have hlength : r'.workers.length = r.workers.length := s.carries.length
  cases h with
  | syncing deadline h => exact .syncing deadline (h.aside s)
  | serving h => exact .serving (h.trans (congrArg List.range hlength.symm))
  | draining h hq =>
      exact .draining (h.trans (congrArg List.range hlength.symm))
        (s.carries.shuttingDown.trans hq)
  | closed h => exact .closed (h.aside s)
  | failed e h => exact .failed e (h.aside s)

theorem Sound.aside (h : r.Sound past c) (s : r.Aside r') :
    r'.Sound (past ++ keysTaken r.workers r'.workers) c where
  alone := s.controllers.trans h.alone
  books := s.carries.books past h.books
  registry := s.carries.registry h.registry
  stands := h.stands.aside s

/-! ## The run's own turns -/

theorem controllers_setController (h : r.controllers = [c]) (c' : Controller) :
    (r.setController 0 c').controllers = [c'] := by
  simp only [setController, h, List.set_cons_zero]

/-- The workers start. -/
theorem Sound.startServing (h : r.Sound past c) (hi : r.Idle past) :
    (r.startServing 0 c).Sound (past ++ keysTaken r.workers (r.startServing 0 c).workers)
      { c with phase := .serving, workers := List.range c.config.workers } := by
  let s : Session := { r with
    workers := List.replicate c.config.workers Worker.asking
    controllers := [{ c with phase := .serving, workers := List.range c.config.workers }] }
  have hs : (r.startServing 0 c).unlined = s.unlined := by
    rw [unlined_startServing]
    simp only [unlined, h.alone, hi.workers, List.set_cons_zero, List.nil_append, List.length_nil,
      Nat.zero_add, List.map_id', s]
  obtain ⟨hagent, hworkers, hcontrollers, _⟩ := unlined_eq_iff.mp hs
  have hpast : past ++ keysTaken r.workers s.workers = [] := by
    rw [hi.past, hi.workers]
    rfl
  refine ⟨hcontrollers, ?_, ?_, .serving ?_⟩
  · rw [hagent, hworkers, hpast]
    exact .nothing h.books.once _
  · rw [hagent]
    exact h.registry
  · rw [hworkers, List.length_replicate]

/-- What a turn of the run keeps that leaves the workers as they are. -/
theorem Sound.control {c' : Controller} (h : r.Sound past c) (hc : r'.controllers = [c'])
    (hw : r'.workers = r.workers) (hp : r'.agent.queue.processing = r.agent.queue.processing)
    (hr : r'.agent.registry.Sound) (hs : r'.Stands past c'.workers c'.phase) :
    r'.Sound (past ++ keysTaken r.workers r'.workers) c' := by
  rw [hw, keysTaken_self, List.append_nil]
  refine ⟨hc, ?_, hr, hs⟩
  rw [hp, hw]
  exact h.books

/-- The queue is closed. -/
theorem Sound.startDraining (h : r.Sound past c) (hids : c.workers = List.range r.workers.length) :
    (r.startDraining 0 c).Sound (past ++ keysTaken r.workers (r.startDraining 0 c).workers)
      { c with phase := .draining } := by
  let s : Session := { r with
    agent := { r.agent with queue := r.agent.queue.shutDown }
    controllers := [{ c with phase := .draining }] }
  have hs : (r.startDraining 0 c).unlined = s.unlined := by
    rw [unlined_startDraining, h.alone, List.set_cons_zero]
  obtain ⟨hagent, hworkers, hcontrollers, _⟩ := unlined_eq_iff.mp hs
  refine h.control hcontrollers hworkers ?_ ?_ (.draining ?_ ?_)
  · rw [hagent]
    rfl
  · rw [hagent]
    exact h.registry
  · rw [hworkers]
    exact hids
  · rw [hagent]
    rfl

/-- The run stops the watches once its workers, which are all there are, have stopped. -/
theorem Sound.finish (h : r.Sound past c) (hids : c.workers = List.range r.workers.length)
    (hq : r.agent.queue.shuttingDown = true) (hall : r.allStopped c.workers = true) :
    (r.finish 0 c).Sound (past ++ keysTaken r.workers (r.finish 0 c).workers)
      { c with phase := .ended (.ok ()) } := by
  refine h.control (controllers_setController h.alone _) rfl rfl h.registry.shutdown (.closed ?_)
  refine ⟨⟨fun w hw => ?_, fun w hw => ?_⟩, hq, Registry.held_shutdown _, rfl⟩
  · obtain ⟨id, hid⟩ := List.mem_iff_getElem?.mp hw
    have hmem : id ∈ c.workers := by
      rw [hids]
      exact List.mem_range.mpr (List.getElem?_eq_some_iff.mp hid).1
    have hstopped := List.all_eq_true.mp hall id hmem
    have hid' : r.workers[id]? = some w := hid
    simp only [hid'] at hstopped
    cases w with
    | stopped => rfl
    | asking | waiting | working | writing => cases hstopped
  · obtain ⟨n, hn⟩ := List.mem_iff_getElem?.mp hw
    exact (h.registry.stopped_shutdown hn).1

theorem Sound.controllerTurn (h : r.Sound past c) :
    ∃ c', (r.controllerTurn 0 c).Sound
      (past ++ keysTaken r.workers (r.controllerTurn 0 c).workers) c' := by
  have hsame : r.Sound (past ++ keysTaken r.workers r.workers) c := by
    rw [keysTaken_self, List.append_nil]
    exact h
  have hs := h.stands
  unfold Session.controllerTurn
  generalize hp : c.phase = phase at hs
  cases hs with
  | syncing deadline hi =>
      dsimp only
      split
      · exact ⟨_, h.startServing hi⟩
      · split
        · exact ⟨_, h.control (controllers_setController h.alone _) rfl rfl h.registry
            (.failed _ ⟨hi.workers, hi.registry, hi.past⟩)⟩
        · split
          · exact ⟨_, h.control (controllers_setController h.alone _) rfl rfl h.registry
              (.failed _ ⟨hi.workers, hi.registry, hi.past⟩)⟩
          · exact ⟨c, hsame⟩
  | serving hids =>
      dsimp only
      split
      · exact ⟨_, h.startDraining hids⟩
      · exact ⟨c, hsame⟩
  | draining hids hq =>
      dsimp only
      split
      · rename_i hall
        exact ⟨_, h.finish hids hq hall⟩
      · exact ⟨c, hsame⟩
  | closed | failed => exact ⟨c, hsame⟩

/-- One act. -/
theorem Sound.act (h : r.Sound past c) (x : Act) :
    ∃ c', (r.act x).Sound (past ++ keysTaken r.workers (r.act x).workers) c' := by
  rcases r.act_cases x with s | rfl
  · exact ⟨c, h.aside s⟩
  · have hturn : r.act .control = r.controllerTurn 0 c := by
      simp only [Session.act, turn, h.alone, List.getElem?_cons_zero]
    rw [hturn]
    exact h.controllerTurn

theorem sound_opening (a : Agent) (config : Config) (hq : a.queue.processing.Nodup) :
    ∃ c, (opening a config).Sound [] c :=
  ⟨_, rfl, .nothing hq [], Registry.sound_empty, .syncing _ ⟨rfl, rfl, rfl⟩⟩

/-- A whole run: the keys taken so far are known at every point of it. -/
theorem sound_acts (a : Agent) (config : Config) (hq : a.queue.processing.Nodup)
    (acts : List Act) :
    ∃ c, ((opening a config).acts acts).Sound ((opening a config).taken acts) c := by
  induction acts using List.reverseRecOn with
  | nil => exact sound_opening a config hq
  | append_singleton before x ih =>
      obtain ⟨c, h⟩ := ih
      rw [acts_append, taken_append]
      change ∃ c, (((opening a config).acts before).act x).Sound
        (_ ++ (keysTaken _ (((opening a config).acts before).act x).workers ++ [])) c
      rw [List.append_nil]
      exact h.act x

/-! ## After the run -/

theorem Sound.over (h : r.Sound past c) (hp : c.phase = .ended (.ok ())) : r.Over := by
  have hs := h.stands
  rw [hp] at hs
  cases hs with
  | closed h => exact h

theorem Sound.idle (h : r.Sound past c) {e : AgentError} (hp : c.phase = .ended (.error e)) :
    r.Idle past := by
  have hs := h.stands
  rw [hp] at hs
  cases hs with
  | failed _ h => exact h

/-- The run has returned, so neither workers nor watches go on. -/
theorem Sound.still (h : r.Sound past c) {result : Except AgentError Unit}
    (hp : c.phase = .ended result) : r.floor.Still := by
  cases result with
  | ok => exact (h.over hp).still
  | error e => exact (h.idle hp).still

theorem Sound.registry_act (h : r.Sound past c) {result : Except AgentError Unit}
    (hp : c.phase = .ended result) (x : Act) :
    (r.act x).agent.registry = r.agent.registry ∧ ∃ past, (r.act x).Sound past c := by
  rcases r.act_cases x with s | rfl
  · exact ⟨(s.rests (h.still hp)).registry, _, h.aside s⟩
  · have hsame : r.act .control = r := by
      simp only [Session.act, turn, h.alone, List.getElem?_cons_zero, Session.controllerTurn, hp]
    rw [hsame]
    exact ⟨rfl, past, h⟩

theorem Sound.registry_acts (h : r.Sound past c) {result : Except AgentError Unit}
    (hp : c.phase = .ended result) (more : List Act) :
    (r.acts more).agent.registry = r.agent.registry := by
  induction more generalizing r past with
  | nil => rfl
  | cons x rest ih =>
      obtain ⟨hsame, _, h'⟩ := h.registry_act hp x
      exact (ih h').trans hsame

theorem phase_of_returned? (h : r.controllers = [c]) {result : Except AgentError Unit}
    (hr : r.returned? = some result) : c.phase = .ended result := by
  obtain ⟨config, phase, ids⟩ := c
  cases phase with
  | ended =>
      simp only [returned?, h, Option.some.injEq] at hr
      rw [hr]
  | syncing | serving | draining =>
      simp only [returned?, h] at hr
      cases hr

/-- What a run leaves behind that returns in good order, when its workers took these keys. -/
structure Closed (r : Session) (taken : List ObjectKey) : Prop where
  queue : r.agent.queue.shuttingDown = true
  keys : ∀ k ∈ taken, k ∉ r.agent.queue.processing
  kinds : r.agent.registry.activeKinds = []
  watches : ∀ w ∈ r.agent.registry.started, w.stopped = true
  works : r.agent.works.stopped = true
  later : ∀ more, (r.acts more).agent.registry.started = r.agent.registry.started

/-- What a run leaves behind that fails. -/
structure Unbegun (r : Session) (taken : List ObjectKey) : Prop where
  keys : taken = []
  workers : r.workers = []
  watches : r.agent.registry.started = []

theorem Sound.closed (h : r.Sound past c) (hr : r.returned? = some (.ok ())) :
    r.Closed past := by
  have hp := phase_of_returned? h.alone hr
  have hover := h.over hp
  exact {
    queue := hover.closed
    keys := fun k hk => h.books.not_mem_of_stopped hover.still.workers hk
    kinds := by
      rw [Registry.activeKinds_eq_nil_iff, hover.held]
      rfl
    watches := hover.still.watches
    works := hover.works
    later := fun more => congrArg Registry.started (h.registry_acts hp more) }

theorem Sound.unbegun (h : r.Sound past c) {e : AgentError}
    (hr : r.returned? = some (.error e)) : r.Unbegun past := by
  have hidle := h.idle (phase_of_returned? h.alone hr)
  exact ⟨hidle.past, hidle.workers, congrArg Registry.started hidle.registry⟩

/-- A run with any number of workers, in any order of their steps, events and the sign to stop,
cleans up when it returns in good order, and has begun nothing when it fails. -/
theorem clean_shutdown (a : Agent) (config : Config) (hq : a.queue.processing.Nodup)
    (acts : List Act) :
    (((opening a config).acts acts).returned? = some (.ok ()) →
      ((opening a config).acts acts).Closed ((opening a config).taken acts)) ∧
    ∀ e, ((opening a config).acts acts).returned? = some (.error e) →
      ((opening a config).acts acts).Unbegun ((opening a config).taken acts) := by
  obtain ⟨c, h⟩ := sound_acts a config hq acts
  exact ⟨fun hr => h.closed hr, fun e hr => h.unbegun hr⟩

end Session

namespace Widgets

def config : Config where
  hubKubeconfig := "hub"
  clusterName := "cluster1"
  addonName := Config.defaultAddonName
  workers := 2
  hubRequestTimeout := .ofSeconds 5
  cacheSyncTimeout := .ofSeconds 60

def floorActs (moves : List Move) : List Act := moves.map (.floor lookups)

/-- Both workers start. The first one has counted the widget in and queued its key when it is told
to stop, the second one has just taken that key. -/
def stoppedMidway : List Act :=
  floorActs [.work .init, .work (.initApply (work "a")), .work .initDone] ++ [.control] ++
  floorActs (turns 0 7 ++ turns 1 1) ++ [.stop, .dismiss 0, .control, .dismiss 1, .control]

/-- The stream of the deployment records ends before they are listed. -/
def neverListed : List Act := [.drop, .control]

theorem shutdown_midway :
    (let r := (Session.opening managed config).acts stoppedMidway
    r.returned? = some (.ok ()) ∧ r.agent.registry.started.length = 1 ∧
      (Session.opening managed config).taken stoppedMidway =
        [⟨appliedWorkKind, "", "a", none⟩, ⟨resource.resourceKind, "default", "w", none⟩] ∧
      r.Closed ((Session.opening managed config).taken stoppedMidway)) ∧
    (let r := (Session.opening managed config).acts neverListed
    r.returned? = some (.error Session.watchEnded) ∧
      r.Unbegun ((Session.opening managed config).taken neverListed)) := by
  have hfree : managed.queue.processing.Nodup := by decide
  have hok : ((Session.opening managed config).acts stoppedMidway).returned? = some (.ok ()) := by
    rfl
  have herror : ((Session.opening managed config).acts neverListed).returned? =
      some (.error Session.watchEnded) := rfl
  refine ⟨⟨hok, by decide +kernel, by decide +kernel, ?_⟩, herror, ?_⟩
  · exact (Session.clean_shutdown managed config hfree stoppedMidway).1 hok
  · exact (Session.clean_shutdown managed config hfree neverListed).2 _ herror

end Widgets

end StatusRelay
