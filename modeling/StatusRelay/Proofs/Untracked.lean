import StatusRelay.Proofs.Outlines

/-!
# What is not tracked stays unseen

A watch caches every object of its kind, also those that no deployment record lists. Their keys are
queued and their objects are found, but once the tracker has said that a UID has no owner, a worker
reads no more of the object. `redact` reduces such objects to their outlines: a run of the redacted
history goes through the same states as the original one, except for what is cached. So two
histories that are the same when redacted cannot be told apart by what the agent does.
-/
namespace StatusRelay

open Stage Ingest

namespace Object

/-- The UIDs that an object lists if it is a deployment record. -/
def cites (o : Object) : List String :=
  match AppliedWork.ofObject o with
  | .ok work => work.resources.map AppliedResource.uid
  | .error _ => []

/-- An object keeps its content only if its UID is listed. -/
def redact (listed : List String) (o : Object) : Object :=
  if o.uid ≠ "" ∧ o.uid ∈ listed then o else o.outline

/-- Two objects are the same, but if the UID is not listed their labels, specs and statuses may
differ. -/
def Alike (listed : List String) (o o' : Object) : Prop :=
  o.outline = o'.outline ∧ (o.uid ≠ "" → o.uid ∈ listed → o = o')

variable {listed : List String} {o o' : Object}

theorem outline_redact (listed : List String) (o : Object) :
    (o.redact listed).outline = o.outline := by
  unfold redact
  split <;> rfl

theorem redact_of_listed (hu : o.uid ≠ "") (hl : o.uid ∈ listed) : o.redact listed = o :=
  if_pos ⟨hu, hl⟩

theorem Alike.redact_eq (h : o.Alike listed o') : o.redact listed = o'.redact listed := by
  obtain ⟨houtline, hsame⟩ := h
  have huid := uid_congr houtline
  unfold redact
  rw [← huid]
  split
  · rename_i hlisted
    exact hsame hlisted.1 hlisted.2
  · exact houtline

end Object

/-- Two events are the same, but for what nobody lists of their objects. -/
inductive WatchEvent.Alike (listed : List String) : WatchEvent → WatchEvent → Prop
  | apply {o o' : Object} (h : o.Alike listed o') : Alike listed (.apply o) (.apply o')
  | delete {o o' : Object} (h : o.Alike listed o') : Alike listed (.delete o) (.delete o')
  | init : Alike listed .init .init
  | initApply {o o' : Object} (h : o.Alike listed o') :
      Alike listed (.initApply o) (.initApply o')
  | initDone : Alike listed .initDone .initDone

/-- The UIDs that a deployment record lists which an event brings into the cache. -/
def Move.cites : Move → List String
  | .work e => (e.stored?.map Object.cites).getD []
  | _ => []

namespace Occasion

/-- All UIDs that are listed by some deployment record of a history. -/
def cited (history : List Occasion) : List String := history.flatMap fun o => o.move.cites

/-- Two occasions are the same, but for what nobody lists of watched objects. -/
inductive Alike (listed : List String) : Occasion → Occasion → Prop
  | object (l : Lookups) (kind : ResourceKind) {e e' : WatchEvent} (h : e.Alike listed e') :
      Alike listed ⟨l, .object kind e⟩ ⟨l, .object kind e'⟩
  | same (o : Occasion) : Alike listed o o

/-- Events about watched objects bring their outlines, unless they are listed. -/
def redact (listed : List String) : Occasion → Occasion
  | ⟨l, .object kind e⟩ => ⟨l, .object kind (e.map (Object.redact listed))⟩
  | o => o

variable {listed : List String} {o o' : Occasion}

theorem Alike.redact_eq (h : Alike listed o o') : o.redact listed = o'.redact listed := by
  cases h with
  | same => rfl
  | object l kind h =>
      cases h with
      | apply h | delete h | initApply h => simp only [redact, WatchEvent.map, h.redact_eq]
      | init | initDone => rfl

theorem redact_history {history history' : List Occasion}
    (h : List.Forall₂ (Alike listed) history history') :
    history.map (redact listed) = history'.map (redact listed) := by
  induction h with
  | nil => rfl
  | cons ho _ ih => rw [List.map_cons, List.map_cons, ho.redact_eq, ih]

theorem cited_history {history history' : List Occasion}
    (h : List.Forall₂ (Alike listed) history history') : cited history = cited history' := by
  induction h with
  | nil => rfl
  | cons ho _ ih =>
      have hmove : ∀ {o o' : Occasion}, Alike listed o o' → o.move.cites = o'.move.cites := by
        intro o o' ho
        cases ho <;> rfl
      rw [cited, List.flatMap_cons, hmove ho]
      exact congrArg _ ih

end Occasion

/-! ## Calls to the hub -/

/-- The call that a worker is about to issue. -/
def Worker.call? : Worker → Option HubCall
  | .working _ (.ask (.hub c) _) => some c
  | _ => none

namespace Floor

def calls (f : Floor) : Move → List HubCall
  | .turn id => (f.workers[id]?.bind Worker.call?).toList
  | _ => []

/-- The calls to the hub during a history, in the order in which they are issued. -/
def issued : Floor → List Occasion → List HubCall
  | _, [] => []
  | f, o :: rest => f.calls o.move ++ (f.occur o).issued rest

theorem issued_concat (f : Floor) (past : List Occasion) (o : Occasion) :
    f.issued (past ++ [o]) = f.issued past ++ (f.follow past).calls o.move := by
  induction past generalizing f with
  | nil => simp [issued]
  | cons first rest ih =>
      rw [List.cons_append, issued, ih, issued, List.append_assoc]
      rfl

end Floor

/-! ## What the agent knows of UIDs -/

variable {listed : List String} {l : Lookups} {c c' : Crew} {a a' : Agent} {id : WorkerId}
  {x x' : Hand} {key : ObjectKey} {st st' : Stage} {m : Move} {notes : List Note}

/-- A set that is to be stored has only listed UIDs. -/
def Stage.Cites (listed : List String) : Stage → Prop
  | replacing _ _ applied => ∀ e ∈ applied.entries, e.uid ∈ listed
  | _ => True

theorem Stage.cites_finished (result : Except AgentError Outcome) :
    (finished result).Cites listed := trivial

/-- Everything that an agent and its workers take to be listed is. -/
structure Cited (listed : List String) (c : Crew) : Prop where
  sound : c.Sound
  works : c.agent.works.ingest.All fun o => ∀ uid ∈ o.cites, uid ∈ listed
  tracked : ∀ uid, c.agent.tracker.Lists uid → uid ∈ listed
  held : ∀ id key stage, c.Busy id key stage → stage.Cites listed

namespace Cited

theorem start (listed : List String) (cluster : String) (timeout : Duration)
    (limiter : Limiter ObjectKey) (hub : Hub) (workers : Nat) :
    Cited listed (.start (.before cluster timeout limiter hub) workers) where
  sound := Crew.sound_before cluster timeout limiter hub workers
  works := all_start _ _
  tracked := by
    rintro uid ⟨work, tracked, hg, _⟩
    cases hg
  held := fun _ _ _ hb => absurd hb Crew.not_busy_start

theorem opened (h : Cited listed c) (hk : key.kind = appliedWorkKind) {o : Object}
    (hf : c.agent.find key.kind key.ns key.name = .present o) : (opened o).Cites listed := by
  rw [hk] at hf
  have hat := (Agent.find_work_iff c.agent (key.ns, key.name) o).mp hf
  have hcites := h.works.of_lookup? hat
  refine of_opened cites_finished fun work hw e he => hcites e.uid ?_
  simp only [Object.cites, hw]
  exact List.mem_map_of_mem (AppliedSet.mem_ofResources he).1

theorem answered (h : Cited listed c) (hst : st.Cites listed) (hclean : st.Clean)
    (ha : Answered l c.agent id key st st' a' notes) :
    (∀ uid, a'.tracker.Lists uid → uid ∈ listed) ∧ st'.Cites listed := by
  -- What comes to be listed was in the set that was stored.
  have hgains : ∀ {t' : Tracker} {applied : AppliedSet} {d : AppliedSet.Difference},
      c.agent.tracker.Changed t' applied d → (∀ e ∈ applied.entries, e.uid ∈ listed) →
      ∀ uid, t'.Lists uid → uid ∈ listed := by
    intro t' applied d hc happlied uid hl
    rcases hc.gains uid hl with hl | ⟨e, he, rfl⟩
    · exact h.tracked uid hl
    · exact happlied e (hc.added e he).1
  cases ha with
  | leads ha =>
      refine ⟨h.tracked, ?_⟩
      cases ha with
      | presentWork o hf hk => exact h.opened hk hf
      | read o owner record =>
          exact of_recorded record cites_finished (fun _ _ => trivial) fun _ _ => trivial
      | _ => trivial
  | creates o record hw =>
      obtain ⟨hub, rfl⟩ := hw.frame
      exact ⟨h.tracked, of_created cites_finished (fun _ _ => trivial) (fun _ _ => trivial) _⟩
  | patches o record label hw =>
      obtain ⟨hub, rfl⟩ := hw.frame
      exact ⟨h.tracked, of_patched cites_finished (fun _ _ => trivial) _⟩
  | updates record status hw =>
      obtain ⟨hub, rfl⟩ := hw.frame
      exact ⟨h.tracked, of_updated cites_finished _⟩
  | erases name hw =>
      obtain ⟨hub, rfl⟩ := hw.frame
      exact ⟨h.tracked, of_erased cites_finished _⟩
  | replaces => exact ⟨hgains (Tracker.changed_replace h.sound.tracker hclean) hst, trivial⟩
  | removes work =>
      exact ⟨hgains (Listing.changed_remove_getD h.sound.tracker work)
        fun e he => absurd he List.not_mem_nil, trivial⟩
  | acquires | releases | posts => exact ⟨h.tracked, trivial⟩

theorem turn (h : Cited listed c) (hx : c.hands[id]? = some x)
    (t : Turned l c.agent id x x' a' notes) : Cited listed ⟨a', c.hands.set id x'⟩ := by
  have hans : ∀ {key st st'}, c.Busy id key st → Answered l c.agent id key st st' a' notes →
      (∀ uid, a'.tracker.Lists uid → uid ∈ listed) ∧ st'.Cites listed := fun hb ha =>
    h.answered (h.held id _ _ hb) (h.sound.clean id _ _ hb) ha
  refine ⟨h.sound.turn hx t, t.works ▸ h.works, ?_,
    Crew.busy_turn hx t (fun key _ => of_first cites_finished trivial key) h.held
      fun _ _ _ hb ha => (hans hb ha).2⟩
  refine t.agent_of (P := fun a' => ∀ uid, a'.tracker.Lists uid → uid ∈ listed)
    (fun _ _ => h.tracked) ?_
  rintro key st st' p rfl ha
  exact (hans ⟨p, hx⟩ ha).1

theorem step (h : Cited listed c) (hm : ∀ uid ∈ m.cites, uid ∈ listed)
    (s : Crew.Step l c m c' notes) : Cited listed c' := by
  have hsound := h.sound.step s
  cases s with
  | turn id hx t => exact h.turn hx t
  | work e he =>
      refine ⟨hsound, h.works.handle? ?_ he, h.tracked, h.held⟩
      intro o ho uid hu
      refine hm uid ?_
      simp only [Move.cites, ho, Option.map_some, Option.getD_some]
      exact hu
  | object | fire | mood | pass => exact ⟨hsound, h.works, h.tracked, h.held⟩
  | still => exact h

/-- The object of a UID that has an owner is not redacted. -/
theorem redact_of_owned (h : Cited listed c) {o : Object} {owner : TrackedOwner}
    (ho : c.agent.tracker.ownerOf? o.uid = some owner) : o.redact listed = o := by
  have hl : c.agent.tracker.Lists o.uid := by
    rw [← h.sound.tracker.isSome_owner_iff, ho]
    rfl
  refine Object.redact_of_listed ?_ (h.tracked _ hl)
  intro hempty
  obtain ⟨work, tracked, hg, hc⟩ := hl
  rw [hempty] at hc
  exact (h.sound.tracker.clean work tracked hg).named (List.contains_iff_mem.mp hc)

end Cited

/-! ## Redacted runs -/

/-- A worker goes on as the other one does, or has found a redacted object where the other one has
found the object. -/
inductive Worker.Shadows (listed : List String) (cluster : String) : Worker → Worker → Prop
  | same (w : Worker) : Shadows listed cluster w w
  | found (key : ObjectKey) (o : Object) :
      Shadows listed cluster (.working key ((found o).rest cluster key))
        (.working key ((found (o.redact listed)).rest cluster key))

theorem Stage.eq_fresh {cluster ns name : String} {kind : ResourceKind}
    (h : (st.rest cluster key).request? = some (.find kind ns name)) : st = fresh := by
  rw [request?_rest] at h
  cases st with
  | fresh => rfl
  | changing changes => cases changes <;> cases h
  | telling c =>
      rw [next?] at h
      split at h <;> cases h
  | found | reading | fetching | resolving | creating | patching | updating | looking | erasing
  | replacing | removing | posting | finished => cases h

/-- The floor of a redacted run. -/
structure Floor.Shadows (listed : List String) (cluster : String) (f f' : Floor) : Prop where
  agent : f'.agent = f.agent.map (Object.redact listed)
  workers : ∀ id : WorkerId,
    Option.Rel (Worker.Shadows listed cluster) f.workers[id]? f'.workers[id]?

/-- A worker's turn and the same turn in the redacted run. -/
def Worker.Parallel (listed : List String) (l : Lookups) (a : Agent) (id : WorkerId)
    (w w' : Worker) : Prop :=
  ((a.map (Object.redact listed)).stepFrom l id w').2 =
      (a.stepFrom l id w).2.map (Object.redact listed) ∧
    Shadows listed a.cluster (a.stepFrom l id w).1
      ((a.map (Object.redact listed)).stepFrom l id w').1

namespace Worker

theorem Parallel.of_eq {w : Worker}
    (h : (a.map (Object.redact listed)).stepFrom l id w =
      ((a.stepFrom l id w).1, (a.stepFrom l id w).2.map (Object.redact listed))) :
    Parallel listed l a id w w := by
  rw [Parallel, h]
  exact ⟨rfl, .same _⟩

theorem parallel_fresh (listed : List String) (l : Lookups) (a : Agent) (id : WorkerId)
    (key : ObjectKey) : Parallel listed l a id (.working key (fresh.rest a.cluster key))
      (.working key (fresh.rest a.cluster key)) := by
  rw [rest_fresh]
  refine ⟨rfl, ?_⟩
  simp only [Agent.stepFrom, Agent.requestFrom, Agent.answerFrom, Agent.answer]
  by_cases hk : key.kind = appliedWorkKind
  · -- The deployment records are not redacted.
    rw [hk, Agent.find_work_map]
    exact .same _
  · rw [Agent.find_map _ a hk]
    cases a.find key.kind key.ns key.name with
    | noWatch | absent => exact .same _
    | present o =>
        simp only [Sighting.map, if_neg hk]
        exact .found key o

theorem parallel_found (h : Cited listed c) (l : Lookups) (id : WorkerId) (key : ObjectKey)
    (o : Object) : Parallel listed l c.agent id (.working key ((found o).rest c.agent.cluster key))
      (.working key ((found (o.redact listed)).rest c.agent.cluster key)) := by
  have huid : (o.redact listed).uid = o.uid := Object.uid_congr (o.outline_redact listed)
  have hown : (c.agent.map (Object.redact listed)).tracker = c.agent.tracker := rfl
  rw [rest_found, rest_found]
  refine ⟨rfl, ?_⟩
  simp only [Agent.stepFrom, Agent.requestFrom, Agent.answerFrom, Agent.answer, huid, hown]
  cases ho : c.agent.tracker.ownerOf? o.uid with
  | none => exact .same _
  | some owner =>
      rw [h.redact_of_owned ho]
      exact .same _

theorem parallel_hand (x : Hand) :
    Parallel listed l a id (x.worker a.cluster) (x.worker a.cluster) := by
  cases hw : x.worker a.cluster with
  | asking | waiting =>
      refine .of_eq ?_
      simp only [Agent.stepFrom, Agent.step, Agent.taken_map]
      rfl
  | stopped => exact .of_eq rfl
  | writing key call pending next =>
      refine .of_eq ?_
      simp only [Agent.stepFrom, Agent.step, Agent.endWrite_map]
  | working key rest =>
      obtain ⟨stage, p, rfl, rfl⟩ := Hand.rest_of_working hw
      by_cases hf : stage = fresh
      · rw [hf]
        exact parallel_fresh listed l a id key
      · refine .of_eq (Agent.requestFrom_map l a key ?_)
        intro kind ns name hr
        exact hf (eq_fresh hr)

theorem Shadows.turn (h : Cited listed c) {w' : Worker}
    (hw : Shadows listed c.agent.cluster (x.worker c.agent.cluster) w') (l : Lookups) :
    Parallel listed l c.agent id (x.worker c.agent.cluster) w' := by
  generalize hworker : x.worker c.agent.cluster = w at hw
  cases hw with
  | same =>
      rw [← hworker]
      exact parallel_hand x
  | found key o => exact parallel_found h l id key o

theorem Shadows.call? {cluster : String} {w w' : Worker} (h : Shadows listed cluster w w') :
    w'.call? = w.call? := by
  cases h with
  | same => rfl
  | found key o =>
      rw [rest_found, rest_found]
      rfl

end Worker

namespace Floor.Shadows

variable {f f' : Floor}

theorem start (listed : List String) (cluster : String) (timeout : Duration)
    (limiter : Limiter ObjectKey) (hub : Hub) (workers : Nat) :
    Shadows listed cluster (.start (.before cluster timeout limiter hub) workers)
      (.start (.before cluster timeout limiter hub) workers) where
  agent := rfl
  workers := by
    intro id
    generalize (Floor.start _ workers).workers[id]? = w
    cases w with
    | none => exact .none
    | some w => exact .some (.same w)

theorem turn (h : Cited listed c) (hs : Shadows listed c.agent.cluster c.floor f') (l : Lookups)
    (id : WorkerId) :
    Shadows listed c.agent.cluster (c.floor.turn l id) (f'.turn l id) := by
  obtain ⟨a', workers⟩ := f'
  obtain ⟨rfl, hworkers⟩ := hs
  have hid := hworkers id
  unfold Floor.turn
  generalize hw : c.floor.workers[id]? = before at hid
  generalize hw' : workers[id]? = before' at hid
  cases hid with
  | none =>
      simp only
      exact ⟨rfl, hworkers⟩
  | some hshadows =>
      obtain ⟨x, _, rfl⟩ : ∃ x, c.hands[id]? = some x ∧ x.worker c.agent.cluster = _ := by
        rw [Crew.floor, List.getElem?_map] at hw
        exact Option.map_eq_some_iff.mp hw
      obtain ⟨hagent, hnext⟩ := hshadows.turn h l
      simp only
      refine ⟨hagent, fun j => ?_⟩
      by_cases hj : id = j
      · subst hj
        rw [List.getElem?_set_self (List.getElem?_eq_some_iff.mp hw).1,
          List.getElem?_set_self (List.getElem?_eq_some_iff.mp hw').1]
        exact .some hnext
      · rw [List.getElem?_set_ne hj, List.getElem?_set_ne hj]
        exact hworkers j

theorem occur (h : Cited listed c) (hs : Shadows listed c.agent.cluster c.floor f')
    (o : Occasion) :
    Shadows listed c.agent.cluster (c.floor.occur o) (f'.occur (o.redact listed)) := by
  obtain ⟨l, m⟩ := o
  cases m with
  | turn id => exact turn h hs l id
  | work e =>
      obtain ⟨a', workers⟩ := f'
      obtain ⟨rfl, hworkers⟩ := hs
      exact ⟨Agent.deliverWork_map _ e, hworkers⟩
  | object kind e =>
      obtain ⟨a', workers⟩ := f'
      obtain ⟨rfl, hworkers⟩ := hs
      exact ⟨Agent.deliver_map (Object.outline_redact listed) _ kind e, hworkers⟩
  | fire d =>
      obtain ⟨a', workers⟩ := f'
      obtain ⟨rfl, hworkers⟩ := hs
      change Shadows listed _ (if d ∈ c.agent.queue.delayed then _ else _)
        (if d ∈ c.agent.queue.delayed then _ else _)
      split
      · exact ⟨rfl, hworkers⟩
      · exact ⟨rfl, hworkers⟩
  | mood | pass =>
      obtain ⟨a', workers⟩ := f'
      obtain ⟨rfl, hworkers⟩ := hs
      exact ⟨rfl, hworkers⟩

theorem calls (h : Shadows listed cluster f f') (o : Occasion) :
    f'.calls (o.redact listed).move = f.calls o.move := by
  obtain ⟨l, m⟩ := o
  cases m with
  | turn id =>
      have hid := h.workers id
      change (f'.workers[id]?.bind Worker.call?).toList = (f.workers[id]?.bind Worker.call?).toList
      generalize f.workers[id]? = before at hid
      generalize f'.workers[id]? = before' at hid
      cases hid with
      | none => rfl
      | some hw => simp only [Option.bind_some, hw.call?]
  | work | object | fire | mood | pass => rfl

end Floor.Shadows

/-- A run after some history, and the redacted run. -/
structure Redacted (listed : List String) (start : Floor) (c : Crew) (past : List Occasion) :
    Prop where
  cited : Cited listed c
  shadows : c.floor.Shadows listed c.agent.cluster (start.follow (past.map (·.redact listed)))
  issued : start.issued (past.map (·.redact listed)) = start.issued past

theorem Redacted.step {start : Floor} {past : List Occasion} {o : Occasion}
    (h : Redacted listed start c past) (hm : ∀ uid ∈ o.move.cites, uid ∈ listed)
    (hfloor : c.floor = start.follow past)
    (s : Crew.Step o.lookups c o.move c' (c.floor.notes o.lookups o.move))
    (hfloor' : c'.floor = start.follow (past ++ [o])) :
    Redacted listed start c' (past ++ [o]) where
  cited := h.cited.step hm s
  shadows := by
    rw [s.cluster, hfloor', List.map_append, List.map_singleton, Floor.follow_concat,
      Floor.follow_concat, ← hfloor]
    exact h.shadows.occur h.cited o
  issued := by
    rw [List.map_append, List.map_singleton, Floor.issued_concat, Floor.issued_concat, h.issued,
      ← hfloor, h.shadows.calls o]

section

variable (cluster : String) (timeout : Duration) (limiter : Limiter ObjectKey) (hub : Hub)
  (workers : Nat)

/-- The redacted history issues the same calls and leads to the same state, except for what is
cached. -/
theorem Redacted.follow {history : List Occasion}
    (h : ∀ o ∈ history, ∀ uid ∈ o.move.cites, uid ∈ listed) :
    let start : Floor := .start (.before cluster timeout limiter hub) workers
    (start.follow (history.map (·.redact listed))).agent =
        (start.follow history).agent.map (Object.redact listed) ∧
      start.issued (history.map (·.redact listed)) = start.issued history := by
  intro start
  have hstart : Redacted listed start (.start (.before cluster timeout limiter hub) workers) [] :=
    ⟨Cited.start listed cluster timeout limiter hub workers,
      Crew.floor_start _ workers ▸ Floor.Shadows.start listed cluster timeout limiter hub workers,
      rfl⟩
  have hrun : ∃ c, start.follow history = c.floor ∧ Redacted listed start c history :=
    Crew.follow hstart (fun c past h => ⟨h.cited.sound.queue, h.cited.sound.registry⟩)
      fun past o c c' hpre hfloor hr s hfloor' =>
        hr.step (h o (hpre.subset (List.mem_append.mpr (Or.inr List.mem_cons_self)))) hfloor s
          hfloor'
  obtain ⟨c, hfloor, hr⟩ := hrun
  rw [hfloor]
  exact ⟨hr.shadows.agent, hr.issued⟩

/-- Let two histories differ only in the labels, specs and statuses of watched objects that have no
UID or one that no deployment record lists. After every step the hub, the tracker and the queue are
the same, the registries differ at most in the contents of cached objects, and the same calls were
issued. -/
theorem untracked_content_unseen (history history' : List Occasion)
    (h : List.Forall₂ (Occasion.Alike (Occasion.cited history)) history history') (n : Nat) :
    let start : Floor := .start (.before cluster timeout limiter hub) workers
    let a := (start.follow (history.take n)).agent
    let a' := (start.follow (history'.take n)).agent
    start.issued (history.take n) = start.issued (history'.take n) ∧
      a.hub = a'.hub ∧ a.tracker = a'.tracker ∧ a.queue = a'.queue ∧
      a.registry.map Object.outline = a'.registry.map Object.outline := by
  intro start a a'
  have hcited : ∀ past : List Occasion, Occasion.cited past = Occasion.cited history →
      ∀ o ∈ past.take n, ∀ uid ∈ o.move.cites, uid ∈ Occasion.cited history := by
    intro past hpast o ho uid hu
    rw [← hpast]
    exact List.mem_flatMap.mpr ⟨o, List.mem_of_mem_take ho, hu⟩
  obtain ⟨hagent, hissued⟩ :=
    Redacted.follow cluster timeout limiter hub workers (hcited history rfl)
  obtain ⟨hagent', hissued'⟩ :=
    Redacted.follow cluster timeout limiter hub workers (hcited history' (Occasion.cited_history h).symm)
  rw [List.map_take, Occasion.redact_history h, ← List.map_take] at hagent hissued
  have hsame : a.map (Object.redact (Occasion.cited history)) =
      a'.map (Object.redact (Occasion.cited history)) := hagent.symm.trans hagent'
  refine ⟨hissued.symm.trans hissued', congrArg (·.hub) hsame, congrArg (·.tracker) hsame,
    congrArg (·.queue) hsame, ?_⟩
  have hregistry := congrArg (fun b : Agent => b.registry.map Object.outline) hsame
  simp only [Agent.map, Registry.map_outline_map _ (Object.outline_redact _)] at hregistry
  exact hregistry

end

namespace Widgets

/-- Objects that no deployment record lists come to the watch of the widgets. -/
def visits (strangers : List Object) : List Occasion :=
  history ([.work (.apply (work "a"))] ++ turns 0 10 ++
    [.object resource.resourceKind (.apply widget)]) ++
  strangers.map (fun o => ⟨lookups, .object resource.resourceKind (.apply o)⟩) ++
  history (turns 0 20)

/-- A widget that is not listed, with some UID or none. -/
def stranger (uid : Option String) (content : String) : Object where
  metadata :=
    { name := some ("stranger" ++ uid.getD ""), ns := some "default", uid := uid,
      resourceVersion := some "1", labels := some (.ofList [("content", content)]) }
  spec := some (.str content)
  statusMember := some (.obj [("phase", .str content)])

/-- One stranger with a UID and one without. -/
def strangers (content : String) : List Object :=
  [stranger (some "v") content, stranger none content]

theorem alike_strangers (content content' : String) : List.Forall₂
    (Occasion.Alike (Occasion.cited (visits (strangers content)))) (visits (strangers content))
      (visits (strangers content')) := by
  have hcited : Occasion.cited (visits (strangers content)) = ["u"] := rfl
  rw [hcited]
  have hsame : ∀ past : List Occasion, List.Forall₂ (Occasion.Alike ["u"]) past past :=
    fun past => List.forall₂_same.mpr fun o _ => .same o
  have hv : (stranger (some "v") content).Alike ["u"] (stranger (some "v") content') :=
    ⟨rfl, fun _ hlisted => absurd hlisted (show "v" ∉ ["u"] by decide)⟩
  have hnone : (stranger none content).Alike ["u"] (stranger none content') :=
    ⟨rfl, fun hu _ => absurd rfl hu⟩
  refine List.rel_append (List.rel_append (hsame _) ?_) (hsame _)
  exact .cons (.object _ _ (.apply hv)) (.cons (.object _ _ (.apply hnone)) .nil)

/-- What strangers contain is not seen, though they are cached and their keys are reconciled. -/
theorem unseen_strangers :
    List.Forall₂ (Occasion.Alike (Occasion.cited (visits (strangers "public"))))
      (visits (strangers "public")) (visits (strangers "secret")) ∧
    (∀ n, ((Floor.start managed 1).follow ((visits (strangers "public")).take n)).agent.hub =
      ((Floor.start managed 1).follow ((visits (strangers "secret")).take n)).agent.hub) ∧
    ((Floor.start managed 1).issued (visits (strangers "public"))).length = 3 := by
  refine ⟨alike_strangers _ _, fun n => ?_, by decide +kernel⟩
  exact (untracked_content_unseen "cluster1" (.ofSeconds 5)
    (.exponential (.ofMillis 5) (.ofSeconds 1000) {}) managed.hub 1 _ _
    (alike_strangers "public" "secret") n).2.1

end Widgets
end StatusRelay
