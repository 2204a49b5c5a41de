import StatusRelay.Proofs.Deeds

/-!
# Operations that overlap

Many users of the hub in memory at once, step by step. A write first waits as long as it is told to;
then it looks whether writes are made to fail; then it takes a version, if it is to store a record;
and last it takes effect, which answers it. Between any two of these steps others may take theirs,
and until it is answered an operation may be given up. How long anybody waits is left open, so that
every delay is covered. An operation with nothing between its steps is what the hub does at once.
-/
namespace StatusRelay

/-! ## Operations -/

/-- What is asked of the hub. -/
inductive HubOp where
  | call (c : HubCall)
  /-- A record is put there, over any other, without waiting. -/
  | addRecord (record : WorkStatus)

/-- Where a record belongs. -/
def WorkStatus.place (record : WorkStatus) : RecordKey :=
  (record.metadata.ns.getD "", record.metadata.name.getD "")

namespace HubOp

abbrev Answer : HubOp → Type
  | .call c => c.Answer
  | .addRecord _ => Unit

abbrev Result (op : HubOp) : Type := Except HubError op.Answer

def target : HubOp → RecordKey
  | .call c => c.target
  | .addRecord record => record.place

def isWrite : HubOp → Bool
  | .call c => c.isWrite
  | .addRecord _ => true

/-- Whether a version is taken, for the record that is to be stored. -/
def takesVersion : HubOp → Bool
  | .call (.create _ _) | .call (.patchLabels _ _ _) | .call (.updateStatus _ _)
  | .addRecord _ => true
  | .call (.getManifestWork _ _) | .call (.getRecord _ _) | .call (.delete _ _) => false

/-- The status record that an answer shows. -/
def shown : (op : HubOp) → op.Answer → Option WorkStatus
  | .call (.getRecord _ _), record | .call (.create _ _), record
  | .call (.patchLabels _ _ _), record | .call (.updateStatus _ _), record => some record
  | .call (.getManifestWork _ _), _ | .call (.delete _ _), _ | .addRecord _, _ => none

/-- How far an operation has come. -/
inductive Phase (op : HubOp) where
  | waiting
  /-- Writes were not made to fail when it looked. -/
  | admitted
  /-- It has taken the version after this one. -/
  | numbered (version : Nat)
  | ended (result : op.Result)
  | givenUp

namespace Phase

variable {op : HubOp}

/-- The operation is not answered and not given up. -/
def isOpen : Phase op → Bool
  | waiting | admitted | numbered _ => true
  | ended _ | givenUp => false

/-- The operation has not taken a version yet. -/
def isEarly : Phase op → Bool
  | waiting | admitted => true
  | numbered _ | ended _ | givenUp => false

end Phase

def begun : (op : HubOp) → Phase op
  | .call c => if c.isWrite then .waiting else .admitted
  | .addRecord _ => .admitted

end HubOp

namespace Hub

/-- An operation with nothing between its steps. -/
def atOnce (h : Hub) : (op : HubOp) → op.Result × Hub
  | .call c => h.perform c
  | .addRecord record => (.ok (), h.addRecord record)

/-- An operation that was admitted takes effect with the version after `n`, whatever versions have
been taken since. -/
def effect (h : Hub) (n : Nat) (op : HubOp) : op.Result × Hub :=
  let (result, h') := ({ h with version := n, failWrites := false } : Hub).atOnce op
  (result, { h' with version := h.version, failWrites := h.failWrites })

/-- What the stored records are and what was counted of them has not changed. -/
structure Untouched (h h' : Hub) : Prop where
  records : h'.records = h.records
  statusUpdates : h'.statusUpdates = h.statusUpdates
  labelPatches : h'.labelPatches = h.labelPatches

/-- What an operation may be answered when it takes effect, and the hub after it. -/
inductive Effects (h : Hub) (n : Nat) (op : HubOp) : op.Result → Hub → Prop
  | reads {answer : op.Answer} (hw : op.isWrite = false)
      (hshown : ∀ record, op.shown answer = some record →
        h.records.get? op.target = some record) : Effects h n op (.ok answer) h
  | refused (error : HubError) : Effects h n op (.error error) h
  | erases {answer : op.Answer} {h' : Hub} (hw : op.isWrite = true)
      (hr : h'.records = h.records.erase op.target) (hv : h'.version = h.version)
      (hshown : op.shown answer = none) : Effects h n op (.ok answer) h'
  | stores {answer : op.Answer} {h' : Hub} {record : WorkStatus} (ht : op.takesVersion = true)
      (hr : h'.records = h.records.insert op.target record) (hv : h'.version = h.version)
      (hversion : record.metadata.resourceVersion = some (versionText (n + 1)))
      (hshown : ∀ r, op.shown answer = some r → r = record)
      (hplaced : (∀ old, h.records.get? op.target = some old → old.place = op.target) →
        record.place = op.target) : Effects h n op (.ok answer) h'

variable {h h' : Hub} {n : Nat}

theorem isWrite_of_takesVersion {op : HubOp} (ht : op.takesVersion = true) :
    op.isWrite = true := by
  cases op with
  | addRecord record => rfl
  | call c => cases c <;> first | rfl | cases ht

theorem Untouched.refl (h : Hub) : h.Untouched h := ⟨rfl, rfl, rfl⟩

theorem effects_create (ns : String) (record : WorkStatus) :
    h.Effects n (.call (.create ns record)) (h.effect n (.call (.create ns record))).1
      (h.effect n (.call (.create ns record))).2 := by
  cases hg : h.records.get? (ns, record.metadata.name.getD "") with
  | some old =>
      have he : h.effect n (.call (.create ns record)) = (.error (.conflict
          (HubCall.recordText ns (record.metadata.name.getD "") ++ " already exists")), h) := by
        simp [effect, atOnce, perform, create, bump, hg]
      rw [he]
      exact .refused _
  | none =>
      have he : h.effect n (.call (.create ns record)) =
          (.ok ((record.setNs ns).setVersion (versionText (n + 1))), { h with
            records := h.records.insert (ns, record.metadata.name.getD "")
              ((record.setNs ns).setVersion (versionText (n + 1))) }) := by
        simp [effect, atOnce, perform, create, bump, put, hg]
      rw [he]
      exact .stores rfl rfl rfl rfl (fun r hr => (Option.some.inj hr).symm) fun _ => rfl

theorem effects_delete (ns name : String) :
    h.Effects n (.call (.delete ns name)) (h.effect n (.call (.delete ns name))).1
      (h.effect n (.call (.delete ns name))).2 := by
  cases hg : h.records.get? (ns, name) with
  | none =>
      have he : h.effect n (.call (.delete ns name)) =
          (.error (.notFound (HubCall.recordText ns name)), h) := by
        simp [effect, atOnce, perform, delete, hg]
      rw [he]
      exact .refused _
  | some old =>
      have he : h.effect n (.call (.delete ns name)) =
          (.ok (), { h with records := h.records.erase (ns, name) }) := by
        simp [effect, atOnce, perform, delete, hg]
      rw [he]
      exact .erases rfl rfl rfl rfl

theorem effects_patchLabels (ns name : String) (labels : Labels) :
    h.Effects n (.call (.patchLabels ns name labels))
      (h.effect n (.call (.patchLabels ns name labels))).1
      (h.effect n (.call (.patchLabels ns name labels))).2 := by
  cases hg : h.records.get? (ns, name) with
  | none =>
      have he : h.effect n (.call (.patchLabels ns name labels)) =
          (.error (.notFound (HubCall.recordText ns name)), h) := by
        simp [effect, atOnce, perform, patchLabels, bump, hg]
      rw [he]
      exact .refused _
  | some old =>
      have he : h.effect n (.call (.patchLabels ns name labels)) =
          (.ok ((old.mergeLabels labels).setVersion (versionText (n + 1))), { h with
            records := h.records.insert (ns, name)
              ((old.mergeLabels labels).setVersion (versionText (n + 1)))
            labelPatches := h.labelPatches + 1 }) := by
        simp [effect, atOnce, perform, patchLabels, bump, put, hg]
      rw [he]
      exact .stores rfl rfl rfl rfl (fun r hr => (Option.some.inj hr).symm) fun hold => hold old hg

/-- An update is made exactly if the record is there and it names the version of that record. -/
theorem effect_updateStatus (ns : String) (update : WorkStatus) :
    (∃ error, h.effect n (.call (.updateStatus ns update)) = (.error error, h) ∧
      ∀ old, h.records.get? (ns, update.metadata.name.getD "") = some old →
        mayReplace update old = false) ∨
    ∃ old, h.records.get? (ns, update.metadata.name.getD "") = some old ∧
      mayReplace update old = true ∧
      h.effect n (.call (.updateStatus ns update)) =
        (.ok ((old.setStatus update.status).setVersion (versionText (n + 1))), { h with
          records := h.records.insert (ns, update.metadata.name.getD "")
            ((old.setStatus update.status).setVersion (versionText (n + 1)))
          statusUpdates := h.statusUpdates + 1 }) := by
  cases hg : h.records.get? (ns, update.metadata.name.getD "") with
  | none =>
      refine Or.inl ⟨.notFound (HubCall.recordText ns (update.metadata.name.getD "")), ?_,
        fun old hold => by cases hold⟩
      simp [effect, atOnce, perform, updateStatus, bump, hg]
  | some old =>
      cases hm : mayReplace update old with
      | false =>
          refine Or.inl ⟨.conflict (HubCall.recordText ns (update.metadata.name.getD "") ++
            " has been modified"), ?_, fun old' hold => Option.some.inj hold ▸ hm⟩
          simp [effect, atOnce, perform, updateStatus, bump, hg, hm]
      | true =>
          refine Or.inr ⟨old, rfl, hm, ?_⟩
          simp [effect, atOnce, perform, updateStatus, bump, put, hg, hm]

theorem effects_updateStatus (ns : String) (update : WorkStatus) :
    h.Effects n (.call (.updateStatus ns update)) (h.effect n (.call (.updateStatus ns update))).1
      (h.effect n (.call (.updateStatus ns update))).2 := by
  rcases effect_updateStatus ns update with ⟨error, he, -⟩ | ⟨old, hg, -, he⟩
  · rw [he]
    exact .refused error
  · rw [he]
    exact .stores rfl rfl rfl rfl (fun r hr => (Option.some.inj hr).symm) fun hold => hold old hg

theorem effects_effect (h : Hub) (n : Nat) (op : HubOp) :
    h.Effects n op (h.effect n op).1 (h.effect n op).2 := by
  cases op with
  | addRecord record => exact .stores rfl rfl rfl rfl (fun r hr => by cases hr) fun _ => rfl
  | call c =>
      cases c with
      | getManifestWork ns name =>
          change h.Effects n (.call (.getManifestWork ns name)) (h.getManifestWork ns name) h
          unfold getManifestWork
          split
          · exact .reads rfl fun record hr => by cases hr
          · exact .refused _
      | getRecord ns name =>
          change h.Effects n (.call (.getRecord ns name)) (h.getRecord ns name) h
          unfold getRecord
          split
          · rename_i record hg
            exact .reads rfl fun r hr => Option.some.inj hr ▸ hg
          · exact .refused _
      | create ns record => exact effects_create ns record
      | delete ns name => exact effects_delete ns name
      | patchLabels ns name labels => exact effects_patchLabels ns name labels
      | updateStatus ns update => exact effects_updateStatus ns update

end Hub

/-! ## Traffic -/

/-- An operation under way. -/
structure Visit where
  op : HubOp
  phase : op.Phase

/-- An operation that took effect. -/
structure HubEvent where
  op : HubOp
  result : op.Result
  /-- What stood at its target afterwards. -/
  left : Option WorkStatus

namespace HubEvent

/-- A record was stored under a key or deleted there. -/
def Writes (key : RecordKey) (e : HubEvent) : Prop :=
  e.op.isWrite = true ∧ e.result.isOk = true ∧ e.op.target = key

instance (key : RecordKey) (e : HubEvent) : Decidable (e.Writes key) :=
  inferInstanceAs (Decidable (_ ∧ _ ∧ _))

/-- The status record that was answered. -/
def shown? (e : HubEvent) : Option WorkStatus :=
  match e.result with
  | .ok answer => e.op.shown answer
  | .error _ => none

end HubEvent

/-- One step of somebody at the hub. -/
inductive TrafficMove where
  | enter (op : HubOp)
  | advance (n : Nat)
  | giveUp (n : Nat)
  | mood (mood : Mood)
  | addManifestWork (work : ManifestWork)

/-- The operation that takes the step. -/
def TrafficMove.visit? : TrafficMove → Option Nat
  | .advance n | .giveUp n => some n
  | .enter _ | .mood _ | .addManifestWork _ => none

/-- All operations that were begun, and what has happened, the last of it last. -/
structure Traffic where
  hub : Hub := {}
  visits : List Visit := []
  events : List HubEvent := []

namespace Traffic

def setPhase (t : Traffic) (n : Nat) (op : HubOp) (phase : op.Phase) : Traffic :=
  { t with visits := t.visits.set n ⟨op, phase⟩ }

def finish (t : Traffic) (n : Nat) (op : HubOp) (version : Nat) : Traffic :=
  let (result, hub) := t.hub.effect version op
  { hub
    visits := t.visits.set n ⟨op, .ended result⟩
    events := t.events ++ [⟨op, result, hub.records.get? op.target⟩] }

/-- The next step of an operation. -/
def advance (t : Traffic) (n : Nat) (op : HubOp) : op.Phase → Traffic
  | .waiting =>
      t.setPhase n op
        (if t.hub.failWrites then .ended (.error (.unavailable "injected write failure"))
          else .admitted)
  | .admitted =>
      if op.takesVersion then
        ({ t with hub := t.hub.bump } : Traffic).setPhase n op (.numbered t.hub.version)
      else t.finish n op t.hub.version
  | .numbered version => t.finish n op version
  | .ended _ | .givenUp => t

/-- One step; a step that nobody can take does nothing. -/
def move (t : Traffic) : TrafficMove → Traffic
  | .enter op => { t with visits := t.visits ++ [⟨op, op.begun⟩] }
  | .advance n =>
      match t.visits[n]? with
      | some v => t.advance n v.op v.phase
      | none => t
  | .giveUp n =>
      match t.visits[n]? with
      | some v => if v.phase.isOpen then t.setPhase n v.op .givenUp else t
      | none => t
  | .mood mood => { t with hub := t.hub.inMood mood }
  | .addManifestWork work => { t with hub := t.hub.addManifestWork work }

def run (t : Traffic) (moves : List TrafficMove) : Traffic := moves.foldl move t

theorem run_concat (t : Traffic) (moves : List TrafficMove) (m : TrafficMove) :
    t.run (moves ++ [m]) = (t.run moves).move m :=
  List.foldl_append

def Succeeded (t : Traffic) (n : Nat) : Prop :=
  ∃ op answer, t.visits[n]? = some ⟨op, .ended (.ok answer)⟩

/-- An operation was answered with an error or given up. -/
def Failed (t : Traffic) (n : Nat) : Prop :=
  ∃ op, t.visits[n]? = some ⟨op, .givenUp⟩ ∨
    ∃ error, t.visits[n]? = some ⟨op, .ended (.error error)⟩

/-! ### What a step does -/

/-- What may come of a step that an operation or somebody else takes. -/
inductive Step (t : Traffic) : Option Nat → Traffic → Prop
  | rests (n? : Option Nat) : Step t n? t
  | begins (op : HubOp) : Step t none { t with visits := t.visits ++ [⟨op, op.begun⟩] }
  | tunes {h' : Hub} (hu : t.hub.Untouched h') (hv : h'.version = t.hub.version) :
      Step t none { t with hub := h' }
  | turns {n : Nat} {op : HubOp} {phase phase' : op.Phase} (hn : t.visits[n]? = some ⟨op, phase⟩)
      (hopen : phase.isOpen = true) (hearly : phase'.isEarly = true → phase.isEarly = true)
      (hnumber : ∀ version, phase' ≠ .numbered version)
      (hok : ∀ answer, phase' ≠ .ended (.ok answer)) :
      Step t (some n) (t.setPhase n op phase')
  | numbers {n : Nat} {op : HubOp} (hn : t.visits[n]? = some ⟨op, .admitted⟩) :
      Step t (some n)
        (({ t with hub := t.hub.bump } : Traffic).setPhase n op (.numbered t.hub.version))
  | effects {n version : Nat} {op : HubOp} {phase : op.Phase} {result : op.Result} {h' : Hub}
      (hn : t.visits[n]? = some ⟨op, phase⟩) (hopen : phase.isOpen = true)
      (hversion : phase = .numbered version ∨ op.takesVersion = false)
      (he : t.hub.Effects version op result h') :
      Step t (some n) ⟨h', t.visits.set n ⟨op, .ended result⟩,
        t.events ++ [⟨op, result, h'.records.get? op.target⟩]⟩

variable {t t' : Traffic} {n : Nat} {op : HubOp}

theorem step_advance {phase : op.Phase} (hn : t.visits[n]? = some ⟨op, phase⟩) :
    t.Step (some n) (t.advance n op phase) := by
  cases phase with
  | waiting =>
      rw [advance]
      split
      · exact .turns hn rfl (fun h => by cases h) (fun _ h => by cases h) fun _ h => by cases h
      · exact .turns hn rfl (fun _ => rfl) (fun _ h => by cases h) fun _ h => by cases h
  | admitted =>
      rw [advance]
      split
      · exact .numbers hn
      · rename_i ht
        exact .effects hn rfl (Or.inr (Bool.not_eq_true _ ▸ ht)) (t.hub.effects_effect _ op)
  | numbered version => exact .effects hn rfl (Or.inl rfl) (t.hub.effects_effect version op)
  | ended result => exact .rests _
  | givenUp => exact .rests _

theorem step_move (t : Traffic) (m : TrafficMove) : t.Step m.visit? (t.move m) := by
  cases m with
  | enter op => exact .begins op
  | advance n =>
      simp only [move]
      split
      · rename_i v hn
        exact step_advance hn
      · exact .rests _
  | giveUp n =>
      simp only [move]
      split
      · rename_i v hn
        split
        · rename_i hopen
          exact .turns hn hopen (fun h => by cases h) (fun _ h => by cases h) fun _ h => by cases h
        · exact .rests _
      · exact .rests _
  | mood mood => exact .tunes ⟨rfl, rfl, rfl⟩ rfl
  | addManifestWork work => exact .tunes ⟨rfl, rfl, rfl⟩ rfl

/-! ### Operations that nothing comes between -/

/-- An operation is the last that was begun. -/
def withLast (t : Traffic) (op : HubOp) (phase : op.Phase) : Traffic :=
  { t with visits := t.visits ++ [⟨op, phase⟩] }

theorem move_advance_withLast (t : Traffic) (op : HubOp) (phase : op.Phase) :
    (t.withLast op phase).move (.advance t.visits.length) =
      (t.withLast op phase).advance t.visits.length op phase := by
  have hn : (t.withLast op phase).visits[t.visits.length]? = some ⟨op, phase⟩ := by
    simp [withLast]
  simp only [move, hn]

theorem set_withLast (t : Traffic) (v w : Visit) :
    (t.visits ++ [v]).set t.visits.length w = t.visits ++ [w] := by
  simp

/-- Only an operation that is to store a record moves the version on. -/
theorem version_atOnce {h : Hub} (hf : h.failWrites = false) (op : HubOp) :
    (h.atOnce op).2.version = if op.takesVersion then h.version + 1 else h.version := by
  cases op with
  | addRecord record => rfl
  | call c =>
      simp only [Hub.atOnce, Hub.perform, hf, Bool.and_false, Bool.false_eq_true, if_false]
      cases c with
      | getManifestWork | getRecord => rfl
      | create ns record => simp only [Hub.create]; split <;> rfl
      | delete ns name => simp only [Hub.delete]; split <;> rfl
      | patchLabels ns name labels => simp only [Hub.patchLabels]; split <;> rfl
      | updateStatus ns record =>
          simp only [Hub.updateStatus]
          split
          · rfl
          · split <;> rfl

theorem effect_eq_atOnce {h : Hub} (hf : h.failWrites = false ∨ op.begun = .admitted) :
    (if op.takesVersion then h.bump else h).effect h.version op = h.atOnce op := by
  cases op with
  | addRecord record => rfl
  | call c =>
      cases hw : c.isWrite with
      | false =>
          cases c with
          | getManifestWork | getRecord => cases h; rfl
          | create | delete | patchLabels | updateStatus => cases hw
      | true =>
          have hf : h.failWrites = false := hf.resolve_right (by simp [HubOp.begun, hw])
          have hversion := version_atOnce hf (.call c)
          have hmood : (h.perform c).2.failWrites = false :=
            (congrArg Mood.failWrites (h.mood_perform c)).trans hf
          generalize hbase : (if (HubOp.call c).takesVersion then h.bump else h) = base
          have hview : ({ base with version := h.version, failWrites := false } : Hub) = h := by
            subst hbase
            cases h
            cases hf
            split <;> rfl
          have hlast : base.version = (h.perform c).2.version ∧
              base.failWrites = (h.perform c).2.failWrites := by
            rw [hmood]
            refine ⟨?_, ?_⟩
            · rw [← hbase]
              refine Eq.trans ?_ hversion.symm
              split <;> rfl
            · subst hbase
              split <;> exact hf
          unfold Hub.effect
          rw [hview, hlast.1, hlast.2]
          rfl

theorem finish_withLast (t : Traffic) {phase : op.Phase} (version : Nat) :
    (t.withLast op phase).finish t.visits.length op version =
      ({ t with
        hub := (t.hub.effect version op).2
        events := t.events ++ [⟨op, (t.hub.effect version op).1,
          (t.hub.effect version op).2.records.get? op.target⟩] } : Traffic).withLast op
        (.ended (t.hub.effect version op).1) := by
  simp only [finish, withLast, set_withLast]

/-- An operation is answered, and the hub is left, as at once. -/
structure Served (t : Traffic) (op : HubOp) (t' : Traffic) : Prop where
  hub : t'.hub = (t.hub.atOnce op).2
  visits : t'.visits = t.visits ++ [⟨op, .ended (t.hub.atOnce op).1⟩]

theorem Served.advance (h : t.Served op t') : t'.move (.advance t.visits.length) = t' := by
  have hn : t'.visits[t.visits.length]? = some ⟨op, .ended (t.hub.atOnce op).1⟩ := by
    simp [h.visits]
  simp only [move, hn]
  rfl

theorem served_finish {t₀ : Traffic} {phase : op.Phase} (hvisits : t.visits = t₀.visits)
    {version : Nat} (heffect : t.hub.effect version op = t₀.hub.atOnce op) :
    t₀.Served op ((t.withLast op phase).finish t.visits.length op version) := by
  rw [finish_withLast, heffect]
  exact ⟨rfl, by simp only [withLast, hvisits]⟩

theorem served_of_admitted (hf : t.hub.failWrites = false ∨ op.begun = .admitted) :
    t.Served op (((t.withLast op .admitted).move (.advance t.visits.length)).move
      (.advance t.visits.length)) := by
  have heffect := effect_eq_atOnce hf
  rw [move_advance_withLast, advance]
  split
  · rename_i ht
    rw [if_pos ht] at heffect
    have hnumbered : (({ t.withLast op .admitted with hub := t.hub.bump } : Traffic).setPhase
        t.visits.length op (.numbered t.hub.version)) =
          ({ t with hub := t.hub.bump } : Traffic).withLast op (.numbered t.hub.version) := by
      simp only [setPhase, withLast, set_withLast]
    have hadvance := move_advance_withLast ({ t with hub := t.hub.bump } : Traffic) op
      (.numbered t.hub.version)
    have hvisits : ({ t with hub := t.hub.bump } : Traffic).visits = t.visits := rfl
    have hserved : t.Served op
        ((({ t with hub := t.hub.bump } : Traffic).withLast op (.numbered t.hub.version)).finish
          t.visits.length op t.hub.version) :=
      served_finish hvisits heffect
    exact hnumbered.symm ▸ hadvance.symm ▸ hserved
  · rename_i ht
    rw [if_neg ht] at heffect
    have hserved : t.Served op
        ((t.withLast op .admitted).finish t.visits.length op t.hub.version) :=
      served_finish rfl heffect
    have hrests := hserved.advance
    exact hrests.symm ▸ hserved

theorem withLast_of_refused {c : HubCall} (hw : c.isWrite = true) (hf : t.hub.failWrites = true) :
    t.Served (.call c)
      (t.withLast (.call c) (.ended (.error (.unavailable "injected write failure")))) := by
  have hperform : t.hub.perform c =
      (HubCall.fail (.unavailable "injected write failure") c, t.hub) := by
    unfold Hub.perform
    rw [hw, hf]
    rfl
  refine ⟨(congrArg Prod.snd hperform).symm, ?_⟩
  have hresult : (t.hub.atOnce (.call c)).1 =
      HubCall.fail (.unavailable "injected write failure") c := congrArg Prod.fst hperform
  rw [hresult]
  cases c <;> rfl

/-- The steps of an operation, with nothing between them, are the operation at once. -/
theorem served_alone (t : Traffic) (op : HubOp) :
    t.Served op (t.run [.enter op, .advance t.visits.length, .advance t.visits.length,
      .advance t.visits.length]) := by
  simp only [run, List.foldl_cons, List.foldl_nil]
  have henter : t.move (.enter op) = t.withLast op op.begun := rfl
  rw [henter]
  by_cases hadmitted : op.begun = .admitted
  · rw [hadmitted]
    have hserved := served_of_admitted (t := t) (Or.inr hadmitted)
    exact hserved.advance.symm ▸ hserved
  · -- Only a write of a call waits first.
    cases op with
    | addRecord record => exact absurd rfl hadmitted
    | call c =>
        cases hw : c.isWrite with
        | false => simp [HubOp.begun, hw] at hadmitted
        | true =>
            have hwaits : (HubOp.call c).begun = .waiting := by simp [HubOp.begun, hw]
            have hlooks : (t.withLast (.call c) .waiting).setPhase t.visits.length (.call c) =
                t.withLast (.call c) := by
              funext phase
              simp only [setPhase, withLast, set_withLast]
            rw [hwaits, move_advance_withLast, advance, hlooks]
            change t.Served _ (((t.withLast _ (if t.hub.failWrites then _ else _)).move _).move _)
            cases hf : t.hub.failWrites with
            | true =>
                rw [if_pos rfl]
                have hserved := withLast_of_refused hw hf
                rw [hserved.advance, hserved.advance]
                exact hserved
            | false =>
                rw [if_neg Bool.false_ne_true]
                exact served_of_admitted (Or.inl hf)

end Traffic
end StatusRelay
