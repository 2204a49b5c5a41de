import StatusRelay.Proofs.Floor

/-!
# Stages of a reconcile

The program of a key is at one of finitely many kinds of places, each with the data that it still
needs: `Stage`. `rest` is the part of the program that is left at a stage, made of the same
functions as the whole. The lemmas on `rest` say, for every stage, which request comes next and
where each answer leads.
-/
namespace StatusRelay

open Projector Reconciler

/-- An entry that came to be tracked or ceased to be. -/
structure Change where
  gained : Bool
  entry : AppliedResource
  deriving DecidableEq, Repr

namespace Change

/-- What has to be done about the difference of two sets, in order. -/
def ofDifference (d : AppliedSet.Difference) : List Change :=
  d.added.entries.map (⟨true, ·⟩) ++ d.removed.entries.map (⟨false, ·⟩)

def uid (c : Change) : String := c.entry.uid

def program (c : Change) : Program Unit :=
  if c.gained then startTrackingOne c.entry else stopTrackingOne c.entry

/-- The key that is queued for the object concerned. -/
def key (c : Change) (resource : ApiResource) : ObjectKey :=
  let live : ObjectKey := ⟨resource.resourceKind, c.entry.ns, c.entry.name, none⟩
  if c.gained then live else live.intoDeleted

def programs : List Change → Program Unit
  | [] => pure ()
  | c :: rest => do
      c.program
      programs rest

theorem programs_append (cs ds : List Change) :
    programs (cs ++ ds) = (programs cs).bind fun _ => programs ds := by
  induction cs with
  | nil => rfl
  | cons c rest ih =>
      change c.program.bind (fun _ => programs (rest ++ ds)) =
        (c.program.bind fun _ => programs rest).bind fun _ => programs ds
      rw [ih, Program.bind_assoc]

theorem programs_gained (entries : List AppliedResource) :
    programs (entries.map (⟨true, ·⟩)) = startTracking entries := by
  induction entries with
  | nil => rfl
  | cons e rest ih =>
      change (startTrackingOne e).bind (fun _ => programs (rest.map (⟨true, ·⟩))) = _
      rw [ih]
      rfl

theorem programs_lost (entries : List AppliedResource) :
    programs (entries.map (⟨false, ·⟩)) = stopTracking entries := by
  induction entries with
  | nil => rfl
  | cons e rest ih =>
      change (stopTrackingOne e).bind (fun _ => programs (rest.map (⟨false, ·⟩))) = _
      rw [ih]
      rfl

theorem programs_ofDifference (d : AppliedSet.Difference) :
    programs (ofDifference d) = applyChanges d := by
  rw [ofDifference, programs_append, programs_gained, programs_lost]
  rfl

end Change

inductive Stage where
  /-- Nothing was asked yet. -/
  | fresh
  /-- The object was found. -/
  | found (o : Object)
  /-- The object has an owner; its record is to be read. -/
  | reading (o : Object) (owner : TrackedOwner)
  /-- There is no record; the owning deployment record is to be read. -/
  | fetching (o : Object) (owner : TrackedOwner)
  /-- The owner is managed; the resource of the object's kind is to be looked up. -/
  | resolving (o : Object) (work : ManifestWork)
  | creating (o : Object) (record : WorkStatus)
  /-- The record lacks the object's label. -/
  | patching (o : Object) (record : WorkStatus) (label : String)
  /-- The record lacks the object's status. -/
  | updating (record : WorkStatus) (status : Json)
  /-- A record is to be removed, if it is there. -/
  | looking (record : String)
  | erasing (record : String)
  /-- The set of a deployment record is to be stored. -/
  | replacing (work manifestWork : String) (applied : AppliedSet)
  /-- A deployment record is to be forgotten. -/
  | removing (work : String)
  /-- Changes of what is tracked are to take effect. -/
  | changing (changes : List Change)
  /-- The registry is to be told of the first of them. -/
  | telling (c : Change) (resource : ApiResource) (changes : List Change)
  /-- The key of its object is to be queued. -/
  | posting (c : Change) (resource : ApiResource) (changes : List Change)
  | finished (result : Except AgentError Outcome)

/-- The request that a program makes next. -/
def Program.request? {α : Type} : Program α → Option Request
  | .done _ => none
  | .ask r _ => some r

instance : LawfulMonad Program :=
  LawfulMonad.mk' Program (fun p => Program.bind_done p) (fun _ _ => rfl) Program.bind_assoc

namespace Stage

/-- What is left once the changes that remain have taken effect. -/
def settleAfter (changes : Program Unit) : Reconcile := changes.bind fun _ => .done (.ok .settled)

/-- The program that is left. -/
def rest (cluster : String) (key : ObjectKey) : Stage → Reconcile
  | fresh => (do
      match ← resolve key with
      | .nothing => pure .settled
      | .live o =>
          if key.kind = appliedWorkKind then reconcileWork o else reconcileObject cluster key o
      | .gone snapshot =>
          if key.kind = appliedWorkKind then workGone snapshot.name
          else objectGone cluster snapshot : Attempt Outcome).run
  | found o => (reconcileObject cluster key o).run
  | reading o owner => (do
      sync cluster o key.kind owner
      pure .settled : Attempt Outcome).run
  | fetching o owner => (do
      match ← create cluster o key.kind owner with
      | none => pure .settled
      | some record =>
          let record ← syncLabel cluster o record
          syncStatus cluster o record
          pure .settled : Attempt Outcome).run
  | resolving o work => (do
      let resource ← Attempt.resourceOfKind key.kind
      let record ←
        Attempt.hub (.create cluster (newRecord cluster o key.kind work resource.plural))
      let record ← syncLabel cluster o record
      syncStatus cluster o record
      pure .settled : Attempt Outcome).run
  | creating o record => (do
      let record ← Attempt.hub (.create cluster record)
      let record ← syncLabel cluster o record
      syncStatus cluster o record
      pure .settled : Attempt Outcome).run
  | patching o record label => (do
      let record ← Attempt.hub
        (.patchLabels cluster record.name (.ofList [(Labels.singletonKey, label)]))
      syncStatus cluster o record
      pure .settled : Attempt Outcome).run
  | updating record status => (do
      let _ ← Attempt.hub (.updateStatus cluster (record.setStatus (some status)))
      pure .settled : Attempt Outcome).run
  | looking record => (do
      match ← Attempt.hub? (.getRecord cluster record) with
      | none => pure .settled
      | some _ =>
          let _ ← Attempt.hub? (.delete cluster record)
          pure .settled : Attempt Outcome).run
  | erasing record => (do
      let _ ← Attempt.hub? (.delete cluster record)
      pure .settled : Attempt Outcome).run
  | replacing work manifestWork applied => (do
      let changes ← Attempt.request (.replaceSet work manifestWork applied)
      if changes.isEmpty then pure .settled
      else do
        let _ ← ExceptT.lift (applyChanges changes)
        pure .settled : Attempt Outcome).run
  | removing work => (workGone work).run
  | changing changes => settleAfter (Change.programs changes)
  | telling c resource changes =>
      .ask (if c.gained then .acquire resource c.uid else .release resource.resourceKind c.uid)
        fun _ => .ask (.enqueue (c.key resource)) fun _ => settleAfter (Change.programs changes)
  | posting c resource changes =>
      .ask (.enqueue (c.key resource)) fun _ => settleAfter (Change.programs changes)
  | finished result => .done result

/-- Where the program of a key starts. -/
def first (key : ObjectKey) : Stage :=
  if key.name = "" then finished (.error (.invalidKey (key.kind.text ++ " key without a name")))
  else fresh

/-- What follows once the record has the object's label. -/
def labelled (o : Object) (record : WorkStatus) : Stage :=
  match o.status with
  | none => finished (.ok .settled)
  | some status =>
      if holds record status then finished (.ok .settled) else updating record status

/-- What follows once there is a record. -/
def recorded (o : Object) (record : WorkStatus) : Stage :=
  match o.metadata.label? Labels.singletonKey with
  | none => labelled o record
  | some label =>
      if record.metadata.labelSet.get? Labels.singletonKey = some label then labelled o record
      else patching o record label

/-- The stage after a record was to be written. -/
def written (next : WorkStatus → Stage) : Except AgentError WorkStatus → Stage
  | .ok record => next record
  | .error e => finished (.error e)

/-- The stage after a record was to be deleted. -/
def erased : Except AgentError Unit → Stage
  | .ok () => finished (.ok .settled)
  | .error e => if e.isNotFound then finished (.ok .settled) else finished (.error e)

/-- What follows once a deployment record was found. -/
def opened (o : Object) : Stage :=
  match AppliedWork.ofObject o with
  | .error cause =>
      finished (.error (.malformed ("AppliedManifestWork " ++ o.name ++ ": " ++ cause.text)))
  | .ok work =>
      let applied := AppliedSet.ofResources work.resources
      if applied.isEmpty && !o.isBeingDeleted then finished (.ok .again)
      else replacing o.name work.manifestWork applied

variable {cluster name : String} {key : ObjectKey} {o : Object} {record : WorkStatus}

/-! ## Programs that may fail -/

theorem run_request_bind {α : Type} (r : Request) (f : r.Answer → Attempt α) :
    (Attempt.request r >>= f).run = .ask r fun answer => (f answer).run := rfl

theorem run_hub_bind {α : Type} (call : HubCall) (f : call.Answer → Attempt α) :
    (Attempt.hub call >>= f).run = .ask (.hub call) fun answer =>
      match answer with
      | .ok value => (f value).run
      | .error e => .done (.error e) := by
  change Program.ask _ _ = Program.ask _ _
  congr 1
  funext answer
  cases answer <;> rfl

theorem run_hub?_bind {α : Type} (call : HubCall) (f : Option call.Answer → Attempt α) :
    (Attempt.hub? call >>= f).run = .ask (.hub call) fun answer =>
      match answer with
      | .ok value => (f (some value)).run
      | .error e => if e.isNotFound then (f none).run else .done (.error e) := by
  change Program.ask _ _ = Program.ask _ _
  congr 1
  funext answer
  cases answer with
  | ok value => rfl
  | error e => cases he : e.isNotFound <;> simp [he, Program.bind, ExceptT.bindCont] <;> rfl

theorem run_delete (cluster kind ns name : String) (key : ObjectKey) :
    (do
      Projector.delete cluster kind ns name
      pure .settled : Attempt Outcome).run =
      (looking (recordName kind ns name)).rest cluster key := by
  unfold Projector.delete
  simp only [bind_assoc]
  change _ = (Attempt.hub? (.getRecord cluster (recordName kind ns name)) >>= _).run
  congr 2
  funext record?
  cases record? with
  | none => rfl
  | some _ => simp only [bind_assoc, pure_bind]

theorem rest_first : (first key).rest cluster key = (reconcile cluster key).run := by
  unfold first reconcile
  split
  · rfl
  · rfl

theorem settleAfter_lift (changes : Program Unit) :
    (do
      let _ ← ExceptT.lift changes
      pure .settled : Attempt Outcome).run = settleAfter changes := by
  change (changes.bind fun u => .done (Except.ok u)).bind _ = _
  rw [Program.bind_assoc]
  rfl

theorem rest_labelled : (labelled o record).rest cluster key =
    (do
      syncStatus cluster o record
      pure .settled : Attempt Outcome).run := by
  unfold labelled syncStatus
  cases o.status with
  | none => rfl
  | some status =>
      simp only
      split
      · rfl
      · change Program.ask _ _ = Program.ask _ _
        congr 1
        funext answer
        cases answer <;> rfl

theorem rest_recorded : (recorded o record).rest cluster key =
    (do
      let record ← syncLabel cluster o record
      syncStatus cluster o record
      pure .settled : Attempt Outcome).run := by
  unfold recorded syncLabel
  cases o.metadata.label? Labels.singletonKey with
  | none => exact rest_labelled
  | some label =>
      simp only
      split
      · exact rest_labelled
      · rfl

theorem rest_opened : (opened o).rest cluster key = (reconcileWork o).run := by
  unfold opened reconcileWork
  cases AppliedWork.ofObject o with
  | error cause => rfl
  | ok work =>
      simp only
      split <;> rfl

/-! ## The requests of each stage -/

theorem rest_fresh : fresh.rest cluster key =
    .ask (.find key.kind key.ns key.name) fun sighting =>
      (match sighting, key.deleted with
        | .present o, _ => if key.kind = appliedWorkKind then opened o else found o
        | _, some snapshot =>
            if key.kind = appliedWorkKind then removing snapshot.name
            else looking (recordName snapshot.kind snapshot.ns snapshot.name)
        | .absent, none => finished (.ok .settled)
        | .noWatch, none => finished (.error (.listerNotFound key.kind.text))).rest
        cluster key := by
  change (resolve key >>= _ : Attempt Outcome).run = _
  unfold resolve
  rw [bind_assoc, run_request_bind]
  congr 1
  funext sighting
  cases sighting with
  | present o =>
      simp only [pure_bind]
      split
      · exact rest_opened.symm
      · rfl
  | absent | noWatch =>
      cases key.deleted with
      | none => rfl
      | some snapshot =>
          simp only [pure_bind]
          split
          · rfl
          · exact run_delete ..

theorem rest_found : (found o).rest cluster key = .ask (.ownerOf o.uid) fun owner? =>
    (match owner? with
      | some owner => reading o owner
      | none =>
          if key.isDeleted then looking (recordName key.kind.kind key.ns key.name)
          else finished (.ok .settled)).rest cluster key := by
  change (reconcileObject cluster key o).run = _
  unfold reconcileObject
  rw [run_request_bind]
  congr 1
  funext owner?
  cases owner? with
  | some owner => rfl
  | none =>
      simp only
      split
      · exact run_delete ..
      · rfl

theorem rest_reading {owner : TrackedOwner} : (reading o owner).rest cluster key =
    .ask (.hub (.getRecord cluster (recordNameOf o key.kind))) fun answer =>
      (match answer with
        | .ok record => recorded o record
        | .error e => if e.isNotFound then fetching o owner else finished (.error e)).rest
        cluster key := by
  change (sync cluster o key.kind owner >>= _ : Attempt Outcome).run = _
  unfold sync recordFor
  simp only [bind_assoc]
  rw [run_hub?_bind]
  congr 1
  funext answer
  cases answer with
  | ok record => simp only [rest_recorded, bind_assoc, pure_bind]
  | error e =>
      simp only
      split
      · change _ = (create cluster o key.kind owner >>= _ : Attempt Outcome).run
        congr 2
        funext record?
        cases record? with
        | none => rfl
        | some record => simp only [bind_assoc]
      · rfl

theorem rest_fetching {owner : TrackedOwner} : (fetching o owner).rest cluster key =
    .ask (.hub (.getManifestWork cluster owner.manifestWork)) fun answer =>
      (match answer with
        | .ok work => if work.labels.isManaged then resolving o work else finished (.ok .settled)
        | .error e => finished (.error e)).rest cluster key := by
  change (create cluster o key.kind owner >>= _ : Attempt Outcome).run = _
  unfold create
  rw [bind_assoc, run_hub_bind]
  congr 1
  funext answer
  cases answer with
  | ok work =>
      simp only
      split
      · simp only [bind_assoc, pure_bind]
        rfl
      · rfl
  | error e => rfl

theorem rest_creating : (creating o record).rest cluster key =
    .ask (.hub (.create cluster record)) fun answer =>
      (written (recorded o) answer).rest cluster key := by
  change (Attempt.hub (.create cluster record) >>= _ : Attempt Outcome).run = _
  rw [run_hub_bind]
  congr 1
  funext answer
  cases answer with
  | ok record => exact rest_recorded.symm
  | error e => rfl

theorem rest_resolving {work : ManifestWork} : (resolving o work).rest cluster key =
    .ask (.resourceOfKind key.kind) fun answer =>
      (match answer with
        | .ok resource => creating o (newRecord cluster o key.kind work resource.plural)
        | .error e => finished (.error e)).rest cluster key := by
  change Program.ask _ _ = Program.ask _ _
  congr 1
  funext answer
  cases answer <;> rfl

theorem rest_patching {label : String} : (patching o record label).rest cluster key =
    .ask (.hub (.patchLabels cluster record.name (.ofList [(Labels.singletonKey, label)])))
      fun answer => (written (labelled o) answer).rest cluster key := by
  change (Attempt.hub (.patchLabels ..) >>= _ : Attempt Outcome).run = _
  rw [run_hub_bind]
  congr 1
  funext answer
  cases answer with
  | ok record => exact rest_labelled.symm
  | error e => rfl

theorem rest_updating {status : Json} : (updating record status).rest cluster key =
    .ask (.hub (.updateStatus cluster (record.setStatus (some status)))) fun answer =>
      (written (fun _ => finished (.ok .settled)) answer).rest cluster key := by
  change (Attempt.hub (.updateStatus ..) >>= _ : Attempt Outcome).run = _
  rw [run_hub_bind]
  congr 1
  funext answer
  cases answer <;> rfl

theorem rest_looking : (looking name).rest cluster key =
    .ask (.hub (.getRecord cluster name)) fun answer =>
      (match answer with
        | .ok _ => erasing name
        | .error e =>
            if e.isNotFound then finished (.ok .settled) else finished (.error e)).rest
        cluster key := by
  change (Attempt.hub? (.getRecord cluster name) >>= _ : Attempt Outcome).run = _
  rw [run_hub?_bind]
  congr 1
  funext answer
  cases answer with
  | ok _ => rfl
  | error e =>
      simp only
      split <;> rfl

theorem rest_erasing : (erasing name).rest cluster key =
    .ask (.hub (.delete cluster name)) fun answer => (erased answer).rest cluster key := by
  change (Attempt.hub? (.delete cluster name) >>= _ : Attempt Outcome).run = _
  rw [run_hub?_bind]
  congr 1
  funext answer
  cases answer with
  | ok _ => rfl
  | error e =>
      simp only [erased]
      split <;> rfl

theorem rest_replacing {work manifestWork : String} {applied : AppliedSet} :
    (replacing work manifestWork applied).rest cluster key =
      .ask (.replaceSet work manifestWork applied) fun changes =>
        (changing (Change.ofDifference changes)).rest cluster key := by
  change (Attempt.request (.replaceSet work manifestWork applied) >>= _ : Attempt Outcome).run = _
  rw [run_request_bind]
  congr 1
  funext changes
  change _ = settleAfter (Change.programs (Change.ofDifference changes))
  split
  · rename_i he
    rw [AppliedSet.Difference.isEmpty, Bool.and_eq_true, AppliedSet.isEmpty_eq_true_iff,
      AppliedSet.isEmpty_eq_true_iff] at he
    rw [Change.ofDifference, he.1, he.2]
    rfl
  · rw [settleAfter_lift, Change.programs_ofDifference]

theorem rest_removing {work : String} : (removing work).rest cluster key =
    .ask (.removeSet work) fun released =>
      (changing (Change.ofDifference { removed := released.getD {} })).rest cluster key := by
  change (Attempt.request (.removeSet work) >>= _ : Attempt Outcome).run = _
  rw [run_request_bind]
  congr 1
  funext released
  change _ = settleAfter (Change.programs (Change.ofDifference { removed := released.getD {} }))
  cases released with
  | none => rfl
  | some applied =>
      simp only [settleAfter_lift, Change.ofDifference, List.map_nil, List.nil_append,
        Change.programs_lost, Option.getD_some]

theorem rest_changing {c : Change} {changes : List Change} :
    (changing (c :: changes)).rest cluster key =
      .ask (.resourceNamed c.entry.group c.entry.version c.entry.resource) fun answer =>
        (match answer with
          | .ok resource => telling c resource changes
          | .error _ => changing changes).rest cluster key := by
  obtain ⟨gained, entry⟩ := c
  change (Change.program ⟨gained, entry⟩ >>= fun _ => Change.programs changes).bind _ = _
  cases gained
  all_goals
    change Program.ask _ _ = Program.ask _ _
    congr 1
    funext answer
    cases answer <;> rfl

theorem rest_telling {c : Change} {resource : ApiResource} {changes : List Change} :
    (telling c resource changes).rest cluster key =
      .ask (if c.gained then .acquire resource c.uid else .release resource.resourceKind c.uid)
        fun _ => (posting c resource changes).rest cluster key := rfl

theorem rest_posting {c : Change} {resource : ApiResource} {changes : List Change} :
    (posting c resource changes).rest cluster key =
      .ask (.enqueue (c.key resource)) fun _ => (changing changes).rest cluster key := rfl

/-! ## The next request -/

/-- The request that comes next, if any. -/
def next? (cluster : String) (key : ObjectKey) : Stage → Option Request
  | fresh => some (.find key.kind key.ns key.name)
  | found o => some (.ownerOf o.uid)
  | reading o _ => some (.hub (.getRecord cluster (recordNameOf o key.kind)))
  | fetching _ owner => some (.hub (.getManifestWork cluster owner.manifestWork))
  | resolving _ _ => some (.resourceOfKind key.kind)
  | creating _ record => some (.hub (.create cluster record))
  | patching _ record label =>
      some (.hub (.patchLabels cluster record.name (.ofList [(Labels.singletonKey, label)])))
  | updating record status => some (.hub (.updateStatus cluster (record.setStatus (some status))))
  | looking record => some (.hub (.getRecord cluster record))
  | erasing record => some (.hub (.delete cluster record))
  | replacing work manifestWork applied => some (.replaceSet work manifestWork applied)
  | removing work => some (.removeSet work)
  | changing [] => none
  | changing (c :: _) => some (.resourceNamed c.entry.group c.entry.version c.entry.resource)
  | telling c resource _ =>
      some (if c.gained then .acquire resource c.uid else .release resource.resourceKind c.uid)
  | posting c resource _ => some (.enqueue (c.key resource))
  | finished _ => none

theorem request?_rest (st : Stage) : (st.rest cluster key).request? = st.next? cluster key := by
  cases st with
  | fresh => rw [rest_fresh]; rfl
  | found => rw [rest_found]; rfl
  | reading => rw [rest_reading]; rfl
  | fetching => rw [rest_fetching]; rfl
  | changing changes =>
      cases changes with
      | nil => rfl
      | cons c changes => rw [rest_changing]; rfl
  | resolving | creating | patching | updating | looking | erasing | replacing | removing | telling
  | posting | finished => rfl

end Stage
end StatusRelay
