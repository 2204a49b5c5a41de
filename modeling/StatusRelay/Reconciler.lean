import StatusRelay.Projector

/-!
# Reconciling keys

A key is taken to the live object in the cache of its kind's watch, or else to the snapshot it
carries. A deployment record replaces the set tracked for it: what was added acquires watches, what
nobody lists any more gives them up, and every object concerned is queued. Any other object is
projected if some record lists its UID. A deletion key that finds its object alive but not tracked
removes the status record.
-/
namespace StatusRelay

/-- How a reconcile ends when it does not fail: settled, or to be tried again because something is
not there yet. -/
inductive Outcome where
  | settled
  | again
  deriving DecidableEq, Repr

/-- What a key stands for when it is processed. -/
inductive Resolved where
  | live (o : Object)
  | gone (snapshot : DeletedSnapshot)
  | nothing
  deriving Repr

namespace Reconciler

/-- The live object, or else the key's snapshot. -/
def resolve (key : ObjectKey) : Attempt Resolved := do
  match ← Attempt.request (.find key.kind key.ns key.name), key.deleted with
  | .present o, _ => pure (.live o)
  | _, some snapshot => pure (.gone snapshot)
  | .absent, none => pure .nothing
  | .noWatch, none => throw (.listerNotFound key.kind.text)

/-- Makes one listed object watched and queues it. An object whose resource is not known is passed
over. -/
def startTrackingOne (entry : AppliedResource) : Program Unit := do
  match ← Program.request (.resourceNamed entry.group entry.version entry.resource) with
  | .error _ => pure ()
  | .ok resource =>
      let _ ← Program.request (.acquire resource entry.uid)
      Program.request (.enqueue ⟨resource.resourceKind, entry.ns, entry.name, none⟩)

/-- Gives up one object's hold on its watch and queues its removal. -/
def stopTrackingOne (entry : AppliedResource) : Program Unit := do
  match ← Program.request (.resourceNamed entry.group entry.version entry.resource) with
  | .error _ => pure ()
  | .ok resource =>
      let _ ← Program.request (.release resource.resourceKind entry.uid)
      let key : ObjectKey := ⟨resource.resourceKind, entry.ns, entry.name, none⟩
      Program.request (.enqueue key.intoDeleted)

def startTracking : List AppliedResource → Program Unit
  | [] => pure ()
  | entry :: rest => do
      startTrackingOne entry
      startTracking rest

def stopTracking : List AppliedResource → Program Unit
  | [] => pure ()
  | entry :: rest => do
      stopTrackingOne entry
      stopTracking rest

/-- What changed in the set of a deployment record takes effect. -/
def applyChanges (changes : AppliedSet.Difference) : Program Unit := do
  startTracking changes.added.entries
  stopTracking changes.removed.entries

/-- A deployment record that exists. One that lists nothing yet and is not on its way out is tried
again. -/
def reconcileWork (o : Object) : Attempt Outcome :=
  match AppliedWork.ofObject o with
  | .error cause => throw (.malformed ("AppliedManifestWork " ++ o.name ++ ": " ++ cause.text))
  | .ok work =>
      let applied := AppliedSet.ofResources work.resources
      if applied.isEmpty && !o.isBeingDeleted then pure .again
      else do
        let changes ← Attempt.request (.replaceSet o.name work.manifestWork applied)
        if changes.isEmpty then pure .settled
        else do
          let _ ← ExceptT.lift (applyChanges changes)
          pure .settled

/-- A deployment record that is gone. -/
def workGone (name : String) : Attempt Outcome := do
  match ← Attempt.request (.removeSet name) with
  | some applied =>
      let _ ← ExceptT.lift (stopTracking applied.entries)
      pure .settled
  | none => pure .settled

/-- An object that exists. -/
def reconcileObject (cluster : String) (key : ObjectKey) (o : Object) : Attempt Outcome := do
  match ← Attempt.request (.ownerOf o.uid) with
  | some owner =>
      Projector.sync cluster o key.kind owner
      pure .settled
  | none =>
      if key.isDeleted then do
        Projector.delete cluster key.kind.kind key.ns key.name
        pure .settled
      else pure .settled

/-- An object that is gone. -/
def objectGone (cluster : String) (snapshot : DeletedSnapshot) : Attempt Outcome := do
  Projector.delete cluster snapshot.kind snapshot.ns snapshot.name
  pure .settled

/-- The work of one key. -/
def reconcile (cluster : String) (key : ObjectKey) : Attempt Outcome :=
  if key.name = "" then throw (.invalidKey (key.kind.text ++ " key without a name"))
  else do
    match ← resolve key with
    | .nothing => pure .settled
    | .live o =>
        if key.kind = appliedWorkKind then reconcileWork o
        else reconcileObject cluster key o
    | .gone snapshot =>
        if key.kind = appliedWorkKind then workGone snapshot.name
        else objectGone cluster snapshot

end Reconciler
end StatusRelay
