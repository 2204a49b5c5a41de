import StatusRelay.Program
import StatusRelay.Duration
import StatusRelay.RecordName
import StatusRelay.Text.Quoted

/-!
# Projecting objects to the hub

`sync` brings the status record of a live object up to date and `delete` removes it. A record is
created with the labels of the deployment record that owns the object, which has to be managed, and
with that record as its owner. Afterwards only the label that asks for an individual record and the
status are written, each only if it differs, so what others change in a record stays.
-/
namespace StatusRelay

namespace Projector

def recordNameOf (o : Object) (kind : ResourceKind) : String := recordName kind.kind o.ns o.name

/-- Deletes the record of an object; a missing record is fine. -/
def delete (cluster kind ns name : String) : Attempt Unit := do
  let record := recordName kind ns name
  match ← Attempt.hub? (.getRecord cluster record) with
  | none => pure ()
  | some _ =>
      let _ ← Attempt.hub? (.delete cluster record)
      pure ()

/-- The labels of a new record. -/
def newLabels (o : Object) (work : ManifestWork) : Labels :=
  match o.metadata.label? Labels.singletonKey with
  | some value => work.labels.insert Labels.singletonKey value
  | none => work.labels

/-- The record that is created for an object. -/
def newRecord (cluster : String) (o : Object) (kind : ResourceKind) (work : ManifestWork)
    (plural : String) : WorkStatus :=
  let empty := WorkStatus.empty (recordNameOf o kind) cluster
  { empty with
    metadata := { empty.metadata with
      labels := some (newLabels o work)
      ownerReferences := work.ownerReference?.map ([·]) }
    source := {
      group := kind.group
      version := kind.version
      resource := plural
      kind := kind.kind
      name := o.name
      ns := o.ns } }

/-- Creates the record; nothing if the owning deployment record is not managed. -/
def create (cluster : String) (o : Object) (kind : ResourceKind) (owner : TrackedOwner) :
    Attempt (Option WorkStatus) := do
  let work ← Attempt.hub (.getManifestWork cluster owner.manifestWork)
  if work.labels.isManaged then
    let resource ← Attempt.resourceOfKind kind
    let record ← Attempt.hub (.create cluster (newRecord cluster o kind work resource.plural))
    pure (some record)
  else pure none

/-- Copies the object's label, if it has one that the record lacks. -/
def syncLabel (cluster : String) (o : Object) (record : WorkStatus) : Attempt WorkStatus :=
  match o.metadata.label? Labels.singletonKey with
  | none => pure record
  | some value =>
      if record.metadata.labelSet.get? Labels.singletonKey = some value then pure record
      else
        Attempt.hub (.patchLabels cluster record.name (.ofList [(Labels.singletonKey, value)]))

/-- Whether a record holds a status. -/
def holds (record : WorkStatus) (status : Json) : Bool :=
  match record.status with
  | some s => s == status
  | none => false

/-- Copies the object's status, if it has one that the record does not hold. -/
def syncStatus (cluster : String) (o : Object) (record : WorkStatus) : Attempt Unit :=
  match o.status with
  | none => pure ()
  | some status =>
      if holds record status then pure ()
      else do
        let _ ← Attempt.hub (.updateStatus cluster (record.setStatus (some status)))
        pure ()

/-- The record of an object, created if it is missing. -/
def recordFor (cluster : String) (o : Object) (kind : ResourceKind) (owner : TrackedOwner) :
    Attempt (Option WorkStatus) := do
  match ← Attempt.hub? (.getRecord cluster (recordNameOf o kind)) with
  | some record => pure (some record)
  | none => create cluster o kind owner

/-- Brings the record of a live object up to date. -/
def sync (cluster : String) (o : Object) (kind : ResourceKind) (owner : TrackedOwner) :
    Attempt Unit := do
  match ← recordFor cluster o kind owner with
  | none => pure ()
  | some record =>
      let record ← syncLabel cluster o record
      syncStatus cluster o record

/-- The projector on one line. -/
def text (cluster : String) (timeout : Duration) : String :=
  "StatusProjector \x7b cluster_name: " ++ Text.quoted cluster ++ ", timeout: " ++ timeout.text ++
    ", .. \x7d"

end Projector
end StatusRelay
