import StatusRelay.HubCall
import StatusRelay.Table

/-!
# The hub in memory

Records and deployment records by namespace and name. Every write gives the record it stores a
version that no write had before; a version is also spent by a write that is then refused because
of the record's state. A status update that names a version is refused unless the stored record
still has it, and it changes nothing but the status. Writes can be made to fail and to take time;
`perform` is what a call does at the instant it takes effect.
-/
namespace StatusRelay

/-- Namespace and name of a record. -/
abbrev RecordKey := String × String

structure Hub where
  manifestWorks : Table RecordKey ManifestWork := {}
  records : Table RecordKey WorkStatus := {}
  /-- The last version given. -/
  version : Nat := 0
  failWrites : Bool := false
  /-- How long a write takes, in milliseconds. -/
  writeDelay : Nat := 0
  statusUpdates : Nat := 0
  labelPatches : Nat := 0
  deriving Repr, Inhabited

namespace Hub

open HubCall (recordText manifestWorkText)

def versionText (n : Nat) : String := toString n

/-- Spends a version. -/
def bump (h : Hub) : Hub := { h with version := h.version + 1 }

def getManifestWork (h : Hub) (ns name : String) : Except HubError ManifestWork :=
  match h.manifestWorks.get? (ns, name) with
  | some work => .ok work
  | none => .error (.notFound (manifestWorkText ns name))

def getRecord (h : Hub) (ns name : String) : Except HubError WorkStatus :=
  match h.records.get? (ns, name) with
  | some record => .ok record
  | none => .error (.notFound (recordText ns name))

/-- Stores a record with the version last given. -/
def put (h : Hub) (key : RecordKey) (record : WorkStatus) : WorkStatus × Hub :=
  let record := record.setVersion (versionText h.version)
  (record, { h with records := h.records.insert key record })

def create (h : Hub) (ns : String) (record : WorkStatus) : Except HubError WorkStatus × Hub :=
  let h := h.bump
  let name := record.metadata.name.getD ""
  if h.records.contains (ns, name) then
    (.error (.conflict (recordText ns name ++ " already exists")), h)
  else
    let (stored, h) := h.put (ns, name) (record.setNs ns)
    (.ok stored, h)

def delete (h : Hub) (ns name : String) : Except HubError Unit × Hub :=
  if h.records.contains (ns, name) then
    (.ok (), { h with records := h.records.erase (ns, name) })
  else (.error (.notFound (recordText ns name)), h)

def patchLabels (h : Hub) (ns name : String) (labels : Labels) :
    Except HubError WorkStatus × Hub :=
  let h := h.bump
  match h.records.get? (ns, name) with
  | none => (.error (.notFound (recordText ns name)), h)
  | some record =>
      let (stored, h) := h.put (ns, name) (record.mergeLabels labels)
      (.ok stored, { h with labelPatches := h.labelPatches + 1 })

/-- Whether an update may replace a stored record: it names no version or the stored one. -/
def mayReplace (update stored : WorkStatus) : Bool :=
  match update.metadata.resourceVersion with
  | none => true
  | some version => stored.metadata.resourceVersion == some version

def updateStatus (h : Hub) (ns : String) (update : WorkStatus) :
    Except HubError WorkStatus × Hub :=
  let h := h.bump
  let name := update.metadata.name.getD ""
  match h.records.get? (ns, name) with
  | none => (.error (.notFound (recordText ns name)), h)
  | some record =>
      if mayReplace update record then
        let (stored, h) := h.put (ns, name) (record.setStatus update.status)
        (.ok stored, { h with statusUpdates := h.statusUpdates + 1 })
      else (.error (.conflict (recordText ns name ++ " has been modified")), h)

/-- The answer to a call that takes effect now, and the hub after it. -/
def perform (h : Hub) (c : HubCall) : c.Result × Hub :=
  if c.isWrite && h.failWrites then
    (HubCall.fail (.unavailable "injected write failure") c, h)
  else
    match c with
    | .getManifestWork ns name => (h.getManifestWork ns name, h)
    | .getRecord ns name => (h.getRecord ns name, h)
    | .create ns record => h.create ns record
    | .delete ns name => h.delete ns name
    | .patchLabels ns name labels => h.patchLabels ns name labels
    | .updateStatus ns record => h.updateStatus ns record

/-- How long a call takes before it takes effect, in milliseconds. -/
def delayOf (h : Hub) (c : HubCall) : Nat := if c.isWrite then h.writeDelay else 0

/-- Puts a deployment record there. -/
def addManifestWork (h : Hub) (work : ManifestWork) : Hub :=
  { h with manifestWorks :=
      h.manifestWorks.insert (work.metadata.ns.getD "", work.metadata.name.getD "") work }

/-- Puts a status record there, over any other, with a new version. -/
def addRecord (h : Hub) (record : WorkStatus) : Hub :=
  (h.bump.put (record.metadata.ns.getD "", record.metadata.name.getD "") record).2

/-- The records of a namespace, sorted by name. -/
def recordsIn (h : Hub) (ns : String) : List WorkStatus :=
  ((h.records.entries.filter fun e => e.1.1 == ns).mergeSort fun a b =>
    decide (a.1.2 ≤ b.1.2)).map Prod.snd

end Hub
end StatusRelay
