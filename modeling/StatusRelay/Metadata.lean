import StatusRelay.Instant
import StatusRelay.Labels

/-!
# Object metadata

The members that every object may carry. In a document a member that is null counts as absent and
members of other names are dropped; a repeated member counts by its last value, but all its values
are checked. Times are written to the whole second.
-/
namespace StatusRelay

open Json

structure OwnerReference where
  apiVersion : String
  blockOwnerDeletion : Option Bool := none
  controller : Option Bool := none
  kind : String
  name : String
  uid : String
  deriving DecidableEq, Repr

/-- Which fields of an object a client manages. The field set is opaque. -/
structure ManagedFields where
  apiVersion : Option String := none
  fieldsType : Option String := none
  fields : Option Json := none
  manager : Option String := none
  operation : Option String := none
  subresource : Option String := none
  time : Option Instant := none
  deriving Repr

structure Metadata where
  annotations : Option Labels := none
  creationTimestamp : Option Instant := none
  deletionGracePeriodSeconds : Option Int := none
  deletionTimestamp : Option Instant := none
  finalizers : Option (List String) := none
  generateName : Option String := none
  generation : Option Int := none
  labels : Option Labels := none
  managedFields : Option (List ManagedFields) := none
  name : Option String := none
  ns : Option String := none
  ownerReferences : Option (List OwnerReference) := none
  resourceVersion : Option String := none
  selfLink : Option String := none
  uid : Option String := none
  deriving Repr, Inhabited

def asInstant (j : Json) : Decoded Instant := do
  match Instant.parse? (← asText j) with
  | some t => .ok t
  | none => .error (.expected "a time")

def instantToSecond (t : Instant) : Json := .str t.textToSecond

namespace OwnerReference

def ofJson (j : Json) : Decoded OwnerReference := do
  let ms ← asMembers j
  pure {
    apiVersion := ← presentOr "" "apiVersion" asText ms
    blockOwnerDeletion := ← present? "blockOwnerDeletion" asBool ms
    controller := ← present? "controller" asBool ms
    kind := ← presentOr "" "kind" asText ms
    name := ← presentOr "" "name" asText ms
    uid := ← presentOr "" "uid" asText ms }

def toJson (r : OwnerReference) : Json :=
  ofPresent [("apiVersion", some (.str r.apiVersion)),
    ("blockOwnerDeletion", r.blockOwnerDeletion.map .bool),
    ("controller", r.controller.map .bool),
    ("kind", some (.str r.kind)), ("name", some (.str r.name)), ("uid", some (.str r.uid))]

end OwnerReference

namespace ManagedFields

def ofJson (j : Json) : Decoded ManagedFields := do
  let ms ← asMembers j
  pure {
    apiVersion := ← present? "apiVersion" asText ms
    fieldsType := ← present? "fieldsType" asText ms
    fields := ← present? "fieldsV1" asOpaque ms
    manager := ← present? "manager" asText ms
    operation := ← present? "operation" asText ms
    subresource := ← present? "subresource" asText ms
    time := ← present? "time" asInstant ms }

def toJson (f : ManagedFields) : Json :=
  ofPresent [("apiVersion", f.apiVersion.map .str), ("fieldsType", f.fieldsType.map .str),
    ("fieldsV1", f.fields), ("manager", f.manager.map .str), ("operation", f.operation.map .str),
    ("subresource", f.subresource.map .str), ("time", f.time.map instantToSecond)]

end ManagedFields

namespace Metadata

def ofJson (j : Json) : Decoded Metadata := do
  let ms ← asMembers j
  pure {
    annotations := ← present? "annotations" Labels.ofJson ms
    creationTimestamp := ← present? "creationTimestamp" asInstant ms
    deletionGracePeriodSeconds := ← present? "deletionGracePeriodSeconds" asInt64 ms
    deletionTimestamp := ← present? "deletionTimestamp" asInstant ms
    finalizers := ← present? "finalizers" (asListOf asText) ms
    generateName := ← present? "generateName" asText ms
    generation := ← present? "generation" asInt64 ms
    labels := ← present? "labels" Labels.ofJson ms
    managedFields := ← present? "managedFields" (asListOf ManagedFields.ofJson) ms
    name := ← present? "name" asText ms
    ns := ← present? "namespace" asText ms
    ownerReferences := ← present? "ownerReferences" (asListOf OwnerReference.ofJson) ms
    resourceVersion := ← present? "resourceVersion" asText ms
    selfLink := ← present? "selfLink" asText ms
    uid := ← present? "uid" asText ms }

def toJson (m : Metadata) : Json :=
  ofPresent [("annotations", m.annotations.map Labels.toJson),
    ("creationTimestamp", m.creationTimestamp.map instantToSecond),
    ("deletionGracePeriodSeconds", m.deletionGracePeriodSeconds.map .int),
    ("deletionTimestamp", m.deletionTimestamp.map instantToSecond),
    ("finalizers", m.finalizers.map ofTexts),
    ("generateName", m.generateName.map .str),
    ("generation", m.generation.map .int),
    ("labels", m.labels.map Labels.toJson),
    ("managedFields", m.managedFields.map fun fs => .arr (fs.map ManagedFields.toJson)),
    ("name", m.name.map .str),
    ("namespace", m.ns.map .str),
    ("ownerReferences", m.ownerReferences.map fun rs => .arr (rs.map OwnerReference.toJson)),
    ("resourceVersion", m.resourceVersion.map .str),
    ("selfLink", m.selfLink.map .str),
    ("uid", m.uid.map .str)]

/-- The name, or else what the name was to be generated from, or else nothing. -/
def anyName (m : Metadata) : String := m.name.getD (m.generateName.getD "")

def nsOrEmpty (m : Metadata) : String := m.ns.getD ""

def labelSet (m : Metadata) : Labels := m.labels.getD {}

def label? (m : Metadata) (key : String) : Option String := m.labels.bind (·.get? key)

def isBeingDeleted (m : Metadata) : Bool := m.deletionTimestamp.isSome

end Metadata
end StatusRelay
