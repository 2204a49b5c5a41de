import StatusRelay.Object

/-!
# Deployment records

A deployment record on a cluster lists every object that was applied for one record of the hub,
with the object's UID. It is read from a watched object: `spec` has to be there, a status that is
absent or null means that nothing is listed yet, and absent members are empty.
-/
namespace StatusRelay

open Json

/-- One applied object: where it is served, what it is called and its UID. -/
structure AppliedResource where
  group : String := ""
  version : String := ""
  resource : String := ""
  ns : String := ""
  name : String := ""
  uid : String := ""
  deriving DecidableEq, Repr, Inhabited

structure AppliedWork where
  metadata : Metadata := {}
  hubHash : String := ""
  agentId : String := ""
  manifestWork : String := ""
  applied : Option (List AppliedResource) := none
  deriving Repr, Inhabited

namespace AppliedResource

def ofJson (j : Json) : Decoded AppliedResource := do
  let fs ← asRecord ["group", "version", "resource", "namespace", "name", "uid"] j
  pure {
    group := ← withDefault "" "group" asText fs
    version := ← withDefault "" "version" asText fs
    resource := ← withDefault "" "resource" asText fs
    ns := ← withDefault "" "namespace" asText fs
    name := ← withDefault "" "name" asText fs
    uid := ← withDefault "" "uid" asText fs }

def toJson (r : AppliedResource) : Json :=
  .obj [("group", .str r.group), ("version", .str r.version), ("resource", .str r.resource),
    ("namespace", .str r.ns), ("name", .str r.name), ("uid", .str r.uid)]

end AppliedResource

namespace AppliedWork

def appliedOfJson (j : Json) : Decoded (List AppliedResource) := do
  withDefault [] "appliedResources" (asListOf AppliedResource.ofJson)
    (← asRecord ["appliedResources"] j)

/-- The deployment record that an object holds. -/
def ofObject (o : Object) : Decoded AppliedWork := do
  match o.spec with
  | none => .error (.missing "spec")
  | some spec =>
      let fs ← asRecord ["hubHash", "agentID", "manifestWorkName"] spec
      pure {
        metadata := o.metadata
        hubHash := ← withDefault "" "hubHash" asText fs
        agentId := ← withDefault "" "agentID" asText fs
        manifestWork := ← withDefault "" "manifestWorkName" asText fs
        applied := ← o.status.mapM appliedOfJson }

/-- What the record lists. -/
def resources (w : AppliedWork) : List AppliedResource := w.applied.getD []

end AppliedWork
end StatusRelay
