import StatusRelay.Kind
import StatusRelay.Metadata

/-!
# Deployment records of the hub

Only the metadata of such a record is used: its labels say whether it is managed, and it becomes
the owner of the status records made for it.
-/
namespace StatusRelay

open Json

structure ManifestWork where
  metadata : Metadata := {}
  workload : Option Json := none
  deleteOption : Option Json := none
  deriving Repr, Inhabited

namespace ManifestWork

def ofJson (j : Json) : Decoded ManifestWork := do
  let ms ← asRecord ["metadata", "spec"] j
  let metadata ← needed "metadata" Metadata.ofJson ms
  let spec ← needed "spec" (asRecord ["workload", "deleteOption"]) ms
  pure {
    metadata := metadata
    workload := ← present? "workload" asOpaque spec
    deleteOption := ← present? "deleteOption" asOpaque spec }

def toJson (w : ManifestWork) : Json :=
  .obj [("apiVersion", .str manifestWorkResource.apiVersion),
    ("kind", .str manifestWorkResource.kind),
    ("metadata", w.metadata.toJson),
    ("spec", ofPresent [("workload", w.workload), ("deleteOption", w.deleteOption)])]

def labels (w : ManifestWork) : Labels := w.metadata.labelSet

/-- The reference by which a status record names this record as its owner. A record without a
name or a UID cannot own anything. -/
def ownerReference? (w : ManifestWork) : Option OwnerReference :=
  match w.metadata.name, w.metadata.uid with
  | some name, some uid =>
      some {
        apiVersion := manifestWorkResource.apiVersion
        controller := some true
        kind := manifestWorkResource.kind
        name := name
        uid := uid }
  | _, _ => none

end ManifestWork
end StatusRelay
