import StatusRelay.Kind
import StatusRelay.Metadata

/-!
# Status records

A status record is kept on the hub for one object of a cluster. It names the object, holds an
opaque copy of the object's status, and keeps the books of which generation has been applied.
`ofJson` reads a record and `toJson` writes one; empty texts of the source are left out when
written, except group and namespace. Members of other names are dropped, but they have to be
sound.
-/
namespace StatusRelay

open Json

/-- Where the object of a record is found on its cluster. -/
structure SourceRef where
  group : String := ""
  version : String := ""
  resource : String := ""
  kind : String := ""
  name : String := ""
  ns : String := ""
  deriving DecidableEq, Repr, Inhabited

/-- Which generation of the object has been applied, and when that last changed. -/
structure StatusDetails where
  lastGeneration : Int := 0
  lastGenerationIsApplied : Bool := false
  lastCurrencyUpdateTime : Instant := .epoch
  deriving DecidableEq, Repr, Inhabited

/-- The version and kind that a document states of itself. -/
structure TypeMeta where
  apiVersion : String
  kind : String
  deriving DecidableEq, Repr, Inhabited

structure WorkStatus where
  types : Option TypeMeta := none
  metadata : Metadata := {}
  source : SourceRef := {}
  status : Option Json := none
  details : StatusDetails := {}
  deriving Repr, Inhabited

namespace SourceRef

def ofJson (j : Json) : Decoded SourceRef := do
  let fs ← asRecord ["group", "version", "resource", "kind", "name", "namespace"] j
  pure {
    group := ← withDefault "" "group" asText fs
    version := ← withDefault "" "version" asText fs
    resource := ← withDefault "" "resource" asText fs
    kind := ← withDefault "" "kind" asText fs
    name := ← withDefault "" "name" asText fs
    ns := ← withDefault "" "namespace" asText fs }

def unlessEmpty (s : String) : Option Json := if s = "" then none else some (.str s)

def toJson (r : SourceRef) : Json :=
  ofPresent [("group", some (.str r.group)), ("version", unlessEmpty r.version),
    ("resource", unlessEmpty r.resource), ("kind", unlessEmpty r.kind),
    ("name", unlessEmpty r.name), ("namespace", some (.str r.ns))]

end SourceRef

namespace StatusDetails

def ofJson (j : Json) : Decoded StatusDetails := do
  let fs ← asRecord ["lastGeneration", "lastGenerationIsApplied", "lastCurrencyUpdateTime"] j
  pure {
    lastGeneration := ← needed "lastGeneration" asInt64 fs
    lastGenerationIsApplied := ← needed "lastGenerationIsApplied" asBool fs
    lastCurrencyUpdateTime := ← needed "lastCurrencyUpdateTime" asInstant fs }

def toJson (d : StatusDetails) : Json :=
  .obj [("lastGeneration", .int d.lastGeneration),
    ("lastGenerationIsApplied", .bool d.lastGenerationIsApplied),
    ("lastCurrencyUpdateTime", .str d.lastCurrencyUpdateTime.text)]

end StatusDetails

namespace TypeMeta

/-- Both texts, if a document states both. -/
def ofMembers? (ms : List (String × Json)) : Option TypeMeta :=
  if countOf "apiVersion" ms = 1 ∧ countOf "kind" ms = 1 then
    match lastOf "apiVersion" ms, lastOf "kind" ms with
    | some (.str v), some (.str k) => some ⟨v, k⟩
    | _, _ => none
  else none

end TypeMeta

namespace WorkStatus

/-- An empty record with its type stated. -/
def empty (name ns : String) : WorkStatus :=
  { types := some ⟨workStatusResource.apiVersion, workStatusResource.kind⟩
    metadata := { name := some name, ns := some ns } }

def sourceOfJson (j : Json) : Decoded SourceRef := do
  needed "sourceRef" SourceRef.ofJson (← asRecord ["sourceRef"] j)

def fieldNames : List String := ["metadata", "spec", "status", "statusDetails"]

def ofJson (j : Json) : Decoded WorkStatus := do
  let ms ← checkedMembers fieldNames j
  checkOthers fieldNames ms
  pure {
    types := TypeMeta.ofMembers? ms
    metadata := ← withDefault {} "metadata" Metadata.ofJson ms
    source := ← withDefault {} "spec" sourceOfJson ms
    status := ← present? "status" asOpaque ms
    details := ← withDefault {} "statusDetails" StatusDetails.ofJson ms }

def toJson (w : WorkStatus) : Json :=
  ofPresent [("apiVersion", w.types.map fun t => .str t.apiVersion),
    ("kind", w.types.map fun t => .str t.kind),
    ("metadata", some w.metadata.toJson),
    ("spec", some (.obj [("sourceRef", w.source.toJson)])),
    ("status", w.status),
    ("statusDetails", some w.details.toJson)]

def name (w : WorkStatus) : String := w.metadata.anyName

def setStatus (w : WorkStatus) (status : Option Json) : WorkStatus := { w with status := status }

def setVersion (w : WorkStatus) (version : String) : WorkStatus :=
  { w with metadata := { w.metadata with resourceVersion := some version } }

def setNs (w : WorkStatus) (ns : String) : WorkStatus :=
  { w with metadata := { w.metadata with ns := some ns } }

/-- The record with changed labels; labels that are not named stay. -/
def mergeLabels (w : WorkStatus) (changes : Labels) : WorkStatus :=
  { w with metadata := { w.metadata with labels := some (w.metadata.labelSet.merge changes) } }

end WorkStatus
end StatusRelay
