import StatusRelay.Key
import StatusRelay.Table

/-!
# Watch events

A watch delivers single changes and, between `init` and `initDone`, complete lists. `Ingest` keeps
the watch's cache and says which keys each event queues: the key of an object that is new or has
another resource version, of one that was deleted, and at the end of a list of those held back and
of those that vanished. The cache shows the state before a list until the list is complete. A key
whose object the cache does not hold carries a snapshot. Vanished objects are queued in the order
of their coordinates.

The cache files an object under its name and its optional namespace. A look-up in a namespace falls
back to the object of that name without one.
-/
namespace StatusRelay

inductive WatchEvent where
  | apply (o : Object)
  | delete (o : Object)
  | init
  | initApply (o : Object)
  | initDone
  deriving Repr

/-- Objects by name and optional namespace. -/
abbrev Cache := Table (String × Option String) Object

namespace Cache

/-- The object at some coordinates; an empty namespace stands for none. -/
def lookup? (c : Cache) (ns name : String) : Option Object :=
  if ns = "" then c.get? (name, none) else (c.get? (name, some ns)).or (c.get? (name, none))

end Cache

/-- Namespace and name, empty where absent. -/
abbrev Coordinates := String × String

def Object.coordinates (o : Object) : Coordinates := (o.ns, o.name)

def coordinatesLe (a b : Coordinates) : Bool :=
  if a.1 = b.1 then decide (a.2 ≤ b.2) else decide (a.1 ≤ b.1)

/-- A list in progress: what was cached before it and has not been listed, and the keys held back. -/
structure Relist where
  previous : List Coordinates
  pending : List ObjectKey := []
  deriving DecidableEq, Repr

structure Ingest where
  kind : ResourceKind
  cache : Cache := {}
  /-- The objects of the list in progress. -/
  buffer : Cache := {}
  relist : Option Relist := none
  /-- Whether a list has been completed. -/
  synced : Bool := false
  deriving Repr, Inhabited

namespace Ingest

def versionChanged (i : Ingest) (o : Object) : Bool :=
  match i.cache.lookup? o.ns o.name with
  | some cached => cached.resourceVersion ≠ o.resourceVersion
  | none => true

/-- The key as it is queued. -/
def keyFor (i : Ingest) (k : ObjectKey) : ObjectKey :=
  match i.cache.lookup? k.ns k.name with
  | some _ => k
  | none => k.intoDeleted

def keyOf (i : Ingest) (o : Object) : ObjectKey := i.keyFor (.ofObject i.kind o)

/-- Where the cache files an object; one without a name has no place. -/
def place? (o : Object) : Option (String × Option String) :=
  o.metadata.name.map fun name => (name, o.metadata.ns)

def applied (i : Ingest) (o : Object) (place : String × Option String) : Ingest × List ObjectKey :=
  let after := { i with cache := i.cache.insert place o }
  (after, if i.versionChanged o then [after.keyOf o] else [])

def removed (i : Ingest) (o : Object) (place : String × Option String) : Ingest × List ObjectKey :=
  let after := { i with cache := i.cache.erase place }
  (after, [after.keyOf o])

def listStarted (i : Ingest) : Ingest :=
  { i with relist := some ⟨(i.cache.values.map Object.coordinates).eraseDups, []⟩, buffer := {} }

def listed (i : Ingest) (o : Object) (place : String × Option String) : Ingest × List ObjectKey :=
  let changed := i.versionChanged o
  let after := { i with buffer := i.buffer.insert place o }
  match i.relist with
  | some r =>
      let previous := r.previous.filter fun c => !decide (c = o.coordinates)
      let pending := if changed then r.pending ++ [.ofObject i.kind o] else r.pending
      ({ after with relist := some ⟨previous, pending⟩ }, [])
  | none => (after, if changed then [i.keyOf o] else [])

def listCompleted (i : Ingest) : Ingest × List ObjectKey :=
  let after := { i with cache := i.buffer, buffer := {}, relist := none, synced := true }
  match i.relist with
  | none => (after, [])
  | some r =>
      let gone := (r.previous.mergeSort coordinatesLe).map fun c => ⟨i.kind, c.1, c.2, none⟩
      (after, (r.pending ++ gone).map after.keyFor)

/-- The state after an event and the keys to queue, in order. Only an object without a name is
refused, and then nothing changes. -/
def handle? (i : Ingest) : WatchEvent → Option (Ingest × List ObjectKey)
  | .apply o => (place? o).map (i.applied o)
  | .delete o => (place? o).map (i.removed o)
  | .init => some (i.listStarted, [])
  | .initApply o => (place? o).map (i.listed o)
  | .initDone => some i.listCompleted

/-- The intake on one line. -/
def text (i : Ingest) : String :=
  "EventIngest \x7b kind: " ++ i.kind.fieldsText ++
    ", relisting: " ++ toString i.relist.isSome ++ ", .. \x7d"

/-- The cache on one line. -/
def cacheText (i : Ingest) : String :=
  "StoreLister \x7b kind: " ++ Text.quoted i.kind.kind ++
    ", cached: " ++ toString i.cache.size ++ " \x7d"

end Ingest
end StatusRelay
