import StatusRelay.Ingest

/-!
# Watches held by objects

A kind is watched as long as some tracked UID holds it. The first UID starts a fresh watch, the
last one to go stops it, and a stopped watch is never used again. The registry remembers every
watch it ever started, oldest first; an active kind points at its own. Excluded kinds are never
watched.
-/
namespace StatusRelay

/-- One list-and-watch of a kind. -/
structure Watch where
  resource : ApiResource
  ingest : Ingest
  stopped : Bool := false
  deriving Repr, Inhabited

namespace Watch

def start (resource : ApiResource) : Watch := ⟨resource, { kind := resource.resourceKind }, false⟩

def kind (w : Watch) : ResourceKind := w.resource.resourceKind

def stop (w : Watch) : Watch := { w with stopped := true }

end Watch

/-- The UIDs that hold a kind and the number of its watch. -/
structure Holding where
  uids : List String
  watch : Nat
  deriving DecidableEq, Repr

structure Registry where
  held : Table ResourceKind Holding := {}
  started : List Watch := []
  deriving Repr, Inhabited

namespace Registry

def stopWatch (r : Registry) (watch : Nat) : Registry :=
  { r with started := r.started.modify watch Watch.stop }

/-- Counts a UID against a kind; `true` if that started a watch. -/
def acquire (r : Registry) (resource : ApiResource) (uid : String) : Bool × Registry :=
  if resource.resourceKind.excluded then (false, r)
  else
    match r.held.get? resource.resourceKind with
    | some h =>
        let uids := if h.uids.contains uid then h.uids else h.uids ++ [uid]
        (false, { r with held := r.held.insert resource.resourceKind { h with uids := uids } })
    | none =>
        (true, { r with
          held := r.held.insert resource.resourceKind ⟨[uid], r.started.length⟩
          started := r.started ++ [.start resource] })

/-- Drops a UID's hold on a kind; `true` if that stopped the watch. -/
def release (r : Registry) (kind : ResourceKind) (uid : String) : Bool × Registry :=
  match r.held.get? kind with
  | none => (false, r)
  | some h =>
      if h.uids.contains uid then
        match h.uids.erase uid with
        | [] => (true, ({ r with held := r.held.erase kind } : Registry).stopWatch h.watch)
        | rest => (false, { r with held := r.held.insert kind { h with uids := rest } })
      else (false, r)

/-- Stops every watch that runs. -/
def shutdown (r : Registry) : Registry :=
  ({ r with held := {} } : Registry) |> fun empty =>
    r.held.values.foldl (fun r h => r.stopWatch h.watch) empty

/-- The cache of a kind's running watch. -/
def lister? (r : Registry) (kind : ResourceKind) : Option Cache := do
  let h ← r.held.get? kind
  let w ← r.started[h.watch]?
  pure w.ingest.cache

def refCount (r : Registry) (kind : ResourceKind) : Nat :=
  match r.held.get? kind with
  | some h => h.uids.length
  | none => 0

def isActive (r : Registry) (kind : ResourceKind) : Bool := r.held.contains kind

def activeKinds (r : Registry) : List ResourceKind := ResourceKind.sorted r.held.keys

/-- The number of watches ever started for a kind. -/
def startsOf (r : Registry) (kind : ResourceKind) : Nat :=
  r.started.countP fun w => decide (w.kind = kind)

/-- The number of the watch last started for a kind. -/
def latest? (r : Registry) (kind : ResourceKind) : Option Nat :=
  (List.range r.started.length).reverse.find? fun n =>
    match r.started[n]? with
    | some w => decide (w.kind = kind)
    | none => false

def watch? (r : Registry) (watch : Nat) : Option Watch := r.started[watch]?

def setIngest (r : Registry) (watch : Nat) (i : Ingest) : Registry :=
  { r with started := r.started.modify watch fun w => { w with ingest := i } }

/-- The registry on one line. -/
def text (r : Registry) : String :=
  "WatchRegistry \x7b active_kinds: [" ++
    ", ".intercalate (r.activeKinds.map ResourceKind.fieldsText) ++ "] \x7d"

end Registry
end StatusRelay
