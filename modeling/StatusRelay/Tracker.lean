import StatusRelay.AppliedSet
import StatusRelay.Table

/-!
# Tracking

The tracker keeps the set last seen of every deployment record and, for every UID in one of them,
the record that owns it. `replace` stores a record's new set and says what was added to it and
which entries no record lists any more; `remove` forgets a record. A UID that its owner drops while
others still list it goes to the one of them with the least name.
-/
namespace StatusRelay

structure TrackedWork where
  manifestWork : String
  applied : AppliedSet
  deriving DecidableEq, Repr

/-- Who owns a tracked object: the record on the cluster and the one on the hub. -/
structure TrackedOwner where
  appliedWork : String
  manifestWork : String
  deriving DecidableEq, Repr

structure Tracker where
  works : Table String TrackedWork := {}
  owners : Table String String := {}
  deriving DecidableEq, Repr, Inhabited

/-- The least of some texts. -/
def leastText? : List String → Option String
  | [] => none
  | s :: rest =>
      match leastText? rest with
      | none => some s
      | some t => if t < s then some t else some s

namespace Tracker

/-- The records other than `except` that list a UID. -/
def otherClaimants (t : Tracker) (uid except : String) : List String :=
  (t.works.entries.filter fun e => e.1 ≠ except && e.2.applied.contains uid).map Prod.fst

def otherClaimant? (t : Tracker) (uid except : String) : Option String :=
  leastText? (t.otherClaimants uid except)

/-- Gives up a record's claim on one entry; `true` if nobody claims it any more. -/
def withdrawEntry (t : Tracker) (work : String) (entry : AppliedResource) : Bool × Tracker :=
  match t.otherClaimant? entry.uid work with
  | some other =>
      if t.owners.get? entry.uid = some work then
        (false, { t with owners := t.owners.insert entry.uid other })
      else (false, t)
  | none => (true, { t with owners := t.owners.erase entry.uid })

/-- Gives up a record's claims on some entries, and says which nobody claims any more. -/
def withdraw (t : Tracker) (work : String) : List AppliedResource → List AppliedResource × Tracker
  | [] => ([], t)
  | entry :: rest =>
      let (free, t) := t.withdrawEntry work entry
      let (released, t) := t.withdraw work rest
      (if free then entry :: released else released, t)

/-- Makes a record the owner of some entries. -/
def claim (t : Tracker) (work : String) (entries : List AppliedResource) : Tracker :=
  { t with owners := entries.foldl (fun owners e => owners.insert e.uid work) t.owners }

def appliedSet? (t : Tracker) (work : String) : Option AppliedSet :=
  (t.works.get? work).map TrackedWork.applied

/-- Stores a record's new set, or forgets the record if the set is empty. -/
def store (t : Tracker) (work manifestWork : String) (applied : AppliedSet) : Tracker :=
  if applied.isEmpty then { t with works := t.works.erase work }
  else { t with works := t.works.insert work ⟨manifestWork, applied⟩ }

def replace (t : Tracker) (work manifestWork : String) (applied : AppliedSet) :
    AppliedSet.Difference × Tracker :=
  let changes := AppliedSet.difference ((t.appliedSet? work).getD {}) applied
  let (released, t) := t.withdraw work changes.removed.entries
  let t := (t.claim work changes.added.entries).store work manifestWork applied
  (⟨changes.added, AppliedSet.ofResources released⟩, t)

/-- Forgets a record and says which of its entries nobody claims any more; nothing for a record
that is not tracked. -/
def remove (t : Tracker) (work : String) : Option AppliedSet × Tracker :=
  match t.works.get? work with
  | none => (none, t)
  | some tracked =>
      let (released, t) := ({ t with works := t.works.erase work } : Tracker).withdraw work
        tracked.applied.entries
      (some (AppliedSet.ofResources released), t)

def ownerOf? (t : Tracker) (uid : String) : Option TrackedOwner := do
  let work ← t.owners.get? uid
  let tracked ← t.works.get? work
  pure ⟨work, tracked.manifestWork⟩

def isTracked (t : Tracker) (uid : String) : Bool := t.owners.contains uid

/-- The number of UIDs that have an owner. -/
def trackedCount (t : Tracker) : Nat := t.owners.size

end Tracker
end StatusRelay
