import StatusRelay.AppliedWork

/-!
# Applied sets

The objects that one deployment record lists, told apart by UID. `ofResources` keeps the first
entry of every UID and drops entries without one, in the order of the list. `difference` compares
two sets by UID: what is in both appears in neither half, and the halves keep their set's order
and entries. It takes short cuts for equal sets and for an empty side; `plainDifference` is the
comparison without them.
-/
namespace StatusRelay

structure AppliedSet where
  entries : List AppliedResource := []
  deriving DecidableEq, Repr, Inhabited

namespace AppliedSet

/-- The first entry of every UID that is neither empty nor among those seen. -/
def keepFirst (seen : List String) : List AppliedResource → List AppliedResource
  | [] => []
  | r :: rest =>
      if r.uid = "" ∨ r.uid ∈ seen then keepFirst seen rest
      else r :: keepFirst (r.uid :: seen) rest

def ofResources (resources : List AppliedResource) : AppliedSet := ⟨keepFirst [] resources⟩

def uids (s : AppliedSet) : List String := s.entries.map AppliedResource.uid

def contains (s : AppliedSet) (uid : String) : Bool := s.uids.contains uid

def size (s : AppliedSet) : Nat := s.entries.length

def isEmpty (s : AppliedSet) : Bool := s.entries.isEmpty

/-- The entries whose UID the other set does not list. -/
def without (s other : AppliedSet) : AppliedSet :=
  ofResources (s.entries.filter fun r => !other.contains r.uid)

structure Difference where
  added : AppliedSet := {}
  removed : AppliedSet := {}
  deriving DecidableEq, Repr, Inhabited

def Difference.isEmpty (d : Difference) : Bool := d.added.isEmpty && d.removed.isEmpty

def difference (old new : AppliedSet) : Difference :=
  if old = new then {}
  else if old.isEmpty then { added := new }
  else if new.isEmpty then { removed := old }
  else { added := new.without old, removed := old.without new }

/-- The entries of each side, as they stand, whose UID the other side does not list. -/
def plainDifference (old new : AppliedSet) : Difference where
  added := ⟨new.entries.filter fun r => !old.contains r.uid⟩
  removed := ⟨old.entries.filter fun r => !new.contains r.uid⟩

@[simp] theorem contains_eq_true_iff (s : AppliedSet) (uid : String) :
    s.contains uid = true ↔ ∃ r ∈ s.entries, r.uid = uid := by
  simp [contains, uids]

theorem isEmpty_eq_true_iff (s : AppliedSet) : s.isEmpty = true ↔ s = {} := by
  cases s with
  | mk entries => cases entries <;> simp [isEmpty]

end AppliedSet
end StatusRelay
