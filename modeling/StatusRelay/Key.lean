import StatusRelay.Kind
import StatusRelay.Object

/-!
# Queue keys

A key says which object of which kind needs attention. A key that was made when the object was
gone carries a snapshot of its identity, and the key with a snapshot and the one without are two
different keys.
-/
namespace StatusRelay

/-- What is kept of an object that is gone. -/
structure DeletedSnapshot where
  apiVersion : String
  kind : String
  ns : String
  name : String
  deriving DecidableEq, Repr

structure ObjectKey where
  kind : ResourceKind
  ns : String
  name : String
  deleted : Option DeletedSnapshot := none
  deriving DecidableEq, Repr

namespace ObjectKey

/-- The key of an object that the watch of `kind` delivered. -/
def ofObject (kind : ResourceKind) (o : Object) : ObjectKey :=
  ⟨kind, o.metadata.ns.getD "", o.metadata.name.getD "", none⟩

/-- The same key with a snapshot made from the key itself. -/
def intoDeleted (k : ObjectKey) : ObjectKey :=
  { k with deleted := some ⟨k.kind.apiVersion, k.kind.kind, k.ns, k.name⟩ }

def isDeleted (k : ObjectKey) : Bool := k.deleted.isSome

def text (k : ObjectKey) : String :=
  if k.ns = "" then k.kind.kind ++ " " ++ k.name
  else k.kind.kind ++ " " ++ k.ns ++ "/" ++ k.name

@[simp] theorem kind_intoDeleted (k : ObjectKey) : k.intoDeleted.kind = k.kind := rfl

end ObjectKey
end StatusRelay
