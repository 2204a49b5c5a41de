import StatusRelay.Metadata

/-!
# Watched objects

Of an object only its metadata, `spec` and `status` matter, and the latter two are opaque. A
status that is null is no status. What stands beside the metadata is read whole, so a fault in it
makes the object unreadable.
-/
namespace StatusRelay

open Json

structure Object where
  metadata : Metadata := {}
  spec : Option Json := none
  statusMember : Option Json := none
  deriving Repr, Inhabited

namespace Object

/-- The object's status, if it has one. -/
def status (o : Object) : Option Json :=
  match o.statusMember with
  | some .null => none
  | s => s

def isBeingDeleted (o : Object) : Bool := o.metadata.isBeingDeleted

def name (o : Object) : String := o.metadata.anyName

def ns (o : Object) : String := o.metadata.nsOrEmpty

def uid (o : Object) : String := o.metadata.uid.getD ""

def resourceVersion (o : Object) : Option String := o.metadata.resourceVersion

/-- An object from its document; metadata may be absent but not null. -/
def ofJson (j : Json) : Decoded Object := do
  let ms ← checkedMembers ["metadata"] j
  checkOthers ["metadata"] ms
  pure {
    metadata := ← withDefault {} "metadata" Metadata.ofJson ms
    spec := (lastOf "spec" ms).map canonical
    statusMember := (lastOf "status" ms).map canonical }

end Object
end StatusRelay
