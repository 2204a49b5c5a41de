import StatusRelay.Error
import StatusRelay.ManifestWork
import StatusRelay.WorkStatus

/-!
# Calls to the hub

The six calls that the agent makes, what each answers, and how each is named in a report that it
took too long.
-/
namespace StatusRelay

inductive HubCall where
  | getManifestWork (ns name : String)
  | getRecord (ns name : String)
  | create (ns : String) (record : WorkStatus)
  | delete (ns name : String)
  | patchLabels (ns name : String) (labels : Labels)
  | updateStatus (ns : String) (record : WorkStatus)
  deriving Repr

namespace HubCall

/-- What a call answers when it succeeds. -/
abbrev Answer : HubCall → Type
  | .getManifestWork _ _ => ManifestWork
  | .delete _ _ => Unit
  | .getRecord _ _ | .create _ _ | .patchLabels _ _ _ | .updateStatus _ _ => WorkStatus

abbrev Result (c : HubCall) : Type := Except HubError c.Answer

/-- Whether a call changes the hub. -/
def isWrite : HubCall → Bool
  | .getManifestWork _ _ | .getRecord _ _ => false
  | .create _ _ | .delete _ _ | .patchLabels _ _ _ | .updateStatus _ _ => true

def recordText (ns name : String) : String := "WorkStatus " ++ ns ++ "/" ++ name

def manifestWorkText (ns name : String) : String := "ManifestWork " ++ ns ++ "/" ++ name

def describe : HubCall → String
  | .getManifestWork ns name => "get " ++ manifestWorkText ns name
  | .getRecord ns name => "get " ++ recordText ns name
  | .create ns record => "create " ++ recordText ns record.name
  | .delete ns name => "delete " ++ recordText ns name
  | .patchLabels ns name _ => "patch " ++ recordText ns name
  | .updateStatus ns record => "update " ++ recordText ns record.name ++ " status"

/-- The answer that says how a call failed. -/
def fail (error : HubError) : (c : HubCall) → c.Result
  | .getManifestWork _ _ | .getRecord _ _ | .create _ _ | .delete _ _ | .patchLabels _ _ _
  | .updateStatus _ _ => .error error

end HubCall
end StatusRelay
