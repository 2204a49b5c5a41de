import StatusRelay.Text.Quoted

/-!
# Kinds and API resources

A kind is what a watch is for. An API resource also says under which plural name the kind's
objects are served, which is how deployment records name it.
-/
namespace StatusRelay

structure ResourceKind where
  group : String
  version : String
  kind : String
  deriving DecidableEq, Repr, Inhabited

/-- The version of a group as objects state it; the core group has no name. -/
def apiVersionOf (group version : String) : String :=
  if group = "" then version else group ++ "/" ++ version

namespace ResourceKind

def apiVersion (k : ResourceKind) : String := apiVersionOf k.group k.version

def text (k : ResourceKind) : String := k.group ++ "/" ++ k.version ++ ", Kind=" ++ k.kind

/-- The kind with its three parts named. -/
def fieldsText (k : ResourceKind) : String :=
  "ResourceKindKey \x7b group: " ++ Text.quoted k.group ++ ", version: " ++ Text.quoted k.version ++
    ", kind: " ++ Text.quoted k.kind ++ " \x7d"

/-- The order by group, then version, then kind. -/
def le (a b : ResourceKind) : Bool :=
  if a.group = b.group then
    if a.version = b.version then decide (a.kind ≤ b.kind) else decide (a.version ≤ b.version)
  else decide (a.group ≤ b.group)

def sorted (kinds : List ResourceKind) : List ResourceKind := kinds.mergeSort le

/-- Sorted, each kind once. -/
def sortedDistinct (kinds : List ResourceKind) : List ResourceKind := sorted kinds.eraseDups

end ResourceKind

structure ApiResource where
  group : String
  version : String
  apiVersion : String
  kind : String
  plural : String
  deriving DecidableEq, Repr, Inhabited

namespace ApiResource

/-- The resource of a kind served under a plural name. -/
def of (group version kind plural : String) : ApiResource :=
  ⟨group, version, apiVersionOf group version, kind, plural⟩

def resourceKind (r : ApiResource) : ResourceKind := ⟨r.group, r.version, r.kind⟩

end ApiResource

/-- The text by which a lookup that found nothing names a resource. -/
def resourceText (group version plural : String) : String :=
  group ++ "/" ++ version ++ ", Resource=" ++ plural

/-- Kinds that never get a watch, in any version. -/
def excludedKinds : List (String × String) :=
  [("rbac.authorization.k8s.io", "ClusterRoleBinding"),
   ("rbac.authorization.k8s.io", "ClusterRole"),
   ("rbac.authorization.k8s.io", "Role"),
   ("rbac.authorization.k8s.io", "RoleBinding"),
   ("", "Secret"),
   ("", "ConfigMap"),
   ("", "Namespace"),
   ("", "ServiceAccount"),
   ("", "Service")]

def isExcluded (group kind : String) : Bool := excludedKinds.contains (group, kind)

def ResourceKind.excluded (k : ResourceKind) : Bool := isExcluded k.group k.kind

/-- The group of deployment records, on the hub and on the cluster. -/
def workGroup : String := "work.open-cluster-management.io"

def workVersion : String := "v1"

/-- The records that list what was applied on the cluster. -/
def appliedWorkResource : ApiResource :=
  .of workGroup workVersion "AppliedManifestWork" "appliedmanifestworks"

def appliedWorkKind : ResourceKind := appliedWorkResource.resourceKind

/-- The records on the hub that own the objects of a cluster. -/
def manifestWorkResource : ApiResource :=
  .of workGroup workVersion "ManifestWork" "manifestworks"

/-- The records on the hub that hold the status of one object each. -/
def workStatusResource : ApiResource :=
  .of "control.kubestellar.io" "v1alpha1" "WorkStatus" "workstatuses"

end StatusRelay
