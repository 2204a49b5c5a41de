import StatusRelay.Http
import StatusRelay.Kind
import StatusRelay.Table

/-!
# The directory of API resources

An API server says which resources it serves: it lists its groups, every group lists its versions,
and every version has a list of resources; the core group has lists of its own. A survey reads them
all and fails as a whole if one of them fails or a group has no version. A directory keeps the last
survey that succeeded. A look-up asks that survey first and, if it finds nothing there, surveys the
server once more, so resources that were added meanwhile are found.
-/
namespace StatusRelay

open Json

/-- What a server serves, by path. -/
abbrev Documents := String → Http.Reply

/-- The resources of one listed version. -/
structure VersionListing where
  version : String
  resources : List ApiResource
  deriving DecidableEq, Repr

/-- The listed versions of every group; the core group has the empty name. -/
abbrev Survey := Table String (List VersionListing)

namespace Survey

/-! ## Reading the lists -/

/-- Members of a document that states its type; a type that it states must be the right one. -/
def typedMembers (kind : String) (j : Json) : Decoded (List (String × Json)) := do
  let ms ← asMembers j
  for m in ms do
    let wanted := if m.1 = "apiVersion" then some "v1" else if m.1 = "kind" then some kind else none
    match wanted with
    | none => pure ()
    | some text => if (← asText m.2) = text then pure () else throw (.expected text)
  pure ms

structure ListedVersion where
  groupVersion : String
  version : String
  deriving DecidableEq, Repr

structure ListedGroup where
  name : String
  versions : List ListedVersion
  deriving DecidableEq, Repr

def listedVersion (j : Json) : Decoded ListedVersion := do
  let ms ← asMembers j
  pure ⟨← presentOr "" "groupVersion" asText ms, ← presentOr "" "version" asText ms⟩

def checkAddress (j : Json) : Decoded Unit := do
  let ms ← asMembers j
  let _ ← present? "clientCIDR" asText ms
  let _ ← present? "serverAddress" asText ms

def checkAddresses (ms : List (String × Json)) : Decoded Unit := do
  let _ ← present? "serverAddressByClientCIDRs" (asListOf checkAddress) ms

def listedGroup (j : Json) : Decoded ListedGroup := do
  let ms ← typedMembers "APIGroup" j
  let _ ← present? "preferredVersion" listedVersion ms
  checkAddresses ms
  pure ⟨← presentOr "" "name" asText ms, ← presentOr [] "versions" (asListOf listedVersion) ms⟩

def listedGroups (j : Json) : Decoded (List ListedGroup) := do
  presentOr [] "groups" (asListOf listedGroup) (← typedMembers "APIGroupList" j)

def coreVersions (j : Json) : Decoded (List String) := do
  let ms ← typedMembers "APIVersions" j
  checkAddresses ms
  presentOr [] "versions" (asListOf asText) ms

/-- Group and version of a text such as `apps/v1`; without a slash the group is the core group. -/
def splitGroupVersion (text : String) : String × String :=
  match text.toList.span (· ≠ '/') with
  | (version, []) => ("", String.ofList version)
  | (group, _ :: version) => (String.ofList group, String.ofList version)

/-- A listed resource; a resource of a resource, whose name has a slash, does not count. -/
def listedResource (groupVersion : String) (j : Json) : Decoded (Option ApiResource) := do
  let ms ← asMembers j
  let _ ← present? "categories" (asListOf asText) ms
  let group ← present? "group" asText ms
  let kind ← presentOr "" "kind" asText ms
  let name ← presentOr "" "name" asText ms
  let _ ← present? "namespaced" asBool ms
  let _ ← present? "shortNames" (asListOf asText) ms
  let _ ← present? "singularName" asText ms
  let _ ← present? "storageVersionHash" asText ms
  let _ ← present? "verbs" (asListOf asText) ms
  let version ← present? "version" asText ms
  let (ownGroup, ownVersion) := splitGroupVersion groupVersion
  if name.contains '/' then pure none
  else
    pure (some {
      group := group.getD ownGroup
      version := version.getD ownVersion
      apiVersion := apiVersionOf ownGroup ownVersion
      kind := kind
      plural := name })

def listedResources (j : Json) : Decoded (List ApiResource) := do
  let ms ← typedMembers "APIResourceList" j
  let groupVersion ← presentOr "" "groupVersion" asText ms
  let entries ← presentOr [] "resources" (asListOf (listedResource groupVersion)) ms
  pure (entries.filterMap id)

/-! ## Asking a server -/

/-- Why a survey has no result. -/
inductive Failure where
  | api (cause : ApiError)
  | emptyGroup (name : String)
  /-- A reply stays away. -/
  | unanswered
  deriving DecidableEq, Repr

def Failure.text : Failure → String
  | .api (.refused _ message) => "ApiError: " ++ message
  | .api .unreadable => "unreadable document"
  | .api .broken => "connection failed"
  | .api .unbuildable => "invalid request"
  | .emptyGroup name => "group without versions: " ++ name
  | .unanswered => "no answer"

/-- A part of a survey, which remembers the paths it asked for. -/
abbrev Asking (α : Type) := ExceptT Failure (StateM (List String)) α

def ask {α : Type} (documents : Documents) (value : Json → Decoded α) (path : String) :
    Asking α := do
  match Http.Target.ofText? path with
  | none => throw (.api .unbuildable)
  | some target =>
      modify (· ++ [target.path])
      match (documents target.path).document? value with
      | none => throw .unanswered
      | some (.error cause) => throw (.api cause)
      | some (.ok a) => pure a

def askVersions (documents : Documents) (start : String) : List ListedVersion →
    Asking (List VersionListing)
  | [] => pure []
  | v :: rest => do
      let resources ← ask documents listedResources (start ++ v.groupVersion)
      let others ← askVersions documents start rest
      pure (⟨v.version, resources⟩ :: others)

def askGroup (documents : Documents) (start : String) (g : ListedGroup) :
    Asking (List VersionListing) :=
  if g.versions.isEmpty then throw (.emptyGroup g.name)
  else askVersions documents start g.versions

def askGroups (documents : Documents) (survey : Survey) : List ListedGroup → Asking Survey
  | [] => pure survey
  | g :: rest => do
      let listings ← askGroup documents "/apis/" g
      askGroups documents (survey.insert g.name listings) rest

/-- The whole survey: the named groups in their order, then the core group. -/
def take (documents : Documents) : Asking Survey := do
  let groups ← ask documents listedGroups "/apis"
  let survey ← askGroups documents {} groups
  let versions ← ask documents coreVersions "/api"
  let core ← askGroup documents "/api/" ⟨"", versions.map fun v => ⟨v, v⟩⟩
  pure (survey.insert "" core)

/-! ## Finding -/

/-- The resources listed for a version of a group. -/
def listing (s : Survey) (group version : String) : List ApiResource :=
  match ((s.get? group).getD []).find? fun l => l.version == version with
  | some l => l.resources
  | none => []

def findNamed? (s : Survey) (group version plural : String) : Option ApiResource :=
  (s.listing group version).find? fun r => r.plural == plural

def findKind? (s : Survey) (kind : ResourceKind) : Option ApiResource :=
  (s.listing kind.group kind.version).find? fun r => r.kind == kind.kind

/-- The names of the groups, sorted. -/
def groups (s : Survey) : List String := s.keys.mergeSort fun a b => decide (a ≤ b)

end Survey

/-- The last survey of a server. -/
structure Directory where
  survey : Option Survey := none
  deriving Repr, Inhabited

namespace Directory

/-- A step of a directory: a result, the paths asked for in order, and the directory afterwards.
There is no result while the server has not answered. -/
structure Consulted (α : Type) where
  result : Option (Except AgentError α)
  paths : List String
  directory : Directory

def surveyFailed (f : Survey.Failure) : AgentError :=
  .discovery ("API discovery failed: " ++ f.text)

/-- Surveys the server. -/
def refresh (d : Directory) (documents : Documents) : Consulted Survey :=
  match (Survey.take documents).run.run [] with
  | (.ok survey, paths) => ⟨some (.ok survey), paths, ⟨some survey⟩⟩
  | (.error .unanswered, paths) => ⟨none, paths, d⟩
  | (.error f, paths) => ⟨some (.error (surveyFailed f)), paths, d⟩

/-- The survey at hand, or a new one. -/
def current (d : Directory) (documents : Documents) : Consulted Survey :=
  match d.survey with
  | some survey => ⟨some (.ok survey), [], d⟩
  | none => d.refresh documents

/-- Looks something up in the survey at hand, then in a new one. Between a first survey that the
look-up itself had to take and the new one the server may come to serve something else. -/
def findAmid (d : Directory) (before after : Documents) (what : String)
    (look : Survey → Option ApiResource) : Consulted ApiResource :=
  let first := d.current before
  match first.result with
  | none => ⟨none, first.paths, first.directory⟩
  | some (.error e) => ⟨some (.error e), first.paths, first.directory⟩
  | some (.ok survey) =>
      match look survey with
      | some r => ⟨some (.ok r), first.paths, first.directory⟩
      | none =>
          let second := first.directory.refresh after
          let missing : AgentError := .discovery ("no API resource for " ++ what)
          let result := second.result.map fun
            | .error e => .error e
            | .ok survey => (look survey).elim (.error missing) .ok
          ⟨result, first.paths ++ second.paths, second.directory⟩

/-- The resource served under a plural name, looked up while the server may change. -/
def resourceNamedAmid (d : Directory) (before after : Documents) (group version plural : String) :
    Consulted ApiResource :=
  d.findAmid before after (resourceText group version plural) fun s =>
    s.findNamed? group version plural

/-- The resource that serves a kind, looked up while the server may change. -/
def resourceOfKindAmid (d : Directory) (before after : Documents) (kind : ResourceKind) :
    Consulted ApiResource :=
  d.findAmid before after kind.text fun s => s.findKind? kind

/-- The resource served under a plural name. -/
def resourceNamed (d : Directory) (documents : Documents) (group version plural : String) :
    Consulted ApiResource :=
  d.resourceNamedAmid documents documents group version plural

/-- The resource that serves a kind. -/
def resourceOfKind (d : Directory) (documents : Documents) (kind : ResourceKind) :
    Consulted ApiResource :=
  d.resourceOfKindAmid documents documents kind

/-- The directory on one line. -/
def text : String := "DiscoveryResolver \x7b .. \x7d"

end Directory
end StatusRelay
