import StatusRelay.Http
import StatusRelay.HubCall

/-!
# Hub calls over HTTP

Each call is one request to the hub's API server. A call that names nothing, or something that
cannot stand in a request, is not sent. The errors of all calls but the creation are put down to what was asked about; a creation hands on the
server's own error.
-/
namespace StatusRelay.HubCall

/-- The path of the objects of a resource in a namespace. -/
def collectionPath (resource : ApiResource) (ns : String) : String :=
  "/apis/" ++ resource.apiVersion ++ "/namespaces/" ++ ns ++ "/" ++ resource.plural

def objectPath (resource : ApiResource) (ns name : String) : String :=
  collectionPath resource ns ++ "/" ++ name

def jsonPayload (document : Json) : Http.Payload := ⟨"application/json", document⟩

def mergePatch (document : Json) : Http.Payload := ⟨"application/merge-patch+json", document⟩

def labelPatch (labels : Labels) : Json :=
  .obj [("metadata", .obj [("labels", labels.toJson)])]

/-- A request for what a text asks for. -/
def requestFor (method : Http.Method) (text : String) (payload : Option Http.Payload) :
    Except HubError Http.Request :=
  match Http.Request.to? method text payload with
  | some request => .ok request
  | none => .error (.api .unbuildable)

/-- Reads what has a name. -/
def readNamed (resource : ApiResource) (ns name : String) : Except HubError Http.Request :=
  if name = "" then .error (.api .unbuildable)
  else requestFor .get (objectPath resource ns name) none

/-- Changes a status record, or a `part` of it, which needs a name. -/
def changeNamed (method : Http.Method) (ns name part : String) (payload : Http.Payload) :
    Except HubError Http.Request :=
  if name = "" then .error (.api .unbuildable)
  else
    let path := objectPath workStatusResource ns name ++ part
    requestFor method (Http.Target.withParameters path []) (some payload)

def recordNamed (record : WorkStatus) : Except HubError String :=
  match record.metadata.name with
  | some name => .ok name
  | none => .error (.invalidRequest "WorkStatus has no name")

/-- The request of a call, if it can be sent. -/
def httpRequest : HubCall → Except HubError Http.Request
  | .getManifestWork ns name => readNamed manifestWorkResource ns name
  | .getRecord ns name => readNamed workStatusResource ns name
  | .create ns record => do
      let _ ← recordNamed record
      requestFor .post (Http.Target.withParameters (collectionPath workStatusResource ns) [])
        (some (jsonPayload record.toJson))
  | .delete ns name => changeNamed .delete ns name "" (jsonPayload (.obj []))
  | .patchLabels ns name labels =>
      changeNamed .patch ns name "" (mergePatch (labelPatch labels))
  | .updateStatus ns record => do
      let name ← recordNamed record
      changeNamed .put ns name "/status" (jsonPayload record.toJson)

/-- The error of a call whose exchange failed. -/
def errorOf (cause : ApiError) : HubCall → HubError
  | .create _ _ => .api cause
  | .getManifestWork ns name => .ofApi cause (manifestWorkText ns name)
  | .getRecord ns name | .delete ns name | .patchLabels ns name _ =>
      .ofApi cause (recordText ns name)
  | .updateStatus ns record => .ofApi cause (recordText ns (record.metadata.name.getD ""))

/-- One cause in the details of a deletion's report. -/
def checkCause (j : Json) : Json.Decoded Unit := do
  let fs ← Json.asRecord ["reason", "message", "field"] j
  let _ ← Json.withDefault "" "reason" Json.asText fs
  let _ ← Json.withDefault "" "message" Json.asText fs
  let _ ← Json.withDefault "" "field" Json.asText fs

def checkDetails (j : Json) : Json.Decoded Unit := do
  let fs ← Json.asRecord ["name", "group", "kind", "uid", "causes", "retryAfterSeconds"] j
  let _ ← Json.withDefault "" "name" Json.asText fs
  let _ ← Json.withDefault "" "group" Json.asText fs
  let _ ← Json.withDefault "" "kind" Json.asText fs
  let _ ← Json.withDefault "" "uid" Json.asText fs
  let _ ← Json.withDefault [] "causes" (Json.asListOf checkCause) fs
  let _ ← Json.withDefault 0 "retryAfterSeconds" (Json.asNatBelow (Nat.pow 2 32)) fs

def checkSummary (j : Json) : Json.Decoded Unit := do
  match ← Json.asCase j with
  | "Success" | "Failure" => pure ()
  | _ => throw (.expected "Success or Failure")

/-- The report by which a server confirms a deletion. -/
def checkDeletionReport (j : Json) : Json.Decoded Unit := do
  let fs ← Json.checkedMembers ["status", "code", "message", "reason", "details"] j
  let _ ← Json.present? "status" checkSummary fs
  let _ ← Json.withDefault 0 "code" (Json.asNatBelow (Nat.pow 2 16)) fs
  let _ ← Json.withDefault "" "message" Json.asText fs
  let _ ← Json.withDefault "" "reason" Json.asText fs
  let _ ← Json.present? "details" checkDetails fs

/-- The answer to a deletion: a report, or the record as it was. All of it has to be sound. -/
def checkDeletion (j : Json) : Json.Decoded Unit :=
  if !j.isSound then .error .unsound
  else
    match j.member? "kind" with
    | some (.str "Status") => checkDeletionReport j
    | _ => (WorkStatus.ofJson j).map fun _ => ()

/-- The value that the document of a successful reply stands for. -/
def answerOf : (c : HubCall) → Json → Json.Decoded c.Answer
  | .getManifestWork _ _, j => ManifestWork.ofJson j
  | .delete _ _, j => checkDeletion j
  | .getRecord _ _, j | .create _ _, j | .patchLabels _ _ _, j | .updateStatus _ _, j =>
      WorkStatus.ofJson j

/-- The result of a call from the reply to its request; nothing while there is none. -/
def ofReply? (c : HubCall) (r : Http.Reply) : Option c.Result :=
  (r.document? c.answerOf).map fun
    | .ok a => .ok a
    | .error cause => .error (c.errorOf cause)

/-- Makes a call to a server. -/
def exchange (c : HubCall) (server : Http.Server) : Option c.Result × Http.Server :=
  match c.httpRequest with
  | .error e => (some (.error e), server)
  | .ok request =>
      let (reply, server) := server.exchange request
      (c.ofReply? reply, server)

end StatusRelay.HubCall
