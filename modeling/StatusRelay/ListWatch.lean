import StatusRelay.Http
import StatusRelay.Registry

/-!
# Listing and watching a kind

The stream of a kind's events from an API server. It lists the objects page by page and then
watches from the list's version on. A list that fails, is unreadable or gives neither a version nor
a next page starts over; so does a watch that learns that its version is too old, or an object
without a version. Whatever else ends a watch, the next one goes on from the version of the last
event. Lines that cannot be read are passed over.

Of the time that passes only the order shows: the stream always waits for the reply to one request.
An object without a name ends the stream, as no cache can hold it.
-/
namespace StatusRelay

open Json

/-- What the stream waits for. -/
inductive ListWatch.Phase where
  /-- A page of the list; the first one has no token. -/
  | listing (token : Option String)
  /-- A watch from a version on. -/
  | watching (version : String)
  /-- A reply that never comes, or never ends. -/
  | stalled
  | ended
  deriving DecidableEq, Repr

structure ListWatch where
  resource : ApiResource
  ingest : Ingest
  phase : ListWatch.Phase
  /-- The keys to queue so far, in order. -/
  keys : List ObjectKey := []
  stopped : Bool := false
  deriving Repr

namespace ListWatch

def pageLimit : String := "500"

def watchSeconds : String := "290"

/-- The path of the objects of a resource in all namespaces. -/
def path (r : ApiResource) : String :=
  (if r.group = "" then "/api/" else "/apis/") ++ r.apiVersion ++ "/" ++ r.plural

def listQuery (token : Option String) : List (String × String) :=
  ("limit", pageLimit) :: token.toList.map fun t => ("continue", t)

def watchQuery (version : String) : List (String × String) :=
  [("watch", "true"), ("timeoutSeconds", watchSeconds), ("allowWatchBookmarks", "true"),
    ("resourceVersion", version)]

/-- The parameters of the next request. -/
def query? : Phase → Option (List (String × String))
  | .listing token => some (listQuery token)
  | .watching version => some (watchQuery version)
  | .stalled | .ended => none

/-- The request under way. There is none if it cannot be built. -/
def request? (w : ListWatch) : Option Http.Request :=
  (query? w.phase).bind fun query =>
    Http.Request.to? .get (Http.Target.withParameters (path w.resource) query) none

/-! ## Events -/

/-- Hands an event to the cache. -/
def deliver (w : ListWatch) (e : WatchEvent) : ListWatch :=
  match w.ingest.handle? e with
  | some (ingest, keys) => { w with ingest := ingest, keys := w.keys ++ keys }
  | none => { w with phase := .ended }

def isEnded (w : ListWatch) : Bool := w.phase == .ended

def deliverAll (w : ListWatch) : List WatchEvent → ListWatch
  | [] => w
  | e :: rest =>
      let w := w.deliver e
      if w.isEnded then w else w.deliverAll rest

def enter (w : ListWatch) (phase : Phase) : ListWatch :=
  if w.isEnded then w else { w with phase := phase }

/-- Starts over with a new list. -/
def restart (w : ListWatch) : ListWatch := (w.deliver .init).enter (.listing none)

def start (resource : ApiResource) : ListWatch :=
  restart ⟨resource, { kind := resource.resourceKind }, .listing none, [], false⟩

/-! ## Lists -/

structure Page where
  items : List Object
  version : Option String
  token : Option String
  deriving Repr

def nonEmpty (text : Option String) : Option String := text.filter (· ≠ "")

structure PageMeta where
  version : Option String := none
  token : Option String := none
  deriving DecidableEq, Repr

def PageMeta.ofJson (j : Json) : Decoded PageMeta := do
  let ms ← asMembers j
  let token ← present? "continue" asText ms
  let _ ← present? "remainingItemCount" asInt64 ms
  let version ← present? "resourceVersion" asText ms
  let _ ← present? "selfLink" asText ms
  pure ⟨nonEmpty version, nonEmpty token⟩

def asObjects : Json → Decoded (List Object)
  | .null => .ok []
  | j => asListOf Object.ofJson j

def Page.ofJson (j : Json) : Decoded Page := do
  let ms ← checkedMembers ["metadata", "items"] j
  checkOthers ["metadata", "items"] ms
  let about ← withDefault {} "metadata" PageMeta.ofJson ms
  let items ← needed "items" asObjects ms
  pure ⟨items, about.version, about.token⟩

/-- Goes on to the next page. If it cannot be asked for, the list has failed. -/
def nextPage (w : ListWatch) (token : String) : ListWatch :=
  let next := w.enter (.listing (some token))
  if next.isEnded || next.request?.isSome then next else next.restart

def receivePage (w : ListWatch) (p : Page) : ListWatch :=
  let items := p.items.map .initApply
  match p.token, p.version with
  | some token, _ => (w.deliverAll items).nextPage token
  | none, some version => (w.deliverAll (items ++ [.initDone])).enter (.watching version)
  | none, none => w.restart

def receiveList (w : ListWatch) (r : Http.Reply) : ListWatch :=
  match r.document? Page.ofJson with
  | none => w.enter .stalled
  | some (.error _) => w.restart
  | some (.ok page) => w.receivePage page

/-! ## Watches -/

/-- What one line of a watch says. -/
inductive Line where
  | applied (o : Object)
  | removed (o : Object)
  | bookmark (version : String)
  | error (code : Nat)
  deriving Repr

def bookmarkVersion (j : Json) : Decoded String := do
  let ms ← checkedMembers ["apiVersion", "kind", "metadata"] j
  checkOthers ["metadata"] ms
  let _ ← needed "apiVersion" asText ms
  let _ ← needed "kind" asText ms
  needed "metadata" (fun about => do
    let fs ← asRecord ["resourceVersion", "annotations"] about
    let version ← needed "resourceVersion" asText fs
    let _ ← withDefault {} "annotations" Labels.ofJson fs
    pure version) ms

/-- Whether a line gives its object before its type. -/
def objectFirst (fields : List (String × Json)) : Bool :=
  match fields.find? fun m => m.1 == "type" || m.1 == "object" with
  | some m => m.1 == "object"
  | none => false

/-- The type of a line and its fields; a line that is an array gives the type as a text. An object
that comes before the type is read before it is known what for, so it has to be sound. -/
def lineFields (j : Json) : Decoded (String × List (String × Json)) := do
  let fs ← asRecord ["type", "object"] j
  let type ← needed "type" (match j with | .arr _ => asText | _ => asCase) fs
  if objectFirst fs then
    let _ ← needed "object" asOpaque fs
  pure (type, fs)

def Line.ofJson (j : Json) : Decoded Line := do
  let (type, fs) ← lineFields j
  match type with
  | "ADDED" | "MODIFIED" => (needed "object" Object.ofJson fs).map .applied
  | "DELETED" => (needed "object" Object.ofJson fs).map .removed
  | "BOOKMARK" => (needed "object" bookmarkVersion fs).map .bookmark
  | "ERROR" => (needed "object" Http.Report.ofJson fs).map fun r => .error r.code
  | _ => .error (.expected "a type of event")

/-- The status of an error that says that a version is too old. -/
def gone : Nat := 410

/-- The lines of a body; text after the last line break counts only if the body is complete. -/
def bodyLines (body : String) (ending : Http.Ending) : List String :=
  let lines := body.splitOn "\n"
  if ending = .complete then lines else lines.dropLast

/-- Hands on the event of an object and goes on from the object's version. An object without a
version starts a new list. -/
def receiveChange (w : ListWatch) (o : Object) (e : WatchEvent) : ListWatch :=
  match nonEmpty o.resourceVersion with
  | none => w.restart
  | some version => (w.deliver e).enter (.watching version)

/-- A line counts as long as the stream watches. -/
def receiveLine (w : ListWatch) (line : String) : ListWatch :=
  match w.phase with
  | .watching _ =>
      match Http.decode? Line.ofJson line with
      | none => w
      | some (.applied o) => w.receiveChange o (.apply o)
      | some (.removed o) => w.receiveChange o (.delete o)
      | some (.bookmark version) => w.enter (.watching version)
      | some (.error code) => if code = gone then w.restart else w
  | _ => w

def receiveWatch (w : ListWatch) : Http.Reply → ListWatch
  | .silence => w.enter .stalled
  | .failure => w
  | .response _ body ending =>
      let w := (bodyLines body ending).foldl receiveLine w
      match w.phase, ending with
      | .watching _, .endless => w.enter .stalled
      | _, _ => w

/-! ## The stream -/

/-- The reply to the request under way. -/
def receive (w : ListWatch) (r : Http.Reply) : ListWatch :=
  match w.phase with
  | .listing _ => w.receiveList r
  | .watching _ => w.receiveWatch r
  | .stalled | .ended => w

/-- The requests of a stream that gets these replies and then none, and the stream at last. -/
def run (w : ListWatch) : List Http.Reply → List Http.Request × ListWatch
  | [] =>
      match w.request? with
      | none => ([], w)
      | some q => ([q], w.enter .stalled)
  | r :: rest =>
      match w.request? with
      | none => ([], w)
      | some q =>
          let (later, w) := (w.receive r).run rest
          (q :: later, w)

def stop (w : ListWatch) : ListWatch := { w with phase := .ended, stopped := true }

/-- The stream on one line. -/
def text (w : ListWatch) : String :=
  "ActiveWatch \x7b stopped: " ++ toString w.stopped ++
    ", running: " ++ toString (!w.isEnded) ++
    ", synced: " ++ toString w.ingest.synced ++ " \x7d"

end ListWatch
end StatusRelay
