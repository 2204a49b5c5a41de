import StatusRelay.Error
import StatusRelay.Http.Target
import StatusRelay.Json.Decode
import StatusRelay.Json.Parse
import StatusRelay.Text.Quoted

/-!
# HTTP exchanges with an API server

A request, the reply to it, and how a client reads a reply that is to be one document. A reply may
stay away, the connection may fail, and a body may end early or never. Statuses from 400 to 599
are errors: if the body is an error report its code and message count, whatever the status of the
reply was, and otherwise the status counts and the body is quoted.
-/
namespace StatusRelay.Http

inductive Method where
  | get
  | post
  | put
  | patch
  | delete
  deriving DecidableEq, Repr

def Method.text : Method → String
  | .get => "GET"
  | .post => "POST"
  | .put => "PUT"
  | .patch => "PATCH"
  | .delete => "DELETE"

/-- A body with its media type. -/
structure Payload where
  contentType : String
  document : Json
  deriving Repr

structure Request where
  method : Method
  target : Target
  payload : Option Payload := none
  deriving Repr

/-- The request for what a text asks for; nothing if its target cannot be built. -/
def Request.to? (method : Method) (text : String) (payload : Option Payload) : Option Request :=
  (Target.ofText? text).map fun target => ⟨method, target, payload⟩

/-- How a body ends. -/
inductive Ending where
  | complete
  /-- The rest never arrives. -/
  | endless
  /-- The connection fails. -/
  | broken
  deriving DecidableEq, Repr

inductive Reply where
  | response (status : Nat) (body : String) (ending : Ending)
  /-- The server never answers. -/
  | silence
  /-- The connection fails before there is an answer. -/
  | failure
  deriving DecidableEq, Repr

def isErrorStatus (status : Nat) : Bool := decide (400 ≤ status) && decide (status < 600)

/-- What an error report says. -/
structure Report where
  code : Nat
  message : String
  deriving DecidableEq, Repr

/-- Reads an error report, which has a status and a code. -/
def Report.ofJson (j : Json) : Json.Decoded Report := do
  let fs ← Json.asRecord ["status", "message", "reason", "code"] j
  let _ ← Json.needed "status" Json.asText fs
  let message ← Json.withDefault "" "message" Json.asText fs
  let _ ← Json.withDefault "" "reason" Json.asText fs
  let code ← Json.needed "code" (Json.asNatBelow (Nat.pow 2 16)) fs
  pure ⟨code, message⟩

/-- The value of a document; nothing if the text is no such document. Faults count only where they
are read. -/
def decode? {α : Type} (value : Json → Json.Decoded α) (text : String) : Option α :=
  match Json.scan text with
  | .error _ => none
  | .ok j => (value j).toOption

/-- The report in the body of an error, or else one made from the status and the body. -/
def reportOf (status : Nat) (body : String) : Report :=
  (decode? Report.ofJson body).getD ⟨status, Text.quoted body⟩

namespace Reply

/-- The body of a reply that is a success; nothing while the reply is not complete. -/
def body? : Reply → Option (Except ApiError String)
  | .silence | .response _ _ .endless => none
  | .failure | .response _ _ .broken => some (.error .broken)
  | .response status body .complete =>
      if isErrorStatus status then
        let report := reportOf status body
        some (.error (.refused report.code report.message))
      else some (.ok body)

/-- The document that a reply carries. -/
def document? {α : Type} (value : Json → Json.Decoded α) (r : Reply) : Option (Except ApiError α) :=
  r.body?.map fun
    | .error cause => .error cause
    | .ok body =>
        match decode? value body with
        | some a => .ok a
        | none => .error .unreadable

end Reply

/-- A server that gives each request the next of its replies and after the last one falls silent.
It remembers the requests. -/
structure Server where
  replies : List Reply
  received : List Request := []
  deriving Repr

def Server.exchange (s : Server) (r : Request) : Reply × Server :=
  match s.replies with
  | [] => (.silence, { s with received := s.received ++ [r] })
  | reply :: rest => (reply, ⟨rest, s.received ++ [r]⟩)

end StatusRelay.Http
