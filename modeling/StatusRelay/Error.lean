/-!
# Errors

Errors are causes. An API server's answer, a hub call and the agent each have their own type, with
one function for the wording. `isTransient` and `isRetryable` say whether the same request may
succeed later; what is not retryable is dropped.
-/
namespace StatusRelay

/-- Why a request to an API server gave no answer of the expected form. -/
inductive ApiError where
  /-- The server answered with an error status. -/
  | refused (code : Nat) (message : String)
  /-- The answer was a success that could not be read. -/
  | unreadable
  /-- The connection failed or the answer broke off. -/
  | broken
  /-- The request could not be built. -/
  | unbuildable
  deriving DecidableEq, Repr

inductive HubError where
  | api (cause : ApiError)
  | notFound (what : String)
  | conflict (what : String)
  | unavailable (what : String)
  | rejected (what : String)
  | serialization
  | config (what : String)
  | invalidRequest (what : String)
  deriving DecidableEq, Repr

inductive AgentError where
  | api (cause : ApiError)
  | hub (cause : HubError)
  | hubTimeout (what : String)
  | invalidConfig (what : String)
  | listerNotFound (kind : String)
  | discovery (what : String)
  | invalidKey (what : String)
  | malformed (what : String)
  | cacheSync (what : String)
  deriving DecidableEq, Repr

/-- Statuses for which the same request may succeed later. -/
def isTransientStatus (code : Nat) : Bool :=
  code == 404 || code == 409 || code == 429 || decide (500 ≤ code)

namespace HubError

/-- Whether the error says that the record does not exist. -/
def isNotFound : HubError → Bool
  | .notFound _ => true
  | .api (.refused code _) => code == 404
  | _ => false

def isTransient : HubError → Bool
  | .api (.refused code _) => isTransientStatus code
  | .api _ | .notFound _ | .conflict _ | .unavailable _ => true
  | .rejected _ | .serialization | .config _ | .invalidRequest _ => false

/-- The cause that an error status stands for, for the thing that was asked about. -/
def ofStatus (code : Nat) (message what : String) : HubError :=
  if code = 404 then .notFound what
  else if code = 409 then .conflict (what ++ ": " ++ message)
  else if isTransientStatus code then
    .unavailable (what ++ " (" ++ toString code ++ "): " ++ message)
  else .rejected (what ++ " (" ++ toString code ++ "): " ++ message)

def ofApi (cause : ApiError) (what : String) : HubError :=
  match cause with
  | .refused code message => ofStatus code message what
  | other => .api other

/-- The wording. Errors whose text is another program's are named by their kind only. -/
def message : HubError → String
  | .api (.refused _ text) => "Kubernetes API error: ApiError: " ++ text
  | .api _ => "Kubernetes API error"
  | .notFound what => "Not found: " ++ what
  | .conflict what => "Conflict: " ++ what
  | .unavailable what => "Hub unavailable: " ++ what
  | .rejected what => "Rejected by hub: " ++ what
  | .serialization => "Serialization error"
  | .config what => "Kubeconfig error: " ++ what
  | .invalidRequest what => "Invalid request: " ++ what

end HubError

namespace AgentError

def isNotFound : AgentError → Bool
  | .hub cause => cause.isNotFound
  | _ => false

def isRetryable : AgentError → Bool
  | .api _ | .hubTimeout _ => true
  | .hub cause => cause.isTransient
  | .invalidConfig _ | .listerNotFound _ | .discovery _ | .invalidKey _ | .malformed _
  | .cacheSync _ => false

def message : AgentError → String
  | .api (.refused _ text) => "Kubernetes error: ApiError: " ++ text
  | .api _ => "Kubernetes error"
  | .hub cause => "Hub error: " ++ cause.message
  | .hubTimeout what => "Hub request timed out: " ++ what
  | .invalidConfig what => "Invalid configuration: " ++ what
  | .listerNotFound kind => "Lister not found for " ++ kind
  | .discovery what => "Discovery failed: " ++ what
  | .invalidKey what => "Invalid queue key: " ++ what
  | .malformed what => "Malformed object: " ++ what
  | .cacheSync what => "Cache sync failed: " ++ what

end AgentError
end StatusRelay
