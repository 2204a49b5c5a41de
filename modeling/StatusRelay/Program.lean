import StatusRelay.AppliedSet
import StatusRelay.HubCall
import StatusRelay.Key
import StatusRelay.Tracker

/-!
# Programs of requests

What a worker does with a key is written as a program: a value, or a request together with what to
do with its answer. Every request is answered at one instant, and anything may happen between two
of them. So one and the same program runs against the hub in memory or over a connection, alone or
interleaved with others, and every interleaving of several workers is an interleaving of their
requests.
-/
namespace StatusRelay

/-- What the cache of a kind's watch says about some coordinates. -/
inductive Sighting where
  | noWatch
  | absent
  | present (o : Object)
  deriving Repr

inductive Request where
  /-- A call to the hub. -/
  | hub (call : HubCall)
  /-- Which resource is served under a plural name? -/
  | resourceNamed (group version plural : String)
  /-- Which resource serves a kind? -/
  | resourceOfKind (kind : ResourceKind)
  /-- Look up an object in its kind's cache. -/
  | find (kind : ResourceKind) (ns name : String)
  /-- Store the set of a deployment record. -/
  | replaceSet (work manifestWork : String) (applied : AppliedSet)
  /-- Forget a deployment record. -/
  | removeSet (work : String)
  /-- Who owns a UID? -/
  | ownerOf (uid : String)
  /-- Count a UID against a kind. -/
  | acquire (resource : ApiResource) (uid : String)
  /-- Drop a UID's hold on a kind. -/
  | release (kind : ResourceKind) (uid : String)
  /-- Add a key to the work queue. -/
  | enqueue (key : ObjectKey)
  deriving Repr

namespace Request

abbrev Answer : Request → Type
  | .hub call => Except AgentError call.Answer
  | .resourceNamed _ _ _ | .resourceOfKind _ => Except AgentError ApiResource
  | .find _ _ _ => Sighting
  | .replaceSet _ _ _ => AppliedSet.Difference
  | .removeSet _ => Option AppliedSet
  | .ownerOf _ => Option TrackedOwner
  | .acquire _ _ | .release _ _ => Bool
  | .enqueue _ => Unit

end Request

inductive Program (α : Type) : Type where
  | done (value : α)
  | ask (request : Request) (next : request.Answer → Program α)

namespace Program

variable {α β : Type}

def bind : Program α → (α → Program β) → Program β
  | .done a, f => f a
  | .ask request next, f => .ask request fun answer => (next answer).bind f

instance : Monad Program where
  pure := .done
  bind := bind

/-- A program of one request. -/
def request (r : Request) : Program r.Answer := .ask r .done

/-- Runs a program against something that answers every request and may change in doing so. -/
def run {σ : Type} (answer : (r : Request) → σ → r.Answer × σ) : Program α → σ → α × σ
  | .done a, s => (a, s)
  | .ask r next, s =>
      let (value, s) := answer r s
      (next value).run answer s

@[simp] theorem pure_bind (a : α) (f : α → Program β) : (Program.done a).bind f = f a := rfl

@[simp] theorem ask_bind (r : Request) (next : r.Answer → Program α) (f : α → Program β) :
    (Program.ask r next).bind f = .ask r fun answer => (next answer).bind f := rfl

@[simp] theorem bind_done (p : Program α) : p.bind .done = p := by
  induction p with
  | done a => rfl
  | ask r next ih => simp [ih]

theorem bind_assoc {γ : Type} (p : Program α) (f : α → Program β) (g : β → Program γ) :
    (p.bind f).bind g = p.bind fun a => (f a).bind g := by
  induction p with
  | done a => rfl
  | ask r next ih => simp [ih]

end Program

/-- A program that may fail. -/
abbrev Attempt := ExceptT AgentError Program

namespace Attempt

/-- A request whose answer is not an error. -/
def request (r : Request) : Attempt r.Answer := ExceptT.lift (Program.request r)

/-- A call to the hub; its error ends the task. -/
def hub (call : HubCall) : Attempt call.Answer := ExceptT.mk (Program.request (.hub call))

def resourceNamed (group version plural : String) : Attempt ApiResource :=
  ExceptT.mk (Program.request (.resourceNamed group version plural))

def resourceOfKind (kind : ResourceKind) : Attempt ApiResource :=
  ExceptT.mk (Program.request (.resourceOfKind kind))

/-- The answer of a call, or nothing if the hub has no such record. -/
def hub? (call : HubCall) : Attempt (Option call.Answer) :=
  ExceptT.mk <| .ask (.hub call) fun
    | .ok answer => .done (.ok (some answer))
    | .error e => .done (if e.isNotFound then .ok none else .error e)

end Attempt
end StatusRelay
