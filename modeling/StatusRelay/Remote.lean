import StatusRelay.Agent
import StatusRelay.HubCall.Http

/-!
# A hub at the other end of a connection

The agent with its hub behind an API server. A call whose reply stays away ends when the time for
it is up.
-/
namespace StatusRelay

structure Remote where
  agent : Agent
  server : Http.Server
  deriving Repr

namespace Remote

/-- A call to the hub, which takes as long as the agent allows at most. -/
def call (r : Remote) (c : HubCall) : Except AgentError c.Answer × Remote :=
  match c.exchange r.server with
  | (some result, server) => (Agent.liftHub result, { r with server := server })
  | (none, server) => (.error (.hubTimeout c.describe), { r with server := server })

def answer : (q : Request) → Remote → q.Answer × Remote
  | .hub c, r => r.call c
  | q, r =>
      let (value, agent) := Agent.answer q r.agent
      (value, { r with agent := agent })

/-- Runs a program. -/
def perform {α : Type} (r : Remote) (p : Program α) : α × Remote := p.run answer r

end Remote
end StatusRelay
