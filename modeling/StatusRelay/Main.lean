import StatusRelay.Config

/-!
# Checking a configuration

Reads the agent's configuration from the environment and prints it, or the reason why it is not
one.
-/
namespace StatusRelay

/-- The variables that configure the agent. -/
def configVariables : List String :=
  ["HUB_KUBECONFIG", "CLUSTER_NAME", "ADDON_NAME", "STATUS_AGENT_WORKERS",
    "HUB_REQUEST_TIMEOUT_SECS", "CACHE_SYNC_TIMEOUT_SECS"]

/-- The environment that a list of variables makes up. -/
def environmentOf (settings : List (String × String)) : Environment :=
  fun name => (settings.find? fun v => v.1 == name).map Prod.snd

/-- The variables that are set. -/
def readVariables : List String → IO (List (String × String))
  | [] => pure []
  | name :: rest => do
      let value ← IO.getEnv name
      let others ← readVariables rest
      pure (value.toList.map (fun v => (name, v)) ++ others)

end StatusRelay

def main : IO UInt32 := do
  match StatusRelay.Config.ofEnvironment
    (StatusRelay.environmentOf (← StatusRelay.readVariables StatusRelay.configVariables)) with
  | .ok config =>
      IO.println config.text
      pure 0
  | .error e =>
      IO.eprintln e.message
      pure 1
