import StatusRelay.Duration
import StatusRelay.Error
import StatusRelay.Text.Blank
import StatusRelay.Text.Digits
import StatusRelay.Text.Quoted

/-!
# Configuration

Six variables configure the agent. The hub's kubeconfig and the cluster's name are required, a
blank add-on name counts as unset, and three numbers have defaults. Variables are checked in that
order and the first offending one is reported. Numbers may have blanks around them and a plus sign
in front; all other texts are taken as they are.
-/
namespace StatusRelay

/-- The variables' values; unset ones have none. -/
abbrev Environment := String → Option String

structure Config where
  hubKubeconfig : String
  /-- The cluster's name, which is also the hub namespace of its records. -/
  clusterName : String
  addonName : String
  workers : Nat
  hubRequestTimeout : Duration
  cacheSyncTimeout : Duration
  deriving DecidableEq, Repr

namespace Config

def defaultAddonName : String := "status"

def defaultWorkers : Nat := 4

def defaultHubRequestSeconds : Nat := 120

def defaultCacheSyncSeconds : Nat := 60

/-- Numbers stay below this bound. -/
def numberBound : Nat := Nat.pow 2 64

def bounded? (n : Nat) : Option Nat := if n < numberBound then some n else none

/-- A number with one more digit behind it, as long as it stays below the bound. -/
def push? (n : Nat) (c : Char) : Option Nat := do
  let tens ← bounded? (n * 10)
  if Text.isDigit c then bounded? (tens + Text.digitValue c) else none

/-- The number of one or more digits, gathered from the first to the last. -/
def digits? (cs : List Char) : Option Nat := if cs = [] then none else cs.foldlM push? 0

/-- The number that a text holds. -/
def number? (raw : String) : Option Nat :=
  match Text.trimChars raw.toList with
  | '+' :: rest => digits? rest
  | cs => digits? cs

def required (env : Environment) (key : String) : Except AgentError String :=
  match env key with
  | some value =>
      if Text.isAllBlank value then
        .error (.invalidConfig (key ++ " environment variable is required"))
      else .ok value
  | none => .error (.invalidConfig (key ++ " environment variable is required"))

def numberOr (env : Environment) (key : String) (default : Nat) : Except AgentError Nat :=
  match env key with
  | none => .ok default
  | some raw =>
      match number? raw with
      | some n => .ok n
      | none => .error (.invalidConfig (key ++ " has invalid value " ++ Text.quoted raw))

def addonNameIn (env : Environment) : String :=
  match env "ADDON_NAME" with
  | some value => if Text.isAllBlank value then defaultAddonName else value
  | none => defaultAddonName

/-- The configuration that an environment gives. -/
def ofEnvironment (env : Environment) : Except AgentError Config := do
  let hubKubeconfig ← required env "HUB_KUBECONFIG"
  let clusterName ← required env "CLUSTER_NAME"
  let workers ← numberOr env "STATUS_AGENT_WORKERS" defaultWorkers
  if workers = 0 then
    throw (.invalidConfig "STATUS_AGENT_WORKERS must be at least 1")
  let hubSeconds ← numberOr env "HUB_REQUEST_TIMEOUT_SECS" defaultHubRequestSeconds
  let syncSeconds ← numberOr env "CACHE_SYNC_TIMEOUT_SECS" defaultCacheSyncSeconds
  pure {
    hubKubeconfig := hubKubeconfig
    clusterName := clusterName
    addonName := addonNameIn env
    workers := workers
    hubRequestTimeout := .ofSeconds hubSeconds
    cacheSyncTimeout := .ofSeconds syncSeconds }

/-- The configuration on one line. -/
def text (c : Config) : String :=
  "AgentConfig \x7b hub_kubeconfig: " ++ Text.quoted c.hubKubeconfig ++
    ", cluster_name: " ++ Text.quoted c.clusterName ++
    ", addon_name: " ++ Text.quoted c.addonName ++
    ", workers: " ++ toString c.workers ++
    ", hub_request_timeout: " ++ c.hubRequestTimeout.text ++
    ", cache_sync_timeout: " ++ c.cacheSyncTimeout.text ++ " \x7d"

end Config
end StatusRelay
