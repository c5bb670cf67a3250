import FedTrack.Json.Value
import FedTrack.Object.Kind
import FedTrack.Poll
import FedTrack.Settings.Address

namespace FedTrack

inductive ClusterAccess
  | incluster
  /-- By a context of a kubeconfig file, or of the usual files if none is named. -/
  | external (context kubeconfig : Option String)
  deriving DecidableEq, Repr

structure ControllerSettings where
  /-- Where federated resources are watched; everywhere if not set. -/
  targetNamespace : Option String
  availableDelay : Nat
  unavailableDelay : Nat
  healthCheckPeriod : Nat
  cacheSyncTimeout : Nat
  maxReconciles : Nat
  minimizeLatency : Bool
  metricsAddress : Option SocketAddress
  deriving DecidableEq, Repr

structure MemberSettings where
  name : String
  context : Option String
  kubeconfig : Option String
  deriving DecidableEq, Repr

/-- A federated type, the type it propagates and the type its status is written to. -/
structure FederatedType where
  namespaced : Bool
  federated : Kind
  target : Kind
  status : Option Kind
  deriving DecidableEq, Repr

structure Settings where
  logLevel : Option String
  access : ClusterAccess
  controller : ControllerSettings
  clusters : List MemberSettings
  types : List FederatedType
  deriving DecidableEq, Repr

def textOrNull : Option String → Json
  | some s => .string s
  | none => .null

namespace ClusterAccess

def forContext (context : String) : ClusterAccess := .external (some context) none

def toJson : ClusterAccess → Json
  | .incluster => .string "incluster"
  | .external context kubeconfig =>
    .object [("external",
      .object [("kube_context", textOrNull context), ("kubeconfig", textOrNull kubeconfig)])]

end ClusterAccess

namespace ControllerSettings

def standard : ControllerSettings where
  targetNamespace := none
  availableDelay := 20
  unavailableDelay := 60
  healthCheckPeriod := 10
  cacheSyncTimeout := 300
  maxReconciles := 1
  minimizeLatency := false
  metricsAddress := some (.v4 [0, 0, 0, 0] 9090)

instance : Inhabited ControllerSettings := ⟨standard⟩

def seconds (n : Nat) : Span := 1000 * n

/-- How long after a cluster became available everything is looked at again. -/
def clusterAvailableDelay (c : ControllerSettings) : Span :=
  if c.minimizeLatency then seconds 1 else seconds c.availableDelay

def clusterUnavailableDelay (c : ControllerSettings) : Span :=
  if c.minimizeLatency then seconds 1 else seconds c.unavailableDelay

/-- Spread when every federated resource is queued at once. -/
def smallDelay (c : ControllerSettings) : Span := if c.minimizeLatency then 20 else seconds 3

/-- At least one second lies between two probes. -/
def probePeriod (c : ControllerSettings) : Span := seconds (max c.healthCheckPeriod 1)

def syncTimeout (c : ControllerSettings) : Span := seconds c.cacheSyncTimeout

def delays (c : ControllerSettings) : List (String × Span) :=
  [("cluster_available_delay", c.clusterAvailableDelay),
    ("cluster_unavailable_delay", c.clusterUnavailableDelay), ("small_delay", c.smallDelay),
    ("cluster_health_check_period", c.probePeriod), ("cache_sync_timeout", c.syncTimeout)]

def toJson (c : ControllerSettings) : Json :=
  .ofMembers [
    ("target_namespace", textOrNull c.targetNamespace),
    ("cluster_available_delay_seconds", .ofNat c.availableDelay),
    ("cluster_unavailable_delay_seconds", .ofNat c.unavailableDelay),
    ("cluster_health_check_period_seconds", .ofNat c.healthCheckPeriod),
    ("cache_sync_timeout_seconds", .ofNat c.cacheSyncTimeout),
    ("max_concurrent_status_reconciles", .ofNat c.maxReconciles),
    ("minimize_latency", .bool c.minimizeLatency),
    ("metrics_address", textOrNull (c.metricsAddress.map (·.text)))]

end ControllerSettings

namespace MemberSettings

/-- A member is reached by its context, which is named like it if no other is given. -/
def access (m : MemberSettings) : ClusterAccess := .external (some (m.context.getD m.name)) m.kubeconfig

def toJson (m : MemberSettings) : Json :=
  .object [("kube_context", textOrNull m.context), ("kubeconfig", textOrNull m.kubeconfig),
    ("name", .string m.name)]

end MemberSettings

namespace FederatedType

def kindJson (k : Kind) : Json :=
  .object [("group", .string k.group), ("kind", .string k.kind), ("version", .string k.version)]

def toJson (t : FederatedType) : Json :=
  .object [("federated", kindJson t.federated), ("namespaced", .bool t.namespaced),
    ("status", match t.status with
      | some k => kindJson k
      | none => .null),
    ("target", kindJson t.target)]

end FederatedType

namespace Settings

def standard : Settings := ⟨none, .incluster, .standard, [], []⟩

instance : Inhabited Settings := ⟨standard⟩

def toJson (s : Settings) : Json :=
  .object [("clusters", .array (s.clusters.map (·.toJson))), ("controller", s.controller.toJson),
    ("kubernetes", s.access.toJson), ("log_level", textOrNull s.logLevel),
    ("types", .array (s.types.map (·.toJson)))]

end Settings

end FedTrack
