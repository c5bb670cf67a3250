import FedTrack.Table.Basic
import FedTrack.Poll

namespace FedTrack

inductive ClusterState
  | unavailable
  | ready (since : Time)
  | notReady (since : Time)
  deriving DecidableEq, Repr

inductive ClusterEvent
  | healthy (now : Time)
  | unhealthy (now : Time)
  deriving DecidableEq, Repr

namespace ClusterState

def isReady : ClusterState → Bool
  | .ready _ => true
  | _ => false

def onEvent (s : ClusterState) (e : ClusterEvent) : Option ClusterState :=
  match e, s with
  | .healthy now, .unavailable | .healthy now, .notReady _ => some (.ready now)
  | .healthy _, .ready _ => none
  | .unhealthy now, .ready _ => some (.notReady now)
  | .unhealthy _, .unavailable | .unhealthy _, .notReady _ => none

end ClusterState

/-- One call of a lifecycle handler. -/
structure Notice (H : Type) where
  handler : H
  cluster : String
  available : Bool
  deriving DecidableEq

/-- State of every configured cluster, and the handlers told of changes, in the order of
their registration. -/
structure ClusterStates (H : Type) where
  states : Table String ClusterState
  synced : Bool
  handlers : List H

namespace ClusterStates

variable {H : Type}

def new (clusters : List String) : ClusterStates H :=
  ⟨Table.ofList (clusters.map fun c => (c, .unavailable)), false, []⟩

def addHandler (s : ClusterStates H) (h : H) : ClusterStates H :=
  { s with handlers := s.handlers ++ [h] }

def state? (s : ClusterStates H) (cluster : String) : Option ClusterState := s.states.find? cluster

def markSynced (s : ClusterStates H) : ClusterStates H := { s with synced := true }

def ready (s : ClusterStates H) : List String :=
  (s.states.entries.filter fun e => e.2.isReady).map Prod.fst

/-- Applies a probe's answer. Handlers are told if the cluster became ready or stopped being
ready; unknown clusters are passed over. -/
def onEvent (s : ClusterStates H) (cluster : String) (e : ClusterEvent) :
    ClusterStates H × List (Notice H) :=
  match (s.state? cluster).bind (·.onEvent e) with
  | none => (s, [])
  | some new =>
    ({ s with states := s.states.insert cluster new },
     s.handlers.map fun h => ⟨h, cluster, new.isReady⟩)

end ClusterStates

end FedTrack
