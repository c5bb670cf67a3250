import FedTrack.Poll
import FedTrack.Status.Aggregated
import FedTrack.Status.Sources
import FedTrack.Store.Call
import FedTrack.Work.Worker

namespace FedTrack

/-- What a reconcile of a key comes to, once everything is synced. -/
inductive StatusDecision
  | finish (outcome : ReconcileOutcome)
  | write (call : Call)
  deriving DecidableEq

/-- The status that a target object shows. None counts as no status, and so does one that is
no map. -/
def shownStatus (target : Object) : Option Json.Members :=
  match target.statusMap with
  | .ok status => status
  | .error _ => none

namespace StatusSources

/-- Status of the target in one cluster; `none` if it cannot be looked up. -/
def clusterStatus (s : StatusSources) (key : Name) (cluster : String) : Option ClusterStatus :=
  (s.targets.lookup cluster key).map fun target => ⟨cluster, target.bind shownStatus⟩

def shows (existing : Object) (status : AggregatedStatus) : Bool :=
  match existing.data.member? "clusters" with
  | some shown => shown.agrees status.clustersJson
  | none => false

def write (s : StatusSources) (resource : Resource) (key : Name) (federated : Object)
    (status : AggregatedStatus) : StatusDecision :=
  match s.status.find? key with
  | none =>
    match federated.ownerReference with
    | .error _ => .finish .error
    | .ok owner => .write (.create (status.toObject resource key.scope? key.name owner))
  | some existing =>
    if shows existing status then .finish .allOk
    else .write (.update (status.writeClustersInto existing))

/-- What to do for a key. A resource that is gone or being deleted needs nothing: its status
object goes with it. -/
def decide (s : StatusSources) (resource : Resource) (key : Name) : StatusDecision :=
  match s.federated.find? key with
  | none => .finish .allOk
  | some federated =>
    if federated.isBeingDeleted then .finish .allOk
    else
      match s.clusters.get? with
      | none => .finish .notSynced
      | some ready =>
        match ready.mapM (s.clusterStatus key) with
        | none => .finish .error
        | some statuses =>
          s.write resource key federated
            (.of (federated.metadata.generation.getD 0) statuses)

end StatusSources

/-- A reconcile under way: it waits until everything is synced, then makes at most one call. -/
inductive StatusStage
  | polling (poll : Poll) (wake : Time)
  | writing (call : Call)
  | finished (outcome : ReconcileOutcome)

namespace StatusStage

def syncPollPeriod : Span := 10000

def start (syncTimeout : Span) (now : Time) : StatusStage :=
  .polling (Poll.start syncPollPeriod syncTimeout now) now

def ofDecision : StatusDecision → StatusStage
  | .finish outcome => .finished outcome
  | .write call => .writing call

/-- Looks at the sources and decides, or waits for the next look. -/
def look (s : StatusSources) (resource : Resource) (key : Name) (now : Time) :
    StatusStage → StatusStage
  | .polling poll _ =>
    if s.areSynced then ofDecision (s.decide resource key)
    else
      match poll.retry now with
      | some (poll, wake) => .polling poll wake
      | none => .finished .notSynced
  | other => other

def answer (outcome : Outcome) : StatusStage → StatusStage
  | .writing _ =>
    match outcome with
    | .ok _ => .finished .allOk
    | .error _ => .finished .needsRecheck
  | other => other

end StatusStage

end FedTrack
