import FedTrack.Status.Reconcile
import FedTrack.Status.Timing
import FedTrack.Text.LowerCase

namespace FedTrack

/-- Keeps the status objects of a federated type: reconciles the keys that changed, and all of
them some time after a cluster became ready or stopped being ready. -/
structure StatusController where
  resource : Resource
  timing : StatusTiming
  worker : Worker
  sweeps : Deliverer String

namespace StatusController

def new (resource : Resource) (timing : StatusTiming) (maxConcurrent : Nat) : StatusController :=
  ⟨resource, timing, .new (lowerCase resource.kind) timing.worker maxConcurrent, .empty⟩

/-- The one key under which sweeps are scheduled. -/
def allClusters : String := "ALL_CLUSTERS"

def sweepAfter (c : StatusController) (now : Time) (delay : Span) : StatusController :=
  { c with sweeps := c.sweeps.deliverAfter now allClusters delay }

def clusterAvailable (c : StatusController) (now : Time) : StatusController :=
  c.sweepAfter now c.timing.availableDelay

def clusterUnavailable (c : StatusController) (now : Time) : StatusController :=
  c.sweepAfter now c.timing.unavailableDelay

/-- Schedules every federated resource. While something is not synced, another sweep follows. -/
def sweep (c : StatusController) (s : StatusSources) (now : Time) : StatusController :=
  let c := if s.areSynced then c else c.sweepAfter now c.timing.availableDelay
  { c with
    worker := s.federated.keys.foldl (fun w key => w.enqueueAfter now key c.timing.smallDelay) c.worker }

def objectChanged (c : StatusController) (now : Time) (key : Name) : StatusController :=
  { c with worker := c.worker.enqueue now key }

def targetChanged (c : StatusController) (now : Time) (key : Name) : StatusController :=
  { c with worker := c.worker.enqueueForRetry now key }

end StatusController

end FedTrack
