import FedTrack.Settings.Basic
import FedTrack.Work.Worker

namespace FedTrack

structure StatusTiming where
  availableDelay : Span
  unavailableDelay : Span
  smallDelay : Span
  syncTimeout : Span
  worker : WorkerTiming
  deriving DecidableEq, Repr

namespace StatusTiming

def shortRetryDelay : Span := 50

/-- Caches that are not ready are waited for as long as a cluster that became available. -/
def of (c : ControllerSettings) : StatusTiming where
  availableDelay := c.clusterAvailableDelay
  unavailableDelay := c.clusterUnavailableDelay
  smallDelay := c.smallDelay
  syncTimeout := c.syncTimeout
  worker := { WorkerTiming.standard with
    retryDelay := if c.minimizeLatency then shortRetryDelay else WorkerTiming.standard.retryDelay
    clusterSyncDelay := c.clusterAvailableDelay }

def named (t : StatusTiming) : List (String × Span) :=
  [("cluster_available_delay", t.availableDelay), ("cluster_unavailable_delay", t.unavailableDelay),
    ("small_delay", t.smallDelay), ("cache_sync_timeout", t.syncTimeout),
    ("retry_delay", t.worker.retryDelay), ("initial_backoff", t.worker.initialBackoff),
    ("max_backoff", t.worker.maxBackoff), ("cluster_sync_delay", t.worker.clusterSyncDelay)]

end StatusTiming

end FedTrack
