import FedTrack.Name
import FedTrack.Metrics
import FedTrack.Work.Deliverer
import FedTrack.Work.Queue

namespace FedTrack

/-- How a reconcile ended. -/
inductive ReconcileOutcome
  | allOk
  /-- Try again after the retry delay. -/
  | needsRecheck
  /-- Try again with growing delays. -/
  | error
  /-- Caches are not ready; try again after the cluster sync delay. -/
  | notSynced
  deriving DecidableEq, Repr

def ReconcileOutcome.label : ReconcileOutcome → String
  | .allOk => "AllOk"
  | .needsRecheck => "NeedsRecheck"
  | .error => "Error"
  | .notSynced => "NotSynced"

structure WorkerTiming where
  retryDelay : Span
  initialBackoff : Span
  maxBackoff : Span
  clusterSyncDelay : Span
  deriving DecidableEq, Repr

def WorkerTiming.standard : WorkerTiming := ⟨10000, 5000, 60000, 20000⟩

/-- Reconciles queued keys and schedules each again as its outcome asks for. -/
structure Worker where
  name : String
  timing : WorkerTiming
  maxConcurrent : Nat
  queue : WorkQueue Name
  deliverer : Deliverer Name
  /-- The delay used last for each key that failed last. -/
  backoff : Table Name Span

namespace Worker

/-- At least one key is reconciled at a time. -/
def new (name : String) (timing : WorkerTiming) (maxConcurrent : Nat) : Worker :=
  ⟨name, timing, max maxConcurrent 1, .empty, .empty, .empty⟩

def enqueueAfter (w : Worker) (now : Time) (key : Name) (delay : Span) : Worker :=
  { w with deliverer := w.deliverer.deliverAfter now key delay }

def enqueue (w : Worker) (now : Time) (key : Name) : Worker :=
  { w with deliverer := w.deliverer.deliverNow now key }

def enqueueForRetry (w : Worker) (now : Time) (key : Name) : Worker :=
  w.enqueueAfter now key w.timing.retryDelay

def enqueueForClusterSync (w : Worker) (now : Time) (key : Name) : Worker :=
  w.enqueueAfter now key w.timing.clusterSyncDelay

/-- The delay after `last`: the initial one first, then twice the last up to the greatest. -/
def backoffAfter (t : WorkerTiming) (last : Span) : Span :=
  if last = 0 then t.initialBackoff else min (last * 2) t.maxBackoff

def nextBackoff (w : Worker) (key : Name) : Worker × Span :=
  let next := backoffAfter w.timing ((w.backoff.find? key).getD 0)
  ({ w with backoff := w.backoff.insert key next }, next)

def enqueueWithBackoff (w : Worker) (now : Time) (key : Name) : Worker :=
  let (w, delay) := w.nextBackoff key
  w.enqueueAfter now key delay

/-- A key has been delivered. -/
def receive (w : Worker) (key : Name) : Worker := { w with queue := w.queue.add key }

/-- Schedules a key as the outcome of its reconcile asks for. -/
def reschedule (w : Worker) (now : Time) (key : Name) : ReconcileOutcome → Worker
  | .allOk => { w with backoff := w.backoff.erase key }
  | .error => w.enqueueWithBackoff now key
  | .needsRecheck => w.enqueueForRetry now key
  | .notSynced => w.enqueueForClusterSync now key

/-- A reconcile ends. -/
def finish (w : Worker) (now : Time) (key : Name) (outcome : ReconcileOutcome) : Worker :=
  { w with queue := w.queue.done key }.reschedule now key outcome

/-- Counts and measures a reconcile that has ended. -/
def measure (w : Worker) (elapsed : Span) (outcome : ReconcileOutcome) (m : Metrics) : Metrics :=
  (m.record (Metrics.reconcileDuration w.name) elapsed).add
    (Metrics.reconciles w.name outcome.label) 1

end Worker

end FedTrack
