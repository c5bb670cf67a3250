import FedTrack.Simulation.Limits
import FedTrack.Work.Worker

namespace FedTrack.Simulation

/-- Outcomes of the coming reconciles of each key, with the spans that they take. -/
abbrev Scripts := Table Name (List (ReconcileOutcome × Span))

structure Reconcile where
  key : Name
  started : Time
  outcome : ReconcileOutcome
  deriving DecidableEq, Repr

inductive WorkerStep
  | run
  | enqueue (key : Name)
  | enqueueForRetry (key : Name)
  | enqueueForClusterSync (key : Name)
  | enqueueAfter (key : Name) (ms : Span)
  | enqueueWithBackoff (key : Name)
  | advance (ms : Span)
  | cancel
  | drop

structure WorkerWorld where
  worker : Worker
  scripts : Scripts
  calls : List Reconcile
  metrics : Metrics
  cancelled : Bool
  handles : Nat

inductive WorkerTask
  | deliver (stage : DeliveryLoop Name)
  | idle
  | busy (call : Reconcile) (ends : Time)

namespace WorkerWorld

/-- The next entry of a key's script; after its last one all goes well at once. -/
def takeScript (w : WorkerWorld) (key : Name) : WorkerWorld × ReconcileOutcome × Span :=
  match w.scripts.find? key with
  | some ((outcome, takes) :: rest) => ({ w with scripts := w.scripts.insert key rest }, outcome, takes)
  | _ => (w, .allOk, 0)

def ready (now : Time) (w : WorkerWorld) : WorkerTask → Bool
  | .deliver l => w.cancelled || l.ready w.worker.deliverer now
  | .idle => w.cancelled || !w.worker.queue.channel.isEmpty
  | .busy _ ends => ends ≤ now

def alarm : WorkerTask → Option Time
  | .deliver l => l.alarm
  | .idle => none
  | .busy _ ends => some ends

def step (now : Time) (w : WorkerWorld) : WorkerTask → WorkerWorld × List WorkerTask × Option WorkerTask
  | .deliver l =>
    if w.cancelled then (w, [], none)
    else
      let (l, d, key) := l.step w.worker.deliverer now
      let worker := { w.worker with deliverer := d }
      let worker := match key with
        | some key => worker.receive key
        | none => worker
      ({ w with worker := worker }, [], some (.deliver l))
  | .idle =>
    if w.cancelled then (w, [], none)
    else
      match w.worker.queue.get? with
      | none => (w, [], some .idle)
      | some (key, queue) =>
        let (w, outcome, takes) := { w with worker := { w.worker with queue := queue } }.takeScript key
        let call : Reconcile := ⟨key, now, outcome⟩
        ({ w with calls := call :: w.calls }, [], some (.busy call (now + takes)))
  | .busy call _ =>
    let metrics := w.worker.measure (now - call.started) call.outcome w.metrics
    ({ w with worker := w.worker.finish now call.key call.outcome, metrics := metrics }, [], some .idle)

def rules : Rules WorkerWorld WorkerTask := ⟨ready, alarm, step⟩

end WorkerWorld

abbrev WorkerRun := Schedule WorkerWorld WorkerTask

namespace WorkerRun

def new (worker : Worker) (scripts : Scripts) : WorkerRun :=
  Schedule.new ⟨worker, scripts, [], .empty, false, 0⟩

def change (r : WorkerRun) (f : WorkerWorld → WorkerWorld) : WorkerRun :=
  settle WorkerWorld.rules (r.mapWorld f)

def schedule (r : WorkerRun) (f : Worker → Worker) : WorkerRun :=
  r.change fun w => { w with worker := f w.worker }

def crew (w : Worker) : List WorkerTask := .deliver .arming :: List.replicate w.maxConcurrent .idle

def perform (r : WorkerRun) : WorkerStep → WorkerRun
  | .run =>
    let crew := crew r.world.worker
    settle WorkerWorld.rules ((r.mapWorld fun w => { w with handles := crew.length }).addAll crew)
  | .enqueue key => r.schedule (·.enqueue r.now key)
  | .enqueueForRetry key => r.schedule (·.enqueueForRetry r.now key)
  | .enqueueForClusterSync key => r.schedule (·.enqueueForClusterSync r.now key)
  | .enqueueAfter key ms => r.schedule (·.enqueueAfter r.now key ms)
  | .enqueueWithBackoff key => r.schedule (·.enqueueWithBackoff r.now key)
  | .advance ms => pass WorkerWorld.rules r ms
  | .cancel => r.change fun w => { w with cancelled := true }
  | .drop => { r with tasks := [], queue := [] }.mapWorld fun w => { w with handles := 0 }

def takeCalls (r : WorkerRun) : WorkerRun × List Reconcile :=
  (r.mapWorld fun w => { w with calls := [] }, r.world.calls.reverse)

def takeMetrics (r : WorkerRun) : WorkerRun × Metrics :=
  (r.mapWorld fun w => { w with metrics := .empty }, r.world.metrics)

end WorkerRun

end FedTrack.Simulation
