import FedTrack.Simulation.StoreRun
import FedTrack.Status.Controller

namespace FedTrack.Simulation

/-- Changed names on their way to a controller. -/
structure ChangeFeed where
  names : List Name
  abandoned : Bool

namespace ChangeFeed

def empty : ChangeFeed := ⟨[], false⟩

end ChangeFeed

structure StatusWorld where
  held : HeldStore
  sources : StatusSources
  controller : StatusController
  metrics : Metrics
  results : Table String ReconcileOutcome
  objectChanges : ChangeFeed
  targetChanges : ChangeFeed
  closed : Bool
  cancelled : Bool

inductive StatusTask
  | deliver (stage : DeliveryLoop Name)
  | sweeps (stage : DeliveryLoop String)
  | objectFeed
  | targetFeed
  | idle
  | busy (key : Name) (started : Time) (stage : StatusStage) (flight : Option Flight)
  | asked (ticket : String) (key : Name) (stage : StatusStage) (flight : Option Flight)

namespace StatusWorld

def new (controller : StatusController) (ready : List String) : StatusWorld where
  held := .empty
  sources :=
    { clusters := ⟨ready, true, false⟩
      federated := ObjectCache.empty.setSynced true
      status := ObjectCache.empty.setSynced true
      targets := .empty }
  controller := controller
  metrics := .empty
  results := .empty
  objectChanges := .empty
  targetChanges := .empty
  closed := false
  cancelled := false

def setStore (w : StatusWorld) (s : MemoryStore) : StatusWorld :=
  { w with held := { w.held with store := s } }

def setWorker (w : StatusWorld) (worker : Worker) : StatusWorld :=
  { w with controller := { w.controller with worker := worker } }

def kind (w : StatusWorld) : Kind := w.controller.resource.toKind

def stageReady (now : Time) (w : StatusWorld) (stage : StatusStage) (flight : Option Flight) : Bool :=
  match flight with
  | some f => w.held.store.isOpen f.gate
  | none =>
    match stage with
    | .polling _ wake => wake ≤ now
    | _ => true

def stageAlarm (stage : StatusStage) (flight : Option Flight) : Option Time :=
  match stage, flight with
  | .polling _ wake, none => some wake
  | _, _ => none

def stepStage (now : Time) (w : StatusWorld) (key : Name) (stage : StatusStage)
    (flight : Option Flight) : StatusWorld × StatusStage × Option Flight :=
  match flight with
  | some f =>
    let (s, outcome) := w.held.store.land f
    (w.setStore s, stage.answer outcome, none)
  | none =>
    match stage with
    | .writing call =>
      match w.held.store.launch w.kind call with
      | (s, .inl outcome) => (w.setStore s, stage.answer outcome, none)
      | (s, .inr f) => (w.setStore s, stage, some f)
    | _ => (w, stage.look w.sources w.controller.resource key now, none)

def ready (now : Time) (w : StatusWorld) : StatusTask → Bool
  | .deliver l => w.cancelled || l.ready w.controller.worker.deliverer now
  | .sweeps l => w.cancelled || l.ready w.controller.sweeps now
  | .objectFeed => w.cancelled || w.closed || !w.objectChanges.names.isEmpty
  | .targetFeed => w.cancelled || w.closed || !w.targetChanges.names.isEmpty
  | .idle => w.cancelled || !w.controller.worker.queue.channel.isEmpty
  | .busy _ _ stage flight => w.stageReady now stage flight
  | .asked _ _ stage flight => w.stageReady now stage flight

def alarm : StatusTask → Option Time
  | .deliver l => l.alarm
  | .sweeps l => l.alarm
  | .busy _ _ stage flight => stageAlarm stage flight
  | .asked _ _ stage flight => stageAlarm stage flight
  | _ => none

def step (now : Time) (w : StatusWorld) : StatusTask → StatusWorld × List StatusTask × Option StatusTask
  | .deliver l =>
    if w.cancelled then (w, [], none)
    else
      let worker := w.controller.worker
      let (l, d, key) := l.step worker.deliverer now
      let worker := { worker with deliverer := d }
      let worker := match key with
        | some key => worker.receive key
        | none => worker
      (w.setWorker worker, [], some (.deliver l))
  | .sweeps l =>
    if w.cancelled then (w, [], none)
    else
      let (l, d, key) := l.step w.controller.sweeps now
      let c := { w.controller with sweeps := d }
      let c := match key with
        | some _ => c.sweep w.sources now
        | none => c
      ({ w with controller := c }, [], some (.sweeps l))
  | .objectFeed =>
    if w.cancelled then ({ w with objectChanges := ⟨[], true⟩ }, [], none)
    else
      match w.objectChanges.names with
      | [] => ({ w with objectChanges := ⟨[], true⟩ }, [], none)
      | key :: rest =>
        ({ w with
          objectChanges := ⟨rest, false⟩
          controller := w.controller.objectChanged now key }, [], some .objectFeed)
  | .targetFeed =>
    if w.cancelled then ({ w with targetChanges := ⟨[], true⟩ }, [], none)
    else
      match w.targetChanges.names with
      | [] => ({ w with targetChanges := ⟨[], true⟩ }, [], none)
      | key :: rest =>
        ({ w with
          targetChanges := ⟨rest, false⟩
          controller := w.controller.targetChanged now key }, [], some .targetFeed)
  | .idle =>
    if w.cancelled then (w, [], none)
    else
      match w.controller.worker.queue.get? with
      | none => (w, [], some .idle)
      | some (key, queue) =>
        let w := w.setWorker { w.controller.worker with queue := queue }
        let syncTimeout := w.controller.timing.syncTimeout
        -- a deadline that cannot be told stops the task; the key stays taken
        if Machine.simulated.last < now + syncTimeout then (w, [], none)
        else (w, [], some (.busy key now (.start syncTimeout now) none))
  | .busy key started stage flight =>
    match w.stepStage now key stage flight with
    | (w, .finished outcome, _) =>
      let worker := w.controller.worker
      let metrics := worker.measure (now - started) outcome w.metrics
      ({ w.setWorker (worker.finish now key outcome) with metrics := metrics }, [], some .idle)
    | (w, stage, flight) => (w, [], some (.busy key started stage flight))
  | .asked ticket key stage flight =>
    match w.stepStage now key stage flight with
    | (w, .finished outcome, _) =>
      ({ w with results := w.results.insert ticket outcome }, [], none)
    | (w, stage, flight) => (w, [], some (.asked ticket key stage flight))

def rules : Rules StatusWorld StatusTask := ⟨ready, alarm, step⟩

end StatusWorld

inductive StatusStep
  | store (c : StoreCommand)
  /-- Every stored status object becomes visible to readers. -/
  | copyStored
  | list
  | sources (f : StatusSources → StatusSources)
  | reconcile (key : Name)
  | isSynced
  | sweep
  | clusterAvailable
  | clusterUnavailable
  | run
  | objectChange (key : Name)
  | targetChange (key : Name)
  | closeChanges
  | cancel
  | metrics
  | advance (ms : Span)

inductive StatusAnswer
  | done
  | reply (r : StoreReply)
  | objects (l : List Object)
  | failed (e : StoreError)
  | outcome (o : ReconcileOutcome)
  | stuck
  | synced (b : Bool)
  | tasks (n : Nat)
  | sent (b : Bool)
  | metrics (m : Metrics)

abbrev StatusRun := Schedule StatusWorld StatusTask

namespace StatusRun

def new (controller : StatusController) (ready : List String) : StatusRun :=
  Schedule.new (.new controller ready)

def change (r : StatusRun) (f : StatusWorld → StatusWorld) : StatusRun :=
  settle StatusWorld.rules (r.mapWorld f)

def changeController (r : StatusRun) (f : StatusController → StatusController) : StatusRun :=
  r.change fun w => { w with controller := f w.controller }

def waitingGates (r : StatusRun) : List Nat :=
  r.tasks.filterMap fun w => match w.task with
    | .busy _ _ _ (some f) => some f.gate
    | .asked _ _ _ (some f) => some f.gate
    | _ => none

def crew (c : StatusController) : List StatusTask :=
  .deliver .arming :: (List.replicate c.worker.maxConcurrent .idle ++
    [.sweeps .arming, .objectFeed, .targetFeed])

def listed (r : StatusRun) : StatusRun × Outcome :=
  let (s, outcome) := r.world.held.store.perform r.world.kind (.list none)
  (r.mapWorld fun w => w.setStore s, outcome)

def ticket : String := StoreRun.inlineTicket

def perform (r : StatusRun) : StatusStep → StatusRun × StatusAnswer
  | .store c =>
    let (held, reply) := c.run r.world.kind r.waitingGates r.world.held
    (r.change fun w => { w with held := held }, .reply reply)
  | .copyStored =>
    match r.listed with
    | (r, .ok (.objects l)) =>
      (r.change fun w =>
        { w with sources := { w.sources with status := l.foldl ObjectCache.put w.sources.status } }, .done)
    | (r, .ok _) => (r, .done)
    | (r, .error e) => (r, .failed e)
  | .list =>
    match r.listed with
    | (r, .ok (.objects l)) => (r, .objects l)
    | (r, .ok _) => (r, .done)
    | (r, .error e) => (r, .failed e)
  | .sources f => (r.change fun w => { w with sources := f w.sources }, .done)
  | .reconcile key =>
    let stage := StatusStage.start r.world.controller.timing.syncTimeout r.now
    let r := r.mapWorld fun w => { w with results := w.results.erase ticket }
    let r := await StatusWorld.rules r (.asked ticket key stage none) fun w => w.results.contains ticket
    match r.world.results.find? ticket with
    | some o => (r, .outcome o)
    | none =>
      let others := r.tasks.filter fun w => match w.task with
        | .asked .. => false
        | _ => true
      ({ r with tasks := others }, .stuck)
  | .isSynced => (r, .synced r.world.sources.areSynced)
  | .sweep => (r.changeController fun c => c.sweep r.world.sources r.now, .done)
  | .clusterAvailable => (r.changeController fun c => c.clusterAvailable r.now, .done)
  | .clusterUnavailable => (r.changeController fun c => c.clusterUnavailable r.now, .done)
  | .run =>
    let crew := crew r.world.controller
    (settle StatusWorld.rules (r.addAll crew), .tasks crew.length)
  | .objectChange key =>
    let feed := r.world.objectChanges
    if r.world.closed || feed.abandoned then (r, .sent false)
    else (r.change fun w => { w with objectChanges := ⟨feed.names ++ [key], false⟩ }, .sent true)
  | .targetChange key =>
    let feed := r.world.targetChanges
    if r.world.closed || feed.abandoned then (r, .sent false)
    else (r.change fun w => { w with targetChanges := ⟨feed.names ++ [key], false⟩ }, .sent true)
  | .closeChanges => (r.change fun w => { w with closed := true }, .done)
  | .cancel => (r.change fun w => { w with cancelled := true }, .done)
  | .metrics => (r.mapWorld fun w => { w with metrics := .empty }, .metrics r.world.metrics)
  | .advance ms => (pass StatusWorld.rules r ms, .done)

end StatusRun

end FedTrack.Simulation
