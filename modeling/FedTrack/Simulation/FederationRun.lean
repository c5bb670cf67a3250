import FedTrack.Member.Informer
import FedTrack.Simulation.Limits
import FedTrack.Simulation.WatchServer

namespace FedTrack.Simulation

structure FederationWorld where
  servers : Table String WatchServer
  states : ClusterStates Unit
  informer : Informer
  /-- Contents of all caches ever started, by number. -/
  caches : Table Nat WatchedCache
  scope : Option String
  published : List Name
  cancelled : Bool

inductive FederationTask
  /-- Probes all clusters at a time, and then again each period. -/
  | probe (next : Time) (period : Span)
  | start (cluster : String)
  | follow (cluster : String) (cache : Nat) (stage : FollowStage)

namespace FederationWorld

def new (clusters : List String) (scope : Option String) : FederationWorld where
  servers := Table.ofList (clusters.map fun c => (c, WatchServer.new))
  states := (ClusterStates.new clusters).addHandler ()
  informer := .new
  caches := .empty
  scope := scope
  published := []
  cancelled := false

def server (w : FederationWorld) (cluster : String) : WatchServer :=
  (w.servers.find? cluster).getD .new

def setServer (w : FederationWorld) (cluster : String) (s : WatchServer) : FederationWorld :=
  { w with servers := w.servers.insert cluster s }

def ready (now : Time) (w : FederationWorld) : FederationTask → Bool
  | .probe next _ => w.cancelled || next ≤ now
  | .start _ => true
  | .follow cluster cache stage =>
    match stage with
    | .pausing wake => wake ≤ now
    | _ => w.informer.isStopped cache || stage.ready now (w.server cluster)

def alarm : FederationTask → Option Time
  | .probe next _ => some next
  | .start _ => none
  | .follow _ _ stage => stage.alarm

/-- Probes one cluster; a change of its state is followed by the informer. -/
def probeOne (now : Time) (w : FederationWorld) (cluster : String) :
    FederationWorld × List FederationTask :=
  let event : ClusterEvent := if (w.server cluster).healthy then .healthy now else .unhealthy now
  let (states, notices) := w.states.onEvent cluster event
  let informer := notices.foldl (fun i n => i.follow n) w.informer
  ({ w with states := states, informer := informer },
    (notices.filter (·.available)).map fun n => .start n.cluster)

def probeAll (now : Time) (w : FederationWorld) (clusters : List String) :
    FederationWorld × List FederationTask :=
  clusters.foldl (fun (w, tasks) c =>
    let (w, more) := w.probeOne now c
    (w, tasks ++ more)) (w, [])

def step (now : Time) (w : FederationWorld) :
    FederationTask → FederationWorld × List FederationTask × Option FederationTask
  | .probe next period =>
    if w.cancelled then (w, [], none)
    else
      let (w, tasks) := w.probeAll now w.servers.keys
      ({ w with states := w.states.markSynced }, tasks, some (.probe (next + period) period))
  | .start cluster =>
    if (w.server cluster).discoverable then
      match w.informer.found cluster ((w.states.state? cluster).any (·.isReady)) with
      | (i, none) => ({ w with informer := i }, [], none)
      | (i, some cache) =>
        ({ w with informer := i, caches := w.caches.insert cache .empty },
          [.follow cluster cache .listing], none)
    else ({ w with informer := w.informer.notFound cluster }, [], none)
  | .follow cluster cache stage =>
    let s := w.server cluster
    if w.informer.isStopped cache then (w.setServer cluster (stage.leave s), [], none)
    else
      let (s, c, stage, names) := stage.step now w.scope s ((w.caches.find? cache).getD .empty)
      ({ w.setServer cluster s with
        caches := w.caches.insert cache c
        published := w.published ++ names }, [], some (.follow cluster cache stage))

def rules : Rules FederationWorld FederationTask := ⟨ready, alarm, step⟩

def cacheOf (w : FederationWorld) (cluster : String) : Option ObjectCache :=
  ((w.informer.caches.find? cluster).bind w.caches.find?).map (·.cache)

def lookup (w : FederationWorld) (cluster : String) (key : Name) : Option Object :=
  (w.cacheOf cluster).bind (·.find? key)

def isSynced (w : FederationWorld) (cluster : String) : Bool := (w.cacheOf cluster).any (·.synced)

def areSynced (w : FederationWorld) (clusters : List String) : Bool := clusters.all w.isSynced

end FederationWorld

inductive FederationStep
  | server (cluster : String) (c : ServerCommand)
  | start (period : Span)
  | stopProbing
  | stopInformer
  | cancel
  | advance (ms : Span)

inductive FederationReply
  | server (r : ServerReply)
  | done
  | wasProbing (b : Bool)

/-- A run, and whether its probing has been started and not stopped. -/
structure FederationRun where
  schedule : Schedule FederationWorld FederationTask
  probing : Bool

namespace FederationRun

def new (clusters : List String) (scope : Option String) : FederationRun :=
  ⟨Schedule.new (.new clusters scope), false⟩

def world (r : FederationRun) : FederationWorld := r.schedule.world

def change (r : FederationRun) (f : FederationWorld → FederationWorld) : FederationRun :=
  { r with schedule := settle FederationWorld.rules (r.schedule.mapWorld f) }

def withoutProbes (s : Schedule FederationWorld FederationTask) :
    Schedule FederationWorld FederationTask :=
  { s with tasks := s.tasks.filter fun t => match t.task with
      | .probe .. => false
      | _ => true }

def perform (r : FederationRun) : FederationStep → FederationRun × FederationReply
  | .server cluster c =>
    let (s, reply) := WatchServer.run c (r.world.server cluster)
    (r.change fun w => w.setServer cluster s, .server reply)
  | .start period =>
    let s := (withoutProbes r.schedule).add (.probe r.schedule.now period)
    (⟨settle FederationWorld.rules s, true⟩, .done)
  | .stopProbing => (⟨withoutProbes r.schedule, false⟩, .wasProbing r.probing)
  | .stopInformer => (r.change fun w => { w with informer := w.informer.stop }, .done)
  | .cancel =>
    (r.change fun w => { w with informer := w.informer.cancel, cancelled := true }, .done)
  | .advance ms => ({ r with schedule := pass FederationWorld.rules r.schedule ms }, .done)

def takePublished (r : FederationRun) : FederationRun × List Name :=
  ({ r with schedule := r.schedule.mapWorld fun w => { w with published := [] } },
    r.world.published)

end FederationRun

def unknownClusterText (cluster : String) : String := "Unknown member cluster " ++ cluster

end FedTrack.Simulation
