import FedTrack.Simulation.Limits
import FedTrack.Simulation.WatchServer

namespace FedTrack.Simulation

structure CacheWorld where
  server : WatchServer
  cache : WatchedCache
  scope : Option String
  /-- Names published since they were last read, if anybody reads them. -/
  published : Option (List Name)
  stopped : Bool

namespace CacheWorld

def ready (now : Time) (w : CacheWorld) (stage : FollowStage) : Bool :=
  match stage with
  | .pausing wake => wake ≤ now
  | _ => w.stopped || stage.ready now w.server

def step (now : Time) (w : CacheWorld) (stage : FollowStage) :
    CacheWorld × List FollowStage × Option FollowStage :=
  if w.stopped then ({ w with server := stage.leave w.server }, [], none)
  else
    let (server, cache, stage, names) := stage.step now w.scope w.server w.cache
    ({ w with
      server := server
      cache := cache
      published := w.published.map (· ++ names) }, [], some stage)

def rules : Rules CacheWorld FollowStage := ⟨ready, FollowStage.alarm, step⟩

end CacheWorld

inductive CacheStep
  | server (c : ServerCommand)
  | start
  | stop
  | dropReceiver
  | advance (ms : Span)

abbrev CacheRun := Schedule CacheWorld FollowStage

namespace CacheRun

def new (scope : Option String) : CacheRun :=
  Schedule.new ⟨.new, .empty, scope, some [], false⟩

def change (r : CacheRun) (f : CacheWorld → CacheWorld) : CacheRun :=
  settle CacheWorld.rules (r.mapWorld f)

def perform (r : CacheRun) : CacheStep → CacheRun × ServerReply
  | .server c =>
    let (server, reply) := WatchServer.run c r.world.server
    (r.change fun w => { w with server := server }, reply)
  | .start =>
    let server := r.tasks.foldl (fun s t => t.task.leave s) r.world.server
    let r := { r with tasks := [], queue := [] }.mapWorld fun w => { w with
      server := server
      cache := .empty
      stopped := false }
    (settle CacheWorld.rules (r.add .listing), .done)
  | .stop => (r.change fun w => { w with stopped := true }, .done)
  | .dropReceiver => (r.change fun w => { w with published := none }, .done)
  | .advance ms => (pass CacheWorld.rules r ms, .done)

def takePublished (r : CacheRun) : CacheRun × List Name :=
  (r.mapWorld fun w => { w with published := w.published.map fun _ => [] },
    r.world.published.getD [])

end CacheRun

end FedTrack.Simulation
