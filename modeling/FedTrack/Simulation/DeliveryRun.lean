import FedTrack.Simulation.Limits
import FedTrack.Work.Deliverer

namespace FedTrack.Simulation

inductive DeliveryStep
  | start
  | now (key : String)
  | after (key : String) (ms : Span)
  | at (key : String) (time : Time)
  | advance (ms : Span)
  | cancel
  | drop

structure DeliveryWorld where
  deliverer : Deliverer String
  /-- Keys handed over, the latest first. -/
  delivered : List (String × Time)
  cancelled : Bool

namespace DeliveryWorld

def ready (now : Time) (w : DeliveryWorld) (l : DeliveryLoop String) : Bool :=
  w.cancelled || l.ready w.deliverer now

def step (now : Time) (w : DeliveryWorld) (l : DeliveryLoop String) :
    DeliveryWorld × List (DeliveryLoop String) × Option (DeliveryLoop String) :=
  if w.cancelled then (w, [], none)
  else
    let (l, d, key) := l.step w.deliverer now
    let w := { w with deliverer := d }
    match key with
    | some key => ({ w with delivered := (key, now) :: w.delivered }, [], some l)
    | none => (w, [], some l)

def rules : Rules DeliveryWorld (DeliveryLoop String) := ⟨ready, DeliveryLoop.alarm, step⟩

end DeliveryWorld

abbrev DeliveryRun := Schedule DeliveryWorld (DeliveryLoop String)

namespace DeliveryRun

def new : DeliveryRun := Schedule.new ⟨.empty, [], false⟩

def change (r : DeliveryRun) (f : DeliveryWorld → DeliveryWorld) : DeliveryRun :=
  settle DeliveryWorld.rules (r.mapWorld f)

def schedule (r : DeliveryRun) (f : Deliverer String → Deliverer String) : DeliveryRun :=
  r.change fun w => { w with deliverer := f w.deliverer }

def perform (r : DeliveryRun) : DeliveryStep → DeliveryRun
  | .start =>
    let r := { r with tasks := [], queue := [] }.mapWorld fun w => { w with cancelled := false }
    settle DeliveryWorld.rules (r.add .arming)
  | .now key => r.schedule fun d => d.deliverNow r.now key
  | .after key ms => r.schedule fun d => d.deliverAfter r.now key ms
  | .at key time => r.schedule fun d => d.deliverAt key time
  | .advance ms => pass DeliveryWorld.rules r ms
  | .cancel => r.change fun w => { w with cancelled := true }
  | .drop => { r with tasks := [], queue := [] }

def takeDelivered (r : DeliveryRun) : DeliveryRun × List (String × Time) :=
  (r.mapWorld fun w => { w with delivered := [] }, r.world.delivered.reverse)

end DeliveryRun

end FedTrack.Simulation
