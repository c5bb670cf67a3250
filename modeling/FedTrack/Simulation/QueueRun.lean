import FedTrack.Work.Queue

namespace FedTrack.Simulation

inductive QueueStep
  | add (key : String)
  | done (key : String)
  | get
  | cancel

inductive QueueAnswer
  | nothing
  | key (key : Option String)
  | waiting

/-- A queue whose takers may be told to stop. -/
structure QueueRun where
  queue : WorkQueue String
  cancelled : Bool

namespace QueueRun

def new : QueueRun := ⟨.empty, false⟩

def perform (r : QueueRun) : QueueStep → QueueRun × QueueAnswer
  | .add key => ({ r with queue := r.queue.add key }, .nothing)
  | .done key => ({ r with queue := r.queue.done key }, .nothing)
  | .cancel => ({ r with cancelled := true }, .nothing)
  | .get =>
    if r.cancelled then (r, .key none)
    else
      match r.queue.get? with
      | some (key, queue) => ({ r with queue := queue }, .key (some key))
      | none => (r, .waiting)

end QueueRun

end FedTrack.Simulation
