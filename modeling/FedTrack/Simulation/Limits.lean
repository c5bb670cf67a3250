import FedTrack.Clock.Schedule

namespace FedTrack.Simulation

/-- Steps granted to a run before it counts as endless. -/
def fuel : Nat := 10000000

def patience : Span := 4000000

def settle {W T : Type} (rules : Rules W T) (s : Schedule W T) : Schedule W T :=
  s.settle rules fuel

def pass {W T : Type} (rules : Rules W T) (s : Schedule W T) (ms : Span) : Schedule W T :=
  (s.advance rules (fun _ => false) fuel (s.now + ms)).settle rules fuel

/-- Starts a task and waits until `finished` holds, or until patience ends. -/
def await {W T : Type} (rules : Rules W T) (s : Schedule W T) (task : T)
    (finished : W → Bool) : Schedule W T :=
  let s := s.add task
  (s.advance rules (fun s => finished s.world) fuel (s.now + patience)).settle rules fuel

end FedTrack.Simulation
