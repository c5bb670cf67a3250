import FedTrack.Version.Manager

namespace FedTrack

inductive SyncStage
  | listing
  | pausing (wake : Time)
  | finished
  deriving DecidableEq, Repr

namespace SyncStage

def retryDelay : Span := 1000

def call (m : VersionManager) : Call := .list m.scope

/-- Takes the answer to a listing: its records are loaded, or another one follows later. -/
def answer (m : VersionManager) (outcome : Outcome) (now : Time) : VersionManager × SyncStage :=
  match outcome with
  | .ok (.objects listed) => (m.load listed, .finished)
  | .ok _ | .error _ => (m, .pausing (now + retryDelay))

end SyncStage

end FedTrack
