import FedTrack.Version.Manager
import FedTrack.Metrics

namespace FedTrack

/-- An update under way. Nobody else uses the records while it prepares and while it adopts
the written version; it writes in between, when others may use them. -/
inductive UpdateStage
  | preparing (request : UpdateRequest)
  | writing (name : Name) (write : Write)
  | adopting (name : Name) (version : Option String)
  | finished (result : Except VersionError Unit)

namespace UpdateStage

def prepare (m : VersionManager) (r : UpdateRequest) (now : Time) : VersionManager × UpdateStage :=
  match m.prepare r with
  | .error e => (m, .finished (.error e))
  | .ok (m, none) => (m, .finished (.ok ()))
  | .ok (m, some record) => (m, .writing (m.recordName r.resource.name) (Write.start record now))

def afterWrite (m : VersionManager) (name : Name) (w : Write) : UpdateStage :=
  match w.stage with
  | .done (.ok version) => .adopting name version
  | .done (.error cause) => .finished (.error (.notWritten m.recordType name cause))
  | _ => .writing name w

def call? : UpdateStage → Option Call
  | .writing name w => w.call? name
  | _ => none

def alarm? : UpdateStage → Option Time
  | .writing _ w =>
    match w.stage with
    | .sleeping wake => some wake
    | _ => none
  | _ => none

def answer (m : VersionManager) (u : UpdateStage) (outcome : Outcome) (now : Time) : UpdateStage :=
  match u with
  | .writing name w => afterWrite m name (w.answer outcome now)
  | other => other

def wake : UpdateStage → UpdateStage
  | .writing name w => .writing name w.wake
  | other => other

/-- Counts a call that is about to be made: only writes are counted. -/
def countCall (m : VersionManager) (call : Call) (metrics : Metrics) : Metrics :=
  match call with
  | .create _ | .updateStatus _ =>
    metrics.add (Metrics.writeAttempts m.recordType.kindName m.targetKind) 1
  | _ => metrics

/-- Counts the end of an update whose record could not be written. -/
def countEnd (m : VersionManager) (u : UpdateStage) (metrics : Metrics) : Metrics :=
  match u with
  | .finished (.error (.notWritten ..)) =>
    metrics.add (Metrics.writeFailures m.recordType.kindName m.targetKind) 1
  | _ => metrics

end UpdateStage

end FedTrack
