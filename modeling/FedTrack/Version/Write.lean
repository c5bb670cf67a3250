import FedTrack.Poll
import FedTrack.Store.Call

namespace FedTrack

inductive WriteFailure
  | refused (error : StoreError)
  | timedOut (poll : Poll)
  deriving DecidableEq, Repr

def WriteFailure.message : WriteFailure → String
  | .refused e => e.message
  | .timedOut p => p.timeoutError.message

inductive WriteStage
  | refreshing
  | creating
  | updating
  | sleeping (wake : Time)
  | done (result : Except WriteFailure (Option String))

/-- A record on its way to the store. `token` is the resource version learned last; without
one the record is created first. After a conflict the version is read again. -/
structure Write where
  record : Object
  token : Option String
  refresh : Bool
  poll : Poll
  stage : WriteStage

namespace Write

def interval : Span := 100
def timeout : Span := 30000

/-- Where an attempt goes on once the version is known, or known to be missing. -/
def direction (token : Option String) : WriteStage :=
  match token with
  | none => .creating
  | some _ => .updating

def opening (token : Option String) (refresh : Bool) : WriteStage :=
  if refresh then .refreshing else direction token

def start (record : Object) (now : Time) : Write :=
  let token := record.resourceVersion
  ⟨record, token, false, Poll.start interval timeout now, opening token false⟩

def call? (w : Write) (name : Name) : Option Call :=
  match w.stage with
  | .refreshing => some (.get name)
  | .creating => some (.create (w.record.setResourceVersion none))
  | .updating => some (.updateStatus (w.record.setResourceVersion w.token))
  | .sleeping _ | .done _ => none

/-- The attempt failed; the next one follows unless the time is up. -/
def retry (w : Write) (now : Time) : Write :=
  match w.poll.retry now with
  | some (poll, wake) => { w with poll := poll, stage := .sleeping wake }
  | none => { w with stage := .done (.error (.timedOut w.poll)) }

/-- Only a refusal ends the write at once. -/
def retryUnlessForbidden (w : Write) (e : StoreError) (now : Time) : Write :=
  if e.isForbidden then { w with stage := .done (.error (.refused e)) } else w.retry now

def versionOf : Answer → Option String
  | .stored o => o.resourceVersion
  | .found (some o) => o.resourceVersion
  | .found none | .objects _ => none

/-- The write takes the answer to its call. -/
def answer (w : Write) (outcome : Outcome) (now : Time) : Write :=
  match w.stage with
  | .refreshing =>
    match outcome with
    | .ok a =>
      let token := versionOf a
      { w with token := token, refresh := false, stage := direction token }
    | .error _ => w.retry now
  | .creating =>
    match outcome with
    | .ok a => { w with token := versionOf a, refresh := false, stage := .updating }
    | .error e =>
      if e.isAlreadyExists then { w with token := none, refresh := true }.retry now
      else w.retryUnlessForbidden e now
  | .updating =>
    match outcome with
    | .ok a => { w with stage := .done (.ok (versionOf a)) }
    | .error e =>
      if e.isConflict then { w with refresh := true }.retry now
      else if e.isNotFound then { w with token := none, refresh := false }.retry now
      else w.retryUnlessForbidden e now
  | .sleeping _ | .done _ => w

def wake (w : Write) : Write :=
  match w.stage with
  | .sleeping _ => { w with stage := opening w.token w.refresh }
  | _ => w

end Write

end FedTrack
