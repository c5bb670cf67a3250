namespace FedTrack

inductive TransportFault
  | decoding
  | request
  | discovery
  | encoding
  | service
  | other
  deriving DecidableEq, Repr

inductive StoreError
  | notFound (message : String)
  | alreadyExists (message : String)
  | versionConflict (message : String)
  | forbidden (message : String)
  | invariant (message : String)
  | configuration
  /-- A status of the api server that has no class of its own. -/
  | status (code : Nat) (reason message : String)
  | transport (fault : TransportFault)
  deriving DecidableEq, Repr

namespace StoreError

/-- Classifies a status of the api server by its code and, for a conflict, its reason. -/
def ofStatus? (code : Nat) (reason message : String) : Option StoreError :=
  match code with
  | 404 => some (.notFound message)
  | 409 => some (if reason = "AlreadyExists" then .alreadyExists message else .versionConflict message)
  | 403 => some (.forbidden message)
  | _ => none

def ofStatus (code : Nat) (reason message : String) : StoreError :=
  (ofStatus? code reason message).getD (.status code reason message)

def isNotFound : StoreError → Bool
  | .notFound _ => true
  | _ => false

def isAlreadyExists : StoreError → Bool
  | .alreadyExists _ => true
  | _ => false

def isConflict : StoreError → Bool
  | .versionConflict _ => true
  | _ => false

def isForbidden : StoreError → Bool
  | .forbidden _ => true
  | _ => false

/-- The text of a classified error; others have none of their own. -/
def message : StoreError → String
  | .notFound m => "Not found: " ++ m
  | .alreadyExists m => "Already exists: " ++ m
  | .versionConflict m => "Version conflict: " ++ m
  | .forbidden m => "Forbidden: " ++ m
  | .invariant m => "Invariant Error: " ++ m
  | .configuration | .status .. | .transport _ => ""

end StoreError

end FedTrack
