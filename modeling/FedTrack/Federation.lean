import FedTrack.Access.Kubeconfig
import FedTrack.Version.Manager

namespace FedTrack

inductive StartError
  | host (cause : StoreError)
  | member (cluster : String) (cause : StoreError)
  | unresolved (kind : String) (cause : StoreError)
  | statusController (kind : String) (cause : StoreError)
  deriving DecidableEq, Repr

namespace StartError

def cause : StartError → StoreError
  | .host c | .member _ c | .unresolved _ c | .statusController _ c => c

def reason : StartError → String
  | .host _ => "failed to connect to host cluster"
  | .member cluster _ => "failed to configure member cluster " ++ cluster
  | .unresolved kind _ => "failed to resolve " ++ kind
  | .statusController kind _ => "failed to start status controller for " ++ kind

def message (e : StartError) : String :=
  "failed to initialize federation controller: " ++ e.reason

end StartError

inductive StopReason
  | cancelled
  | interrupted
  deriving DecidableEq, Repr

/-- What is reported when it stops; an interruption is what was asked for. -/
def StopReason.error? : StopReason → Option String
  | .cancelled => some "Controller was cancelled"
  | .interrupted => none

/-- A running federation: its types, each with the versions of its resources. -/
structure Federation where
  logLevel : Option String
  types : List (FederatedType × VersionManager)

namespace Federation

def managerOf (s : Settings) (t : FederatedType) : VersionManager :=
  .new t.namespaced t.federated.kind t.target.kind s.controller.targetNamespace

/-- The federation of all types, none of whose records are known yet. -/
def ofSettings (s : Settings) : Federation :=
  ⟨s.logLevel, s.types.map fun t => (t, managerOf s t)⟩

/-- The place of the first type of a federated kind. -/
def index? (f : Federation) (kind : String) : Option Nat :=
  f.types.findIdx? (·.1.federated.kind == kind)

def manager? (f : Federation) (kind : String) : Option VersionManager :=
  (f.types.find? (·.1.federated.kind == kind)).map (·.2)

/-- The federated types of a kind, and the one its status is written to, have to be served. -/
def resolveType (resolve : Kind → Except StoreError Resource) (t : FederatedType) :
    Except StartError Unit :=
  match resolve t.federated with
  | .error e => .error (.unresolved t.federated.kind e)
  | .ok _ =>
    match t.status.map resolve with
    | some (.error e) => .error (.statusController t.federated.kind e)
    | _ => .ok ()

def connectMembers (file : Option String → Option Kubeconfig) :
    List MemberSettings → Except StartError Unit
  | [] => .ok ()
  | m :: rest =>
    match m.access.server file with
    | .error e => .error (.member m.name e)
    | .ok _ => connectMembers file rest

def resolveTypes (resolve : Kind → Except StoreError Resource) :
    List FederatedType → Except StartError Unit
  | [] => .ok ()
  | t :: rest => do
    resolveType resolve t
    resolveTypes resolve rest

/-- Starts a federation: the host cluster first, then the members, then the types in order.
`resolve` tells how the server of the host cluster serves a kind. -/
def start (s : Settings) (file : Option String → Option Kubeconfig)
    (resolve : String → Kind → Except StoreError Resource) : Except StartError Federation :=
  match s.access.server file with
  | .error e => .error (.host e)
  | .ok server => do
    connectMembers file s.clusters
    resolveTypes (resolve server) s.types
    .ok (ofSettings s)

def load (f : Federation) (listed : List Object) : Federation :=
  { f with types := f.types.map fun (t, m) => (t, m.load listed) }

/-- Paths under which the records of all types are listed, in ascending order. -/
def recordPaths (f : Federation) : List String :=
  (Table.ofList (f.types.map fun (_, m) => (m.recordType.resource.path m.scope, ()))).keys

end Federation

end FedTrack
