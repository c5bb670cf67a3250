import FedTrack.Api.Answer
import FedTrack.Api.Discovery

namespace FedTrack

/-- Access to one api server. The resource of a kind is asked for once. -/
structure ApiClient where
  resources : Table Kind Resource

namespace ApiClient

def new : ApiClient := ⟨.empty⟩

instance : Inhabited ApiClient := ⟨new⟩

def malformed : StoreError := .transport .request

def request (method : Method) (target : String) (body : Option (ContentType × Json)) :
    Except StoreError Request :=
  match Target.ofText? target with
  | some t => .ok ⟨method, t, body⟩
  | none => .error malformed

def objectTarget (r : Resource) (scope : Option String) (name : String) : Except StoreError String :=
  if name = "" then .error malformed else .ok (r.path scope ++ "/" ++ name)

def document (o : Object) : Except StoreError (Option (ContentType × Json)) :=
  match o.toWire? with
  | some j => .ok (some (.json, j))
  | none => .error (.transport .decoding)

def named (o : Object) (what : String) : Except StoreError String :=
  match o.metadata.name with
  | some name => .ok name
  | none => .error (.invariant ("cannot update " ++ what ++ " without a name"))

/-- The patch that replaces the status. With the resource version in it the server refuses a
write based on an old copy. -/
def statusPatch (o : Object) : Json :=
  .object [
    ("metadata", .object [("resourceVersion", match o.metadata.resourceVersion with
      | some v => .string v
      | none => .null)]),
    ("status", (o.data.member? "status").getD .null)]

def ofCall (r : Resource) : Call → Except StoreError Request
  | .list scope => request .get (r.path scope) none
  | .get name => do request .get (← objectTarget r name.scope? name.name) none
  | .create o => do
    let body ← document o
    request .post (r.path o.metadata.scope) body
  | .update o => do
    let name ← named o "object"
    let body ← document o
    request .put (← objectTarget r o.metadata.scope name) body
  | .updateStatus o => do
    let name ← named o "status of object"
    request .patch ((← objectTarget r o.metadata.scope name) ++ "/status")
      (some (.mergePatch, statusPatch o))
  | .patchMerge name patch => do
    request .patch (← objectTarget r name.scope? name.name) (some (.mergePatch, patch))

/-- What the response to a call says. An object that is not found is no error for a reader. -/
def answer (call : Call) (r : Response) : Outcome :=
  match call with
  | .list _ => (r.decode objectList?).map .objects
  | .get _ =>
    if r.isRefusal && (ServerStatus.ofResponse r).reason == "NotFound" then .ok (.found none)
    else (r.decode Object.ofWire?).map fun o => .found (some o)
  | _ => (r.decode Object.ofWire?).map .stored

def discover (kind : Kind) : Except StoreError Request :=
  match Target.ofText? kind.discoveryPath with
  | some t => .ok ⟨.get, t, none⟩
  | none => .error (.transport .other)

/-- Takes the resource of a kind from the response, and keeps it. -/
def learn (c : ApiClient) (kind : Kind) (r : Response) : ApiClient × Except StoreError Resource :=
  match r.decode ServedKinds.ofJson? with
  | .error e => (c, .error e)
  | .ok served =>
    match served.resource? kind.kind with
    | none => (c, .error (.transport .discovery))
    | some resource => (⟨c.resources.insert kind resource⟩, .ok resource)

/-- The request that asks whether the server is well. -/
def probe : Request := ⟨.get, ⟨"/version", ""⟩, none⟩

def isHealthy (r : Response) : Bool := (r.decode versionDocument?).isOk

end ApiClient

end FedTrack
