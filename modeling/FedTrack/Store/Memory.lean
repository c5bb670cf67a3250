import FedTrack.Store.Call
import FedTrack.Json.MergePatch

namespace FedTrack

/-- Error returned in place of the next call of an operation. -/
inductive Fault
  | notFound
  | alreadyExists
  | conflict
  | forbidden
  | unavailable
  deriving DecidableEq, Repr

def Fault.toError (f : Fault) (op : Operation) : StoreError :=
  let message := "injected fault on " ++ op.label
  match f with
  | .notFound => .notFound message
  | .alreadyExists => .alreadyExists message
  | .conflict => .versionConflict message
  | .forbidden => .forbidden message
  | .unavailable => .invariant message

abbrev Counts := Operation → Nat

def Counts.bump (c : Counts) (op : Operation) : Counts := fun o => if o = op then c o + 1 else c o

def Counts.named (c : Counts) : List (String × Nat) :=
  (Operation.all.filter (c · != 0)).map fun o => (o.label, c o)

/-- Objects of all kinds in memory, with the optimistic concurrency of an api server. Each
write stamps the next resource version. Calls are counted, queued faults answer in place of
the calls they are queued for, and calls on a held object wait at its gate. -/
structure MemoryStore where
  objects : Table (Kind × Name) Object
  nextVersion : Nat
  nextUid : Nat
  attempts : Counts
  successes : Counts
  faults : List (Operation × Fault)
  holds : Table (String × Name) Nat
  nextGate : Nat
  /-- Gates that hold nobody any more. -/
  openGates : List Nat

namespace MemoryStore

def empty : MemoryStore :=
  ⟨.empty, 1, 1, fun _ => 0, fun _ => 0, [], .empty, 0, []⟩

instance : Inhabited MemoryStore := ⟨empty⟩

def find? (s : MemoryStore) (kind : Kind) (name : Name) : Option Object :=
  s.objects.find? (kind, name)

def ofKind (s : MemoryStore) (kind : Kind) : List Object :=
  (s.objects.entries.filter fun e => e.1.1 = kind).map Prod.snd

def count (s : MemoryStore) (kind : Kind) : Nat := (s.ofKind kind).length

def stampVersion (s : MemoryStore) (o : Object) : MemoryStore × Object :=
  ({ s with nextVersion := s.nextVersion + 1 }, o.setResourceVersion (some (toString s.nextVersion)))

def stampUid (s : MemoryStore) (o : Object) : MemoryStore × Object :=
  match o.metadata.uid with
  | some _ => (s, o)
  | none =>
    ({ s with nextUid := s.nextUid + 1 },
     { o with metadata := { o.metadata with uid := some ("uid-" ++ toString s.nextUid) } })

def stampNew (s : MemoryStore) (o : Object) : MemoryStore × Object :=
  let (s, o) := s.stampVersion o
  s.stampUid o

def put (s : MemoryStore) (kind : Kind) (name : Name) (o : Object) : MemoryStore :=
  { s with objects := s.objects.insert (kind, name) o }

/-- Stores an object directly, as if another process had written it. -/
def insert (s : MemoryStore) (kind : Kind) (o : Object) : MemoryStore × Object :=
  let (s, stamped) := s.stampNew o
  (s.put kind o.name stamped, stamped)

def remove (s : MemoryStore) (kind : Kind) (name : Name) : MemoryStore × Option Object :=
  ({ s with objects := s.objects.erase (kind, name) }, s.find? kind name)

def failNext (s : MemoryStore) (op : Operation) (f : Fault) : MemoryStore :=
  { s with faults := s.faults ++ [(op, f)] }

/-- Makes later calls of `op` on `name` wait at a new gate. -/
def hold (s : MemoryStore) (op : Operation) (name : Name) : MemoryStore × Nat :=
  ({ s with holds := s.holds.insert (op.label, name) s.nextGate, nextGate := s.nextGate + 1 },
   s.nextGate)

def openGate (s : MemoryStore) (gate : Nat) : MemoryStore :=
  { s with openGates := gate :: s.openGates }

def isOpen (s : MemoryStore) (gate : Nat) : Bool := s.openGates.contains gate

/-- Whether calls still come to this gate. -/
def guards (s : MemoryStore) (gate : Nat) : Bool := s.holds.entries.any fun e => e.2 == gate

/-- The gate a call has to pass before it reaches the stored objects. -/
def gate? (s : MemoryStore) : Call → Option Nat
  | .create o => s.holds.find? (Operation.create.label, o.name)
  | .update o => s.holds.find? (Operation.update.label, o.name)
  | .updateStatus o => s.holds.find? (Operation.updateStatus.label, o.name)
  | _ => none

def writes (s : MemoryStore) : Nat :=
  s.successes .create + s.successes .update + s.successes .updateStatus + s.successes .patchMerge

def takeFault (op : Operation) : List (Operation × Fault) → Option (Fault × List (Operation × Fault))
  | [] => none
  | (o, f) :: rest =>
    if o = op then some (f, rest)
    else (takeFault op rest).map fun (g, r) => (g, (o, f) :: r)

/-- A call arrives: it is counted and may meet a queued fault. -/
def enter (s : MemoryStore) (op : Operation) : MemoryStore × Option StoreError :=
  let s := { s with attempts := s.attempts.bump op }
  match takeFault op s.faults with
  | some (f, rest) => ({ s with faults := rest }, some (f.toError op))
  | none => (s, none)

def succeed (s : MemoryStore) (op : Operation) : MemoryStore :=
  { s with successes := s.successes.bump op }

def versionText : Option String → String
  | some v => "Some(\"" ++ v ++ "\")"
  | none => "None"

/-- A version that the caller gives has to be the stored one. -/
def checkVersion (stored incoming : Object) : Option StoreError :=
  match incoming.resourceVersion with
  | none => none
  | some v =>
    if stored.metadata.resourceVersion = some v then none
    else some (.versionConflict (stored.name.display ++ " has resource version " ++
      versionText stored.metadata.resourceVersion ++ ", got " ++ v))

def missing (name : Name) : StoreError := .notFound (name.display ++ " not found")

def withStatus (stored incoming : Object) : Object :=
  { stored with
    data := stored.data.setMember "status" ((incoming.data.member? "status").getD .null) }

/-- The stored object with a merge patch applied to its data; metadata in the patch is
left out. -/
def patched (stored : Object) (patch : Json) : Object :=
  { stored with data := stored.data.mergePatch (patch.dropMember "metadata") }

def restate (s : MemoryStore) (kind : Kind) (name : Name) (op : Operation) (o : Object) :
    MemoryStore × Outcome :=
  let (s, o) := s.stampVersion o
  ((s.put kind name o).succeed op, .ok (.stored o))

def inScope (scope : Option String) (name : Name) : Bool :=
  match scope with
  | none => true
  | some ns => name.scope? == some ns

/-- The effect of a call that has been let through. -/
def commit (s : MemoryStore) (kind : Kind) (call : Call) : MemoryStore × Outcome :=
  match call with
  | .list scope =>
    (s.succeed .list, .ok (.objects ((s.ofKind kind).filter fun o => inScope scope o.name)))
  | .get name => (s.succeed .get, .ok (.found (s.find? kind name)))
  | .create o =>
    let name := o.name
    match s.find? kind name with
    | some _ => (s, .error (.alreadyExists (name.display ++ " already exists")))
    | none =>
      let (s, created) := s.stampNew { o with data := o.data.dropMember "status" }
      ((s.put kind name created).succeed .create, .ok (.stored created))
  | .update o =>
    let name := o.name
    match s.find? kind name with
    | none => (s, .error (missing name))
    | some stored =>
      match checkVersion stored o with
      | some e => (s, .error e)
      | none =>
        s.restate kind name .update { o with metadata := { o.metadata with uid := stored.metadata.uid } }
  | .updateStatus o =>
    let name := o.name
    match s.find? kind name with
    | none => (s, .error (missing name))
    | some stored =>
      match checkVersion stored o with
      | some e => (s, .error e)
      | none => s.restate kind name .updateStatus (withStatus stored o)
  | .patchMerge name patch =>
    match s.find? kind name with
    | none => (s, .error (missing name))
    | some stored => s.restate kind name .patchMerge (patched stored patch)

/-- A whole call on an object that is not held. -/
def perform (s : MemoryStore) (kind : Kind) (call : Call) : MemoryStore × Outcome :=
  match s.enter call.operation with
  | (s, some e) => (s, .error e)
  | (s, none) => s.commit kind call

end MemoryStore

end FedTrack
