import FedTrack.Name
import FedTrack.Object.Kind
import FedTrack.Object.Metadata

namespace FedTrack

/-- Api version and kind as an object states them. -/
structure TypeInfo where
  apiVersion : String
  kind : String
  deriving DecidableEq

def Resource.typeInfo (r : Resource) : TypeInfo := ⟨r.apiVersion, r.kind⟩

/-- An object of any kind: what it says of its type, its metadata and all other content. -/
structure Object where
  types : Option TypeInfo
  metadata : Metadata
  data : Json
  deriving DecidableEq

namespace Object

inductive Error
  | missingType
  /-- On the way along `path` the value after `depth` segments is no map. -/
  | notMap (path : List String) (depth : Nat)
  | unexpected (path : List String) (found : String)
  deriving DecidableEq

def dotted (path : List String) : String := ".".intercalate path

def Error.message : Error → String
  | .missingType => "Missing TypeMeta in DynamicObject"
  | .notMap path depth => dotted path ++ " accessor error: " ++ dotted (path.take depth) ++ " is not a map"
  | .unexpected path found => dotted path ++ " accessor error: expected map, found " ++ found

instance : Inhabited Object := ⟨⟨none, .empty, .null⟩⟩

/-- The object's name; without one, the stem its name is to be made from. -/
def anyName (o : Object) : String := (o.metadata.name.or o.metadata.generateName).getD ""

def name (o : Object) : Name := ⟨o.metadata.scope.getD "", o.anyName⟩

def kind (o : Object) : Except Error Kind :=
  match o.types with
  | some t => .ok (Kind.ofApiVersion t.apiVersion t.kind)
  | none => .error .missingType

/-- Follows the rest of a path, of which `depth` segments lie behind. -/
def walk (path : List String) (depth : Nat) (current : Json) :
    List String → Except Error (Option Json)
  | [] => .ok (some current)
  | segment :: rest =>
    match current with
    | .object members =>
      match Assoc.find? members segment with
      | some next => walk path (depth + 1) next rest
      | none => .ok none
    | _ => .error (.notMap path depth)

/-- The map at the end of a path through the data. `none` if a segment is missing or null
stands at the end; an error if something other than a map stands in the way. -/
def nestedMap (o : Object) (path : List String) : Except Error (Option Json.Members) :=
  match walk path 0 o.data path with
  | .error e => .error e
  | .ok none => .ok none
  | .ok (some (.object members)) => .ok (some members)
  | .ok (some .null) => .ok none
  | .ok (some other) => .error (.unexpected path other.kindWord)

def statusMap (o : Object) : Except Error (Option Json.Members) := o.nestedMap ["status"]

def resourceVersion (o : Object) : Option String :=
  o.metadata.resourceVersion.filter (· ≠ "")

def setResourceVersion (o : Object) (version : Option String) : Object :=
  { o with metadata := { o.metadata with resourceVersion := version } }

/-- A reference by which other objects name this one as their owner. -/
def ownerReference (o : Object) : Except Error OwnerReference := do
  let k ← o.kind
  .ok ⟨k.apiVersion, k.kind, o.anyName, o.metadata.uid.getD "", none, none⟩

def isBeingDeleted (o : Object) : Bool := o.metadata.deletionTimestamp.isSome

end Object

end FedTrack
