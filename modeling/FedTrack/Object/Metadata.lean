import FedTrack.Object.Timestamp
import FedTrack.Json.Value

namespace FedTrack

/-- Names the object that an object belongs to and is removed with. -/
structure OwnerReference where
  apiVersion : String
  kind : String
  name : String
  uid : String
  controller : Option Bool
  blockOwnerDeletion : Option Bool
  deriving DecidableEq

namespace OwnerReference

def toJson (o : OwnerReference) : Json :=
  .ofMembers <|
    [("apiVersion", .string o.apiVersion), ("kind", .string o.kind), ("name", .string o.name),
     ("uid", .string o.uid)] ++
    (o.controller.map fun b => ("controller", Json.bool b)).toList ++
    (o.blockOwnerDeletion.map fun b => ("blockOwnerDeletion", Json.bool b)).toList

end OwnerReference

structure Metadata where
  name : Option String
  generateName : Option String
  scope : Option String
  uid : Option String
  resourceVersion : Option String
  generation : Option Int
  deletionTimestamp : Option Timestamp
  ownerReferences : Option (List OwnerReference)
  labels : Option (Table String String)
  deriving DecidableEq

namespace Metadata

def empty : Metadata := ⟨none, none, none, none, none, none, none, none, none⟩

instance : Inhabited Metadata := ⟨empty⟩

def toJson (m : Metadata) : Json :=
  let text (key : String) (s : Option String) := (s.map fun s => (key, Json.string s)).toList
  .ofMembers <|
    text "name" m.name ++ text "generateName" m.generateName ++ text "namespace" m.scope ++
    text "uid" m.uid ++ text "resourceVersion" m.resourceVersion ++
    (m.generation.map fun g => ("generation", Json.ofInt g)).toList ++
    (m.deletionTimestamp.map fun t => ("deletionTimestamp", Json.string t.text)).toList ++
    (m.ownerReferences.map fun l => ("ownerReferences", Json.array (l.map (·.toJson)))).toList ++
    (m.labels.map fun t =>
      ("labels", Json.object (t.entries.map fun e => (e.1, Json.string e.2)))).toList

end Metadata

end FedTrack
