import FedTrack.Object.Wire

namespace FedTrack

/-- Status observed in one cluster; none if the object is missing there or shows none. -/
structure ClusterStatus where
  cluster : String
  status : Option Json.Members
  deriving DecidableEq

structure StatusCondition where
  type : String
  status : String
  reason : Option String
  message : Option String
  lastTransition : Option Timestamp
  deriving DecidableEq

/-- Status of a federated resource in all clusters: the content of its status object. -/
structure AggregatedStatus where
  generation : Int
  conditions : List StatusCondition
  clusters : List ClusterStatus
  deriving DecidableEq

namespace ClusterStatus

def toJson (c : ClusterStatus) : Json :=
  match c.status with
  | none => .object [("name", .string c.cluster)]
  | some m => .object [("name", .string c.cluster), ("status", .object m)]

def ofJson? (j : Json) : Option ClusterStatus := do
  let m ← Json.record ["name", "status"] j
  some ⟨← Json.requiredMember Json.string? m "name", ← Json.optionalMember Json.members? m "status"⟩

end ClusterStatus

namespace StatusCondition

def orNull {α : Type} (write : α → Json) : Option α → Json
  | some a => write a
  | none => .null

def toJson (c : StatusCondition) : Json :=
  .object [("lastTransitionTime", orNull (fun t => .string t.text) c.lastTransition),
    ("message", orNull .string c.message), ("reason", orNull .string c.reason),
    ("status", .string c.status), ("type", .string c.type)]

def fields : List String := ["type", "status", "reason", "message", "lastTransitionTime"]

/-- In an array all five fields have to be present. -/
def isComplete : Json → Bool
  | .array items => items.length == 5
  | _ => true

def ofJson? (j : Json) : Option StatusCondition := do
  let m ← Json.record fields j
  if isComplete j then
    some ⟨← Json.requiredMember Json.string? m "type", ← Json.requiredMember Json.string? m "status",
      ← Json.optionalMember Json.string? m "reason", ← Json.optionalMember Json.string? m "message",
      ← Json.optionalMember timestamp? m "lastTransitionTime"⟩
  else none

end StatusCondition

namespace AggregatedStatus

def atMost (a b : ClusterStatus) : Bool := !Key.lt b.cluster a.cluster

/-- Entries are kept in the order of cluster names. -/
def of (generation : Int) (clusters : List ClusterStatus) : AggregatedStatus :=
  ⟨generation, [], clusters.mergeSort atMost⟩

def clustersJson (s : AggregatedStatus) : Json := .array (s.clusters.map (·.toJson))

def toJson (s : AggregatedStatus) : Json :=
  .object <|
    ("clusters", s.clustersJson) ::
    ((if s.conditions.isEmpty then [] else [("conditions", .array (s.conditions.map (·.toJson)))]) ++
    [("observedGeneration", .ofInt s.generation)])

def ofJson? (j : Json) : Option AggregatedStatus := do
  let m ← Json.record ["observedGeneration", "conditions", "clusters"] j
  some ⟨← Json.memberOr Json.int64? 0 m "observedGeneration",
    ← Json.memberOr (Json.listOf StatusCondition.ofJson?) [] m "conditions",
    ← Json.memberOr (Json.listOf ClusterStatus.ofJson?) [] m "clusters"⟩

def toObject (s : AggregatedStatus) (resource : Resource) (scope : Option String) (name : String)
    (owner : OwnerReference) : Object :=
  { types := some resource.typeInfo
    metadata := { Metadata.empty with
      name := some name
      scope := scope
      ownerReferences := some [owner] }
    data := s.toJson }

/-- An existing status object with its clusters replaced and all else as it was. -/
def writeClustersInto (s : AggregatedStatus) (o : Object) : Object :=
  { o with data := o.data.setMember "clusters" s.clustersJson }

end AggregatedStatus

end FedTrack
