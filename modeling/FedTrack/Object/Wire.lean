import FedTrack.Object.Basic
import FedTrack.Json.Field

namespace FedTrack

open Json

/-- Every field of a reference may be absent or null; its texts are then empty. -/
def OwnerReference.ofJson? (j : Json) : Option OwnerReference := do
  let m ← j.members?
  let text (key : String) := (optionalMember string? m key).map (·.getD "")
  some {
    apiVersion := ← text "apiVersion"
    kind := ← text "kind"
    name := ← text "name"
    uid := ← text "uid"
    controller := ← optionalMember bool? m "controller"
    blockOwnerDeletion := ← optionalMember bool? m "blockOwnerDeletion" }

def labelsOfJson? (j : Json) : Option (Table String String) := do
  let m ← j.members?
  let pairs ← m.mapM fun (k, v) => v.string?.map fun s => (k, s)
  some (Table.ofList pairs)

def timestamp? (j : Json) : Option Timestamp := j.string?.bind Timestamp.ofText?

def Metadata.ofJson? (j : Json) : Option Metadata := do
  let m ← j.members?
  let text (key : String) := optionalMember string? m key
  some {
    name := ← text "name"
    generateName := ← text "generateName"
    scope := ← text "namespace"
    uid := ← text "uid"
    resourceVersion := ← text "resourceVersion"
    generation := ← optionalMember int64? m "generation"
    deletionTimestamp := ← optionalMember timestamp? m "deletionTimestamp"
    ownerReferences := ← optionalMember (listOf OwnerReference.ofJson?) m "ownerReferences"
    labels := ← optionalMember labelsOfJson? m "labels" }

namespace Object

/-- The document sent for an object: its type, its metadata and the members of its data.
Data that is neither a map nor null has no place in it. -/
def toWire? (o : Object) : Option Json :=
  let own := [("metadata", o.metadata.toJson)] ++
    match o.types with
    | some t => [("apiVersion", Json.string t.apiVersion), ("kind", Json.string t.kind)]
    | none => []
  match o.data with
  | .object members => some (.ofMembers (own ++ members))
  | .null => some (.ofMembers own)
  | _ => none

/-- Takes the type apart from the other members. Only a pair of texts is a type; `apiVersion`
is looked at first, and what was looked at is no longer content. -/
def splitTypes (m : Members) : Option TypeInfo × Members :=
  match Assoc.find? m "apiVersion", Assoc.find? m "kind" with
  | some (.string v), some (.string k) =>
    (some ⟨v, k⟩, Assoc.erase (Assoc.erase m "apiVersion") "kind")
  | some (.string _), _ | none, _ => (none, Assoc.erase (Assoc.erase m "apiVersion") "kind")
  | some _, _ => (none, Assoc.erase m "apiVersion")

def ofWire? (j : Json) : Option Object := do
  let m ← j.members?
  let metadata ← memberOr Metadata.ofJson? .empty m "metadata"
  let (types, rest) := splitTypes (Assoc.erase m "metadata")
  some ⟨types, metadata, .object rest⟩

end Object

end FedTrack
