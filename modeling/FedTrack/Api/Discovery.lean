import FedTrack.Json.Field
import FedTrack.Object.Kind

namespace FedTrack

structure ServedKind where
  kind : String
  name : String
  group : Option String
  version : Option String
  deriving DecidableEq, Repr

structure ServedKinds where
  groupVersion : String
  kinds : List ServedKind
  deriving DecidableEq, Repr

open Json in
/-- Reads an entry; fields may be absent or null. -/
def ServedKind.ofJson? (j : Json) : Option ServedKind := do
  let m ← j.members?
  let text (key : String) := optionalMember string? m key
  let texts (key : String) := optionalMember (listOf string?) m key
  let _ ← texts "categories"
  let _ ← optionalMember bool? m "namespaced"
  let _ ← texts "shortNames"
  let _ ← text "singularName"
  let _ ← text "storageVersionHash"
  let _ ← texts "verbs"
  some ⟨(← text "kind").getD "", (← text "name").getD "", ← text "group", ← text "version"⟩

namespace ServedKinds

/-- A text that has to be `expected` if it is there. -/
def exactly? (expected : String) (j : Json) : Option Unit :=
  match j with
  | .string s => if s = expected then some () else none
  | _ => none

open Json in
def ofJson? (j : Json) : Option ServedKinds := do
  let m ← j.members?
  let _ ← memberOr (exactly? "v1") () m "apiVersion"
  let _ ← memberOr (exactly? "APIResourceList") () m "kind"
  let groupVersion ← optionalMember string? m "groupVersion"
  let kinds ← optionalMember (listOf ServedKind.ofJson?) m "resources"
  some ⟨groupVersion.getD "", kinds.getD []⟩

/-- The first entry of the kind that is no part of another one. Its own group and version
come before those of the list. -/
def resource? (s : ServedKinds) (kind : String) : Option Resource :=
  (s.kinds.find? fun k => k.kind == kind && !k.name.toList.contains '/').map fun k =>
    let (group, version) := Kind.splitApiVersion s.groupVersion
    ⟨k.group.getD group, k.version.getD version, Kind.apiVersion ⟨group, version, kind⟩, kind, k.name⟩

end ServedKinds

end FedTrack
