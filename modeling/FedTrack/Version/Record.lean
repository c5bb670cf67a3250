import FedTrack.Object.Basic
import FedTrack.Text.LowerCase
import FedTrack.Version.Status

namespace FedTrack

/-- Versions of namespaced types are recorded in the namespace of the resource, those of
cluster-scoped types in records of the whole cluster. -/
structure RecordType where
  namespaced : Bool
  deriving DecidableEq, Repr

namespace RecordType

def kindName (r : RecordType) : String :=
  if r.namespaced then "PropagatedVersion" else "ClusterPropagatedVersion"

def resource (r : RecordType) : Resource :=
  { group := "core.kubefed.io"
    version := "v1alpha1"
    apiVersion := "core.kubefed.io/v1alpha1"
    kind := r.kindName
    plural := if r.namespaced then "propagatedversions" else "clusterpropagatedversions" }

def namePrefix (targetKind : String) : String := lowerCase targetKind ++ "-"

def nameFor (targetKind resource : String) : String := namePrefix targetKind ++ resource

def newRecord (r : RecordType) (name : Name) (owner : OwnerReference) (status : VersionStatus) :
    Object :=
  { types := some r.resource.typeInfo
    metadata := { Metadata.empty with
      name := some name.name
      scope := if r.namespaced then name.scope? else none
      ownerReferences := some [owner] }
    data := .object [("spec", .object []), ("status", status.toJson)] }

/-- The status of a record, empty if it carries none; `none` if it cannot be read. -/
def status? (o : Object) : Option VersionStatus :=
  match o.data.member? "status" with
  | none | some .null => some .empty
  | some j => VersionStatus.ofJson? j

def setStatus (o : Object) (status : VersionStatus) : Object :=
  { o with data := o.data.setMember "status" status.toJson }

def malformedText (r : RecordType) : String := "Malformed " ++ r.kindName ++ " status"

end RecordType

end FedTrack
