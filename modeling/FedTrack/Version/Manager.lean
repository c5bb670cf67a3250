import FedTrack.Version.Record
import FedTrack.Version.Federated
import FedTrack.Version.Write

namespace FedTrack

inductive VersionError
  /-- The resource has no template to take a version of. -/
  | noTemplate (resource : Object)
  | malformedStatus (type : RecordType)
  | noOwner (error : Object.Error)
  | notWritten (type : RecordType) (name : Name) (cause : WriteFailure)

def VersionError.message : VersionError → String
  | .noTemplate o => "Failed to determine template version: " ++ Federated.missingTemplateText o
  | .malformedStatus t => t.malformedText
  | .noOwner e => e.message
  | .notWritten t n cause =>
    "Failed to write the version map for " ++ t.kindName ++ " " ++ n.display ++ " to the API: " ++
      cause.message

/-- Records of one target kind as last seen or written, by record name. -/
structure VersionManager where
  targetKind : String
  federatedKind : String
  scope : Option String
  recordType : RecordType
  hasSynced : Bool
  records : Table Name Object

structure UpdateRequest where
  resource : Object
  selected : List String
  versions : VersionMap

namespace VersionManager

def new (namespaced : Bool) (federatedKind targetKind : String) (scope : Option String) :
    VersionManager :=
  ⟨targetKind, federatedKind, scope, ⟨namespaced⟩, false, .empty⟩

def recordName (m : VersionManager) (resource : Name) : Name :=
  resource.withName (RecordType.nameFor m.targetKind resource.name)

/-- Versions recorded for a resource; none if they belong to another template or override. -/
def get (m : VersionManager) (resource : Object) : Except VersionError VersionMap :=
  match Federated.templateVersion? resource with
  | none => .error (.noTemplate resource)
  | some template =>
    match m.records.find? (m.recordName resource.name) with
    | none => .ok .empty
    | some record =>
      match RecordType.status? record with
      | none => .error (.malformedStatus m.recordType)
      | some status =>
        .ok (if status.isFor template (Federated.overrideVersion resource) then status.versionMap
          else .empty)

def mergeVersions (old : List ClusterVersion) (selected : List String) (new : VersionMap) :
    VersionMap :=
  old.foldl (fun m c =>
    if selected.contains c.cluster && !m.contains c.cluster then m.insert c.cluster c.version
    else m) new

/-- The status that an update asks for, given the status recorded so far. -/
def updatedStatus (old : Option VersionStatus) (template override : String) (selected : List String)
    (versions : VersionMap) : VersionStatus :=
  let kept := match old with
    | some s => if s.isFor template override then s.clusters else []
    | none => []
  .of template override (VersionStatus.clustersOf (mergeVersions kept selected versions))

/-- The first part of an update, made while nobody else uses the records: either nothing is
to be done, or the record changes and is to be written. -/
def prepare (m : VersionManager) (r : UpdateRequest) :
    Except VersionError (VersionManager × Option Object) :=
  match Federated.templateVersion? r.resource with
  | none => .error (.noTemplate r.resource)
  | some template =>
    let override := Federated.overrideVersion r.resource
    let name := m.recordName r.resource.name
    match m.records.find? name with
    | some record =>
      match RecordType.status? record with
      | none => .error (.malformedStatus m.recordType)
      | some old =>
        let status := updatedStatus (some old) template override r.selected r.versions
        if old.equivalent status then .ok (m, none)
        else
          let record := RecordType.setStatus record status
          .ok ({ m with records := m.records.insert name record }, some record)
    | none =>
      let status := updatedStatus none template override r.selected r.versions
      match r.resource.ownerReference with
      | .error e => .error (.noOwner e)
      | .ok owner =>
        let record := m.recordType.newRecord name owner status
        .ok ({ m with records := m.records.insert name record }, some record)

/-- The last part of an update: the cached record, if there still is one, takes the resource
version of the written one. -/
def adopt (m : VersionManager) (name : Name) (version : Option String) : VersionManager :=
  match m.records.find? name with
  | some record => { m with records := m.records.insert name (record.setResourceVersion version) }
  | none => m

/-- Forgets the record of a resource. The stored record goes with its owner. -/
def delete (m : VersionManager) (resource : Name) : VersionManager :=
  { m with records := m.records.erase (m.recordName resource) }

def owns (m : VersionManager) (record : Name) : Bool :=
  (RecordType.namePrefix m.targetKind).toList.isPrefixOf record.name.toList

def load (m : VersionManager) (listed : List Object) : VersionManager :=
  { m with
    records := listed.foldl (fun t o => if m.owns o.name then t.insert o.name o else t) m.records
    hasSynced := true }

end VersionManager

end FedTrack
