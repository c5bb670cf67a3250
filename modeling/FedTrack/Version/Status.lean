import FedTrack.Json.Field

namespace FedTrack

structure ClusterVersion where
  cluster : String
  version : String
  deriving DecidableEq, Repr

abbrev VersionMap := Table String String

/-- What a version record states: the template and override versions that the cluster versions
were produced from, and the cluster versions. -/
structure VersionStatus where
  template : String
  override : String
  clusters : List ClusterVersion
  deriving DecidableEq, Repr

namespace VersionStatus

def empty : VersionStatus := ⟨"", "", []⟩

def atMost (a b : ClusterVersion) : Bool := !Key.lt b.cluster a.cluster

def sortClusters (l : List ClusterVersion) : List ClusterVersion := l.mergeSort atMost

def of (template override : String) (clusters : List ClusterVersion) : VersionStatus :=
  ⟨template, override, sortClusters clusters⟩

/-- Whether the cluster versions were produced from these template and override versions. -/
def isFor (s : VersionStatus) (template override : String) : Bool :=
  s.template == template && s.override == override

/-- Equality of values, whatever the order of the cluster versions. -/
def equivalent (a b : VersionStatus) : Bool :=
  a.isFor b.template b.override && sortClusters a.clusters == sortClusters b.clusters

/-- Of a cluster named twice the later version counts. -/
def versionMap (s : VersionStatus) : VersionMap :=
  Table.ofList (s.clusters.map fun c => (c.cluster, c.version))

/-- The list form of a map; an empty version is unknown and left out. -/
def clustersOf (m : VersionMap) : List ClusterVersion :=
  (m.entries.filter fun e => e.2 ≠ "").map fun e => ⟨e.1, e.2⟩

end VersionStatus

namespace ClusterVersion

def toJson (c : ClusterVersion) : Json :=
  .object [("clusterName", .string c.cluster), ("version", .string c.version)]

def ofJson? (j : Json) : Option ClusterVersion := do
  let m ← Json.record ["clusterName", "version"] j
  some ⟨← Json.requiredMember Json.string? m "clusterName",
    ← Json.requiredMember Json.string? m "version"⟩

end ClusterVersion

namespace VersionStatus

def toJson (s : VersionStatus) : Json :=
  .object [("clusterVersions", .array (s.clusters.map (·.toJson))),
    ("overrideVersion", .string s.override), ("templateVersion", .string s.template)]

def ofJson? (j : Json) : Option VersionStatus := do
  let m ← Json.record ["templateVersion", "overrideVersion", "clusterVersions"] j
  some ⟨← Json.memberOr Json.string? "" m "templateVersion",
    ← Json.memberOr Json.string? "" m "overrideVersion",
    ← Json.memberOr (Json.listOf ClusterVersion.ofJson?) [] m "clusterVersions"⟩

end VersionStatus

end FedTrack
