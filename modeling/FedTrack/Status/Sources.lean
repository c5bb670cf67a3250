import FedTrack.Watch.Reader

namespace FedTrack

/-- Target objects of the member clusters, by cluster and name. -/
structure TargetObjects where
  objects : Table (String × Name) Object
  failing : List String
  unsynced : List String

namespace TargetObjects

def empty : TargetObjects := ⟨.empty, [], []⟩

instance : Inhabited TargetObjects := ⟨empty⟩

/-- The object of a name in a cluster, if there is one; `none` if it cannot be looked up. -/
def lookup (t : TargetObjects) (cluster : String) (key : Name) : Option (Option Object) :=
  if t.failing.contains cluster then none else some (t.objects.find? (cluster, key))

def areSynced (t : TargetObjects) (clusters : List String) : Bool :=
  clusters.all fun c => !t.unsynced.contains c

def put (t : TargetObjects) (cluster : String) (o : Object) : TargetObjects :=
  { t with objects := t.objects.insert (cluster, o.name) o }

def remove (t : TargetObjects) (cluster : String) (name : Name) : TargetObjects :=
  { t with objects := t.objects.erase (cluster, name) }

def withMember (on : Bool) (cluster : String) (l : List String) : List String :=
  if on then cluster :: l else l.filter (· != cluster)

def setFailing (t : TargetObjects) (cluster : String) (on : Bool) : TargetObjects :=
  { t with failing := withMember on cluster t.failing }

def setUnsynced (t : TargetObjects) (cluster : String) (on : Bool) : TargetObjects :=
  { t with unsynced := withMember on cluster t.unsynced }

end TargetObjects

structure ReadyClusters where
  names : List String
  /-- The clusters have been probed. -/
  synced : Bool
  /-- The names cannot be told. -/
  failing : Bool
  deriving DecidableEq, Repr

namespace ReadyClusters

def get? (r : ReadyClusters) : Option (List String) := if r.failing then none else some r.names

end ReadyClusters

structure StatusSources where
  clusters : ReadyClusters
  federated : ObjectCache
  status : ObjectCache
  targets : TargetObjects

namespace StatusSources

def onClusters (f : ReadyClusters → ReadyClusters) (s : StatusSources) : StatusSources :=
  { s with clusters := f s.clusters }

def onTargets (f : TargetObjects → TargetObjects) (s : StatusSources) : StatusSources :=
  { s with targets := f s.targets }

/-- The clusters have been probed, and the caches of both host types and of the targets in all
ready clusters are complete. -/
def areSynced (s : StatusSources) : Bool :=
  s.clusters.synced && s.federated.synced && s.status.synced &&
    match s.clusters.get? with
    | some ready => s.targets.areSynced ready
    | none => false

end StatusSources

end FedTrack
