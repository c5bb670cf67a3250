import FedTrack.Member.ClusterState

namespace FedTrack

/-- Which caches of a target type run: one for each ready member cluster. Caches are numbered
as they are started. A start takes a while, because the cluster is asked first how it serves
the type. -/
structure Informer where
  caches : Table String Nat
  stopped : List Nat
  nextCache : Nat
  /-- No cache runs any more. -/
  cancelled : Bool
  starting : List String

namespace Informer

def new : Informer := ⟨.empty, [], 0, false, []⟩

instance : Inhabited Informer := ⟨new⟩

def clusterAvailable (i : Informer) (cluster : String) : Informer :=
  { i with starting := i.starting ++ [cluster] }

/-- A member cluster is no longer ready: its cache is stopped. -/
def clusterUnavailable (i : Informer) (cluster : String) : Informer :=
  match i.caches.find? cluster with
  | none => i
  | some cache => { i with caches := i.caches.erase cluster, stopped := cache :: i.stopped }

/-- A cluster has told how it serves the type. Its cache is started, in place of an earlier
one, if the cluster is still ready. -/
def found (i : Informer) (cluster : String) (isReady : Bool) : Informer × Option Nat :=
  let i := { i with starting := i.starting.erase cluster }
  if isReady then
    let stopped := match i.caches.find? cluster with
      | some previous => previous :: i.stopped
      | none => i.stopped
    ({ i with
      caches := i.caches.insert cluster i.nextCache
      stopped := stopped
      nextCache := i.nextCache + 1 }, some i.nextCache)
  else (i, none)

def notFound (i : Informer) (cluster : String) : Informer :=
  { i with starting := i.starting.erase cluster }

def follow {H : Type} (i : Informer) (n : Notice H) : Informer :=
  if n.available then i.clusterAvailable n.cluster else i.clusterUnavailable n.cluster

/-- Stops all caches, for good, without forgetting them. -/
def cancel (i : Informer) : Informer := { i with cancelled := true }

/-- Stops all caches, for good. -/
def stop (i : Informer) : Informer := { i with cancelled := true, caches := .empty }

def isStopped (i : Informer) (cache : Nat) : Bool := i.cancelled || i.stopped.contains cache

end Informer

end FedTrack
