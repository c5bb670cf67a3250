import FedTrack.Version.Manager
import FedTrack.Watch.Reader

namespace FedTrack

/-- Follows the changes of the federated resources: records of those that are gone are
forgotten, and every change is passed on. -/
structure Tracker where
  /-- Changed names not yet looked at, oldest first. -/
  changes : List Name
  closed : Bool
  /-- Names passed on and not yet taken, if anybody takes them. -/
  downstream : Option (List Name)

namespace Tracker

def notify (t : Tracker) (name : Name) : Tracker := { t with changes := t.changes ++ [name] }

def step (m : VersionManager) (federated : ObjectCache) (t : Tracker) : VersionManager × Tracker :=
  match t.changes with
  | [] => (m, t)
  | name :: rest =>
    let m := match federated.find? name with
      | none => m.delete name
      | some _ => m
    (m, { t with changes := rest, downstream := t.downstream.map (· ++ [name]) })

end Tracker

end FedTrack
