import FedTrack.Object.Basic
import FedTrack.Store.Error

namespace FedTrack

inductive Operation
  | list
  | get
  | create
  | update
  | updateStatus
  | patchMerge
  deriving DecidableEq, Repr

namespace Operation

def all : List Operation := [.list, .get, .create, .update, .updateStatus, .patchMerge]

def label : Operation → String
  | .list => "List"
  | .get => "Get"
  | .create => "Create"
  | .update => "Update"
  | .updateStatus => "UpdateStatus"
  | .patchMerge => "PatchMerge"

end Operation

inductive Call
  | list (scope : Option String)
  | get (name : Name)
  | create (object : Object)
  | update (object : Object)
  | updateStatus (object : Object)
  | patchMerge (name : Name) (patch : Json)
  deriving DecidableEq

namespace Call

def operation : Call → Operation
  | .list _ => .list
  | .get _ => .get
  | .create _ => .create
  | .update _ => .update
  | .updateStatus _ => .updateStatus
  | .patchMerge .. => .patchMerge

end Call

inductive Answer
  | objects (list : List Object)
  | found (object : Option Object)
  | stored (object : Object)
  deriving DecidableEq

abbrev Outcome := Except StoreError Answer

end FedTrack
