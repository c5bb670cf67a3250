import FedTrack.Json.Value

namespace FedTrack.Json

def membersOrNone : Json → Members
  | .object m => m
  | _ => []

mutual

/-- Merge patch: a map changes the target member by member, anything else replaces it. -/
def mergePatch (target : Json) : Json → Json
  | .object fields => .object (mergeMembers target.membersOrNone fields)
  | patch => patch

/-- A null member removes the target's member, any other is merged into it. -/
def mergeMembers (target : Members) : List (String × Json) → Members
  | [] => target
  | (key, .null) :: rest => mergeMembers (Assoc.erase target key) rest
  | (key, value) :: rest =>
    mergeMembers (Assoc.insert target key (mergePatch ((Assoc.find? target key).getD .null) value))
      rest

end

end FedTrack.Json
