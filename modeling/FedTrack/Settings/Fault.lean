namespace FedTrack

inductive FaultKind
  | type
  /-- A value of the right type out of its range. -/
  | value
  | length
  | missingField (field : String)
  | unknownVariant (variant : String)
  /-- The text says nothing, or a value is not what its text has to be. -/
  | text
  deriving DecidableEq, Repr

/-- A fault and the place in the settings at which it was found. -/
structure ReadFault where
  kind : FaultKind
  path : List String
  deriving DecidableEq, Repr

namespace ReadFault

def here (kind : FaultKind) : ReadFault := ⟨kind, []⟩

def place (f : ReadFault) : String := String.intercalate "." f.path

end ReadFault

/-- A result found at the member or item `segment` of another value. -/
def within {α : Type} (segment : String) (r : Except ReadFault α) : Except ReadFault α :=
  match r with
  | .error f => .error { f with path := segment :: f.path }
  | .ok a => .ok a

end FedTrack
