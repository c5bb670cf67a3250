import FedTrack.Api.Request

namespace FedTrack.Uri

def isUriChar (c : Char) : Bool :=
  c.isAlphanum || "!#$&'()*+,-./:;=?@[]_~".toList.contains c

/-- What has been seen of a host: its colons after a user or an address in brackets, its
brackets and whether it ends with an at sign. -/
structure HostScan where
  colons : Nat
  opened : Bool
  closed : Bool
  percent : Bool
  atSign : Bool
  deriving DecidableEq, Repr

namespace HostScan

def start : HostScan := ⟨0, false, false, false, false⟩

def step (s : HostScan) (c : Char) : Option HostScan :=
  let s := { s with atSign := false }
  match c with
  | ':' => if s.colons < 8 then some { s with colons := s.colons + 1 } else none
  | '[' => if s.percent || s.opened then none else some { s with opened := true }
  | ']' =>
    if s.opened && !s.closed then some { s with closed := true, colons := 0, percent := false }
    else none
  | '@' => some { s with colons := 0, percent := false, atSign := true }
  | '%' => some { s with percent := true }
  | c => if isUriChar c then some s else none

/-- One colon may be left, in front of the number of the service. -/
def isComplete (s : HostScan) : Bool :=
  s.opened == s.closed && s.colons ≤ 1 && !s.percent && !s.atSign

end HostScan

/-- A host with a user in front and a number behind a colon, if they are given. -/
def isHost (cs : List Char) : Bool :=
  !cs.isEmpty && (cs.foldlM HostScan.step .start).any (·.isComplete)

def endsHost (c : Char) : Bool := c = '/' || c = '?' || c = '#'

def isSchemeChar (c : Char) : Bool := c.isAlphanum || c = '+' || c = '-' || c = '.'

/-- What follows the scheme and its slashes. -/
def afterScheme? (cs : List Char) : Option (List Char) :=
  match cs.dropWhile isSchemeChar with
  | ':' :: '/' :: '/' :: rest => some rest
  | _ => none

def isUri (s : String) : Bool :=
  let cs := s.toList
  let hasTarget (cs : List Char) : Bool := (Target.ofText? (String.ofList cs)).isSome
  match cs, afterScheme? cs with
  | '/' :: _, _ => hasTarget cs
  | ['*'], _ => true
  | _, some rest =>
    isHost (rest.takeWhile (!endsHost ·)) && hasTarget (rest.dropWhile (!endsHost ·))
  | _, none => isHost cs && !cs.any endsHost

end FedTrack.Uri
