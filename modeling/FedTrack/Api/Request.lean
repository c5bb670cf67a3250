import FedTrack.Json.Reader
import FedTrack.Object.Kind

namespace FedTrack

inductive Method
  | get
  | post
  | put
  | patch
  deriving DecidableEq, Repr

def Method.word : Method → String
  | .get => "GET"
  | .post => "POST"
  | .put => "PUT"
  | .patch => "PATCH"

inductive ContentType
  | json
  | mergePatch
  deriving DecidableEq, Repr

def ContentType.text : ContentType → String
  | .json => "application/json"
  | .mergePatch => "application/merge-patch+json"

/-- Where a request goes to: a path and what follows its question mark. -/
structure Target where
  path : String
  query : String
  deriving DecidableEq, Repr

namespace Target

def inPath (c : Char) : Bool :=
  let n := c.toNat
  n = 0x21 || n = 0x22 || (0x24 ≤ n && n ≤ 0x3b) || n = 0x3d || (0x40 ≤ n && n ≤ 0x5f) || 0x61 ≤ n

def inQuery (c : Char) : Bool :=
  let n := c.toNat
  n = 0x21 || (0x24 ≤ n && n ≤ 0x3b) || n = 0x3d || 0x3f ≤ n

/-- Reads a target; what follows `#` is left out. `none` if it holds a character that has to
be written in another way. -/
def ofText? (s : String) : Option Target :=
  let cs := s.toList.takeWhile (· ≠ '#')
  let path := cs.takeWhile (· ≠ '?')
  let query := (cs.dropWhile (· ≠ '?')).drop 1
  if path.all inPath && query.all inQuery then some ⟨String.ofList path, String.ofList query⟩
  else none

end Target

structure Request where
  method : Method
  target : Target
  body : Option (ContentType × Json)

structure Response where
  status : Nat
  text : String
  deriving DecidableEq, Repr

def Response.json? (r : Response) : Option Json := Json.parse r.text

namespace Resource

/-- The path of all objects of the resource, in one namespace or in all. -/
def path (r : Resource) (scope : Option String) : String :=
  let root := if r.group = "" then "/api/" else "/apis/"
  let place := match scope with
    | some ns => if ns = "" then "" else "namespaces/" ++ ns ++ "/"
    | none => ""
  root ++ r.apiVersion ++ "/" ++ place ++ r.plural

end Resource

namespace Kind

def discoveryPath (k : Kind) : String :=
  (if k.group = "" then "/api/" else "/apis/") ++ k.apiVersion

end Kind

end FedTrack
