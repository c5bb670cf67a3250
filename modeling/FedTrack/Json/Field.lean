import FedTrack.Json.Value

namespace FedTrack.Json

def minInt64 : Int := -0x8000000000000000
def maxInt64 : Int := 0x7fffffffffffffff
def maxNat64 : Int := 0xffffffffffffffff

def int64? (j : Json) : Option Int :=
  match j with
  | .number (.whole i) => if minInt64 ≤ i && i ≤ maxInt64 then some i else none
  | _ => none

def nat64? (j : Json) : Option Nat :=
  match j with
  | .number (.whole i) => if 0 ≤ i && i ≤ maxNat64 then some i.toNat else none
  | _ => none

def optional {α : Type} (read : Json → Option α) (j : Json) : Option (Option α) :=
  match j with
  | .null => some none
  | j => (read j).map some

def listOf {α : Type} (read : Json → Option α) (j : Json) : Option (List α) :=
  match j with
  | .array items => items.mapM read
  | _ => none

/-- A member read with `read`; absent or null counts as absent. -/
def optionalMember {α : Type} (read : Json → Option α) (m : Members) (name : String) :
    Option (Option α) :=
  match Assoc.find? m name with
  | none => some none
  | some j => optional read j

/-- A member read with `read`; `fallback` when absent, and null is not accepted. -/
def memberOr {α : Type} (read : Json → Option α) (fallback : α) (m : Members) (name : String) :
    Option α :=
  match Assoc.find? m name with
  | none => some fallback
  | some j => read j

def requiredMember {α : Type} (read : Json → Option α) (m : Members) (name : String) : Option α :=
  (Assoc.find? m name).bind read

/-- Pairs fields with the items of an array by position; `none` if there are more items than
fields. -/
def positional : List String → List Json → Option Members
  | _, [] => some []
  | [], _ :: _ => none
  | k :: ks, j :: js => (positional ks js).map fun m => Assoc.insert m k j

/-- The fields of a record, given by name or, in an array, by position. -/
def record (fields : List String) (j : Json) : Option Members :=
  match j with
  | .object m => some m
  | .array items => positional fields items
  | _ => none

end FedTrack.Json
