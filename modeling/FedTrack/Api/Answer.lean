import FedTrack.Api.Request
import FedTrack.Json.Field
import FedTrack.Object.Wire
import FedTrack.Store.Call

namespace FedTrack

structure ServerStatus where
  code : Nat
  reason : String
  message : String
  deriving DecidableEq, Repr

namespace ServerStatus

open Json

def summary? (j : Json) : Option Unit :=
  match j with
  | .string "Success" | .string "Failure" => some ()
  | _ => none

def code? (j : Json) : Option Nat := (nat64? j).filter (· < 65536)

def map? (j : Json) : Option Unit := j.members?.map fun _ => ()

def ofJson? (j : Json) : Option ServerStatus := do
  let m ← record ["status", "code", "message", "reason", "metadata", "details"] j
  let _ ← optionalMember summary? m "status"
  let _ ← optionalMember map? m "details"
  some ⟨← memberOr code? 0 m "code", ← memberOr string? "" m "reason", ← memberOr string? "" m "message"⟩

/-- Reads the account from a refusal. A text that gives none is itself the message. -/
def ofResponse (r : Response) : ServerStatus :=
  (r.json?.bind ofJson?).getD ⟨r.status, "Failed to parse error data", r.text⟩

def toError (s : ServerStatus) : StoreError := .ofStatus s.code s.reason s.message

end ServerStatus

namespace Response

def isRefusal (r : Response) : Bool := 400 ≤ r.status

def decode {α : Type} (read : Json → Option α) (r : Response) : Except StoreError α :=
  if r.isRefusal then .error (ServerStatus.ofResponse r).toError
  else
    match r.json?.bind read with
    | some a => .ok a
    | none => .error (.transport .decoding)

end Response

def listMetadata? (j : Json) : Option Unit := do
  let m ← j.members?
  let _ ← Json.optionalMember Json.string? m "continue"
  let _ ← Json.optionalMember Json.int64? m "remainingItemCount"
  let _ ← Json.optionalMember Json.string? m "resourceVersion"
  let _ ← Json.optionalMember Json.string? m "selfLink"
  some ()

/-- The objects of a list document. Its items have to be given, perhaps as null. -/
def objectList? (j : Json) : Option (List Object) := do
  let m ← j.members?
  let _ ← Json.memberOr listMetadata? () m "metadata"
  let items ← Json.requiredMember (Json.optional (Json.listOf Object.ofWire?)) m "items"
  some (items.getD [])

/-- Fields of a version document; each may be left out. -/
def versionFields : List String :=
  ["buildDate", "compiler", "gitCommit", "gitTreeState", "gitVersion", "goVersion", "major", "minor",
    "platform"]

def versionDocument? (j : Json) : Option Unit := do
  let m ← j.members?
  let _ ← versionFields.mapM fun f => Json.optionalMember Json.string? m f
  some ()

end FedTrack
