import FedTrack.Object.Basic
import FedTrack.Json.Printer
import FedTrack.Digest.Sha256

namespace FedTrack

def Json.digest (j : Json) : String := Sha256.hexDigest j.text

namespace Federated

def specMember? (o : Object) (name : String) : Option Json :=
  (o.data.member? "spec").bind fun spec => spec.member? name

def missingTemplateText (o : Object) : String := o.name.display ++ " has no spec.template"

/-- Digest of `spec.template`; `none` if it is absent or null. -/
def templateVersion? (o : Object) : Option String :=
  match specMember? o "template" with
  | none | some .null => none
  | some j => some j.digest

/-- Digest of `spec.overrides`, empty if absent or null. -/
def overrideVersion (o : Object) : String :=
  match specMember? o "overrides" with
  | none | some .null => ""
  | some j => j.digest

end Federated

end FedTrack
