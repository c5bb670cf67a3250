import FedTrack.Proofs.Digest.Sha256
import FedTrack.Proofs.Json.Text
import FedTrack.Proofs.Version.Runs

namespace FedTrack

namespace Federated

/-- A member of the specification that is there and is not null. -/
def given? (o : Object) (name : String) : Option Json :=
  (specMember? o name).filter fun j => !j.isNull

def template? (o : Object) : Option Json := given? o "template"

def overrides? (o : Object) : Option Json := given? o "overrides"

/-- What the versions of a resource are digests of. -/
def contents (o : Object) : List Json := (template? o).toList ++ (overrides? o).toList

/-- The messages that are digested. -/
def messages (o : Object) : List (List UInt8) :=
  (contents o).map fun j => Sha256.message j.text

theorem templateVersion?_eq (o : Object) : templateVersion? o = (template? o).map Json.digest := by
  unfold templateVersion? template? given?
  cases specMember? o "template" with
  | none => rfl
  | some j => cases j <;> rfl

theorem overrideVersion_eq (o : Object) :
    overrideVersion o = ((overrides? o).map Json.digest).getD "" := by
  unfold overrideVersion overrides? given?
  cases specMember? o "overrides" with
  | none => rfl
  | some j => cases j <;> rfl

/-- Documents that are among the contents have one digest only if they are the same. -/
theorem digest_inj {l : List Json} (hwhole : ∀ j ∈ l, j.whole = true)
    (happart : Sha256.Apart (l.map fun j => Sha256.message j.text)) {j k : Json} (hj : j ∈ l)
    (hk : k ∈ l) : j.digest = k.digest ↔ j = k := by
  constructor
  · intro h
    have htext : j.text = k.text :=
      Sha256.hexDigest_inj happart (List.mem_map_of_mem hj) (List.mem_map_of_mem hk) h
    exact (Json.text_inj (hwhole j hj) (hwhole k hk)).mp htext
  · intro h
    rw [h]

end Federated

open Federated

/-- The versions of two resources with templates, none of which has a fraction in it, are the same
exactly if the templates are the same, and the overrides, where none at all and null count as one;
but for that the resources may differ in all. So a status recorded for one of them is one for the
other exactly if both are the same. -/
theorem versions_follow_contents {o p : Object} {t u : Json} (ht : template? o = some t)
    (hu : template? p = some u) (hwhole : ∀ j ∈ contents o ++ contents p, j.whole = true)
    (happart : Sha256.Apart (messages o ++ messages p)) :
    ∃ v w, templateVersion? o = some v ∧ templateVersion? p = some w ∧ (v = w ↔ t = u) ∧
      (overrideVersion o = overrideVersion p ↔ overrides? o = overrides? p) ∧
      ∀ clusters, (VersionStatus.of v (overrideVersion o) clusters).isFor w (overrideVersion p) =
        true ↔ t = u ∧ overrides? o = overrides? p := by
  have hdigest {j k : Json} (hj : j ∈ contents o ++ contents p) (hk : k ∈ contents o ++ contents p) :
      j.digest = k.digest ↔ j = k := by
    refine digest_inj hwhole ?_ hj hk
    rw [List.map_append]
    exact happart
  have htemplates : t.digest = u.digest ↔ t = u := by
    apply hdigest
    · simp [contents, ht]
    · simp [contents, hu]
  have hempty (j : Json) : j.digest ≠ "" := Sha256.hexDigest_ne_empty j.text
  have hoverrides : overrideVersion o = overrideVersion p ↔ overrides? o = overrides? p := by
    rw [overrideVersion_eq, overrideVersion_eq]
    cases ho : overrides? o with
    | none =>
      cases hp : overrides? p with
      | none => simp
      | some k => simpa using (hempty k).symm
    | some j =>
      cases hp : overrides? p with
      | none => simpa using hempty j
      | some k =>
        rw [Option.map_some, Option.map_some, Option.getD_some, Option.getD_some,
          Option.some.injEq]
        apply hdigest
        · simp [contents, ho]
        · simp [contents, hp]
  refine ⟨t.digest, u.digest, ?_, ?_, htemplates, hoverrides, ?_⟩
  · rw [templateVersion?_eq, ht]
    rfl
  · rw [templateVersion?_eq, hu]
    rfl
  · intro clusters
    rw [VersionStatus.isFor_iff, ← htemplates, ← hoverrides]
    exact Iff.rfl

namespace Sample

def specified (template overrides : Json) : Object :=
  { resource with
    data := .object [("spec", .object [("overrides", overrides), ("template", template)])] }

end Sample

/-- The string and the number are told apart, the missing overrides and the null ones are not. -/
theorem versions_follow_contents_sample :
    templateVersion? Sample.resource ≠
      templateVersion? (Sample.specified (.object [("replicas", .ofNat 1)]) .null) ∧
    overrideVersion Sample.resource =
      overrideVersion (Sample.specified (.object [("replicas", .ofNat 1)]) .null) := by
  obtain ⟨v, w, hv, hw, htemplates, hoverrides, -⟩ := versions_follow_contents
    (o := Sample.resource)
    (p := Sample.specified (.object [("replicas", .ofNat 1)]) .null)
    (t := .object [("replicas", .string "1")]) (u := .object [("replicas", .ofNat 1)])
    (by decide +kernel) (by decide +kernel) (by decide +kernel) (by decide +kernel)
  refine ⟨?_, ?_⟩
  · rw [hv, hw, ne_eq, Option.some.injEq, htemplates]
    decide +kernel
  · rw [hoverrides]
    decide +kernel

end FedTrack
