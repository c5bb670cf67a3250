import FedTrack.Proofs.Json.MergePatch
import FedTrack.Proofs.Store.Faults

namespace FedTrack.MemoryStore

open Json

/-- A patch of a stored object changes its data and its version, and nothing but a fault stops
it. -/
theorem perform_patchMerge {s : MemoryStore} {kind : Kind} {name : Name} {before : Object}
    (hf : s.find? kind name = some before) (patch : Json) :
    ∃ after, (s.perform kind (.patchMerge name patch)).1.find? kind name = some after ∧
      after.types = before.types ∧
      after.metadata =
        { before.metadata with resourceVersion := after.metadata.resourceVersion } ∧
      (∀ a, (s.perform kind (.patchMerge name patch)).2 = .ok a → a = .stored after ∧
        after.data = before.data.mergePatch (patch.dropMember "metadata")) ∧
      ((∀ e ∈ s.faults, e.1 ≠ .patchMerge) →
        (s.perform kind (.patchMerge name patch)).2 = .ok (.stored after)) := by
  rcases faults_split .patchMerge s.faults with h | ⟨b, f, l, hl, h⟩
  · rw [perform_through kind h]
    have hstored : ({ s with attempts := s.attempts.bump .patchMerge } : MemoryStore).find? kind
        name = some before := hf
    simp only [Call.operation, commit, hstored]
    refine ⟨(patched before patch).setResourceVersion (some (toString s.nextVersion)), ?_, rfl, rfl,
      ?_, fun _ => rfl⟩
    · exact (find?_of_insert rfl kind name).trans (if_pos ⟨rfl, rfl⟩)
    · rintro a ⟨⟩
      exact ⟨rfl, rfl⟩
  · rw [perform_oldest kind hl h]
    refine ⟨before, hf, rfl, rfl, ?_, ?_⟩
    · intro a ha
      cases ha
    · intro hnone
      exact absurd rfl (hnone (.patchMerge, f) (by simp [hl]))

/-- Of documents with their members in order, a merge patch has one result, told name by name, and
comes to the same when it is applied again. A store that applies one leaves the type of the object
and all of its metadata but the version. -/
theorem merge_patch_law :
    (∀ t p : Json, t.Ordered → p.Ordered →
      Patched (some t) p (t.mergePatch p) ∧ (t.mergePatch p).Ordered ∧
      (∀ r, r.Ordered → Patched (some t) p r → r = t.mergePatch p) ∧
      (t.mergePatch p).mergePatch p = t.mergePatch p) ∧
    ∀ (s : MemoryStore) (kind : Kind) (name : Name) (patch : Json) (before : Object),
      s.find? kind name = some before →
      let z := s.perform kind (.patchMerge name patch)
      ∃ after, z.1.find? kind name = some after ∧ after.types = before.types ∧
        after.metadata =
          { before.metadata with resourceVersion := after.metadata.resourceVersion } ∧
        (∀ a, z.2 = .ok a → a = .stored after ∧
          after.data = before.data.mergePatch (patch.dropMember "metadata")) ∧
        ((∀ e ∈ s.faults, e.1 ≠ .patchMerge) → z.2 = .ok (.stored after)) := by
  refine ⟨?_, fun _ _ _ patch _ hf => perform_patchMerge hf patch⟩
  intro t p ht hp
  have hpatched := patched_mergePatch p hp t
  have hordered := ordered_mergePatch p hp ht
  exact ⟨hpatched, hordered, fun r hr h => h.unique hpatched hr hordered,
    mergePatch_idempotent ht hp⟩

/-- A map takes the place of what is no map, without the names that it removes, and so it does in a
store, where the patch cannot rename the object. -/
theorem merge_patch_law_sample :
    let t : Json := .object [("a", .ofNat 1), ("keep", .bool true)]
    let p : Json := .object [("a", .object [("b", .null), ("c", .ofNat 2)]), ("d", .null)]
    let merged : Json := .object [("a", .object [("c", .ofNat 2)]), ("keep", .bool true)]
    let rename : Json := .object [("a", .object [("b", .null), ("c", .ofNat 2)]), ("d", .null),
      ("metadata", .object [("name", .string "new")])]
    let kind : Kind := ⟨"apps", "v1", "Deployment"⟩
    let name : Name := ⟨"", "old"⟩
    let o : Object := ⟨none, { Metadata.empty with name := some "old" }, t⟩
    let s := { empty with objects := Table.empty.insert (kind, name) o }
    let z := s.perform kind (.patchMerge name rename)
    t.Ordered ∧ p.Ordered ∧
      t.mergePatch p = merged ∧ (t.mergePatch p).mergePatch p = t.mergePatch p ∧
      rename.dropMember "metadata" = p ∧
      ∃ after, z.1.find? kind name = some after ∧ z.2 = .ok (.stored after) ∧
        after.data = merged ∧ after.metadata.name = some "old" := by
  intro t p merged rename kind name o s z
  have hak : Key.lt "a" "keep" = true := by decide +kernel
  have had : Key.lt "a" "d" = true := by decide +kernel
  have hbc : Key.lt "b" "c" = true := by decide +kernel
  have ht : t.Ordered := by simp [t, Ordered, membersOrdered, Assoc.Sorted, hak, ofNat]
  have hp : p.Ordered := by simp [p, Ordered, membersOrdered, Assoc.Sorted, had, hbc, ofNat]
  have hmerged : t.mergePatch p = merged := by decide +kernel
  have hdropped : rename.dropMember "metadata" = p := by decide +kernel
  obtain ⟨after, hafter, -, hmetadata, hdata, hdone⟩ := merge_patch_law.2 s kind name rename _ rfl
  have hok := hdone (by decide)
  refine ⟨ht, hp, hmerged, (merge_patch_law.1 t p ht hp).2.2.2, hdropped, after, hafter, hok, ?_, ?_⟩
  · rw [(hdata _ hok).2, hdropped]
    exact hmerged
  · rw [hmetadata]

end FedTrack.MemoryStore
