import FedTrack.Proofs.Json.Field
import FedTrack.Proofs.Table.Lookup
import FedTrack.Version.Status

namespace FedTrack

namespace ClusterVersion

theorem ofJson?_toJson (c : ClusterVersion) : ofJson? c.toJson = some c := rfl

end ClusterVersion

namespace VersionStatus

/-- A status reads back as it was written. -/
theorem ofJson?_toJson (s : VersionStatus) : ofJson? s.toJson = some s := by
  have hc : Json.listOf ClusterVersion.ofJson? (.array (s.clusters.map (·.toJson))) =
      some s.clusters :=
    Json.listOf_map fun c _ => c.ofJson?_toJson
  have hread : ofJson? s.toJson = (Json.listOf ClusterVersion.ofJson?
      (.array (s.clusters.map (·.toJson)))).bind fun clusters =>
        some ⟨s.template, s.override, clusters⟩ := rfl
  rw [hread, hc]
  rfl

theorem isFor_iff {s : VersionStatus} {template override : String} :
    s.isFor template override = true ↔ s.template = template ∧ s.override = override := by
  simp [isFor]

theorem equivalent_iff {a b : VersionStatus} : a.equivalent b = true ↔
    a.template = b.template ∧ a.override = b.override ∧
      sortClusters a.clusters = sortClusters b.clusters := by
  simp [equivalent, isFor_iff, and_assoc]

theorem equivalent_refl (s : VersionStatus) : s.equivalent s = true :=
  equivalent_iff.mpr ⟨rfl, rfl, rfl⟩

theorem sortClusters_perm (l : List ClusterVersion) : (sortClusters l).Perm l :=
  List.mergeSort_perm l atMost

theorem mem_sortClusters {l : List ClusterVersion} {c : ClusterVersion} :
    c ∈ sortClusters l ↔ c ∈ l :=
  (sortClusters_perm l).mem_iff

/-- No cluster is named twice. -/
def Distinct (s : VersionStatus) : Prop := (s.clusters.map (·.cluster)).Nodup

instance (s : VersionStatus) : Decidable s.Distinct := inferInstanceAs (Decidable (List.Nodup _))

theorem unambiguous_of_distinct {s : VersionStatus} (h : s.Distinct) :
    Table.Unambiguous (s.clusters.map fun c => (c.cluster, c.version)) := by
  apply Table.unambiguous_of_nodup
  rw [List.map_map]
  exact h

/-- Equivalent statuses record the same versions if one of them names no cluster twice. -/
theorem versionMap_eq_of_equivalent {a b : VersionStatus} (ha : a.Distinct)
    (h : a.equivalent b = true) : a.versionMap = b.versionMap := by
  obtain ⟨-, -, hc⟩ := equivalent_iff.mp h
  have hp : a.clusters.Perm b.clusters :=
    (sortClusters_perm a.clusters).symm.trans (hc ▸ sortClusters_perm b.clusters)
  apply Table.ofList_congr (unambiguous_of_distinct ha)
  intro e
  exact (hp.map _).mem_iff

end VersionStatus

end FedTrack
