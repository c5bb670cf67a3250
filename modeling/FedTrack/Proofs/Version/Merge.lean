import FedTrack.Proofs.Table.Order
import FedTrack.Proofs.Version.Record
import FedTrack.Version.Manager
import Mathlib.Data.List.Nodup

namespace FedTrack

namespace VersionStatus

/-- The version listed for a cluster. -/
def version? (s : VersionStatus) (cluster : String) : Option String :=
  (s.clusters.find? (·.cluster == cluster)).map (·.version)

theorem version?_eq_find?_versionMap {s : VersionStatus} (h : s.Distinct) (cluster : String) :
    s.version? cluster = s.versionMap.find? cluster := by
  have hu := unambiguous_of_distinct h
  have hmap (v : String) : s.versionMap.find? cluster = some v ↔ ⟨cluster, v⟩ ∈ s.clusters := by
    rw [versionMap, Table.find?_ofList hu, List.mem_map]
    constructor
    · rintro ⟨c, hc, he⟩
      cases he
      exact hc
    · intro hm
      exact ⟨_, hm, rfl⟩
  cases hf : s.clusters.find? (·.cluster == cluster) with
  | none =>
    have hn : s.versionMap.find? cluster = none := by
      rw [Option.eq_none_iff_forall_ne_some]
      intro v hv
      have := List.find?_eq_none.mp hf _ ((hmap v).mp hv)
      simp at this
    simp [version?, hf, hn]
  | some c =>
    have hc : c.cluster = cluster := by simpa using List.find?_some hf
    have hm : ⟨cluster, c.version⟩ ∈ s.clusters := hc ▸ List.mem_of_find?_eq_some hf
    simp [version?, hf, (hmap c.version).mpr hm]

theorem mem_clustersOf {m : VersionMap} {c : ClusterVersion} :
    c ∈ clustersOf m ↔ m.find? c.cluster = some c.version ∧ c.version ≠ "" := by
  rw [Table.find?_eq_some, clustersOf, List.mem_map]
  constructor
  · rintro ⟨e, he, rfl⟩
    simpa using List.mem_filter.mp he
  · rintro ⟨hm, hv⟩
    exact ⟨(c.cluster, c.version), List.mem_filter.mpr ⟨hm, by simpa using hv⟩, rfl⟩

theorem distinct_of_clustersOf (template override : String) (m : VersionMap) :
    (of template override (clustersOf m)).Distinct := by
  have hs : (clustersOf m).map (·.cluster) = (m.entries.filter fun e => e.2 ≠ "").map Prod.fst := by
    rw [clustersOf, List.map_map]
    rfl
  have hn : ((clustersOf m).map (·.cluster)).Nodup := by
    rw [hs]
    exact (Table.nodup_entries m.sorted).sublist (List.filter_sublist.map Prod.fst)
  exact ((sortClusters_perm (clustersOf m)).map _).nodup_iff.mpr hn

theorem version?_of_clustersOf (template override : String) (m : VersionMap) (cluster : String) :
    (of template override (clustersOf m)).version? cluster = (m.find? cluster).filter (· ≠ "") := by
  have hd := distinct_of_clustersOf template override m
  rw [version?_eq_find?_versionMap hd]
  apply Option.ext
  intro v
  rw [versionMap, Table.find?_ofList (unambiguous_of_distinct hd), List.mem_map]
  constructor
  · rintro ⟨c, hc, he⟩
    cases he
    have hm := mem_clustersOf.mp (mem_sortClusters.mp hc)
    simp [hm.1, hm.2]
  · intro hv
    obtain ⟨hf, hne⟩ := Option.filter_eq_some_iff.mp hv
    refine ⟨⟨cluster, v⟩, ?_, rfl⟩
    exact mem_sortClusters.mpr (mem_clustersOf.mpr ⟨hf, by simpa using hne⟩)

theorem mem_clusters_iff {s : VersionStatus} (h : s.Distinct) {c : ClusterVersion} :
    c ∈ s.clusters ↔ s.version? c.cluster = some c.version := by
  rw [version?_eq_find?_versionMap h, versionMap, Table.find?_ofList (unambiguous_of_distinct h),
    List.mem_map]
  constructor
  · intro hc
    exact ⟨c, hc, rfl⟩
  · rintro ⟨d, hd, he⟩
    have hdc : d = c := by
      cases d
      cases c
      cases he
      rfl
    rwa [← hdc]

/-- Without repeated clusters only one order of a list is ascending. -/
theorem sortClusters_eq_of_perm {l m : List ClusterVersion} (hd : (l.map (·.cluster)).Nodup)
    (h : l.Perm m) : sortClusters l = sortClusters m := by
  have hsorted (l : List ClusterVersion) :
      (sortClusters l).Pairwise fun c d => Key.lt d.cluster c.cluster = false :=
    Key.pairwise_mergeSort ClusterVersion.cluster l
  have hperm : (sortClusters l).Perm (sortClusters m) :=
    (sortClusters_perm l).trans (h.trans (sortClusters_perm m).symm)
  refine List.Perm.eq_of_pairwise ?_ (hsorted l) (hsorted m) hperm
  intro c d hc hd' hdc hcd
  have hcl : c ∈ l := mem_sortClusters.mp hc
  have hdl : d ∈ l := mem_sortClusters.mp (hperm.mem_iff.mpr hd')
  exact List.inj_on_of_nodup_map hd hcl hdl (Key.eq_of_not_lt hcd hdc)

/-- Statuses of one template and override that list the same version for every cluster are
equivalent. -/
theorem equivalent_of_version? {a b : VersionStatus} (ha : a.Distinct) (hb : b.Distinct)
    (hfor : a.isFor b.template b.override = true)
    (h : ∀ cluster, a.version? cluster = b.version? cluster) : a.equivalent b = true := by
  obtain ⟨htemplate, hoverride⟩ := isFor_iff.mp hfor
  refine equivalent_iff.mpr ⟨htemplate, hoverride, ?_⟩
  have hperm : a.clusters.Perm b.clusters := by
    refine (List.perm_ext_iff_of_nodup (List.Nodup.of_map _ ha) (List.Nodup.of_map _ hb)).mpr ?_
    intro c
    rw [mem_clusters_iff ha, mem_clusters_iff hb, h]
  exact sortClusters_eq_of_perm ha hperm

theorem equivalent_iff_version? {a b : VersionStatus} (ha : a.Distinct) (hb : b.Distinct) :
    a.equivalent b = true ↔ a.isFor b.template b.override = true ∧
      ∀ cluster, a.version? cluster = b.version? cluster := by
  constructor
  · intro h
    obtain ⟨htemplate, hoverride, -⟩ := equivalent_iff.mp h
    refine ⟨isFor_iff.mpr ⟨htemplate, hoverride⟩, ?_⟩
    intro cluster
    rw [version?_eq_find?_versionMap ha, version?_eq_find?_versionMap hb,
      versionMap_eq_of_equivalent ha h]
  · rintro ⟨hfor, hversions⟩
    exact equivalent_of_version? ha hb hfor hversions

end VersionStatus

namespace VersionManager

theorem find?_mergeVersions (old : List ClusterVersion) (selected : List String) (new : VersionMap)
    (cluster : String) : (mergeVersions old selected new).find? cluster =
      (new.find? cluster).or (if cluster ∈ selected then
        (old.find? (·.cluster == cluster)).map (·.version) else none) := by
  induction old generalizing new with
  | nil => simp [mergeVersions]
  | cons c rest ih =>
    have hstep : mergeVersions (c :: rest) selected new = mergeVersions rest selected
        (if selected.contains c.cluster && !new.contains c.cluster then
          new.insert c.cluster c.version else new) := rfl
    rw [hstep, ih]
    by_cases hc : c.cluster = cluster
    · subst hc
      by_cases hs : c.cluster ∈ selected
      · cases hn : new.find? c.cluster <;> simp [Table.contains, hs, hn]
      · simp [hs]
    · have hkeep : (if selected.contains c.cluster && !new.contains c.cluster then
          new.insert c.cluster c.version else new).find? cluster = new.find? cluster := by
        split
        · rw [Table.find?_insert, if_neg hc]
        · rfl
      rw [hkeep]
      simp [hc]

theorem distinct_updatedStatus (old : Option VersionStatus) (template override : String)
    (selected : List String) (versions : VersionMap) :
    (updatedStatus old template override selected versions).Distinct :=
  VersionStatus.distinct_of_clustersOf _ _ _

/-- An update asks for the new version of a cluster, or for the old one of a selected cluster if
it belongs to the same template and override; never for an empty one. -/
theorem version?_updatedStatus (old : Option VersionStatus) (template override : String)
    (selected : List String) (versions : VersionMap) (cluster : String) :
    (updatedStatus old template override selected versions).version? cluster =
      ((versions.find? cluster).or (if cluster ∈ selected then
        (old.filter (·.isFor template override)).bind (·.version? cluster) else none)).filter
          (· ≠ "") := by
  unfold updatedStatus
  rw [VersionStatus.version?_of_clustersOf, find?_mergeVersions]
  cases old with
  | none => simp
  | some s =>
    by_cases hf : s.isFor template override = true
    · simp [hf, Option.filter_some, VersionStatus.version?]
    · simp [hf, Option.filter_some]

/-- Merging the same versions once more changes nothing. -/
theorem equivalent_updatedStatus (old : Option VersionStatus) (template override : String)
    (selected : List String) (versions : VersionMap) :
    (updatedStatus old template override selected versions).equivalent
      (updatedStatus (some (updatedStatus old template override selected versions)) template
        override selected versions) = true := by
  have hfor : (updatedStatus old template override selected versions).isFor template override =
      true := VersionStatus.isFor_iff.mpr ⟨rfl, rfl⟩
  apply VersionStatus.equivalent_of_version? (distinct_updatedStatus _ _ _ _ _)
    (distinct_updatedStatus _ _ _ _ _) hfor
  intro cluster
  rw [version?_updatedStatus (some _), Option.filter_some, if_pos hfor, Option.bind_some,
    version?_updatedStatus]
  cases versions.find? cluster with
  | some v => rfl
  | none =>
    by_cases hs : cluster ∈ selected
    · simp [hs]
    · simp [hs]

end VersionManager

end FedTrack
