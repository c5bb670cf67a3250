import FedTrack.Proofs.Version.Docket
import FedTrack.Proofs.Version.Runs

namespace FedTrack

namespace VersionStatus

/-! Equality of values. -/

theorem equivalence : Equivalence fun a b : VersionStatus => a.equivalent b = true where
  refl := equivalent_refl
  symm := by
    intro a b h
    obtain ⟨ht, ho, hc⟩ := equivalent_iff.mp h
    exact equivalent_iff.mpr ⟨ht.symm, ho.symm, hc.symm⟩
  trans := by
    intro a b c hab hbc
    obtain ⟨ht, ho, hc⟩ := equivalent_iff.mp hab
    obtain ⟨ht', ho', hc'⟩ := equivalent_iff.mp hbc
    exact equivalent_iff.mpr ⟨ht.trans ht', ho.trans ho', hc.trans hc'⟩

theorem sortClusters_eq_iff {l m : List ClusterVersion} (hd : (l.map (·.cluster)).Nodup) :
    sortClusters l = sortClusters m ↔ l.Perm m := by
  constructor
  · intro h
    exact (sortClusters_perm l).symm.trans (h ▸ sortClusters_perm m)
  · exact sortClusters_eq_of_perm hd

variable {a b : VersionStatus}

theorem equivalent_iff_perm (ha : a.Distinct) : a.equivalent b = true ↔
    a.template = b.template ∧ a.override = b.override ∧ a.clusters.Perm b.clusters := by
  rw [equivalent_iff, sortClusters_eq_iff ha]

theorem equivalent_iff_versionMap (ha : a.Distinct) (hb : b.Distinct) : a.equivalent b = true ↔
    a.template = b.template ∧ a.override = b.override ∧ a.versionMap = b.versionMap := by
  constructor
  · intro h
    obtain ⟨ht, ho, -⟩ := equivalent_iff.mp h
    exact ⟨ht, ho, versionMap_eq_of_equivalent ha h⟩
  · rintro ⟨ht, ho, hm⟩
    refine equivalent_of_version? ha hb (isFor_iff.mpr ⟨ht, ho⟩) ?_
    intro cluster
    rw [version?_eq_find?_versionMap ha, version?_eq_find?_versionMap hb, hm]

/-- Statuses are compared by a relation of equivalence. If both name no cluster twice they are
equivalent exactly if they belong to the same template and override and list the same versions in
some order, or, what is the same, record the same map of versions. -/
theorem equivalent_is_equality : (Equivalence fun a b : VersionStatus => a.equivalent b = true) ∧
    ∀ a b : VersionStatus, a.Distinct → b.Distinct →
      (a.equivalent b = true ↔
        a.template = b.template ∧ a.override = b.override ∧ a.clusters.Perm b.clusters) ∧
      (a.equivalent b = true ↔
        a.template = b.template ∧ a.override = b.override ∧ a.versionMap = b.versionMap) :=
  ⟨equivalence, fun _ _ ha hb => ⟨equivalent_iff_perm ha, equivalent_iff_versionMap ha hb⟩⟩

theorem equivalent_is_equality_sample :
    let a : VersionStatus := ⟨"t", "o", [⟨"c2", "5"⟩, ⟨"c1", "3"⟩]⟩
    let b : VersionStatus := ⟨"t", "o", [⟨"c1", "3"⟩, ⟨"c2", "5"⟩]⟩
    a.Distinct ∧ b.Distinct ∧ a.equivalent b = true ∧ a.versionMap = b.versionMap := by
  intro a b
  have ha : a.Distinct := by decide
  have hb : b.Distinct := by decide
  obtain ⟨hperm, hmap⟩ := equivalent_is_equality.2 a b ha hb
  have heq : a.equivalent b = true := hperm.mpr ⟨rfl, rfl, .swap _ _ _⟩
  exact ⟨ha, hb, heq, (hmap.mp heq).2.2⟩

/-- Of a cluster that is named twice the order of its versions counts. -/
example : equivalent ⟨"t", "o", [⟨"c1", "3"⟩, ⟨"c1", "4"⟩]⟩
    ⟨"t", "o", [⟨"c1", "4"⟩, ⟨"c1", "3"⟩]⟩ = false := by cbv

/-! Canonical lists. -/

/-- Clusters in strictly ascending order, each with a version. -/
structure Canonical (l : List ClusterVersion) : Prop where
  ascending : l.Pairwise fun c d => c.cluster < d.cluster
  known : ∀ c ∈ l, c.version ≠ ""

theorem canonical_clustersOf (m : VersionMap) : Canonical (clustersOf m) where
  ascending := by
    have hkeys : (m.entries.map Prod.fst).Pairwise fun a b => Key.lt a b = true :=
      Table.pairwise_of_sorted m.sorted
    refine List.pairwise_map.mpr (((List.pairwise_map.mp hkeys).filter _).imp ?_)
    intro a b h
    exact of_decide_eq_true h
  known := by
    intro c hc
    exact (mem_clustersOf.mp hc).2

variable {s : VersionStatus}

theorem sortClusters_of_canonical {l : List ClusterVersion} (h : Canonical l) :
    sortClusters l = l := by
  refine List.mergeSort_of_pairwise (h.ascending.imp ?_)
  intro c d hlt
  have hkey : Key.lt c.cluster d.cluster = true := decide_eq_true hlt
  rw [atMost, Key.asymm hkey]
  rfl

theorem clusters_of_clustersOf (template override : String) (m : VersionMap) :
    (of template override (clustersOf m)).clusters = clustersOf m :=
  sortClusters_of_canonical (canonical_clustersOf m)

/-- In ascending order the list of a status is its map. -/
theorem entries_versionMap (h : Canonical s.clusters) :
    s.versionMap.entries = s.clusters.map fun c => (c.cluster, c.version) := by
  have hsorted : Assoc.Sorted (s.clusters.map fun c => (c.cluster, c.version)) := by
    refine Table.sorted_of_pairwise (List.pairwise_map.mpr (h.ascending.imp ?_))
    intro c d hlt
    exact decide_eq_true hlt
  exact congrArg Table.entries (Table.ofList_entries ⟨_, hsorted⟩)

theorem entries_versionMap_of_clustersOf (template override : String) (m : VersionMap) :
    (of template override (clustersOf m)).versionMap.entries =
      m.entries.filter fun e => e.2 ≠ "" := by
  have hc := clusters_of_clustersOf template override m
  have hcanonical : Canonical (of template override (clustersOf m)).clusters := by
    rw [hc]
    exact canonical_clustersOf m
  rw [entries_versionMap hcanonical, hc, clustersOf, List.map_map]
  exact List.map_id' _

theorem clustersOf_versionMap (h : Canonical s.clusters) : clustersOf s.versionMap = s.clusters := by
  rw [clustersOf, entries_versionMap h, List.filter_map, List.map_map]
  have hall : s.clusters.filter ((fun e => decide (e.2 ≠ "")) ∘ fun c => (c.cluster, c.version)) =
      s.clusters := by
    rw [List.filter_eq_self]
    intro c hc
    exact decide_eq_true (h.known c hc)
  rw [hall]
  exact List.map_id' _

end VersionStatus

open VersionStatus (Canonical)

theorem VersionManager.canonical_asked {m : VersionManager} {r : UpdateRequest}
    {asked : VersionStatus} (h : m.asked? r = some asked) : Canonical asked.clusters := by
  obtain ⟨template, -, rfl⟩ := Option.map_eq_some_iff.mp h
  unfold updatedStatus
  rw [VersionStatus.clusters_of_clustersOf]
  exact VersionStatus.canonical_clustersOf _

/-- The status of a record reads as one with a canonical list. -/
def Object.Tidy (o : Object) : Prop :=
  ∃ status, RecordType.status? o = some status ∧ Canonical status.clusters

theorem VersionManager.tidy_of_prepare {m m' : VersionManager} {r : UpdateRequest} {record : Object}
    (h : m.prepare r = .ok (m', some record)) : record.Tidy := by
  obtain ⟨-, -, asked, hasked, hstatus⟩ := prepare_some h
  exact ⟨asked, hstatus, canonical_asked hasked⟩

/-- A call that reads, or one that writes a tidy record. -/
inductive Call.Tidy : Call → Prop
  | get (name : Name) : Tidy (.get name)
  | create {o : Object} (h : o.Tidy) : Tidy (.create o)
  | updateStatus {o : Object} (h : o.Tidy) : Tidy (.updateStatus o)

theorem Write.tidy_call {w : Write} (h : w.record.Tidy) {name : Name} {c : Call}
    (hc : w.call? name = some c) : c.Tidy := by
  unfold call? at hc
  split at hc
  · cases hc
    exact .get name
  · cases hc
    exact .create h
  · cases hc
    exact .updateStatus h
  · cases hc
  · cases hc

/-- An update that writes a tidy record once it writes. -/
inductive Errand.Tidy : Errand ⊕ Reply → Prop
  | preparing (r : UpdateRequest) : Tidy (.inl (.updating (.preparing r)))
  | writing (name : Name) {w : Write} (h : w.record.Tidy) :
      Tidy (.inl (.updating (.writing name w)))
  | adopting (name : Name) (version : Option String) :
      Tidy (.inl (.updating (.adopting name version)))
  | ended (result : Except VersionError Unit) : Tidy (.inr (.updated result))

theorem Errand.Tidy.step {e : Errand} (h : Tidy (.inl e)) (now : Time) (x : Site) :
    Tidy (e.step now x).2 ∧ ∀ c, e.call? x.manager = some c → c.Tidy := by
  cases h with
  | preparing r =>
    have hcall : call? x.manager (.updating (.preparing r)) = none := rfl
    refine ⟨?_, fun c hc => by cases hcall.symm.trans hc⟩
    rw [step_updating]
    have hb := UpdateStage.step_preparing now x r
    generalize UpdateStage.step now x (.preparing r) = z at hb ⊢
    cases hb with
    | refused _ => exact .ended _
    | idle _ => exact .ended _
    | changed hp => exact .writing _ (VersionManager.tidy_of_prepare hp)
  | @writing name w hw =>
    refine ⟨?_, fun c hc => Write.tidy_call hw hc⟩
    rw [step_updating]
    have hs := UpdateStage.step_writing now x name w
    generalize UpdateStage.step now x (.writing name w) = z at hs ⊢
    cases hs with
    | on _ _ hrecord => exact .writing name (hrecord ▸ hw)
    | failed _ _ => exact .ended _
    | saved _ _ => exact .adopting name _
  | adopting name version =>
    have hcall : call? x.manager (.updating (.adopting name version)) = none := rfl
    exact ⟨.ended _, fun c hc => by cases hcall.symm.trans hc⟩

/-- An update and all calls that it has made. -/
structure Matter.Tidy (a : Matter) : Prop where
  stands : Errand.Tidy a.stands
  calls : ∀ c ∈ a.calls, c.Tidy

theorem Matter.Tidy.step {e : Errand} {calls : List Call} (h : Tidy ⟨.inl e, calls⟩) (now : Time)
    (x : Site) : (Matter.step now x e calls).Tidy := by
  obtain ⟨hnext, hcall⟩ := h.stands.step now x
  refine ⟨hnext, ?_⟩
  intro c hc
  rcases List.mem_append.mp hc with hc | hc
  · exact hcall c (Option.mem_toList.mp hc)
  · exact h.calls c hc

theorem Docket.tidy_run {s : Docket} {i : Nat} {r : UpdateRequest}
    (hi : s.matters[i]? = some ⟨.inl (.updating (.preparing r)), []⟩) {events : List DocketEvent}
    {a : Matter} (ha : (s.run events).matters[i]? = some a) : a.Tidy := by
  obtain ⟨b, hb, htidy⟩ := matters_run (P := Matter.Tidy) (fun now x e calls h => h.step now x) hi
    ⟨.preparing r, fun c hc => by cases hc⟩ events
  rw [ha] at hb
  cases hb
  exact htidy

/-- With its first step an update leaves all as it is or caches a tidy record. -/
theorem Docket.tidy_cached {s : Docket} {i : Nat} {r : UpdateRequest}
    (hi : s.matters[i]? = some ⟨.inl (.updating (.preparing r)), []⟩) (now : Time) :
    (s.step (.go i now)).site = s.site ∨ ∃ record,
      (s.step (.go i now)).site.cached? (s.site.key r) = some record ∧ record.Tidy := by
  cases Docket.opened hi now with
  | refused _ hsite _ => exact Or.inl hsite
  | idle _ hsite _ => exact Or.inl hsite
  | @changed record _ hp hsite _ =>
    refine Or.inr ⟨record, ?_, VersionManager.tidy_of_prepare hp⟩
    rw [hsite]
    exact (VersionManager.find?_cache _ _ _).trans (if_pos rfl)

/-- Whatever is cached and stored, and whatever else goes on: each status that an update caches or
writes names its clusters in strictly ascending order and none without a version. The map of a
status made of a map is that map without its empty versions, and a status with such a list has the
list that its map makes. -/
theorem canonical_lists :
    (∀ (s : Docket) (i : Nat) (r : UpdateRequest),
      s.matters[i]? = some ⟨.inl (.updating (.preparing r)), []⟩ →
      (∀ now, (s.step (.go i now)).site = s.site ∨ ∃ record status,
        (s.step (.go i now)).site.cached? (s.site.key r) = some record ∧
          RecordType.status? record = some status ∧ Canonical status.clusters) ∧
      ∀ events a, (s.run events).matters[i]? = some a → ∀ c ∈ a.calls,
        (∃ name, c = .get name) ∨ ∃ record status, (c = .create record ∨ c = .updateStatus record) ∧
          RecordType.status? record = some status ∧ Canonical status.clusters) ∧
    (∀ (template override : String) (m : VersionMap),
      (VersionStatus.of template override (VersionStatus.clustersOf m)).versionMap.entries =
        m.entries.filter fun e => e.2 ≠ "") ∧
    ∀ s : VersionStatus, Canonical s.clusters →
      VersionStatus.clustersOf s.versionMap = s.clusters := by
  refine ⟨fun s i r hi => ⟨?_, ?_⟩, VersionStatus.entries_versionMap_of_clustersOf,
    fun s => VersionStatus.clustersOf_versionMap⟩
  · intro now
    rcases Docket.tidy_cached hi now with hsite | ⟨record, hcached, status, hstatus, hlist⟩
    · exact Or.inl hsite
    · exact Or.inr ⟨record, status, hcached, hstatus, hlist⟩
  · intro events a ha c hc
    cases (Docket.tidy_run hi ha).calls c hc with
    | get name => exact Or.inl ⟨name, rfl⟩
    | @create record h =>
      obtain ⟨status, hstatus, hlist⟩ := h
      exact Or.inr ⟨record, status, Or.inl rfl, hstatus, hlist⟩
    | @updateStatus record h =>
      obtain ⟨status, hstatus, hlist⟩ := h
      exact Or.inr ⟨record, status, Or.inr rfl, hstatus, hlist⟩

namespace Sample

/-- Three versions are to be recorded, one of them unknown. -/
def threefold : UpdateRequest :=
  ⟨resource, ["c1"], Table.ofList [("c2", "2"), ("c3", ""), ("c1", "1")]⟩

def recording : Docket := ⟨synced, [⟨.inl (.updating (.preparing threefold)), []⟩]⟩

end Sample

/-- The record is made, created and given its status. -/
theorem canonical_lists_sample :
    Sample.recording.matters[0]? = some ⟨.inl (.updating (.preparing Sample.threefold)), []⟩ ∧
    ∃ a record status, (Sample.recording.run (List.replicate 3 (.go 0 0))).matters[0]? = some a ∧
      .updateStatus record ∈ a.calls ∧ RecordType.status? record = some status ∧
      Canonical status.clusters := by
  have hi : Sample.recording.matters[0]? =
      some ⟨.inl (.updating (.preparing Sample.threefold)), []⟩ := rfl
  have hrun : ∃ stands record c, (Sample.recording.run (List.replicate 3 (.go 0 0))).matters[0]? =
      some ⟨stands, [.updateStatus record, c]⟩ := ⟨_, _, _, rfl⟩
  obtain ⟨stands, record, c, ha⟩ := hrun
  have hmem : Call.updateStatus record ∈ [.updateStatus record, c] := List.mem_cons_self
  rcases (canonical_lists.1 _ _ _ hi).2 _ _ ha _ hmem with ⟨name, hget⟩ | ⟨o, status, hc, hs⟩
  · cases hget
  · rcases hc with hc | hc
    · cases hc
    · cases hc
      exact ⟨hi, _, record, status, ha, hmem, hs⟩

end FedTrack
