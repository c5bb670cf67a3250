import FedTrack.Proofs.Version.Runs

namespace FedTrack

open MemoryStore

namespace MemoryStore

/-- No object of the whole cluster is in a namespace. -/
theorem not_inScope_of_clusterWide {name : Name} (h : name.isClusterWide = true) (ns : String) :
    inScope (some ns) name = false := by
  have hscope : name.scope = "" := by simpa [Name.isClusterWide] using h
  simp [inScope, Name.scope?, hscope]

end MemoryStore

/-- Records of types that have no namespace are stored as objects of the whole cluster. -/
theorem RecordType.isClusterWide_newRecord {r : RecordType} (h : r.namespaced = false) (name : Name)
    (owner : OwnerReference) (s : VersionStatus) :
    (r.newRecord name owner s).name.isClusterWide = true := by
  rw [RecordType.name_newRecord]
  simp [RecordType.ownName, Name.isClusterWide, h]

/-- What a manager is to know of the stored records: those that belong to its target kind and, where
they have namespaces, lie in the target namespace if one is set. -/
def VersionManager.concerns (m : VersionManager) (key : Name) : Bool :=
  m.owns key && (!m.recordType.namespaced || inScope m.scope key)

/-- The cache holds the stored records that the manager is to know, and no others. -/
def Site.Complete (x : Site) : Prop :=
  ∀ key o, x.cached? key = some o ↔ x.stored? key = some o ∧ x.manager.concerns key = true

namespace SyncRun

variable {x y : Site}

theorem hasSynced (h : SyncRun x y) : y.manager.hasSynced = true := by
  rw [h.syncing.2]
  rfl

theorem concerns (h : SyncRun x y) (key : Name) :
    y.manager.concerns key = x.manager.concerns key := by
  rw [h.syncing.2]
  rfl

/-- What is listed lies in the target namespace whether records have namespaces or not, so that a
cache is complete exactly if they have, or if nothing that the manager is to know lies elsewhere. -/
theorem complete_iff_inScope (h : SyncRun x y) (hf : x.store.Filed)
    (hnew : x.manager.records = .empty) : y.Complete ↔ ∀ key o, y.stored? key = some o →
      x.manager.concerns key = true → inScope x.manager.scope key = true := by
  constructor
  · intro hall key o hstored hconcerns
    have hcached : y.cached? key = some o :=
      (hall key o).mpr ⟨hstored, (h.concerns key).trans hconcerns⟩
    obtain ⟨-, -, hscope⟩ := (h.cached?_iff hf hnew).mp hcached
    exact hscope
  · intro hall key o
    rw [h.cached?_iff hf hnew, h.concerns]
    constructor
    · rintro ⟨hstored, howns, hscope⟩
      refine ⟨hstored, ?_⟩
      simp [VersionManager.concerns, howns, hscope]
    · rintro ⟨hstored, hconcerns⟩
      have howns : x.manager.owns key = true := by
        unfold VersionManager.concerns at hconcerns
        exact (Bool.and_eq_true_iff.mp hconcerns).1
      exact ⟨hstored, howns, hall key o hstored hconcerns⟩

/-- A new manager of a cluster-scoped type with a target namespace finds no record again that one
like it has made. -/
theorem cached?_newRecord (h : SyncRun x y) (hf : x.store.Filed)
    (hnew : x.manager.records = .empty) {ns : String} (hs : x.manager.scope = some ns)
    {r : RecordType} (hr : r.namespaced = false) (name : Name) (owner : OwnerReference)
    (s : VersionStatus) : y.cached? (r.newRecord name owner s).name = none := by
  have hwide := RecordType.isClusterWide_newRecord hr name owner s
  cases hc : y.cached? (r.newRecord name owner s).name with
  | none => rfl
  | some o =>
    obtain ⟨-, -, hscope⟩ := (h.cached?_iff hf hnew).mp hc
    rw [hs, not_inScope_of_clusterWide hwide] at hscope
    cases hscope

end SyncRun

/-- A sync that ends leaves a new manager with the stored records of its target kind that lie in the
target namespace, if one is set. These are all that it is to know if they have namespaces. Records
of cluster-scoped types have none, so that the cache is complete only if no such record is stored or
no target namespace is set. With a target namespace none that a manager has made is found again. -/
theorem sync_complete_iff (namespaced : Bool) (federatedKind targetKind : String)
    (scope : Option String) {store : MemoryStore} (hf : store.Filed) {y : Site}
    (h : SyncRun ⟨.new namespaced federatedKind targetKind scope, store⟩ y) :
    y.manager.hasSynced = true ∧
    (∀ key o, y.cached? key = some o ↔
      y.stored? key = some o ∧ y.manager.owns key = true ∧ inScope scope key = true) ∧
    (y.Complete ↔ namespaced = true ∨ ∀ key o, y.stored? key = some o →
      y.manager.owns key = true → inScope scope key = true) ∧
    (namespaced = false → ∀ ns, scope = some ns → ∀ name owner s,
      y.cached? (y.manager.recordType.newRecord name owner s).name = none) := by
  have howns (key : Name) : y.manager.owns key =
      (VersionManager.new namespaced federatedKind targetKind scope).owns key := by
    rw [h.syncing.2]
    rfl
  refine ⟨h.hasSynced, ?_, ?_, ?_⟩
  · intro key o
    rw [h.cached?_iff hf rfl, howns]
    rfl
  · rw [h.complete_iff_inScope hf rfl]
    cases namespaced with
    | true =>
      refine iff_of_true ?_ (Or.inl rfl)
      intro key o _ hconcerns
      exact (Bool.and_eq_true_iff.mp hconcerns).2
    | false =>
      have hconcerns (key : Name) : (VersionManager.new false federatedKind targetKind scope).concerns
          key = y.manager.owns key := by
        rw [howns]
        exact Bool.and_true _
      simp only [hconcerns, Bool.false_eq_true, false_or]
      rfl
  · rintro rfl ns rfl name owner s
    have htype : y.manager.recordType = ⟨false⟩ := by
      rw [h.syncing.2]
      rfl
    rw [htype]
    exact h.cached?_newRecord hf rfl rfl rfl name owner s

namespace Sample

/-- A record of a cluster-scoped type. -/
def roleRecord : Object :=
  RecordType.newRecord ⟨false⟩ ⟨"", "clusterrole-admin"⟩
    ⟨"types.kubefed.io/v1beta1", "FederatedClusterRole", "admin", "admin-uid", none, none⟩
    (.of "t" "" [⟨"c1", "1"⟩])

def roles : MemoryStore := (MemoryStore.empty.insert (RecordType.resource ⟨false⟩).toKind roleRecord).1

/-- A new manager of the type, confined to a namespace, has synced. -/
def rolesSynced : Site :=
  (Site.course SyncStage.step [.go 0]
    (⟨.new false "FederatedClusterRole" "ClusterRole" (some "apps"), roles⟩, .listing)).1

end Sample

/-- The only record is stored, and missed. -/
theorem sync_complete_iff_sample :
    SyncRun ⟨.new false "FederatedClusterRole" "ClusterRole" (some "apps"), Sample.roles⟩
      Sample.rolesSynced ∧ Sample.rolesSynced.manager.hasSynced = true ∧
      Sample.rolesSynced.manager.records.keys = [] ∧ ¬ Sample.rolesSynced.Complete := by
  have hfiled : Sample.roles.Filed :=
    (MemoryStore.Reached.insert (RecordType.resource ⟨false⟩).toKind Sample.roleRecord .empty).filed
  have hsync : SyncRun ⟨.new false "FederatedClusterRole" "ClusterRole" (some "apps"), Sample.roles⟩
      Sample.rolesSynced := ⟨[.go 0], rfl⟩
  obtain ⟨hsynced, -, hiff, -⟩ := sync_complete_iff false _ _ _ hfiled hsync
  refine ⟨hsync, hsynced, by decide +kernel, ?_⟩
  rw [hiff]
  rintro (hn | hall)
  · cases hn
  · have hstored : (Sample.rolesSynced.stored? ⟨"", "clusterrole-admin"⟩).isSome = true := by
      decide +kernel
    obtain ⟨o, ho⟩ := Option.isSome_iff_exists.mp hstored
    have hscope := hall _ o ho (by decide +kernel)
    exact absurd hscope (by decide)

end FedTrack
