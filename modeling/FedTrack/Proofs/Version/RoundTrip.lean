import FedTrack.Proofs.Api.StatusWrite
import FedTrack.Proofs.Object.Wire

namespace FedTrack

open Json

namespace RecordType

/-- The document of a typed record. -/
def document (r : RecordType) (metadata : Metadata) (s : VersionStatus) : Json :=
  .object [("apiVersion", .string r.resource.apiVersion), ("kind", .string r.kindName),
    ("metadata", metadata.toJson), ("spec", .object []), ("status", s.toJson)]

theorem ofWire?_document (r : RecordType) {metadata : Metadata} (h : metadata.Valid)
    (s : VersionStatus) :
    Object.ofWire? (r.document metadata s) = some ⟨some r.resource.typeInfo, metadata,
      .object [("spec", .object []), ("status", s.toJson)]⟩ := by
  have hfind : Assoc.find? [("apiVersion", Json.string r.resource.apiVersion),
      ("kind", .string r.kindName), ("metadata", metadata.toJson), ("spec", .object []),
      ("status", s.toJson)] "metadata" = some metadata.toJson := by
    simp [Assoc.find?]
  rw [document, Object.ofWire?_object hfind (Metadata.ofJson?_toJson h)]
  rfl

variable (r : RecordType) (name : Name) (owner : OwnerReference) (s : VersionStatus)

theorem valid_newRecord : (r.newRecord name owner s).metadata.Valid where
  generation := nofun
  deletionTimestamp := nofun

theorem scope_newRecord {ns : String} : (r.newRecord name owner s).metadata.scope = some ns ↔
    r.namespaced = true ∧ name.scope ≠ "" ∧ ns = name.scope := by
  by_cases hr : r.namespaced = true
  · by_cases hn : name.scope = ""
    · simp [newRecord, Name.scope?, hr, hn]
    · simp only [newRecord, Name.scope?, hr, hn, if_true, if_false, Option.some.injEq, ne_eq,
        not_false_eq_true, true_and]
      exact eq_comm
  · simp [newRecord, hr]

theorem statusSet_setStatus (o : Object) : StatusSet s o (setStatus o s) where
  status := status?_setStatus o s
  types := rfl
  data n hn := by simp [setStatus, hn.symm]

end RecordType

namespace MemoryStore

/-- A call to create an object that meets no fault succeeds if the name is free. -/
theorem perform_create_free {s : MemoryStore} {kind : Kind} {o : Object}
    (hf : s.find? kind o.name = none) (hnone : ∀ e ∈ s.faults, e.1 ≠ .create) :
    ∃ a, (s.perform kind (.create o)).2 = .ok a := by
  have hfree : ({ s with attempts := s.attempts.bump .create } : MemoryStore).find? kind
      o.name = none := hf
  rw [perform_through kind hnone]
  simp only [Call.operation, commit, hfree]
  exact ⟨_, rfl⟩

/-- Whoever reads an object and gets an answer finds what is stored. -/
theorem perform_get_ok {s : MemoryStore} {kind : Kind} {name : Name} {a : Answer}
    (h : (s.perform kind (.get name)).2 = .ok a) : a = .found (s.find? kind name) := by
  rcases s.perform_cases kind (.get name) with ⟨⟨e, he⟩, -⟩ | ⟨t, ho, ht⟩
  · cases he.symm.trans h
  · rw [ht] at h
    cases h
    rw [← find?_congr ho]

/-- An object that gets back the status it was created without is as it was made. -/
theorem Stamped.restored {o created incoming : Object} {version : Option String}
    (h : Stamped { o with data := o.data.dropMember "status" } created)
    (hdata : (withStatus created incoming).data = o.data) :
    Stamped o ((withStatus created incoming).setResourceVersion version) where
  types := h.types
  metadata := congrArg (fun m => { m with resourceVersion := version }) h.metadata
  data := hdata

variable {store : MemoryStore} {kind : Kind} {r : RecordType} {name : Name}
  {owner : OwnerReference} {s : VersionStatus}

/-- Of the data of a new record a store leaves out what an update of its status puts back. -/
theorem data_withStatus_newRecord {o created : Object} (ho : o = r.newRecord name owner s)
    (h : created.data = o.data.dropMember "status") (version : Option String) :
    (withStatus created (o.setResourceVersion version)).data = o.data := by
  have hstatus : (o.setResourceVersion version).data.member? "status" = some s.toJson :=
    ho ▸ RecordType.carries_newRecord r name owner s
  have hdata : o.data = .object [("spec", .object []), ("status", s.toJson)] := by
    rw [ho]
    rfl
  have hinsert : Assoc.insert [("spec", Json.object [])] "status" s.toJson =
      [("spec", .object []), ("status", s.toJson)] := by
    have hbefore : Key.lt "status" "spec" = false := by decide +kernel
    simp [Assoc.insert, hbefore]
  have hdrop : o.data.dropMember "status" = .object [("spec", .object [])] := by
    simp [hdata, dropMember, Assoc.erase]
  simp only [withStatus, hstatus, h, hdrop, Option.getD_some, setMember, hinsert]
  exact hdata.symm

/-- A new record that is created and then gets its status is stored as it was made. -/
theorem stamped_updateStatus_newRecord {o : Object} {version : Option String} {a b : Answer}
    (ho : o = r.newRecord name owner s)
    (ha : (store.perform kind (.create o)).2 = .ok a)
    (hb : ((store.perform kind (.create o)).1.perform kind
      (.updateStatus (o.setResourceVersion version))).2 = .ok b) :
    ∃ p, b = .stored p ∧ Stamped o p ∧ ((store.perform kind (.create o)).1.perform kind
      (.updateStatus (o.setResourceVersion version))).1.find? kind o.name = some p := by
  obtain ⟨created, -, hcreated, -, hfind⟩ := perform_create_stamped ha
  obtain ⟨stored, n, hstored, -, rfl, hupdated⟩ := perform_updateStatus_ok hb
  rw [Object.name_setResourceVersion] at hstored hupdated
  rw [hfind, if_pos ⟨rfl, rfl⟩] at hstored
  cases hstored
  have hdata := data_withStatus_newRecord ho hcreated.data version
  exact ⟨_, rfl, hcreated.restored hdata, (hupdated kind _).trans (if_pos ⟨rfl, rfl⟩)⟩

end MemoryStore

namespace RecordType

/-- A version record says what it was made to say: its document reads as an object of the record
kind with the name, the one owner and, of a namespaced type, the namespace, and its status is read
back. So is a status that is set on any object, which keeps its type, its metadata and all its
other data. A store takes a new record without its status; after an update of the status whoever
reads the record finds it as it was made. -/
theorem records_read_back :
    (∀ (r : RecordType) (name : Name) (owner : OwnerReference) (s : VersionStatus),
      let o := r.newRecord name owner s
      Object.ofWire? (r.document o.metadata s) = some o ∧
      status? o = some s ∧ o.types = some ⟨r.resource.apiVersion, r.kindName⟩ ∧
      o.metadata.name = some name.name ∧ o.metadata.ownerReferences = some [owner] ∧
      (∀ ns, o.metadata.scope = some ns ↔
        r.namespaced = true ∧ name.scope ≠ "" ∧ ns = name.scope) ∧
      ∀ (store : MemoryStore) (kind : Kind) (version : Option String),
        let created := store.perform kind (.create o)
        let updated := created.1.perform kind (.updateStatus (o.setResourceVersion version))
        (∀ a b, created.2 = .ok a → updated.2 = .ok b →
          ∃ p, updated.1.find? kind o.name = some p ∧ MemoryStore.Stamped o p ∧
            status? p = some s ∧
            ∀ c, (updated.1.perform kind (.get o.name)).2 = .ok c → c = .found (some p)) ∧
        (store.find? kind o.name = none →
          (∀ e ∈ store.faults, e.1 ≠ .create ∧ e.1 ≠ .updateStatus) →
          ∃ p, created.2 = .ok (.stored p) ∧ status? p = some .empty ∧
            (version = none ∨ version = p.resourceVersion → ∃ b, updated.2 = .ok b))) ∧
    ∀ (o : Object) (s : VersionStatus),
      StatusSet s o (setStatus o s) ∧ (setStatus o s).metadata = o.metadata := by
  refine ⟨?_, fun o s => ⟨statusSet_setStatus s o, rfl⟩⟩
  intro r name owner s o
  refine ⟨ofWire?_document r (valid_newRecord r name owner s) s, status?_newRecord r name owner s,
    rfl, rfl, rfl, fun _ => scope_newRecord r name owner s, ?_⟩
  intro store kind version created updated
  constructor
  · intro a b ha hb
    obtain ⟨p, -, hp, hfind⟩ := MemoryStore.stamped_updateStatus_newRecord rfl ha hb
    have hstatus : status? p = some s :=
      (status?_congr (congrArg (·.member? "status") hp.data)).trans
        (status?_newRecord r name owner s)
    refine ⟨p, hfind, hp, hstatus, ?_⟩
    intro c hc
    rw [MemoryStore.perform_get_ok hc]
    exact congrArg Answer.found hfind
  · intro hfree hnone
    obtain ⟨a, ha⟩ := MemoryStore.perform_create_free hfree fun e he => (hnone e he).1
    obtain ⟨p, rfl, hp, -, hfind⟩ := MemoryStore.perform_create_stamped ha
    have hstatus : p.data.member? "status" = none := by
      rw [hp.data]
      simp
    refine ⟨p, ha, status?_without hstatus, fun hversion => ?_⟩
    have hserved := (MemoryStore.served_perform store kind (.create o)).faultless fun e he =>
      (hnone e he).1
    refine MemoryStore.perform_updateStatus_of_version
      ((hfind kind o.name).trans (if_pos ⟨rfl, rfl⟩)) ?_ ?_
    · rw [hserved]
      exact fun e he => (hnone e he).2
    · intro v hv
      rcases hversion with rfl | rfl
      · cases hv
      · exact (Option.filter_eq_some_iff.mp (Option.filter_eq_some_iff.mp hv).1).1

/-- A record of a namespaced type, created and updated in an empty store. -/
theorem records_read_back_sample :
    let r : RecordType := ⟨true⟩
    let kind : Kind := ⟨"core.kubefed.io", "v1alpha1", "PropagatedVersion"⟩
    let owner : OwnerReference :=
      ⟨"types.kubefed.io/v1beta1", "FederatedDeployment", "web", "uid-1", some true, none⟩
    let s : VersionStatus := ⟨"t", "o", [⟨"c1", "7"⟩, ⟨"c1", "8"⟩]⟩
    let o := r.newRecord ⟨"apps", "deployment-web"⟩ owner s
    let created := MemoryStore.empty.perform kind (.create o)
    let updated := created.1.perform kind (.updateStatus o)
    o.metadata.scope = some "apps" ∧
    (∃ p, created.2 = .ok (.stored p) ∧ status? p = some .empty) ∧
    ∃ p, (updated.1.perform kind (.get ⟨"apps", "deployment-web"⟩)).2 = .ok (.found (some p)) ∧
      p.metadata.ownerReferences = some [owner] ∧ status? p = some s := by
  intro r kind owner s o created updated
  obtain ⟨-, -, -, -, howners, hscope, hstore⟩ :=
    records_read_back.1 r ⟨"apps", "deployment-web"⟩ owner s
  obtain ⟨hread, hdone⟩ := hstore .empty kind none
  obtain ⟨c, hc, hempty, hupdate⟩ := hdone rfl (List.forall_mem_nil _)
  obtain ⟨b, hb⟩ := hupdate (Or.inl rfl)
  obtain ⟨p, hfind, hp, hstatus, -⟩ := hread _ b hc hb
  refine ⟨(hscope "apps").mpr ⟨rfl, by decide, rfl⟩, ⟨c, hc, hempty⟩, p, ?_, ?_, hstatus⟩
  · have hfaults : updated.1.faults = [] :=
      MemoryStore.faults_perform (MemoryStore.faults_perform rfl kind _) kind _
    rw [MemoryStore.perform_faultless hfaults]
    exact congrArg (fun found => Except.ok (Answer.found found)) hfind
  · exact (congrArg (·.ownerReferences) hp.metadata).trans howners

end RecordType

end FedTrack
