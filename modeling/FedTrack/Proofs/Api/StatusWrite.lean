import FedTrack.Api.Client
import FedTrack.Json.Printer
import FedTrack.Proofs.Json.MergePatch
import FedTrack.Proofs.Store.Faults
import FedTrack.Version.Write

namespace FedTrack

open Json

theorem ClusterVersion.ordered_toJson (c : ClusterVersion) : c.toJson.Ordered := by
  have hnames : Key.lt "clusterName" "version" = true := by decide +kernel
  simp [toJson, ordered_object, Assoc.Sorted, hnames, Ordered]

theorem VersionStatus.ordered_toJson (s : VersionStatus) : s.toJson.Ordered := by
  have hco : Key.lt "clusterVersions" "overrideVersion" = true := by decide +kernel
  have hct : Key.lt "clusterVersions" "templateVersion" = true := by decide +kernel
  have hot : Key.lt "overrideVersion" "templateVersion" = true := by decide +kernel
  have hclusters : itemsOrdered (s.clusters.map (·.toJson)) := by
    induction s.clusters with
    | nil => trivial
    | cons c rest ih => exact ⟨c.ordered_toJson, ih⟩
  simp [toJson, ordered_object, Assoc.Sorted, hco, hct, hot, hclusters, Ordered]

/-- Whatever a status is merged into reads as this status: all of its fields are written, none of
them as null, and the cluster versions are not merged one by one. -/
theorem VersionStatus.ofJson?_of_patched {t : Option Json} {s : VersionStatus} {r : Json}
    (h : Patched t s.toJson r) : ofJson? r = some s := by
  obtain ⟨m, rfl⟩ := h.exists_members
  have htemplate : Assoc.find? m "templateVersion" = some (.string s.template) :=
    h.member?_plain rfl nofun rfl
  have hoverride : Assoc.find? m "overrideVersion" = some (.string s.override) :=
    h.member?_plain rfl nofun rfl
  have hclusters : Assoc.find? m "clusterVersions" = some (.array (s.clusters.map (·.toJson))) :=
    h.member?_plain rfl nofun rfl
  have hread : listOf ClusterVersion.ofJson? (.array (s.clusters.map (·.toJson))) =
      some s.clusters :=
    listOf_map fun c _ => c.ofJson?_toJson
  simp [ofJson?, record, memberOr, htemplate, hoverride, hclusters, string?, hread]

namespace Metadata

/-- Apart from the version, metadata is read from the other members. -/
theorem ofJson?_of_members {m m' : Members} {md : Metadata} {version : Option String}
    (hread : ofJson? (.object m) = some md)
    (hsame : ∀ name, name ≠ "resourceVersion" → Assoc.find? m' name = Assoc.find? m name)
    (hversion : optionalMember string? m' "resourceVersion" = some version) :
    ofJson? (.object m') = some { md with resourceVersion := version } := by
  have hfield {α : Type} (read : Json → Option α) {name : String} (hn : name ≠ "resourceVersion") :
      optionalMember read m' name = optionalMember read m name := by
    simp only [optionalMember, hsame name hn]
  simp only [ofJson?, members?, Option.bind_eq_bind, Option.bind_some, Option.bind_eq_some_iff]
    at hread
  obtain ⟨a, ha, b, hb, c, hc, d, hd, e, -, f, hf, g, hg, k, hk, l, hl, hmd⟩ := hread
  cases hmd
  simp only [ofJson?, members?, Option.bind_eq_bind, Option.bind_some]
  rw [hfield _ (by decide), ha, hfield _ (by decide), hb, hfield _ (by decide), hc,
    hfield _ (by decide), hd, hversion, hfield _ (by decide), hf, hfield _ (by decide), hg,
    hfield _ (by decide), hk, hfield _ (by decide), hl]
  rfl

/-- The member of a patch that sets a version, or removes it. -/
def versionPatch (version : Option String) : Json :=
  .object [("resourceVersion", match version with
    | some v => .string v
    | none => .null)]

/-- Metadata that is not there counts as empty. -/
theorem ofJson?_of_patched {old : Option Json} {md : Metadata} {version : Option String} {r : Json}
    (hread : old.elim (some .empty) ofJson? = some md)
    (h : Patched old (versionPatch version) r) :
    ofJson? r = some { md with resourceVersion := version } := by
  obtain ⟨m', rfl⟩ := h.exists_members
  have hold : ∃ m, ofJson? (.object m) = some md ∧
      ∀ name, Assoc.find? m name = old.bind (·.member? name) := by
    cases old with
    | none =>
      cases hread
      exact ⟨[], rfl, fun _ => rfl⟩
    | some j =>
      cases j with
      | object m => exact ⟨m, hread, fun _ => rfl⟩
      | _ => cases hread
  obtain ⟨m, hm, hfind⟩ := hold
  refine ofJson?_of_members hm ?_ ?_
  · intro name hn
    have hother : Assoc.find? [("resourceVersion", match version with
        | some v => Json.string v
        | none => .null)] name = none := by
      simp [Assoc.find?, hn.symm]
    rw [hfind]
    exact h.member?_untouched hother
  · cases version with
    | none =>
      have hgone : Assoc.find? m' "resourceVersion" = none := h.member?_removed rfl
      simp only [optionalMember, hgone]
    | some v =>
      have hset : Assoc.find? m' "resourceVersion" = some (.string v) :=
        h.member?_plain rfl (by simp) rfl
      rw [optionalMember, hset]
      rfl

end Metadata

namespace Object

/-- What an object says of its type depends on two members only, and these are the ones that are
taken away. -/
theorem splitTypes_congr {m m' : Members}
    (hv : Assoc.find? m' "apiVersion" = Assoc.find? m "apiVersion")
    (hk : Assoc.find? m' "kind" = Assoc.find? m "kind") :
    (splitTypes m').1 = (splitTypes m).1 ∧
      ∀ name, Assoc.find? m' name = Assoc.find? m name →
        Assoc.find? (splitTypes m').2 name = Assoc.find? (splitTypes m).2 name := by
  unfold splitTypes
  rw [hv, hk]
  split
  · exact ⟨rfl, fun name h => Assoc.find?_erase_congr (Assoc.find?_erase_congr h)⟩
  · exact ⟨rfl, fun name h => Assoc.find?_erase_congr (Assoc.find?_erase_congr h)⟩
  · exact ⟨rfl, fun name h => Assoc.find?_erase_congr (Assoc.find?_erase_congr h)⟩
  · exact ⟨rfl, fun name h => Assoc.find?_erase_congr h⟩

theorem find?_splitTypes {m : Members} {name : String} (hv : name ≠ "apiVersion")
    (hk : name ≠ "kind") : Assoc.find? (splitTypes m).2 name = Assoc.find? m name := by
  unfold splitTypes
  split
  · simp only [Assoc.find?_erase, if_neg hv.symm, if_neg hk.symm]
  · simp only [Assoc.find?_erase, if_neg hv.symm, if_neg hk.symm]
  · simp only [Assoc.find?_erase, if_neg hv.symm, if_neg hk.symm]
  · simp only [Assoc.find?_erase, if_neg hv.symm]

theorem ofWire?_eq_some {d : Json} {o : Object} (h : ofWire? d = some o) :
    ∃ m, d = .object m ∧
      (d.member? "metadata").elim (some .empty) Metadata.ofJson? = some o.metadata ∧
      o.types = (splitTypes (Assoc.erase m "metadata")).1 ∧
      o.data = .object (splitTypes (Assoc.erase m "metadata")).2 := by
  simp only [ofWire?, Option.bind_eq_bind, Option.bind_eq_some_iff] at h
  obtain ⟨m, hm, md, hmd, ho⟩ := h
  cases ho
  have hd : d = .object m := by
    cases d <;> cases hm
    rfl
  subst hd
  refine ⟨m, rfl, ?_, rfl, rfl⟩
  rw [← hmd, memberOr, member?]
  cases Assoc.find? m "metadata" <;> rfl

theorem ofWire?_object {m : Members} {j : Json} {md : Metadata}
    (h : Assoc.find? m "metadata" = some j) (hj : Metadata.ofJson? j = some md) :
    ofWire? (.object m) = some ⟨(splitTypes (Assoc.erase m "metadata")).1, md,
      .object (splitTypes (Assoc.erase m "metadata")).2⟩ := by
  simp [ofWire?, members?, memberOr, h, hj]

end Object

/-- The body of the request of a status update is its patch. -/
theorem ApiClient.body_updateStatus {o : Object} {resource : Resource} {request : Request}
    (h : ApiClient.ofCall resource (.updateStatus o) = .ok request) :
    request.body = some (.mergePatch, ApiClient.statusPatch o) := by
  simp only [ofCall, bind, Except.bind] at h
  split at h
  · cases h
  · split at h
    · cases h
    · unfold ApiClient.request at h
      split at h
      · cases h
        rfl
      · cases h

namespace RecordType

/-- The data of a record has a status as it is written. -/
def Carries (o : Object) (s : VersionStatus) : Prop := o.data.member? "status" = some s.toJson

/-- A record has got a status, and nothing else about its type and data has changed. -/
structure StatusSet (s : VersionStatus) (before after : Object) : Prop where
  status : status? after = some s
  types : after.types = before.types
  data : ∀ name, name ≠ "status" → after.data.member? name = before.data.member? name

theorem carries_setStatus (o : Object) (s : VersionStatus) : Carries (setStatus o s) s := by
  simp [Carries, setStatus]

theorem carries_newRecord (r : RecordType) (name : Name) (owner : OwnerReference)
    (s : VersionStatus) : Carries (r.newRecord name owner s) s := by
  simp [Carries, newRecord, member?, Assoc.find?]

variable {o : Object} {s : VersionStatus}

theorem statusPatch_eq (ho : Carries o s) :
    ApiClient.statusPatch o = .object [
      ("metadata", Metadata.versionPatch o.metadata.resourceVersion), ("status", s.toJson)] := by
  rw [ApiClient.statusPatch, ho]
  rfl

theorem ordered_statusPatch (ho : Carries o s) : (ApiClient.statusPatch o).Ordered := by
  have hnames : Key.lt "metadata" "status" = true := by decide +kernel
  rw [statusPatch_eq ho, ordered_object]
  simp only [Assoc.Sorted, List.forall_mem_cons]
  refine ⟨⟨⟨hnames, List.forall_mem_nil _⟩, List.forall_mem_nil _, trivial⟩, ?_, s.ordered_toJson,
    List.forall_mem_nil _⟩
  cases o.metadata.resourceVersion <;>
    simp [Metadata.versionPatch, ordered_object, Assoc.Sorted, Ordered]

/-- Merged into any document, the patch sets the status and leaves all members but the metadata. -/
theorem status?_of_patched {d d' : Json} (ho : Carries o s)
    (h : Patched (some d) (ApiClient.statusPatch o) d') :
    (∀ types md, status? ⟨types, md, d'⟩ = some s) ∧
      ∀ name, name ≠ "status" → name ≠ "metadata" → d'.member? name = d.member? name := by
  rw [statusPatch_eq ho] at h
  constructor
  · intro types md
    obtain ⟨r, hr, hwithin⟩ := h.member?_within "status" rfl nofun
    exact status?_of_ofJson? (o := ⟨types, md, d'⟩) hr (VersionStatus.ofJson?_of_patched hwithin)
  · intro name hs hm
    refine h.member?_untouched ?_
    simp [Assoc.find?, hs.symm, hm.symm]

/-- What a server makes of the document of a record reads as a record with the status. -/
theorem ofWire?_of_patched {d d' : Json} {before : Object} (ho : Carries o s)
    (hd : Object.ofWire? d = some before) (h : Patched (some d) (ApiClient.statusPatch o) d') :
    ∃ after, Object.ofWire? d' = some after ∧ StatusSet s before after ∧
      after.metadata = { before.metadata with resourceVersion := o.metadata.resourceVersion } := by
  obtain ⟨m, rfl, hmd, htypes, hdata⟩ := Object.ofWire?_eq_some hd
  have hsame := (status?_of_patched ho h).2
  rw [statusPatch_eq ho] at h
  obtain ⟨m', rfl⟩ := h.exists_members
  obtain ⟨j, hj, hmeta⟩ := h.member?_within "metadata" rfl nofun
  have hread := Metadata.ofJson?_of_patched hmd hmeta
  obtain ⟨r, hr, hstatus⟩ := h.member?_within "status" rfl nofun
  have hrest : ∀ name, name ≠ "status" →
      Assoc.find? (Assoc.erase m' "metadata") name =
        Assoc.find? (Assoc.erase m "metadata") name := by
    intro name hn
    rw [Assoc.find?_erase, Assoc.find?_erase]
    split
    · rfl
    · rename_i hm
      exact hsame name hn (Ne.symm hm)
  obtain ⟨hsplit, hcontent⟩ :=
    Object.splitTypes_congr (hrest "apiVersion" (by decide)) (hrest "kind" (by decide))
  refine ⟨_, Object.ofWire?_object hj hread, ⟨?_, ?_, ?_⟩, rfl⟩
  · refine status?_of_ofJson? (j := r) ?_ (VersionStatus.ofJson?_of_patched hstatus)
    refine (Object.find?_splitTypes (by decide) (by decide)).trans ?_
    rw [Assoc.find?_erase, if_neg (by decide)]
    exact hr
  · rw [htypes]
    exact hsplit
  · intro name hn
    rw [hdata]
    exact hcontent name (hrest name hn)

/-- The store in memory replaces the status. -/
theorem statusSet_withStatus {before : Object} (ho : Carries o s) (version : Option String) :
    StatusSet s before ((MemoryStore.withStatus before o).setResourceVersion version) where
  status := (MemoryStore.status?_withStatus before o).trans (status?_of_member ho)
  types := rfl
  data name hn := by
    simp [MemoryStore.withStatus, Object.setResourceVersion, hn.symm]

/-- Each update of a status that a write asks for carries the status of its record. -/
theorem carries_of_write {w : Write} (hw : Carries w.record s) {name : Name}
    (h : w.call? name = some (.updateStatus o)) : Carries o s := by
  unfold Write.call? at h
  split at h
  · cases h
  · cases h
  · cases h
    exact hw
  · cases h
  · cases h

end RecordType

namespace MemoryStore

theorem checkVersion_eq_none {stored incoming : Object}
    (h : ∀ v, incoming.resourceVersion = some v → stored.metadata.resourceVersion = some v) :
    checkVersion stored incoming = none := by
  unfold checkVersion
  split
  · rfl
  · rename_i v hv
    rw [if_pos (h v hv)]

/-- A status update that meets no fault is refused for its version only. -/
theorem perform_updateStatus_of_version {s : MemoryStore} {kind : Kind} {o before : Object}
    (hf : s.find? kind o.name = some before) (hnone : ∀ e ∈ s.faults, e.1 ≠ .updateStatus)
    (hversion : ∀ v, o.resourceVersion = some v → before.metadata.resourceVersion = some v) :
    ∃ a, (s.perform kind (.updateStatus o)).2 = .ok a := by
  have hstored : ({ s with attempts := s.attempts.bump .updateStatus } : MemoryStore).find? kind
      o.name = some before := hf
  rw [perform_through kind hnone]
  simp only [Call.operation, commit, hstored, checkVersion_eq_none hversion]
  exact ⟨_, rfl⟩

end MemoryStore

namespace RecordType

/-- Whether a status goes to a server, which merges the patch that it is sent in, or to the store
in memory, which replaces the old one, the record has this status then and keeps all its other
data. The old status may be of any shape. -/
theorem status_writes_agree :
    (∀ (o : Object) (s : VersionStatus), Carries (setStatus o s) s) ∧
    (∀ (r : RecordType) (name : Name) (owner : OwnerReference) (s : VersionStatus),
      Carries (r.newRecord name owner s) s) ∧
    (∀ (w : Write) (name : Name) (o : Object) (s : VersionStatus), Carries w.record s →
      w.call? name = some (.updateStatus o) → Carries o s) ∧
    ∀ (o : Object) (s : VersionStatus), Carries o s →
      (∀ resource request, ApiClient.ofCall resource (.updateStatus o) = .ok request →
        request.body = some (.mergePatch, ApiClient.statusPatch o)) ∧
      (∀ d, Patched (some d) (ApiClient.statusPatch o) (d.mergePatch (ApiClient.statusPatch o))) ∧
      (∀ d d', Patched (some d) (ApiClient.statusPatch o) d' →
        (∀ types metadata, status? ⟨types, metadata, d'⟩ = some s) ∧
        ∀ name, name ≠ "status" → name ≠ "metadata" → d'.member? name = d.member? name) ∧
      (∀ d d' before response, Object.ofWire? d = some before →
        Patched (some d) (ApiClient.statusPatch o) d' →
        response.isRefusal = false → response.json? = some d' →
        ∃ after, ApiClient.answer (.updateStatus o) response = .ok (.stored after) ∧
          StatusSet s before after ∧
          after.metadata = { before.metadata with resourceVersion := o.metadata.resourceVersion }) ∧
      ∀ (store : MemoryStore) (kind : Kind) (before : Object),
        store.find? kind o.name = some before →
        let z := store.perform kind (.updateStatus o)
        (∀ a, z.2 = .ok a → ∃ after, a = .stored after ∧ z.1.find? kind o.name = some after ∧
          StatusSet s before after ∧
          after.metadata =
            { before.metadata with resourceVersion := after.metadata.resourceVersion }) ∧
        ((∀ e ∈ store.faults, e.1 ≠ .updateStatus) →
          (∀ v, o.resourceVersion = some v → before.metadata.resourceVersion = some v) →
          ∃ a, z.2 = .ok a) := by
  refine ⟨carries_setStatus, carries_newRecord, fun w name o s hw => carries_of_write hw, ?_⟩
  intro o s ho
  refine ⟨fun _ _ => ApiClient.body_updateStatus,
    fun d => patched_mergePatch _ (ordered_statusPatch ho) d,
    fun _ _ => status?_of_patched ho, ?_, ?_⟩
  · intro d d' before response hd h hok hjson
    obtain ⟨after, hafter, hset, hmetadata⟩ := ofWire?_of_patched ho hd h
    refine ⟨after, ?_, hset, hmetadata⟩
    simp [ApiClient.answer, Response.decode, hok, hjson, hafter, Except.map]
  · intro store kind before hf z
    refine ⟨?_, MemoryStore.perform_updateStatus_of_version hf⟩
    intro a ha
    obtain ⟨stored, n, hstored, -, rfl, hfind⟩ := MemoryStore.perform_updateStatus_ok ha
    cases hf.symm.trans hstored
    exact ⟨_, rfl, (hfind kind o.name).trans (if_pos ⟨rfl, rfl⟩), statusSet_withStatus ho _, rfl⟩

/-- What a server keeps of an old status of another shape is not read. -/
theorem status_writes_agree_sample :
    let kind : Kind := ⟨"core.kubefed.io", "v1alpha1", "PropagatedVersion"⟩
    let before : Object := ⟨none, { Metadata.empty with name := some "a" },
      .object [("status", .object [("clusterVersions", .bool true), ("more", .null)])]⟩
    let s : VersionStatus := ⟨"t", "", [⟨"b", "1"⟩]⟩
    let o := setStatus before s
    let d := before.data.setMember "metadata" before.metadata.toJson
    let d' := d.mergePatch (ApiClient.statusPatch o)
    let response : Response := ⟨200, d'.text⟩
    let store := (MemoryStore.empty.insert kind before).1
    let stored := (MemoryStore.empty.insert kind before).2
    Object.ofWire? d = some before ∧ response.isRefusal = false ∧ response.json? = some d' ∧
      store.find? kind o.name = some stored ∧
      d'.member? "status" ≠ (MemoryStore.withStatus stored o).data.member? "status" ∧
      (∃ after, ApiClient.answer (.updateStatus o) response = .ok (.stored after) ∧
        status? after = some s) ∧
      ∃ after, (store.perform kind (.updateStatus o)).2 = .ok (.stored after) ∧
        status? after = some s := by
  intro kind before s o d d' response store stored
  have hd : Object.ofWire? d = some before := by decide +kernel
  have hok : response.isRefusal = false := by decide
  have hjson : response.json? = some d' := by decide +kernel
  have hf : store.find? kind o.name = some stored := by decide +kernel
  have hshape : d'.member? "status" ≠ (MemoryStore.withStatus stored o).data.member? "status" := by
    decide +kernel
  obtain ⟨-, hpatched, -, hserver, hstore⟩ :=
    status_writes_agree.2.2.2 o s (status_writes_agree.1 before s)
  obtain ⟨after, hafter, hset, -⟩ := hserver d d' before response hd (hpatched d) hok hjson
  obtain ⟨hmemory, hdone⟩ := hstore store kind stored hf
  obtain ⟨a, ha⟩ := hdone (List.forall_mem_nil _) (by decide +kernel)
  obtain ⟨kept, rfl, -, hkept, -⟩ := hmemory a ha
  exact ⟨hd, hok, hjson, hf, hshape, ⟨after, hafter, hset.status⟩, kept, ha, hkept.status⟩

end RecordType

end FedTrack
